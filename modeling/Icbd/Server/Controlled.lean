/-
# Icbd.Server.Controlled — a controlled group has somebody to grant speech.

Moderators go in many ways: they relinquish, sign off, idle, are carried away, or do not come back in
time. A moderator who relinquishes makes his group public. In every other case a successor is looked
for among the members who are logged in, or the group waits. That one is always found rests on the
agreement of the two tables: a group that has a moderator has a name, and a group that has a name has a
member. So it fails with the agreement, for a group whose only member was the automatic user.
-/
import Icbd.Server.Admission
import Icbd.Server.Leftover
import Icbd.Server.Tables

-- every bind doubles the size of the search's argument
set_option synthInstance.maxSize 1000000000000000000000000000000000000000000000000
set_option synthInstance.maxHeartbeats 200000

namespace Icbd.Server

open Icbd.Lib

section
variable [Env]

/-! ## §1 — groups with a voice -/

/-- A group has a moderator, or waits for one. -/
def Group.led (g : Group) : Prop := 0 ≤ g.mod ∨ 0 < g.modtimeout

/-- Controlled groups are led. Whoever is in a group is logged in, save perhaps `x`. -/
structure VoicedBut (x : Int) (u : Int → Bytes × Login) (g : Int → Group) : Prop where
  present : ∀ j ∈ slots Env.maxUsers, j ≠ x → (u j).1 ≠ [] → (u j).2 = .complete
  mods : ∀ i ∈ slots maxGroups, -1 ≤ (g i).mod
  voiced : ∀ i ∈ slots maxGroups, (g i).control = .controlled → (g i).led

/-- Everybody in a group is logged in: slot -1 is nobody's. -/
abbrev Voiced : (Int → Bytes × Login) → (Int → Group) → Prop := VoicedBut (-1)

section
variable {x i n : Int} {u : Int → Bytes × Login} {g : Int → Group} {g' : Group}

theorem VoicedBut.write {e : Group} (h : VoicedBut x u g) (hmod : i ∈ slots maxGroups → -1 ≤ e.mod)
    (hled : i ∈ slots maxGroups → e.control = .controlled → e.led) :
    VoicedBut x u (Function.update g i e) where
  present := h.present
  mods k hk := by
    by_cases hki : k = i
    · subst hki
      rw [Function.update_self]
      exact hmod hk
    · rw [Function.update_of_ne hki]
      exact h.mods k hk
  voiced k hk := by
    by_cases hki : k = i
    · subst hki
      rw [Function.update_self]
      exact hled hk
    · rw [Function.update_of_ne hki]
      exact h.voiced k hk

/-- Somebody gets another group or another login state. -/
theorem VoicedBut.reseat {y : Int} {s : Bytes × Login} (h : VoicedBut y u g)
    (hs : n ∈ slots Env.maxUsers → n ≠ x → s.1 ≠ [] → s.2 = .complete) (hy : ∀ j ∈ slots Env.maxUsers, j ≠ n → j ≠ x → j ≠ y) :
    VoicedBut x (Function.update u n s) g where
  present j hj hjx := by
    by_cases hjn : j = n
    · subst hjn
      rw [Function.update_self]
      exact hs hj hjx
    · rw [Function.update_of_ne hjn]
      exact h.present j hj (hy j hj hjn hjx)
  mods := h.mods
  voiced := h.voiced

/-- A group is renamed, and its connections with it. -/
theorem VoicedBut.rename {new : Bytes} {u' : Int → Bytes × Login} (h : VoicedBut x u g)
    (hnamed : (g i).name ≠ [])
    (hu' : ∀ j, u' j = if j ∈ slots maxRealUsers ∧ strcaseEq (u j).1 (g i).name
      then (new, (u j).2) else u j) :
    VoicedBut x u' (Function.update g i { g i with name := new }) := by
  refine VoicedBut.write (g := g) ⟨fun j hj hjx hne => ?_, h.mods, h.voiced⟩ (h.mods i) (h.voiced i)
  rw [hu'] at hne ⊢
  split_ifs at hne ⊢ with hren
  · refine h.present j hj hjx fun hnil => hnamed ?_
    have heq := hren.2
    rw [hnil, strcaseEq_comm] at heq
    exact strcaseEq_nil heq
  · exact h.present j hj hjx hne

/-- A group that somebody is in has a member who is logged in. -/
theorem Voiced.member {w : World} (h : Voiced w.seats w.gTab) {i j : Int} (hj : j ∈ slots Env.maxUsers)
    (hne : (w.gTab i).name ≠ []) (hin : strcaseEq (w.uTab j).group (w.gTab i).name) : isMember w i j := by
  have hgroup : (w.uTab j).group ≠ [] := fun hnil =>
    hne (strcaseEq_nil (by rwa [hnil, strcaseEq_comm] at hin))
  have hout : j ≠ -1 := by
    have := (mem_slots.mp hj).1
    omega
  have hlogin : (w.uTab j).login = .complete := h.present j hj hout hgroup
  simp [isMember, hlogin, hin]

end

/-! ## §2 — the search for a successor -/

section
variable {w : World} {i j n : Int}

/-- Among the members of a group somebody is found, if it has any. -/
theorem Voiced.successor (h : Voiced w.seats w.gTab) (hj : j ∈ slots Env.maxUsers)
    (hne : (w.gTab i).name ≠ []) (hin : strcaseEq (w.uTab j).group (w.gTab i).name) :
    0 ≤ leastIdle w (isMember w i) := by
  have hfound : leastIdle w (isMember w i) ≠ -1 := fun hnone =>
    leastIdle_eq_neg_one.mp hnone j hj (h.member hj hne hin)
  exact (mem_slots.mp (leastIdle_picks hfound).1).1

/-- A user who moderates a group leaves a member to find in it, himself or another. -/
theorem Voiced.successor_of_mod (h : Voiced w.seats w.gTab) (hA : Agreed w.seats w.gTab)
    (hi : i ∈ slots maxGroups) (hmod : (w.gTab i).mod ≠ -1) : 0 ≤ leastIdle w (isMember w i) := by
  have hne := (tended_of_mod (J := Agreed) hA hmod).2 hi
  obtain ⟨j, hj, hin⟩ := hA.member i hi (by have := (mem_slots.mp hi).1; omega) hne
  exact h.successor hj hne hin

end

/-! ## §3 — what may be written -/

section
variable {x i n : Int} {v : Bytes} {t : Int} {w w' : World}

instance : GTameAt (KeepsTables (VoicedBut x)) i where
  gtame _ _ hf := .writeG fun h => h.write (h.mods i) fun hi hc => h.voiced i hi (hf.tamely.uncontrolling _ hc)

/-- A group that waits is led. -/
theorem setMissing_voiced (ht : 0 < t) : Within (KeepsTables (VoicedBut x)) (setMissing i v t) where
  within w := ViewInv.writeG (w := w) (f := fun g => { g with missingmod := v, modtimeout := t })
    fun h => h.write (h.mods i) fun _ _ => .inr ht

/-- So is a group that has been given to somebody. -/
theorem setMod_voiced (hn : 0 ≤ n) : Within (KeepsTables (VoicedBut x)) (setMod i n) where
  within w := ViewInv.writeG (w := w) (f := fun g => { g with mod := n })
    fun h => h.write (fun _ => by show (-1 : Int) ≤ n; omega) fun _ _ => .inl hn

/-- A group with a moderator need not wait. -/
theorem VoicedBut.missing (h : VoicedBut x w.seats w.gTab) (hmod : 0 ≤ (w.gTab i).mod) :
    VoicedBut x (setMissing i v t w).2.seats (setMissing i v t w).2.gTab :=
  h.write (e := { w.gTab i with missingmod := v, modtimeout := t }) (h.mods i) fun _ _ => .inl hmod

omit [Env] in
theorem Regains.seats (h : Regains n w w') : w'.seats = w.seats := by
  funext j
  by_cases hj : j = n
  · subst hj
    exact Prod.ext h.group h.login
  · simp only [World.seats, h.users j hj]

/-- Groups that are given back are led. -/
theorem Regains.voiced (hn : 0 ≤ n) (h : Regains n w w') (hV : VoicedBut x w.seats w.gTab) :
    VoicedBut x w'.seats w'.gTab := by
  rw [h.seats]
  refine ⟨hV.present, fun i hi => ?_, fun i hi hc => ?_⟩
  · obtain hsame | hgiven := h.groups i
    · exact hsame ▸ hV.mods i hi
    · rw [hgiven.2.2]
      show (-1 : Int) ≤ n
      omega
  · obtain hsame | hgiven := h.groups i
    · rw [hsame] at hc ⊢
      exact hV.voiced i hi hc
    · rw [hgiven.2.2]
      exact .inl hn

end

/-! ## §4 — group changes -/

/-- Moderators are slots, or -1. -/
def Ranged (_ : Int → Login) (mod : Int → Int) : Prop := ∀ i ∈ slots maxGroups, -1 ≤ mod i

section
variable {x y n ngi ogi : Int} {target : Bytes} {flag ok : Bool} {w w' : World}

omit [Env] in
theorem modTo_ranged (hn : -1 ≤ n) : ModTo (KeepsMods Ranged) n where
  mod _ i := .writeG fun h k hk => by
    by_cases hki : k = i
    · subst hki
      rwa [Function.update_self]
    · rw [Function.update_of_ne hki]
      exact h k hk

instance : ModTo (KeepsMods Ranged) (-1) := modTo_ranged le_rfl

/-- Whoever opens a group is a slot. -/
theorem sChange_ranged (hn : 0 ≤ n) (h : VoicedBut x w.seats w.gTab) :
    ∀ i ∈ slots maxGroups, -1 ≤ ((sChange n target flag w).2.gTab i).mod := by
  have : ModTo (KeepsMods Ranged) n := modTo_ranged (by omega)
  exact Within.within (R := KeepsMods Ranged) (x := sChange n target flag) w h.mods

omit [Env] in
theorem World.seats_of_users (h : (w'.uTab n).toUserId = (w.uTab n).toUserId) : w'.seats n = w.seats n :=
  Prod.ext (congrArg UserId.group h) (congrArg UserId.login h)

/-- Whoever is in a group is logged in after all. -/
theorem VoicedBut.settle {u : Int → Bytes × Login} {g : Int → Group} (h : VoicedBut n u g)
    (hn : (u n).1 ≠ [] → (u n).2 = .complete) : Voiced u g where
  present j hj _ := by
    by_cases hjn : j = n
    · exact hjn ▸ hn
    · exact h.present j hj hjn
  mods := h.mods
  voiced := h.voiced

/-- A move leaves everybody else where he is, and a group that is cleared is public. -/
theorem Moved.voiced (hm : Moved n ngi ogi w w')
    (hpresent : ∀ j ∈ slots Env.maxUsers, j ≠ n → (w.seats j).1 ≠ [] → (w.seats j).2 = .complete)
    (hvoiced : ∀ i ∈ slots maxGroups, (w.gTab i).control = .controlled → (w.gTab i).led)
    (hmods : ∀ i ∈ slots maxGroups, -1 ≤ (w'.gTab i).mod) : VoicedBut n w'.seats w'.gTab where
  present j hj hjn := by
    rw [World.seats_of_users (hm.users j hjn)]
    exact hpresent j hj hjn
  mods := hmods
  voiced i hi hc := by
    rw [hm.groups] at hc ⊢
    split at hc
    · by_cases hio : i = ogi
      · subst hio
        rw [Function.update_self] at hc
        exact nomatch hc
      · rw [if_pos ‹_›, Function.update_of_ne hio]
        rw [Function.update_of_ne hio] at hc
        exact hvoiced i hi hc
    · rw [if_neg ‹_›]
      exact hvoiced i hi hc

omit [Env] in
/-- A new group is not controlled. -/
theorem Created.voiced {i : Int} {name : Bytes} (hcr : Created n i name w w')
    (hvoiced : ∀ k ∈ slots maxGroups, (w.gTab k).control = .controlled → (w.gTab k).led) :
    ∀ k ∈ slots maxGroups, (w'.gTab k).control = .controlled → (w'.gTab k).led := by
  intro k hk hc
  by_cases hki : k = i
  · rw [hki] at hc
    obtain hpub | ⟨hmoderated, -⟩ := hcr.door
    · exact nomatch hpub.symm.trans hc
    · exact nomatch hmoderated.symm.trans hc
  · rw [hcr.others k hki] at hc ⊢
    exact hvoiced k hk hc

/-- **A group change leaves controlled groups led.** Whether the mover is logged in is left open. -/
theorem Changes.voiced (hc : Changes n target w ok w') (h : Voiced w.seats w.gTab)
    (hmods : ∀ i ∈ slots maxGroups, -1 ≤ (w'.gTab i).mod) : VoicedBut n w'.seats w'.gTab := by
  have hpresent (j : Int) (hj : j ∈ slots Env.maxUsers) (_ : j ≠ n) :
      (w.seats j).1 ≠ [] → (w.seats j).2 = .complete := by
    have := (mem_slots.mp hj).1
    exact h.present j hj (by omega)
  have hopened {i : Int} {name : Bytes} {w₁ : World} (hcr : Created n i name w w₁) :
      ∀ j ∈ slots Env.maxUsers, j ≠ n → (w₁.seats j).1 ≠ [] → (w₁.seats j).2 = .complete := by
    intro j hj hjn
    rw [World.seats_of_users (hcr.users j)]
    exact hpresent j hj hjn
  cases hc with
  | refused _ hS => exact ⟨hS.seats ▸ hpresent, hmods, hS.groups ▸ h.voiced⟩
  | joined _ _ _ _ _ hm => exact hm.voiced hpresent h.voiced hmods
  | opened _ _ _ _ _ hcr hm => exact hm.voiced (hopened hcr) (hcr.voiced h.voiced) hmods
  | reopened _ _ _ _ _ hcr => exact ⟨hopened hcr, hmods, hcr.voiced h.voiced⟩

/-- Who is logged in stays so. -/
theorem sChange_voiced (hn : 0 ≤ n) (h : Voiced w.seats w.gTab) (hlogin : (w.uTab n).login = .complete) :
    Voiced (sChange n target flag w).2.seats (sChange n target flag w).2.gTab := by
  have hc := sChange_cases n target flag w
  exact (hc.voiced h (sChange_ranged hn h)).settle fun _ => (hc.login n).trans hlogin

theorem bootTo_voiced (hn : 0 ≤ n) (h : Voiced w.seats w.gTab) (hlogin : (w.uTab n).login = .complete) :
    Voiced (bootTo n target w).2.seats (bootTo n target w).2.gTab :=
  sChange_voiced (w := (modMisc (fun m => { m with isBooting := true }) w).2) hn h hlogin

end

/-! ## §5 — polls and departures -/

section
variable {i j n : Int} {w : World}

instance {x : Int} : Within (KeepsTables (VoicedBut x)) (idleMod i) := by
  have (v : Bytes) : Within (KeepsTables (VoicedBut x)) (setMissing i v 1) := setMissing_voiced (by decide)
  unfold idleMod
  infer_instance

instance {x : Int} : Within (KeepsTables (VoicedBut x)) (passTimeout i) where
  within w h := by
    show wp (passTimeout i) (fun _ w' => VoicedBut x w'.seats w'.gTab) w
    refine wp_bind (wp_getW (wp_bind (wp_getG (wp_whenever (fun hc => wp_after (wp_after ?_)) fun _ => h))))
    have hpicked := (mem_slots.mp (leastIdle_picks hc.2.2).1).1
    refine Within.wp (KeepsTables (VoicedBut x)) fun _ _ hkeep => hkeep ?_
    -- the moderator is set before the timeout is taken back
    refine ((setMod_voiced hpicked).within (getG i w).2 h).missing ?_
    simpa [setMod, World.modG] using hpicked

/-- The tables agree, the one about to be carried away is logged in, and controlled groups are led. -/
def Carried (n : Int) (u : Int → Bytes × Login) (g : Int → Group) : Prop :=
  Agreed u g ∧ Voiced u g ∧ (u n).2 = .complete

theorem idleBootMod_carried (hi : 0 ≤ i) (hj : j ∈ slots maxGroups) :
    Within (KeepsTables (Carried n)) (idleBootMod i j) where
  within w h := by
    show wp (idleBootMod i j) (fun _ w' => Carried n w'.seats w'.gTab) w
    refine wp_bind (wp_getW (wp_bind (wp_getU (wp_bind (wp_getG (wp_whenever (fun hc => ?_) fun _ => h))))))
    have hmod : (w.gTab j).mod = i := hc
    have hnext := h.2.1.successor_of_mod h.1 hj (by omega)
    have ht : Tended Agreed j w.seats w.gTab := tended_of_mod h.1 (by omega)
    refine wp_after (Within.wp (KeepsTables (Carried n)) fun _ _ hkeep => hkeep ⟨?_, ?_, h.2.2⟩)
    · exact (Within.within (R := KeepsTables (Tended Agreed j)) (x := setMod j _) _ ht).1
    · exact (setMod_voiced hnext).within (getG j (getU i w).2).2 h.2.1

theorem bootTo_carried {target : Bytes} (hn : n ∈ slots Env.maxUsers) :
    Within (KeepsTables (Carried n)) (bootTo n target) where
  within w h := by
    obtain ⟨hA, hV, hlogin⟩ := h
    have hlogin : (w.uTab n).login = .complete := hlogin
    have hin : AgreedIn n w.seats w.gTab := ⟨hA, fun _ hno => nomatch hlogin.symm.trans hno⟩
    refine ⟨((bootTo_agreedIn hn).within w hin).1, bootTo_voiced (mem_slots.mp hn).1 hV hlogin, ?_⟩
    have hc := sChange_cases n target false (modMisc (fun m => { m with isBooting := true }) w).2
    exact (hc.login n).trans hlogin

/-- The tables agree, and controlled groups are led. -/
def AgreedVoiced (u : Int → Bytes × Login) (g : Int → Group) : Prop := Agreed u g ∧ Voiced u g

theorem idleBoot_voiced (hn : n ∈ slots maxRealUsers) : Within (KeepsTables AgreedVoiced) (idleBoot n) where
  within w h := by
    show wp (idleBoot n) (fun _ w' => AgreedVoiced w'.seats w'.gTab) w
    refine wp_bind (wp_getW (wp_bind (wp_getU (wp_whenever (fun hc => ?_) fun _ => h))))
    have hcarried : Carried n w.seats w.gTab := ⟨h.1, h.2, hc.1⟩
    have : Within (KeepsTables (Carried n)) (each (slots maxGroups) (idleBootMod n)) :=
      Within.each fun j hj => idleBootMod_carried (mem_slots.mp hn).1 hj
    have : Within (KeepsTables (Carried n)) (bootTo n idleGroup) := bootTo_carried (real_mem_users hn)
    refine Within.wp (KeepsTables (Carried n)) fun _ w' hkeep => ?_
    have h' : Carried n w'.seats w'.gTab := hkeep hcarried
    exact ⟨h'.1, h'.2.1⟩

instance : Within (KeepsTables AgreedVoiced) sDidpoll := by
  have hboth {x : W Unit} [Within (KeepsTables Agreed) x] [Within (KeepsTables Voiced) x] :
      Within (KeepsTables AgreedVoiced) x :=
    ⟨fun w h => ⟨Within.within (R := KeepsTables Agreed) w h.1, Within.within (R := KeepsTables Voiced) w h.2⟩⟩
  have : Within (KeepsTables AgreedVoiced) (each (slots maxRealUsers) idleBoot) :=
    Within.each fun i hi => idleBoot_voiced hi
  have : Within (KeepsTables AgreedVoiced) (each (slots maxGroups) fun i => do
      idleMod i
      passTimeout i) := hboth
  unfold sDidpoll
  infer_instance

/-- What is to be said of the tables and the clock while a moderator's groups are handed on. -/
def Leavable (w : World) : Prop := Voiced w.seats w.gTab ∧ 0 ≤ w.sys.now

omit [Env] in
theorem Stilly.leavable [Env] {w' : World} (hS : Stilly w w') (h : Leavable w) : Leavable w' := by
  unfold Leavable
  rw [hS.seats, hS.groups, hS.sys]
  exact h

/-- A group that has lost its moderator waits for him or goes to a member. -/
theorem lostMod_voiced {wasRegistered : Bool} {name : Bytes} (h : Leavable w)
    (hcount : countUsersInGroup w (w.gTab i).name > 0) :
    wp (lostMod i wasRegistered name) (fun _ w' => Leavable w') w := by
  have hget : Stilly w (getG i w).2 := Within.within w
  refine wp_bind (wp_getW (wp_bind (wp_getG (wp_ite (fun _ => ?_) fun _ => ?_))))
  · refine wp_bind (Within.wp Stilly fun _ w₁ h₁ => wp_after ?_)
    have h₁ := trans_of Stilly hget h₁
    obtain ⟨hV, hnow⟩ := h₁.leavable h
    have hpos : 0 < w.sys.now + modTimeout := by
      have := h.2
      unfold modTimeout
      omega
    refine ⟨?_, hnow⟩
    show Voiced w₁.seats (setMissing i name (w.sys.now + modTimeout) (setMod i (-1) w₁).2).2.gTab
    have hgroups : (setMissing i name (w.sys.now + modTimeout) (setMod i (-1) w₁).2).2.gTab =
        Function.update w₁.gTab i { w₁.gTab i with
          mod := -1, missingmod := name, modtimeout := w.sys.now + modTimeout } := by
      simp [setMissing, setMod, World.modG]
    rw [hgroups]
    exact hV.write (fun _ => le_rfl) fun _ _ => .inr hpos
  · have hname : (w.gTab i).name ≠ [] := by
      intro hnil
      simp [countUsersInGroup, hnil] at hcount
    have hmember : ∃ j ∈ slots Env.maxUsers, strcaseEq (w.uTab j).group (w.gTab i).name := by
      by_contra hnone
      refine hcount.ne' ((countUsersInGroup_eq_zero hname).mpr fun j hj hin => hnone ⟨j, hj, hin⟩)
    obtain ⟨j, hj, hin⟩ := hmember
    have hnext := h.1.successor hj hname hin
    refine wp_bind (Within.wp Stilly fun _ w₁ h₁ => wp_after ?_)
    obtain ⟨hV, hnow⟩ := (trans_of Stilly hget h₁).leavable h
    refine Within.wp Stilly fun _ w₂ h₂ => h₂.leavable ⟨?_, hnow⟩
    exact (setMod_voiced hnext).within w₁ hV

theorem lostMods_voiced {wasRegistered : Bool} {name : Bytes} (fuel : Nat) (h : Leavable w) :
    wp (lostMods n wasRegistered name fuel) (fun _ w' => Leavable w') w := by
  induction fuel generalizing w with
  | zero => exact h
  | succ fuel ih =>
    refine wp_bind (wp_getW (wp_whenever (fun _ => wp_bind ?_) fun _ => h))
    suffices hone : wp (whenever (countUsersInGroup w (w.gTab (checkMods w n)).name > 0)
        (lostMod (checkMods w n) wasRegistered name)) (fun _ w' => Leavable w') w from
      wp_mono hone fun _ _ h' => ih h'
    exact wp_whenever (fun hcount => lostMod_voiced h hcount) fun _ => h

/-- An entry is cleared: nobody is in a group that was not. -/
theorem clearUserItem_leavable (n : Int) (h : Leavable w) :
    wp (clearUserItem n) (fun _ w' => Leavable w') w := by
  have hsys : (clearUserItem n w).2.sys = w.sys := by
    show wp (clearUserItem n) (fun _ w' => SysSame w w') w
    exact wp_bind (wp_getU (wp_bind (Within.wp SysSame fun _ _ hsame => hsame)))
  obtain ⟨hseats, hgroups⟩ := clearUserItem_seats n w
  refine ⟨?_, hsys ▸ h.2⟩
  rw [hseats, hgroups]
  exact h.1.reseat (fun _ _ hne => absurd rfl hne) fun j hj _ hjx => hjx

/-- **Whoever leaves leaves controlled groups led.** -/
theorem sLostUser_voiced (h : Leavable w) : Leavable (sLostUser n w).2 := by
  show wp (sLostUser n) (fun _ w' => Leavable w') w
  refine wp_bind (wp_getW (wp_bind (wp_getU (wp_ite (fun _ => h) fun _ => ?_))))
  refine wp_ite (fun _ => clearUserItem_leavable n h) fun _ => ?_
  refine wp_bind (Within.wp Stilly fun _ w₁ h₁ => ?_)
  have h₁ : Leavable w₁ := (trans_of Stilly (Within.within (x := getU n) w) h₁).leavable h
  refine wp_bind (wp_mono (clearUserItem_leavable n h₁) fun _ w₂ h₂ => ?_)
  refine wp_whenever (fun _ => wp_bind ?_) fun _ => h₂
  -- the group of the leaver is told or cleared
  refine wp_mono (Q := fun _ w' => Leavable w') ?_ fun _ _ h₃ => lostMods_voiced _ h₃
  have hget (i : Int) : Stilly w₂ (getG i w₂).2 := Within.within w₂
  refine wp_bind (wp_getW (wp_bind (wp_getG (wp_ite (fun _ => ?_) fun _ => ?_))))
  · exact Within.wp Stilly fun _ _ h₃ => (trans_of Stilly (hget _) h₃).leavable h₂
  · rw [wp, clearGroupItem_eq]
    refine ⟨?_, h₂.2⟩
    exact h₂.1.write (e := clearedItem _) (fun _ => le_rfl) fun _ hc => by cases hc

end

/-! ## §6 — commands -/

/-- Controlled groups are led, and group `i` has a name and satisfies `P`. -/
def Tending (P : Group → Prop) (i : Int) (u : Int → Bytes × Login) (g : Int → Group) : Prop :=
  Voiced u g ∧ (g i).name ≠ [] ∧ P (g i)

/-- The group is not controlled. -/
def Group.uncontrolled (g : Group) : Prop := g.control ≠ .controlled

section
variable {P : Group → Prop} {i n : Int} {w w' : World} {u : Int → Bytes × Login} {g : Int → Group}

theorem Tending.write {g' : Group} (h : Tending P i u g) (hname : g'.name = (g i).name)
    (hmod : i ∈ slots maxGroups → -1 ≤ g'.mod)
    (hled : i ∈ slots maxGroups → g'.control = .controlled → g'.led) (hP : P g') :
    Tending P i u (Function.update g i g') := by
  refine ⟨h.1.write hmod hled, ?_, ?_⟩
  · rw [Function.update_self, hname]
    exact h.2.1
  · rwa [Function.update_self]

/-- A group that is led may be made controlled. -/
instance : GOptsAt (KeepsTables (Tending Group.led i)) i where
  gopts _ _ := .writeG fun h => h.write rfl (h.1.mods i) (fun _ _ => h.2.2) h.2.2

/-- A group that is not controlled may change as long as it stays so. -/
theorem Tending.uncontrolled {f : GroupOpts → GroupOpts}
    (hf : (w.gTab i).uncontrolled → (f (w.gTab i).toGroupOpts).control ≠ .controlled) :
    KeepsTables (Tending Group.uncontrolled i) w (modGOpts i f w).2 :=
  ViewInv.writeG (f := fun g => { g with toGroupOpts := f g.toGroupOpts }) fun h => h.write rfl (h.1.mods i) (fun _ hc => absurd hc (hf h.2.2)) (hf h.2.2)

instance : GTameAt (KeepsTables (Tending Group.uncontrolled i)) i where
  gtame _ _ hf := Tending.uncontrolled fun hno hc => hno (hf.tamely.uncontrolling _ hc)

/-- A property that says nothing about the name and survives a new moderator. -/
structure Lasting (P : Group → Prop) : Prop where
  name : ∀ g v, P g → P { g with name := v }
  mod : ∀ g m, 0 ≤ m → P g → P { g with mod := m, missingmod := [], modtimeout := 0 }

omit [Env] in
theorem lasting_led : Lasting Group.led := ⟨fun _ _ h => h, fun _ _ hm _ => .inl hm⟩

omit [Env] in
theorem lasting_uncontrolled : Lasting Group.uncontrolled := ⟨fun _ _ h => h, fun _ _ _ h => h⟩

theorem Regains.tending (hP : Lasting P) (hn : 0 ≤ n) (hR : Regains n w w')
    (h : Tending P i w.seats w.gTab) : Tending P i w'.seats w'.gTab := by
  refine ⟨hR.voiced hn h.1, ?_⟩
  obtain hsame | hgiven := hR.groups i
  · rw [hsame]
    exact h.2
  · rw [hgiven.2.2]
    exact ⟨h.2.1, hP.mod _ _ hn h.2.2⟩

theorem regainMods_tending (hP : Lasting P) (hn : 0 ≤ n) :
    Within (KeepsTables (Tending P i)) (regainMods n) where
  within w h := by
    have hR : Regains n w (regainMods n w).2 := Within.within w
    exact hR.tending hP hn h

theorem setName_tending {v : Bytes} (hP : Lasting P) : Within (KeepsTables (Tending P i)) (setName n i v) where
  within w h := by
    show wp (setName n i v) (fun _ w' => Tending P i w'.seats w'.gTab) w
    refine wp_mono (setName_cases n i v w) fun _ w' hcases => ?_
    obtain hS | ⟨hname, -, hren⟩ := hcases
    · rw [hS.seats, hS.groups]
      exact h
    · have hnew : v.take maxGroupLen ≠ [] := by
        cases v with
        | nil => exact absurd rfl hname
        | cons b v => exact List.cons_ne_nil _ _
      rw [hren.groups]
      refine ⟨h.1.rename h.2.1 hren.seats, ?_, ?_⟩
      · rwa [Function.update_self]
      · rw [Function.update_self]
        exact hP.name _ _ h.2.2

/-- **A moderator who relinquishes makes a controlled group public.** -/
theorem sPass_voiced (arg : Bytes) (h : Voiced w.seats w.gTab) :
    Voiced (sPass n arg w).2.seats (sPass n arg w).2.gTab := by
  show wp (sPass n arg) (fun _ w' => Voiced w'.seats w'.gTab) w
  have hkeep {x : W Unit} [Within Stilly x] {w₁ : World} (h₁ : Voiced w₁.seats w₁.gTab) :
      wp x (fun _ w' => Voiced w'.seats w'.gTab) w₁ := by
    refine Within.wp Stilly fun _ w₂ h₂ => ?_
    rwa [h₂.seats, h₂.groups]
  refine wp_bind (wp_getW (wp_bind (wp_getU (wp_bind (wp_getG (wp_ite (fun _ => hkeep h) fun _ => ?_))))))
  refine wp_ite (fun _ => wp_after (wp_bind ?_)) fun _ => wp_ite (fun _ => h) fun _ => ?_
  · refine Within.wp Stilly fun _ w₁ h₁ => ?_
    have hgroups : w₁.gTab = Function.update w.gTab (groupOf w n) { w.gTab (groupOf w n) with mod := -1 } :=
      h₁.groups
    have hseats : w₁.seats = w.seats := h₁.seats
    refine wp_whenever (fun hctl => wp_after (hkeep ?_)) fun hctl => ?_
    · show Voiced w₁.seats (Function.update w₁.gTab (groupOf w n)
        { w₁.gTab (groupOf w n) with control := .pub })
      rw [hseats, hgroups, Function.update_self, Function.update_idem]
      exact h.write (fun _ => le_rfl) fun _ hc => nomatch hc
    · rw [hseats, hgroups]
      exact h.write (fun _ => le_rfl) fun _ hc => absurd hc hctl
  · refine wp_ite (fun _ => hkeep h) fun _ => wp_ite (fun hdest => wp_after ?_) fun _ => hkeep h
    exact hkeep ((setMod_voiced hdest).within (getG (groupOf w n) (getU n w).2).2 h)

variable {d : Daemon}

/-- The last command of a packet, where the writes to the caller's group keep `P`. -/
theorem runCommand_tending (hP : Lasting P) (h : Tending P (groupOf d.w n) d.w.seats d.w.gTab) (hn : 0 ≤ n)
    (hlogin : (d.w.uTab n).login = .complete) (hgroup : 0 ≤ groupOf d.w n)
    (hown : (d.w.gTab (groupOf d.w n)).mod = n → GOptsAt (KeepsTables (Tending P (groupOf d.w n))) (groupOf d.w n))
    (htame : GTameAt (KeepsTables (Tending P (groupOf d.w n))) (groupOf d.w n))
    (hmsg : ∀ a, Within (KeepsTables (Tending P (groupOf d.w n))) (setIdlebootMsg n (groupOf d.w n) a))
    (hcontrol : hasMod d.w n → Within (KeepsTables (Tending P (groupOf d.w n))) (setControl (groupOf d.w n)))
    (hcancel : ∀ who, Within (KeepsTables (Tending P (groupOf d.w n))) (modGOpts (groupOf d.w n) fun _ =>
      (cancelNick who (d.w.gTab (groupOf d.w n)).toGroupOpts).2)) (argc : Nat) (c : Command) :
    Voiced (runCommand noCmd n argc c d).2.w.seats (runCommand noCmd n argc c d).2.w.gTab := by
  have := regainMods_tending (i := groupOf d.w n) hP hn
  have hRQ (w' : World) (hkeep : KeepsTables (Tending P (groupOf d.w n)) d.w w') : Voiced w'.seats w'.gTab :=
    (hkeep h).1
  refine runCommand_cases (R := KeepsTables (Tending P (groupOf d.w n)))
    (Q := fun w => Voiced w.seats w.gTab) hRQ hown (fun _ => ?_) (fun _ => ?_) (fun arg => ?_) (fun _ => ?_)
    (fun t b => sChange_voiced hn h.1 hlogin) (fun _ => hRQ _ (Within.within _)) argc c
  · exact hRQ _ (sTopic_guarded fun _ => htame)
  · exact hRQ _ (sStatus_tame (fun _ => htame) (fun _ => hmsg) (fun _ _ => setName_tending hP) fun _ => hcontrol)
  · exact sPass_voiced arg h.1
  · refine sBoot_guarded hRQ (fun _ _ h => h) (fun _ => hcancel) fun _ dest hdest hin hsame w₁ hkeep hC => ?_
    refine bootTo_voiced hdest (hkeep h).1 ((hC.login dest).trans ?_)
    -- whoever is in the group of the caller is logged in
    refine h.1.present dest (inUsers_iff.mp hin) (by omega) (ne_nil_of_findGroup (w := d.w) ?_)
    show 0 ≤ groupOf d.w dest
    rwa [hsame]

/-- **A command leaves controlled groups led.** -/
theorem runCommand_voiced (h : AgreedVoiced d.w.seats d.w.gTab) (hn : n ∈ slots maxRealUsers)
    (hlogin : (d.w.uTab n).login = .complete) (argc : Nat) (c : Command) :
    Voiced (runCommand noCmd n argc c d).2.w.seats (runCommand noCmd n argc c d).2.w.gTab := by
  have hheld := h.1.held hn hlogin
  have hn0 := (mem_slots.mp hn).1
  have hgroup := (mem_slots.mp hheld.2.1).1
  by_cases hled : (d.w.gTab (groupOf d.w n)).led
  · exact runCommand_tending lasting_led ⟨h.2, hheld.2.2.1, hled⟩ hn0 hlogin hgroup (fun _ => inferInstance)
      inferInstance (fun _ => inferInstance) (fun _ => inferInstance) (fun _ => inferInstance) argc c
  · -- a group without a moderator is not controlled, and `s_status` does not make it so
    have hno : (d.w.gTab (groupOf d.w n)).uncontrolled := fun hc => hled (h.2.voiced _ hheld.2.1 hc)
    refine runCommand_tending lasting_uncontrolled ⟨h.2, hheld.2.2.1, hno⟩ hn0 hlogin hgroup (fun hmod => ?_)
      inferInstance (fun _ => ?_) (fun hmod => ?_) (fun _ => ?_) argc c
    · exact absurd (.inl (by omega)) hled
    · have (msg : Bytes) : Within (KeepsTables (Tending Group.uncontrolled (groupOf d.w n)))
          (modGOpts (groupOf d.w n) fun o => { o with idlebootMsg := msg }) :=
        ⟨fun w => Tending.uncontrolled id⟩
      unfold setIdlebootMsg
      infer_instance
    · refine absurd ?_ hled
      have := h.2.mods _ hheld.2.1
      exact hmod.imp (fun hne => by omega) id
    · exact ⟨fun w => Tending.uncontrolled fun _ => hno⟩

end

/-! ## §7 — logins and open messages -/

/-- Controlled groups are led, and the connection `n` is in no group. -/
def VoicedOut (n : Int) (u : Int → Bytes × Login) (g : Int → Group) : Prop := Voiced u g ∧ (u n).1 = []

section
variable {n : Int} {w : World} {d : Daemon} {a b c p text contents : Bytes}

theorem regainMods_out (hn : 0 ≤ n) : Within (KeepsTables (VoicedOut n)) (regainMods n) where
  within w h := by
    have hR : Regains n w (regainMods n w).2 := Within.within w
    exact ⟨hR.voiced hn h.1, (congrArg (fun u => (u n).1) hR.seats).trans h.2⟩

/-- A connection in no group that is turned away has not changed anything. -/
theorem Changes.out {ok : Bool} {w' : World} (hc : Changes n a w ok w') (hok : ok = false)
    (hnil : (w.seats n).1 = []) : Stilly w w' := by
  cases hc with
  | refused _ hS => exact hS
  | reopened _ hname _ _ heq _ =>
    have hnil : (w.uTab n).group = [] := hnil
    rw [hnil] at heq
    exact absurd (strcaseEq_nil heq) hname
  | _ => exact nomatch hok

theorem enterServer_voiced (hn : 0 ≤ n) (h : Voiced w.seats w.gTab) (hno : w.seats n = ([], .no)) :
    Voiced (enterServer n a w).2.seats (enterServer n a w).2.gTab := by
  have := regainMods_out hn
  show wp (enterServer n a) (fun _ w' => Voiced w'.seats w'.gTab) w
  refine wp_after (wp_bind (wp_getU ?_))
  have hout : VoicedOut n (startSession n w).2.seats (startSession n w).2.gTab := by
    rw [startSession_seats hno]
    refine ⟨h.reseat (fun _ _ hne => absurd rfl hne) fun j _ _ hjx => hjx, ?_⟩
    rw [Function.update_self]
  refine wp_bind (Within.wp (KeepsTables (VoicedOut n)) fun _ w₁ h₁ => ?_)
  refine wp_bind (Within.wp (KeepsTables (VoicedOut n)) fun _ w₂ h₂ => ?_)
  refine wp_bind (Within.wp (KeepsTables (VoicedOut n)) fun _ w₃ h₃ => ?_)
  obtain ⟨hV, hnil⟩ : VoicedOut n w₃.seats w₃.gTab := h₃ (h₂ (h₁ hout))
  have hc := sChange_cases n a true w₃
  have hbut := hc.voiced hV (sChange_ranged hn hV)
  refine wp_after (wp_ite (fun hok => wp_after ?_) fun hok => ?_)
  · refine Within.wp (KeepsTables Voiced) fun _ _ hkeep => hkeep ?_
    show Voiced (setLogin n .complete (sChange n a true w₃).2).2.seats _
    rw [setLogin_seats]
    exact hbut.reseat (fun _ _ _ => rfl) fun j hj hjn _ => hjn
  · have hkept := hc.out (Bool.eq_false_iff.mpr hok) hnil
    show Voiced (sChange n a true w₃).2.seats (sChange n a true w₃).2.gTab
    rwa [hkept.seats, hkept.groups]

theorem login_voiced (hn : 0 ≤ n) (h : Voiced w.seats w.gTab) (hno : w.seats n = ([], .no)) :
    Voiced (login n a b c p w).2.seats (login n a b c p w).2.gTab := by
  apply login_post (R := KeepsTables fun u g => Voiced u g ∧ u n = ([], .no))
    (I := fun w => Voiced w.seats w.gTab ∧ w.seats n = ([], .no)) (Q := fun w => Voiced w.seats w.gTab)
  · exact fun _ _ hkeep => hkeep
  · exact fun _ h => h.1
  · intro w v m h
    rw [fillUserEntry_seats h.2]
    exact h
  · exact fun _ _ h => enterServer_voiced hn h.1 h.2
  · exact ⟨h, hno⟩

/-- An open message. -/
theorem openmsg_voiced (h : Voiced d.w.seats d.w.gTab) (hn : 0 ≤ n) :
    Voiced (openmsg n text d).2.w.seats (openmsg n text d).2.w.gTab := by
  by_cases hlogin : (d.w.uTab n).login = .complete
  · have : Within (KeepsTables fun u g => Voiced u g ∧ (u n).2 = .complete) (bootTo n (str "ICB")) := by
      refine ⟨fun w h => ⟨bootTo_voiced hn h.1 h.2, ?_⟩⟩
      have hc := sChange_cases n (str "ICB") false (modMisc (fun m => { m with isBooting := true }) w).2
      exact (hc.login n).trans h.2
    exact (Within.within (R := OnWorld (KeepsTables fun u g => Voiced u g ∧ (u n).2 = .complete))
      (x := openmsg n text) d ⟨h, hlogin⟩).1
  · exact openmsg_idle (R := KeepsTables Voiced) hlogin text h

/-- **A packet leaves controlled groups led**, unless it is a command on the slot of the automatic user. -/
theorem dispatch_voiced (h : AgreedVoiced d.w.seats d.w.gTab) (hn : n ∈ slots Env.maxUsers)
    (hserv : (cstr contents).head? = some pktCommand → n < maxRealUsers) :
    AgreedVoiced (dispatch n contents d).2.w.seats (dispatch n contents d).2.w.gTab := by
  refine ⟨dispatch_agreed h.1 hn hserv, ?_⟩
  have hn0 := (mem_slots.mp hn).1
  have hreal (hlt : n < maxRealUsers) : n ∈ slots maxRealUsers := mem_slots.mpr ⟨hn0, hlt⟩
  have hkeep {x : M Unit} [Within (OnWorld (KeepsTables Voiced)) x] :
      wp x (fun _ d' => Voiced d'.w.seats d'.w.gTab) d :=
    Within.within (R := OnWorld (KeepsTables Voiced)) d h.2
  show wp (dispatch n contents) (fun _ d' => Voiced d'.w.seats d'.w.gTab) d
  refine wp_ite (fun htype => ?_) fun _ => ?_
  · refine loginCase_rel (R := KeepsTables Voiced) htype (fun hl p hV => login_voiced hn0 hV ?_) h.2
    exact Prod.ext (h.1.away n (hreal hl.2.1) hl.2.2.1) hl.2.2.1
  refine wp_ite (fun _ => openmsg_voiced h.2 hn0) fun _ => wp_ite (fun hcmd => ?_) fun _ => ?_
  · have hlt := hserv hcmd
    have hboth : AgreedVoiced (cmdmsg (cstr contents).length n (cstr contents).tail d).2.w.seats
        (cmdmsg (cstr contents).length n (cstr contents).tail d).2.w.gTab := by
      refine cmdmsg_rel (R := KeepsTables AgreedVoiced) hlt rfl (fun d' _ hlogin _ _ h => ?_) h
      exact ⟨runCommand_agreed h.1 (hreal hlt) hlogin _ _, runCommand_voiced h (hreal hlt) hlogin _ _⟩
    exact hboth.2
  · exact wp_ite (fun _ => hkeep) fun _ => wp_ite (fun _ => hkeep) fun _ => hkeep

end

/-! ## §8 — runs -/

/-- What is asked of the events of a run: no command comes in on the slot of the automatic user, and the
clock does not show a time before its epoch. -/
def ClientsOnTime (h : Host) (sys : Sys) (e : Event) : Prop := NoServerCommand h sys e ∧ 0 ≤ sys.now

/-- The automatic user moderates the restricted group he starts in. -/
theorem startup_icb (sys : Sys) (db : Bytes → Option Bytes) :
    ((startup sys db).gTab 0).control = .restricted ∧ ((startup sys db).gTab 0).mod = nickserv := by
  show wp (do
    fillUserEntry nickserv (str "server") Env.thishost (str "Server") [] (str "ICB") [] .complete 0 1 0
    modUOpts nickserv fun o => { o with tOn := sys.now, tRecv := sys.now }
    setRealname nickserv registered
    fillGroupEntry 0 (str "ICB") (str "...here to serve you!") .supersecret .restricted nickserv .quiet
    nickwritetime nickserv false)
    (fun _ w => (w.gTab 0).control = .restricted ∧ (w.gTab 0).mod = nickserv) _
  refine wp_after (wp_after (wp_after (wp_after (Within.wp (KeepsTables fun _ g =>
    (g 0).control = .restricted ∧ (g 0).mod = nickserv) fun _ _ hkeep => hkeep ?_))))
  simp [fillGroupEntry, setGroupName, setMod, modGOpts, World.modG]

theorem startup_voiced (sys : Sys) (db : Bytes → Option Bytes) :
    Voiced (startup sys db).seats (startup sys db).gTab := by
  obtain ⟨hseats, hothers, -⟩ := startup_seats sys db
  obtain ⟨hcontrol, hmod⟩ := startup_icb sys db
  have hserv : 0 ≤ nickserv := (inUsers_iff.mp inUsers_nickserv |> mem_slots.mp).1
  constructor
  case present =>
    intro j _ _ hne
    by_cases hj : j = nickserv
    · rw [hseats, hj, Function.update_self]
    · rw [hseats, Function.update_of_ne hj] at hne
      exact absurd rfl hne
  case mods =>
    intro i _
    by_cases hi : i = 0
    · rw [hi, hmod]
      exact le_trans (by decide) hserv
    · rw [hothers i hi]
  case voiced =>
    intro i _ hc
    by_cases hi : i = 0
    · rw [hi, hcontrol] at hc
      exact nomatch hc
    · rw [hothers i hi] at hc
      exact nomatch hc

theorem hostVoiced_step {h : Host} {sys : Sys} {e : Event} (hi : HostAgreed h ∧ Voiced h.w.seats h.w.gTab)
    (hp : ClientsOnTime h sys e) (he : e.enabled h) :
    HostAgreed (h.after sys e) ∧ Voiced (h.after sys e).w.seats (h.after sys e).w.gTab := by
  refine ⟨hostAgreed_step hi.1 hp.1 he, ?_⟩
  obtain ⟨⟨hA, hopen⟩, hV⟩ := hi
  cases e with
  | connect n secure remote =>
    exact Within.within (R := KeepsTables Voiced) (x := sNewUser n secure remote) (h.toDaemon.at sys).w hV
  | packet n contents =>
    exact (dispatch_voiced (d := h.toDaemon.at sys) ⟨hA, hV⟩ (inUsers_iff.mp (hopen n he)) hp.1).2
  | lost n => exact (sLostUser_voiced (w := (h.toDaemon.at sys).w) ⟨hV, hp.2⟩).1
  | didpoll =>
    exact (Within.within (R := KeepsTables AgreedVoiced) (x := sDidpoll) (h.toDaemon.at sys).w ⟨hA, hV⟩).2

/-- **A controlled group has somebody to grant speech**: in every state reached it has a moderator, or a
timeout is pending. -/
theorem controlled_led {h : Host} (hr : Reachable ClientsOnTime h) :
    ∀ i ∈ slots maxGroups, (h.w.gTab i).control = .controlled →
      0 ≤ (h.w.gTab i).mod ∨ 0 < (h.w.gTab i).modtimeout := by
  obtain ⟨-, hV⟩ : HostAgreed h ∧ Voiced h.w.seats h.w.gTab :=
    hr.invariant (fun sys db => ⟨⟨startup_agreed sys db, nofun⟩, startup_voiced sys db⟩)
      fun _ _ _ hi hp he _ => hostVoiced_step hi hp he
  exact hV.voiced

instance (h : Host) (sys : Sys) (e : Event) : Decidable (ClientsOnTime h sys e) :=
  inferInstanceAs (Decidable (_ ∧ _))

end

/-! ## §9 — the group of the automatic user -/

section
attribute [local instance] smallEnv

/-- Who is connected on the last slot opens its group, gives it away, and controls and renames it. -/
def abandonsGroup : List Event :=
  [.connect 1 false none, .packet 1 (loginPkt "one" "bo" "x" ""), .connect 3 false none,
   .packet 3 (cmdPkt "status" "p"), .packet 3 (cmdPkt "pass" "bo"), .packet 3 (cmdPkt "status" "c name y")]

/-- A poll after a day. -/
abbrev dayAfter (h : Host) : Host := h.after { now := 86400 } .didpoll

/-- The poll that leaves a controlled group with nobody to grant speech. -/
def Silences (h : Host) : Prop :=
  h.w.live ∧ let h' := dayAfter h
    h'.w.live ∧ (h'.w.gTab 0).control = .controlled ∧ (h'.w.gTab 0).mod = -1 ∧ (h'.w.gTab 0).modtimeout = 0

instance : DecidablePred Silences := fun _ => inferInstanceAs (Decidable (_ ∧ _))

/-- The one the group was given to goes idle, and the group has no member to follow him. -/
theorem controlled_silent : ∃ h : Host, Reachable (fun _ _ _ => True) h ∧ ∃ i ∈ slots maxGroups,
    (h.w.gTab i).control = .controlled ∧ ¬ (0 ≤ (h.w.gTab i).mod ∨ 0 < (h.w.gTab i).modtimeout) := by
  have hrun : Host.leads (fun _ _ _ => True) {} Silences { w := startup {} fun _ => none } abandonsGroup := by
    decide +kernel
  obtain ⟨h, hr, hlive, hlive', hc, hmod, htimeout⟩ := Reachable.leads (.start {} fun _ => none) hrun
  have hstep : Step h { now := 86400 } .didpoll (dayAfter h) := ⟨hlive, trivial, rfl⟩
  refine ⟨dayAfter h, hr.step trivial hstep hlive', 0, by decide, hc, ?_⟩
  rw [hmod, htimeout]
  decide

/-- The moderator of a group that is controlled. -/
def opensControlled : List Event :=
  [.connect 1 false none, .packet 1 (loginPkt "one" "bo" "x" ""), .packet 1 (cmdPkt "status" "c")]

theorem controlled_led_bo : ∃ h : Host, (h.w.gTab 1).control = .controlled ∧
    (0 ≤ (h.w.gTab 1).mod ∨ 0 < (h.w.gTab 1).modtimeout) := by
  have hrun : Host.leads ClientsOnTime {} (fun h => (h.w.gTab 1).control = .controlled)
      { w := startup {} fun _ => none } opensControlled := by
    decide +kernel
  obtain ⟨h, hr, hc⟩ := Reachable.leads (.start {} fun _ => none) hrun
  exact ⟨h, hc, controlled_led hr 1 (by decide) hc⟩

end

end Icbd.Server
