/-
# Icbd.Server.Moderator — moderators are logged in.

A group remembers its moderator by his slot. Whoever leaves must leave no group behind in which his
slot is the moderator, and whoever gets a group must be logged in. Two functions can break this:
`s_pass` finds its addressee by nickname, and a refused login keeps its nickname; `s_lost_user` looks
for the groups of the leaver only if he is in a group himself, and a login that fails after it has
regained a group is in none.
-/
import Icbd.Server.Nested
import Mathlib.Data.List.MinMax

-- every bind doubles the size of the search's argument
set_option synthInstance.maxSize 1000000000000000000000000000000000000000000000000
set_option synthInstance.maxHeartbeats 200000

namespace Icbd.Server

open Icbd.Lib

section
variable [Env]

/-! ## §1 — the invariant and its variants -/

/-- Only slots of the table are logged in, and every moderator is. -/
def ModsLive (login : Int → Login) (mod : Int → Int) : Prop :=
  (∀ j, login j ≠ .no → inUsers j) ∧ ∀ i ∈ slots maxGroups, mod i = -1 ∨ login (mod i) ≠ .no

/-- And `n` is logged in. -/
def Seated (n : Int) (login : Int → Login) (mod : Int → Int) : Prop :=
  ModsLive login mod ∧ login n ≠ .no

/-- And `n` moderates nothing. -/
def Vacant (n : Int) (login : Int → Login) (mod : Int → Int) : Prop :=
  ModsLive login mod ∧ inUsers n ∧ ∀ i ∈ slots maxGroups, mod i ≠ n

/-- All but the groups of `n`. -/
def Leaving (n : Int) (login : Int → Login) (mod : Int → Int) : Prop :=
  (∀ j, login j ≠ .no → inUsers j) ∧
    ∀ i ∈ slots maxGroups, mod i = -1 ∨ mod i = n ∨ login (mod i) ≠ .no

/-- The login states and the moderators of a world. -/
def World.logins (w : World) (i : Int) : Login := (w.uTab i).login
def World.mods (w : World) (i : Int) : Int := (w.gTab i).mod

/-- The invariant over worlds. -/
abbrev KeepsMods (J : (Int → Login) → (Int → Int) → Prop) : World → World → Prop :=
  ViewInv (fun u => u.login) (fun g => g.mod) J

section
variable {J : (Int → Login) → (Int → Int) → Prop} {n : Int} {v : Bytes}

instance : Calm (KeepsMods J) where
  toSends _ := inferInstance
  toUOpts _ := ⟨fun _ _ => ViewInv.modU fun _ => rfl⟩
  drops := Drops.drops
  gopts _ _ _ := ViewInv.modG fun _ => rfl

instance : NickTo (KeepsMods J) n v := ⟨fun _ => ViewInv.modU fun _ => rfl⟩
instance : RealTo (KeepsMods J) n v := ⟨fun _ => ViewInv.modU fun _ => rfl⟩
instance : IdentTo (KeepsMods J) n := ⟨fun _ _ _ _ => ViewInv.modU fun _ => rfl⟩
instance : UGroupTo (KeepsMods J) n := ⟨fun _ _ => ViewInv.modU fun _ => rfl⟩
instance : MissTo (KeepsMods J) := ⟨fun _ _ _ _ => ViewInv.modG fun _ => rfl⟩
instance : GNameTo (KeepsMods J) := ⟨fun _ _ _ => ViewInv.modG fun _ => rfl⟩

end

section
variable {login : Int → Login} {mod : Int → Int} {n i v : Int} {l : Login}

/-- A group may be given to nobody or to somebody who is logged in. -/
theorem ModsLive.give (h : ModsLive login mod) (hv : v = -1 ∨ login v ≠ .no) :
    ModsLive login (Function.update mod i v) := by
  refine ⟨h.1, fun k hk => ?_⟩
  by_cases hki : k = i
  · subst hki
    rwa [Function.update_self]
  · rw [Function.update_of_ne hki]
    exact h.2 k hk

/-- The same while `n` leaves. -/
theorem Leaving.give (h : Leaving n login mod) (hv : v = -1 ∨ login v ≠ .no) :
    Leaving n login (Function.update mod i v) := by
  refine ⟨h.1, fun k hk => ?_⟩
  by_cases hki : k = i
  · subst hki
    rw [Function.update_self]
    exact hv.imp_right .inr
  · rw [Function.update_of_ne hki]
    exact h.2 k hk

/-- Who moderates nothing may log in and out. -/
theorem Vacant.move (h : Vacant n login mod) : Vacant n (Function.update login n l) mod := by
  obtain ⟨⟨hslot, hmods⟩, hn, hvacant⟩ := h
  refine ⟨⟨fun j hj => ?_, fun i hi => ?_⟩, hn, hvacant⟩
  · by_cases hjn : j = n
    · exact hjn ▸ hn
    · rw [Function.update_of_ne hjn] at hj
      exact hslot j hj
  · rw [Function.update_of_ne (hvacant i hi)]
    exact hmods i hi

/-- Who is logged in may change to the other state. -/
theorem Seated.move (h : Seated n login mod) (hl : l ≠ .no) :
    Seated n (Function.update login n l) mod := by
  have hlogin (j : Int) (hj : login j ≠ .no) : Function.update login n l j ≠ .no := by
    by_cases hjn : j = n
    · rwa [hjn, Function.update_self]
    · rwa [Function.update_of_ne hjn]
  refine ⟨⟨fun j hj => ?_, fun i hi => (h.1.2 i hi).imp_right (hlogin _)⟩, hlogin n h.2⟩
  by_cases hjn : j = n
  · exact hjn ▸ h.1.1 n h.2
  · rw [Function.update_of_ne hjn] at hj
    exact h.1.1 j hj

/-- Who logs out leaves his groups behind. -/
theorem Leaving.logout (h : Leaving n login mod) : Leaving n (Function.update login n .no) mod := by
  refine ⟨fun j hj => ?_, fun i hi => ?_⟩
  · by_cases hjn : j = n
    · simp [hjn] at hj
    · rw [Function.update_of_ne hjn] at hj
      exact h.1 j hj
  · by_cases hin : mod i = n
    · exact .inr (.inl hin)
    · rw [Function.update_of_ne hin]
      exact h.2 i hi

theorem ModsLive.leaving (h : ModsLive login mod) : Leaving n login mod :=
  ⟨h.1, fun i hi => (h.2 i hi).imp_right .inr⟩

/-- With no group left behind, everything is as it should be. -/
theorem Leaving.done (h : Leaving n login mod) (hn : ∀ i ∈ slots maxGroups, mod i ≠ n) :
    ModsLive login mod :=
  ⟨h.1, fun i hi => (h.2 i hi).imp_right fun h => h.resolve_left (hn i hi)⟩

/-- Who is not logged in moderates nothing. -/
theorem ModsLive.vacant (h : ModsLive login mod) (hn : inUsers n) (hlogin : login n = .no) :
    Vacant n login mod := by
  refine ⟨h, hn, fun i hi hin => ?_⟩
  obtain hnone | hlive := h.2 i hi
  · rw [hin] at hnone
    simp [inUsers, hnone] at hn
  · exact hlive (hin ▸ hlogin)

end

/-- Groups may be given to nobody and to whoever is logged in. -/
class Hands (R : World → World → Prop) : Prop where
  hands : ∀ (w : World) (i v : Int), v = -1 ∨ w.logins v ≠ .no →
    R w (w.modG i fun g => { g with mod := v })

instance {R : World → World → Prop} [Hands R] : ModTo R (-1) :=
  ⟨fun w i => Hands.hands w i (-1) (.inl rfl)⟩

instance : Hands (KeepsMods ModsLive) := ⟨fun _ _ _ hv => .writeG fun h => h.give hv⟩

section
variable {n : Int} {l : Login}

instance : Hands (KeepsMods (Seated n)) := ⟨fun _ _ _ hv => .writeG fun h => ⟨h.1.give hv, h.2⟩⟩

instance : ModTo (KeepsMods (Seated n)) n :=
  ⟨fun _ _ => .writeG fun h => ⟨h.1.give (.inr h.2), h.2⟩⟩

instance : LoginTo (KeepsMods (Seated n)) n .pending := ⟨fun _ => .writeU fun h => h.move nofun⟩

instance : LoginTo (KeepsMods (Seated n)) n .complete := ⟨fun _ => .writeU fun h => h.move nofun⟩

instance : LoginTo (KeepsMods (Vacant n)) n l := ⟨fun _ => .writeU fun h => h.move⟩

instance : Hands (KeepsMods (Leaving n)) := ⟨fun _ _ _ hv => .writeG fun h => h.give hv⟩

instance : LoginTo (KeepsMods (Leaving n)) n .no := ⟨fun _ => .writeU fun h => h.logout⟩

end

/-! ## §2 — the automatic choice of a moderator -/

omit [Env] in
/-- A search for the first entry that passes a test and has the greatest value. -/
theorem foldl_eq_argmax {β : Type} [Preorder β] [DecidableLT β] (f : Int → β) (p : Int → Bool) {xs : List Int}
    {m : Option Int} (hxs : ∀ j ∈ xs, j ≠ -1) (hm : ∀ j ∈ m, j ≠ -1) :
    xs.foldl (fun newmod j => if p j then
        if newmod = -1 ∨ f j > f newmod then j else newmod
        else newmod) (m.getD (-1)) =
      ((xs.filter p).foldl (List.argAux fun b c => f c < f b) m).getD (-1) := by
  induction xs generalizing m with
  | nil => rfl
  | cons j xs ih =>
    have hj := hxs j List.mem_cons_self
    have hxs' : ∀ k ∈ xs, k ≠ -1 := fun k hk => hxs k (List.mem_cons_of_mem j hk)
    rw [List.foldl_cons, List.filter_cons]
    by_cases hp : p j
    · rw [if_pos hp, if_pos hp, List.foldl_cons]
      cases m with
      | none =>
        rw [Option.getD_none, if_pos (.inl rfl)]
        exact ih (m := some j) hxs' (by simpa using hj)
      | some m =>
        have hm' : m ≠ -1 := hm m rfl
        simp only [Option.getD_some, hm', false_or, List.argAux]
        split_ifs
        · exact ih (m := some j) hxs' (by simpa using hj)
        · exact ih (m := some m) hxs' hm
    · rw [if_neg hp, if_neg hp]
      exact ih hxs' hm

/-- Either nobody passes the test, or `leastIdle` picks a slot that does, and none of those was heard from later. -/
theorem leastIdle_cases (w : World) (p : Int → Bool) :
    (leastIdle w p = -1 ∧ ∀ j ∈ slots Env.maxUsers, ¬ p j) ∨
      (leastIdle w p ∈ slots Env.maxUsers ∧ p (leastIdle w p) ∧
        ∀ j ∈ slots Env.maxUsers, p j → (w.uTab j).tRecv ≤ (w.uTab (leastIdle w p)).tRecv) := by
  have hne : ∀ j ∈ slots Env.maxUsers, j ≠ -1 := fun j hj => by
    have := (mem_slots.mp hj).1
    omega
  have heq : leastIdle w p = (((slots Env.maxUsers).filter p).argmax fun j => (w.uTab j).tRecv).getD (-1) :=
    foldl_eq_argmax (fun j => (w.uTab j).tRecv) p (m := none) hne (by simp)
  rw [heq]
  cases hmax : ((slots Env.maxUsers).filter p).argmax fun j => (w.uTab j).tRecv with
  | none =>
    have hnone := List.filter_eq_nil_iff.mp (List.argmax_eq_none.mp hmax)
    exact .inl ⟨rfl, hnone⟩
  | some m =>
    have hm := List.mem_filter.mp (List.argmax_mem hmax)
    refine .inr ⟨hm.1, hm.2, fun j hj hp => ?_⟩
    have hmem : j ∈ (slots Env.maxUsers).filter p := List.mem_filter.mpr ⟨hj, hp⟩
    exact List.le_of_mem_argmax (f := fun j => (w.uTab j).tRecv) hmem hmax

/-- Nobody is picked if and only if nobody passes the test. -/
theorem leastIdle_eq_neg_one {w : World} {p : Int → Bool} :
    leastIdle w p = -1 ↔ ∀ j ∈ slots Env.maxUsers, ¬ p j := by
  obtain ⟨heq, hnone⟩ | ⟨hmem, hp, -⟩ := leastIdle_cases w p
  · exact iff_of_true heq hnone
  · refine iff_of_false (fun hneg => ?_) fun hnone => hnone _ hmem hp
    have := (mem_slots.mp hmem).1
    omega

/-- Whoever is picked is a slot that passes the test, and none of those was heard from later. -/
theorem leastIdle_picks {w : World} {p : Int → Bool} (h : leastIdle w p ≠ -1) :
    leastIdle w p ∈ slots Env.maxUsers ∧ p (leastIdle w p) ∧
      ∀ j ∈ slots Env.maxUsers, p j → (w.uTab j).tRecv ≤ (w.uTab (leastIdle w p)).tRecv :=
  (leastIdle_cases w p).resolve_left fun hnone => h hnone.1

/-- Whom `leastIdle` picks, if anybody, passes the test. -/
theorem leastIdle_spec (w : World) (p : Int → Bool) : leastIdle w p = -1 ∨ p (leastIdle w p) :=
  or_iff_not_imp_left.mpr fun h => (leastIdle_picks h).2.1

/-- The least idle member of a group is logged in. -/
theorem leastIdle_live {w : World} {p : Int → Bool} (hp : ∀ j, p j → (w.uTab j).login = .complete) :
    leastIdle w p = -1 ∨ w.logins (leastIdle w p) ≠ .no := by
  refine (leastIdle_spec w p).imp_right fun h => ?_
  change (w.uTab (leastIdle w p)).login ≠ .no
  rw [hp _ h]
  decide

omit [Env] in
theorem isMember_complete {w : World} {gi j : Int} (h : isMember w gi j) :
    (w.uTab j).login = .complete := by
  simp only [isMember, Bool.and_eq_true, decide_eq_true_eq] at h
  exact h.1

section
variable {R : World → World → Prop} [Calm R] [Hands R]

omit [Env] in
/-- A group is given to somebody, and what follows stays within the relation. -/
theorem wp_give {i v : Int} {x : W Unit} [Within R x] {w w₀ : World} (h : R w₀ w)
    (hv : v = -1 ∨ w.logins v ≠ .no) : wp (do setMod i v; x) (fun _ => R w₀) w :=
  wp_after (trans_of R h (trans_of R (Hands.hands w i v hv) (Within.within _)))

instance [MissTo R] (i : Int) : Within R (passTimeout i) where
  within w := by
    change wp (passTimeout i) (fun _ => R w) w
    have hget : R w (getG i w).2 := Within.within w
    refine wp_bind (wp_getW (wp_bind (wp_getG (wp_whenever (fun _ => ?_) fun _ => hget))))
    refine wp_give hget (leastIdle_live (w := w) fun j hj => ?_)
    exact isMember_complete (Bool.and_eq_true_iff.mp hj).1

instance (i j : Int) : Within R (idleBootMod i j) where
  within w := by
    change wp (idleBootMod i j) (fun _ => R w) w
    have hget : R w (getG j (getU i w).2).2 := trans_of R (Within.within w) (Within.within _)
    refine wp_bind (wp_getW (wp_bind (wp_getU (wp_bind (wp_getG
      (wp_whenever (fun _ => ?_) fun _ => hget))))))
    exact wp_give hget (leastIdle_live (w := w) fun _ => isMember_complete)

instance [MissTo R] (i : Int) (wasRegistered : Bool) (name : Bytes) :
    Within R (lostMod i wasRegistered name) where
  within w := by
    change wp (lostMod i wasRegistered name) (fun _ => R w) w
    have hget : R w (getG i w).2 := Within.within w
    refine wp_bind (wp_getW (wp_bind (wp_getG (wp_ite (fun _ => ?_) fun _ => ?_))))
    · exact trans_of R hget (Within.within _)
    · refine wp_bind (Within.wp (Both R Calmly) fun _ w₁ h₁ => wp_give (trans_of R hget h₁.1) ?_)
      have hlive : leastIdle w (isMember w i) = -1 ∨ w.logins (leastIdle w (isMember w i)) ≠ .no :=
        leastIdle_live fun _ => isMember_complete
      rwa [World.logins, h₁.2.login]

end

/-! ## §3 — commands -/

/-- Whom a `pass` with this argument makes the moderator. -/
def passTarget (w : World) (n : Int) (arg : Bytes) : Option Int :=
  if (checkAuth w n ∨ (w.gTab (groupOf w n)).mod = n) ∧ getword arg ≠ [] ∧
      ¬ strcaseEq (getword arg) (str "server") ∧ 0 ≤ findUser w (getword arg) then
    some (findUser w (getword arg))
  else none

theorem Calmly.passTarget {w w' : World} (h : Calmly w w') (n : Int) (arg : Bytes) :
    passTarget w' n arg = passTarget w n arg := by
  simp only [Server.passTarget, h.checkAuth, h.groupOf, h.mod, h.findUser]

section
variable {w : World} {n : Int} {arg : Bytes}

/-- `s_pass` only gives groups to those who are logged in, if its addressee is. -/
theorem sPass_rel {R : World → World → Prop} [Calm R] [Hands R]
    (hpass : ∀ j ∈ passTarget w n arg, w.logins j ≠ .no) : R w (sPass n arg w).2 := by
  change wp (sPass n arg) (fun _ => R w) w
  have hget : R w (getG (groupOf w n) (getU n w).2).2 :=
    trans_of R (Within.within w) (Within.within _)
  have hkeep {x : W Unit} [Within R x] : wp x (fun _ => R w) (getG (groupOf w n) (getU n w).2).2 :=
    trans_of R hget (Within.within _)
  refine wp_bind (wp_getW (wp_bind (wp_getU (wp_bind (wp_getG ?_)))))
  refine wp_ite (fun _ => hkeep) fun hauth => wp_ite (fun _ => hkeep) fun _ => ?_
  refine wp_ite (fun _ => hkeep) fun hword => wp_ite (fun _ => hkeep) fun hserver => ?_
  refine wp_ite (fun hdest => ?_) fun _ => hkeep
  refine wp_give hget (.inr (hpass _ ?_))
  rw [passTarget, if_pos ⟨Decidable.not_not.mp hauth, hword, hserver, hdest⟩]
  rfl

/-- Whom a command text makes the moderator of somebody's group. -/
def textPasses (w : World) (n : Int) (text : Bytes) : Option Int :=
  if splitCount text = 2 ∧ commandOf text = .pass then passTarget w n (argOf text) else none

/-- A command packet of a connection. -/
theorem cmdmsg_live {d : Daemon} {depth : Nat} {text : Bytes} (hn : n < maxRealUsers)
    (hpass : (d.w.uTab n).login = .complete →
      ∀ j ∈ textPasses d.w n (finalText d.w n depth text), d.w.logins j ≠ .no)
    (h : ModsLive d.w.logins d.w.mods) :
    ModsLive (cmdmsg depth n text d).2.w.logins (cmdmsg depth n text d).2.w.mods := by
  refine cmdmsg_rel (R := KeepsMods ModsLive) hn rfl (fun d' hS hlogin hholds _ h => ?_) h
  have hC : Calmly d.w d'.w := hS.calmly
  have hseated : Seated n d'.w.logins d'.w.mods := by
    refine ⟨h, ?_⟩
    change (d'.w.uTab n).login ≠ .no
    rw [hlogin]
    decide
  by_cases hcmd : commandOf (finalText d.w n depth text) = .pass
  · change wp (runCommand noCmd n _ _) (fun _ d' => ModsLive d'.w.logins d'.w.mods) d'
    rw [hcmd]
    refine wp_whenever (fun hargc => wp_bind (wp_getField (wp_onWorld ?_))) fun _ => h
    have hlen : 1 < (splitFields (finalText d.w n depth text)).length := by
      unfold splitCount at hargc
      omega
    rw [hholds 1 hlen]
    refine sPass_rel (R := KeepsMods ModsLive) (fun j hj => ?_) h
    rw [hC.passTarget] at hj
    have hlive := hpass ((hC.login n).symm.trans hlogin) j (by rwa [textPasses, if_pos ⟨hargc, hcmd⟩])
    change (d'.w.uTab j).login ≠ .no
    rwa [hC.login]
  · have : Within (OnWorld (KeepsMods (Seated n))) (runCommand noCmd n
        (splitCount (finalText d.w n depth text)) (commandOf (finalText d.w n depth text))) := by
      apply runCommand_within
      rintro (hpass | hname | hother)
      · exact absurd hpass hcmd
      · rw [hname]
        unfold runCommand
        infer_instance
      · rw [hother]
        unfold runCommand
        infer_instance
    exact (this.within d' hseated).1

end

/-- An open message. -/
theorem openmsg_live {d : Daemon} {n : Int} {text : Bytes} (h : ModsLive d.w.logins d.w.mods) :
    ModsLive (openmsg n text d).2.w.logins (openmsg n text d).2.w.mods := by
  by_cases hlogin : (d.w.uTab n).login = .complete
  · have hseated : Seated n d.w.logins d.w.mods := by
      refine ⟨h, ?_⟩
      change (d.w.uTab n).login ≠ .no
      rw [hlogin]
      decide
    exact (Within.within (R := OnWorld (KeepsMods (Seated n))) (x := openmsg n text) d hseated).1
  · exact openmsg_idle (R := KeepsMods ModsLive) hlogin text h

/-! ## §4 — logins -/

section
variable {w : World} {n : Int} {a b c p : Bytes}

/-- A pending login is a login. -/
theorem startSession_seated (h : Vacant n w.logins w.mods) :
    Seated n (startSession n w).2.logins (startSession n w).2.mods := by
  change wp (startSession n) (fun _ w' => Seated n w'.logins w'.mods) w
  refine wp_bind (wp_getW (wp_bind ?_))
  have hvacant : Vacant n (setLogin n .pending w).2.logins (setLogin n .pending w).2.mods :=
    Within.within (R := KeepsMods (Vacant n)) w h
  have hlogin : (setLogin n .pending w).2.logins n ≠ .no := by
    simp [setLogin, World.logins, World.modU]
  exact Within.within (R := KeepsMods (Seated n)) _ ⟨hvacant.1, hlogin⟩

theorem enterServer_live (h : Vacant n w.logins w.mods) :
    ModsLive (enterServer n a w).2.logins (enterServer n a w).2.mods := by
  change wp (enterServer n a) (fun _ w' => ModsLive w'.logins w'.mods) w
  refine wp_after ?_
  exact Within.wp (KeepsMods (Seated n)) fun _ _ hkeep => (hkeep (startSession_seated h)).1

/-- A login packet that is taken for a login. -/
theorem login_live (h : Vacant n w.logins w.mods) :
    ModsLive (login n a b c p w).2.logins (login n a b c p w).2.mods := by
  apply login_post (R := KeepsMods (Vacant n)) (I := fun w => Vacant n w.logins w.mods)
    (Q := fun w => ModsLive w.logins w.mods)
  · exact fun _ _ hkeep => hkeep
  · exact fun _ h => h.1
  · exact fun w _ _ => Within.within (R := KeepsMods (Vacant n)) w
  · exact fun _ _ => enterServer_live
  · exact h

end

/-! ## §5 — leaving -/

section
variable {w : World} {n : Int}

/-- The loop of `s_lost_user` ends only when no group is left behind. -/
theorem lostMods_live {wasRegistered : Bool} {name : Bytes} (fuel : Nat)
    (h : Leaving n w.logins w.mods) :
    wp (lostMods n wasRegistered name fuel)
      (fun _ w' => w'.diverged = true ∨ ModsLive w'.logins w'.mods) w := by
  induction fuel generalizing w with
  | zero => exact .inl rfl
  | succ fuel ih =>
    refine wp_bind (wp_getW (wp_whenever (fun _ => wp_bind ?_) fun hdone => .inr (h.done ?_)))
    · exact Within.wp (KeepsMods (Leaving n)) fun _ _ hkeep => ih (hkeep h)
    · intro i hi hin
      obtain ⟨hm, -⟩ | ⟨-, hnone⟩ :=
        firstSlot_spec (slots maxGroups) fun i => (w.gTab i).mod = n
      · have := (mem_slots.mp hm).1
        rw [Decidable.not_not, checkMods] at hdone
        omega
      · exact hnone i hi (decide_eq_true hin)

/-- `s_lost_user` leaves no group behind if it looks for them or there is none. -/
theorem sLostUser_live (h : ModsLive w.logins w.mods) (hn : inUsers n)
    (hgroup : n < maxRealUsers → w.logins n ≠ .no →
      0 ≤ findGroup w ((w.uTab n).group.take maxGroupLen) ∨ ∀ i ∈ slots maxGroups, w.mods i ≠ n)
    (hback : (sLostUser n w).2.diverged = false) :
    ModsLive (sLostUser n w).2.logins (sLostUser n w).2.mods := by
  suffices hs : wp (sLostUser n) (fun _ w' => w'.diverged = true ∨ ModsLive w'.logins w'.mods) w by
    refine Or.resolve_left hs ?_
    rw [hback]
    decide
  refine wp_bind (wp_getW (wp_bind (wp_getU (wp_ite (fun _ => .inr h) fun hreal => ?_))))
  refine wp_ite (fun hlogin => ?_) fun hlogin => ?_
  · exact Within.wp (KeepsMods (Vacant n)) fun _ _ hkeep => .inr (hkeep (h.vacant hn hlogin)).1
  obtain hfound | hnone := hgroup (by omega) hlogin
  · refine wp_bind (Within.wp (KeepsMods (Leaving n)) fun _ w₁ h₁ => ?_)
    refine wp_bind (Within.wp (KeepsMods (Leaving n)) fun _ w₂ h₂ => ?_)
    refine wp_whenever (fun _ => ?_) fun hogi => absurd hfound hogi
    refine wp_bind (Within.wp (KeepsMods (Leaving n)) fun _ w₃ h₃ => ?_)
    exact lostMods_live _ (h₃ (h₂ (h₁ h.leaving)))
  · refine wp_bind (Within.wp (KeepsMods (Vacant n)) fun _ w₁ h₁ => ?_)
    refine wp_bind (Within.wp (KeepsMods (Vacant n)) fun _ w₂ h₂ => ?_)
    have hlive : ModsLive w₂.logins w₂.mods := (h₂ (h₁ ⟨h, hn, hnone⟩)).1
    exact Within.wp (KeepsMods ModsLive) fun _ _ hkeep => .inr (hkeep hlive)

end

/-! ## §6 — who is logged in -/

/-- The login states of the slots in `P` stay as they are. -/
def LoginSame (P : Int → Prop) (w w' : World) : Prop := ∀ j, P j → w'.logins j = w.logins j

section
variable {P : Int → Prop} {n : Int} {w : World}

omit [Env] in
theorem LoginSame.modU {f : User → User} (hf : ∀ u, (f u).login = u.login) :
    LoginSame P w (w.modU n f) := by
  intro j _
  by_cases hj : j = n <;> simp [World.logins, World.modU, Function.update, hj, hf]

instance : Commands (LoginSame P) where
  refl _ _ _ := rfl
  trans _ _ _ h₁ h₂ j hj := (h₂ j hj).trans (h₁ j hj)
  misc _ _ _ _ := rfl
  drops _ _ _ _ := rfl
  gopts _ _ _ _ _ := rfl
  gname _ _ _ _ _ := rfl
  miss _ _ _ _ _ _ := rfl
  toSends _ := ⟨fun _ _ _ _ => rfl⟩
  toUOpts _ := ⟨fun _ _ => .modU fun _ => rfl⟩
  toDb _ := ⟨fun _ _ _ _ _ => rfl⟩
  toNick _ _ := ⟨fun _ => .modU fun _ => rfl⟩
  toReal _ _ := ⟨fun _ => .modU fun _ => rfl⟩
  toIdent _ := ⟨fun _ _ _ _ => .modU fun _ => rfl⟩
  toUGroup _ := ⟨fun _ _ => .modU fun _ => rfl⟩
  toMod _ := ⟨fun _ _ _ _ => rfl⟩

instance {l : Login} : LoginTo (LoginSame (· ≠ n)) n l where
  login w j hj := by simp [World.logins, World.modU, Function.update_of_ne hj]

/-- A packet logs nobody in or out but its sender. -/
theorem dispatch_loginSame {d : Daemon} {contents : Bytes} :
    LoginSame (· ≠ n) d.w (dispatch n contents d).2.w := by
  unfold dispatch
  split
  next htype => exact loginCase_rel htype fun _ _ => Within.within _
  · exact Within.within (R := OnWorld (LoginSame (· ≠ n))) d

/-- A connection that is lost is logged out, and nobody else is. -/
theorem sLostUser_login (hn : n < maxRealUsers) :
    (sLostUser n w).2.logins n = .no ∧ LoginSame (· ≠ n) w (sLostUser n w).2 := by
  refine ⟨?_, Within.within w⟩
  have hclear (w : World) : (clearUserItem n w).2.logins n = .no := by
    simp [clearUserItem, setLogin, modUOpts, modMisc, World.logins, World.modU, World.withMisc]
  change wp (sLostUser n) (fun _ w' => w'.logins n = .no) w
  refine wp_bind (wp_getW (wp_bind (wp_getU (wp_ite (fun hreal => absurd hn (by omega)) fun _ => ?_))))
  refine wp_ite (fun _ => hclear _) fun _ => wp_after (wp_after ?_)
  exact Within.wp (LoginSame fun _ => True) fun _ _ hsame => (hsame n trivial).trans (hclear _)

end

/-! ## §7 — the automatic user's own slot

A connection on the slot of the automatic user is taken for the automatic user. It may nest commands
in more ways than others, so what is asked for its commands is simpler: everybody who has a name is
logged in. -/

/-- The invariant for the automatic user: names are held by those who are logged in. -/
def Named (u : Int → Bytes × Login) (mod : Int → Int) : Prop :=
  ModsLive (fun i => (u i).2) mod ∧ ∀ j ∈ slots Env.maxUsers, (u j).1 ≠ [] → (u j).2 ≠ .no

/-- And `n` is logged in. -/
def NamedSeated (n : Int) (u : Int → Bytes × Login) (mod : Int → Int) : Prop :=
  Named u mod ∧ (u n).2 ≠ .no

/-- Names and login states of a world. -/
def World.names (w : World) (i : Int) : Bytes × Login := ((w.uTab i).nickname, (w.uTab i).login)

/-- The invariant over worlds. -/
abbrev KeepsNamed (J : (Int → Bytes × Login) → (Int → Int) → Prop) : World → World → Prop :=
  ViewInv (fun u => (u.nickname, u.login)) (fun g => g.mod) J

section
variable {J : (Int → Bytes × Login) → (Int → Int) → Prop} {n : Int} {v : Bytes}

instance : Calm (KeepsNamed J) where
  toSends _ := inferInstance
  toUOpts _ := ⟨fun _ _ => ViewInv.modU fun _ => rfl⟩
  drops := Drops.drops
  gopts _ _ _ := ViewInv.modG fun _ => rfl

instance : RealTo (KeepsNamed J) n v := ⟨fun _ => ViewInv.modU fun _ => rfl⟩
instance : IdentTo (KeepsNamed J) n := ⟨fun _ _ _ _ => ViewInv.modU fun _ => rfl⟩
instance : UGroupTo (KeepsNamed J) n := ⟨fun _ _ => ViewInv.modU fun _ => rfl⟩
instance : MissTo (KeepsNamed J) := ⟨fun _ _ _ _ => ViewInv.modG fun _ => rfl⟩
instance : GNameTo (KeepsNamed J) := ⟨fun _ _ _ => ViewInv.modG fun _ => rfl⟩

instance : Hands (KeepsNamed (NamedSeated n)) :=
  ⟨fun _ _ _ hv => .writeG fun h => ⟨⟨h.1.1.give hv, h.1.2⟩, h.2⟩⟩

instance : ModTo (KeepsNamed (NamedSeated n)) n :=
  ⟨fun _ _ => .writeG fun h => ⟨⟨h.1.1.give (.inr h.2), h.1.2⟩, h.2⟩⟩

/-- Who is logged in may take a name. -/
theorem NamedSeated.rename {u : Int → Bytes × Login} {mod : Int → Int} (h : NamedSeated n u mod) :
    NamedSeated n (Function.update u n (v, (u n).2)) mod := by
  have hlogin (i : Int) : (Function.update u n (v, (u n).2) i).2 = (u i).2 := by
    by_cases hi : i = n <;> simp [Function.update, hi]
  obtain ⟨⟨hlive, hnamed⟩, hn⟩ := h
  refine ⟨⟨?_, fun j hj hne => ?_⟩, by rwa [hlogin]⟩
  · simpa only [hlogin] using hlive
  · rw [hlogin]
    by_cases hjn : j = n
    · rwa [hjn]
    · rw [Function.update_of_ne hjn] at hne
      exact hnamed j hj hne

instance : NickTo (KeepsNamed (NamedSeated n)) n v := ⟨fun _ => .writeU fun h => h.rename⟩

instance {arg : Bytes} : Within (KeepsNamed (NamedSeated n)) (sPass n arg) where
  within w h := by
    refine sPass_rel (R := KeepsNamed (NamedSeated n)) (fun j hj => ?_) h
    unfold passTarget at hj
    split at hj
    next hc =>
      obtain rfl := Option.some.inj hj
      obtain ⟨hj, hname⟩ := findUser_nonneg hc.2.2.2
      refine h.1.2 _ (inUsers_iff.mp hj) fun hnil => hc.2.1 ?_
      change (w.uTab _).nickname = [] at hnil
      rw [hnil, strcaseEq_comm] at hname
      exact strcaseEq_nil hname
    · cases hj

instance {depth : Nat} {text : Bytes} :
    Within (OnWorld (KeepsNamed Named)) (cmdmsg depth n text) := by
  induction depth generalizing n text with
  | zero =>
    unfold cmdmsg
    infer_instance
  | succ depth ih =>
    have hcmd (src : Int) (text : Bytes) :
        Within (OnWorld (KeepsNamed (NamedSeated n))) (cmdmsg depth src text) := by
      refine ⟨fun d h => ⟨ih.within d h.1, ?_⟩⟩
      have hsame : OnWorld (LoginSame fun _ => True) d (cmdmsg depth src text d).2 :=
        Within.within d
      exact fun hno => h.2 ((hsame n trivial).symm.trans hno)
    have (k : Nat) (c : Command) :
        Within (OnWorld (KeepsNamed (NamedSeated n))) (runCommand (cmdmsg depth) n k c) := by
      apply runCommand_within
      rintro (rfl | rfl | rfl) <;> (unfold runCommand; infer_instance)
    refine ⟨fun d h => ?_⟩
    change wp (cmdmsgWith (cmdmsg depth) n text) (fun _ d' => Named d'.w.names d'.w.mods) d
    refine wp_bind (wp_onWorld (wp_getU (wp_whenever (fun hlogin => ?_) fun _ => h)))
    have hseated : NamedSeated n d.w.names d.w.mods := by
      refine ⟨h, ?_⟩
      change (d.w.uTab n).login ≠ .no
      rw [hlogin]
      decide
    exact Within.wp (OnWorld (KeepsNamed (NamedSeated n))) fun _ _ hkeep => (hkeep hseated).1

end

/-! ## §8 — packets -/

section
variable {n : Int} {contents : Bytes}

/-- What is asked of a packet. A `pass` of somebody who is logged in, by himself or inside a message
to the automatic user, goes to somebody who is; a command on the automatic user's slot finds nobody
with a name who is not logged in. -/
def PassGoesToLive (w : World) (n : Int) (contents : Bytes) : Prop :=
  (cstr contents).head? = some pktCommand → (w.uTab n).login = .complete →
    if n < maxRealUsers then
      ∀ j ∈ textPasses w n (finalText w n (cstr contents).length (pktText contents)), w.logins j ≠ .no
    else ∀ j ∈ slots Env.maxUsers, (w.uTab j).nickname ≠ [] → w.logins j ≠ .no

theorem dispatch_live {d : Daemon} (hn : inUsers n) (hpass : PassGoesToLive d.w n contents)
    (h : ModsLive d.w.logins d.w.mods) :
    ModsLive (dispatch n contents d).2.w.logins (dispatch n contents d).2.w.mods := by
  change wp (dispatch n contents) (fun _ d' => ModsLive d'.w.logins d'.w.mods) d
  have hkeep {x : M Unit} [Within (OnWorld (KeepsMods ModsLive)) x] :
      wp x (fun _ d' => ModsLive d'.w.logins d'.w.mods) d :=
    Within.within (R := OnWorld (KeepsMods ModsLive)) d h
  refine wp_ite (fun htype => ?_) fun _ => ?_
  · refine loginCase_rel (R := KeepsMods ModsLive) htype (fun hlogin p h => ?_) h
    exact login_live (h.vacant hn hlogin.2.2.1)
  refine wp_ite (fun _ => openmsg_live h) fun _ => wp_ite (fun hcmd => ?_) fun _ => ?_
  · by_cases hreal : n < maxRealUsers
    · refine cmdmsg_live hreal (fun hlogin => ?_) h
      have := hpass hcmd hlogin
      rwa [if_pos hreal] at this
    · by_cases hlogin : (d.w.uTab n).login = .complete
      · have hnamed := hpass hcmd hlogin
        rw [if_neg hreal] at hnamed
        exact (Within.within (R := OnWorld (KeepsNamed Named)) d ⟨h, hnamed⟩).1
      · exact cmdmsg_idle (R := KeepsMods ModsLive) hlogin _ _ h
  · exact wp_ite (fun _ => hkeep) fun _ => wp_ite (fun _ => hkeep) fun _ => hkeep

end

/-! ## §9 — runs -/

/-- What is asked of the events of a run: passes go to those who are logged in, and a logged-in user
who leaves is in a group or moderates none. -/
def GroupsHandedOn (h : Host) (sys : Sys) : Event → Prop
  | .packet n contents => PassGoesToLive (h.toDaemon.at sys).w n contents
  | .lost n => n < maxRealUsers → h.w.logins n ≠ .no →
      0 ≤ findGroup h.w ((h.w.uTab n).group.take maxGroupLen) ∨ ∀ i ∈ slots maxGroups, h.w.mods i ≠ n
  | _ => True

/-- The invariant of the host: only slots of the table are open, and a closed slot that is not the
automatic user's is logged out. -/
def HostLive (h : Host) : Prop :=
  ModsLive h.w.logins h.w.mods ∧ (∀ n, h.opened n → inUsers n) ∧
    ∀ n ∈ slots maxRealUsers, h.opened n = false → h.w.logins n = .no

/-- At first nobody but the automatic user is logged in or moderates. -/
def Started (login : Int → Login) (mod : Int → Int) : Prop :=
  (∀ j, login j ≠ .no → j = nickserv) ∧ ∀ i, mod i = -1 ∨ mod i = nickserv

instance : LoginTo (KeepsMods Started) nickserv .complete where
  login _ := .writeU fun h => by
    refine ⟨fun j hj => ?_, h.2⟩
    by_contra hne
    rw [Function.update_of_ne hne] at hj
    exact hne (h.1 j hj)

instance : ModTo (KeepsMods Started) nickserv where
  mod _ i := .writeG fun h => by
    refine ⟨h.1, fun k => ?_⟩
    by_cases hki : k = i
    · simp [hki]
    · rw [Function.update_of_ne hki]
      exact h.2 k

theorem startup_hostLive (sys : Sys) (db : Bytes → Option Bytes) :
    HostLive { w := startup sys db } := by
  obtain ⟨hlogin, hmod⟩ : Started (startup sys db).logins (startup sys db).mods :=
    startup_rel (R := KeepsMods Started) sys db ⟨fun _ h => absurd rfl h, fun _ => .inl rfl⟩
  have hcomplete : (startup sys db).logins nickserv = .complete := by
    change wp (do fillUserEntry nickserv _ _ _ _ _ _ _ _ _ _; _) (fun _ w => w.logins nickserv = .complete) _
    refine wp_after (Within.wp (LoginSame fun _ => True) fun _ _ hsame => ?_)
    rw [hsame nickserv trivial]
    simp [fillUserEntry, setLogin, modUOpts, World.logins, World.modU]
  refine ⟨⟨fun j hj => hlogin j hj ▸ inUsers_nickserv, fun i _ => (hmod i).imp_right fun h => ?_⟩,
    fun _ h => absurd h Bool.false_ne_true,
    fun n hn _ => ?_⟩
  · rw [h, hcomplete]
    decide
  · by_contra hne
    have hn' := (mem_slots.mp hn).2
    have := Env.two_le_maxUsers
    rw [hlogin n hne] at hn'
    simp only [nickserv, maxRealUsers] at hn'
    omega

theorem hostLive_step {h : Host} {sys : Sys} {e : Event} (hi : HostLive h)
    (hp : GroupsHandedOn h sys e) (he : e.enabled h) (hl : (h.after sys e).w.live) :
    HostLive (h.after sys e) := by
  obtain ⟨hlive, hopen, hclosed⟩ := hi
  cases e with
  | connect n secure remote =>
    have hsame : LoginSame (fun _ => True) h.w (h.after sys (.connect n secure remote)).w :=
      Within.within (R := LoginSame fun _ => True) (x := sNewUser n secure remote)
        (h.toDaemon.at sys).w
    refine ⟨Within.within (R := KeepsMods ModsLive) (x := sNewUser n secure remote)
      (h.toDaemon.at sys).w hlive, opened_step hopen he, fun k hk hko => ?_⟩
    have hkn : k ≠ n := by
      rintro rfl
      simp [Host.after, Event.opens] at hko
    rw [hsame k trivial]
    exact hclosed k hk (by simpa [Host.after, Event.opens, Function.update_of_ne hkn] using hko)
  | packet n contents =>
    have hsame : LoginSame (· ≠ n) h.w (h.after sys (.packet n contents)).w :=
      dispatch_loginSame (d := h.toDaemon.at sys)
    refine ⟨dispatch_live (d := h.toDaemon.at sys) (hopen n he) hp hlive, hopen, fun k hk hko => ?_⟩
    have hkn : k ≠ n := by
      rintro rfl
      exact absurd (hko.symm.trans he) (by decide)
    rw [hsame k hkn]
    exact hclosed k hk hko
  | lost n =>
    have hn : inUsers n := hopen n he
    refine ⟨sLostUser_live (w := (h.toDaemon.at sys).w) hlive hn hp hl.1, opened_step hopen he,
      fun k hk hko => ?_⟩
    by_cases hkn : k = n
    · subst hkn
      exact (sLostUser_login (mem_slots.mp hk).2).1
    · have hsame : LoginSame (· ≠ n) h.w (h.after sys (.lost n)).w :=
        Within.within (R := LoginSame (· ≠ n)) (x := sLostUser n) (h.toDaemon.at sys).w
      rw [hsame k hkn]
      exact hclosed k hk (by simpa [Host.after, Event.opens, Function.update_of_ne hkn] using hko)
  | didpoll =>
    have hsame : LoginSame (fun _ => True) h.w (h.after sys .didpoll).w :=
      Within.within (R := LoginSame fun _ => True) (x := sDidpoll) (h.toDaemon.at sys).w
    refine ⟨Within.within (R := KeepsMods ModsLive) (x := sDidpoll) (h.toDaemon.at sys).w hlive,
      hopen, fun k hk hko => ?_⟩
    rw [hsame k trivial]
    exact hclosed k hk hko

/-- Every group has no moderator or one who is logged in, and none is moderated by a slot that waits
for a connection. -/
theorem moderators_live {h : Host} (hr : Reachable GroupsHandedOn h) :
    (∀ i ∈ slots maxGroups, (h.w.gTab i).mod = -1 ∨
      inUsers (h.w.gTab i).mod ∧ (h.w.uTab (h.w.gTab i).mod).login ≠ .no) ∧
    ∀ n ∈ slots maxRealUsers, h.opened n = false → ∀ i ∈ slots maxGroups, (h.w.gTab i).mod ≠ n := by
  obtain ⟨hlive, -, hclosed⟩ : HostLive h :=
    hr.invariant startup_hostLive fun _ _ _ hi hp he hl => hostLive_step hi hp he hl
  refine ⟨fun i hi => (hlive.2 i hi).imp_right fun hl => ⟨hlive.1 _ hl, hl⟩, fun n hn ho i hi => ?_⟩
  have hn' : inUsers n := by
    have := mem_slots.mp hn
    exact inUsers_iff.mpr (mem_slots.mpr ⟨this.1, by unfold maxRealUsers at this; omega⟩)
  exact (hlive.vacant hn' (hclosed n hn ho)).2.2 i hi

instance (w : World) (n : Int) (contents : Bytes) : Decidable (PassGoesToLive w n contents) := by
  unfold PassGoesToLive
  infer_instance

instance (h : Host) (sys : Sys) : (e : Event) → Decidable (GroupsHandedOn h sys e)
  | .connect .. | .packet .. | .lost _ | .didpoll => by dsimp only [GroupsHandedOn]; infer_instance

end

section
attribute [local instance] smallEnv

/-- The first client opens a group and passes it on to the second, under whatever name that one got
in, and the second one leaves. -/
def passedOn (nick : String) : List Event :=
  [.connect 1 false none, .packet 1 (loginPkt "one" "first" "x" ""),
   .connect 2 false none, .packet 2 (loginPkt "two" nick "x" ""),
   .packet 1 (cmdPkt "pass" nick), .lost 2]

theorem moderators_live_passed :
    ((Host.run {} { w := startup {} fun _ => none } (passedOn "second")).w.gTab 1).mod ≠ 2 := by
  obtain ⟨hr, hclosed⟩ := Reachable.leads_run (P := GroupsHandedOn) (Q := fun h => h.opened 2 = false)
    (.start {} fun _ => none) (rfl : _ = Host.run {} _ (passedOn "second")) (by decide +kernel)
  exact (moderators_live hr).2 2 (mem_slots.mpr (by decide)) hclosed 1 (mem_slots.mpr (by decide))

/-- The name of the administrator is refused, and kept: the next client on the slot is a moderator. -/
theorem refused_login_inherits : ∃ h : Host, Reachable (fun _ _ _ => True) h ∧ h.opened 2 ∧
    ¬ ∀ i ∈ slots maxGroups, (h.w.gTab i).mod = -1 ∨
      inUsers (h.w.gTab i).mod ∧ (h.w.uTab (h.w.gTab i).mod).login ≠ .no := by
  have hrun : Host.leads (fun _ _ _ => True) {} (fun h => h.opened 2 ∧ (h.w.gTab 1).mod = 2 ∧
      (h.w.uTab 2).login = .no) { w := startup {} fun _ => none } (passedOn "admin" ++ [.connect 2 false none]) := by
    decide +kernel
  obtain ⟨h, hr, ho, hmod, hlogin⟩ := Reachable.leads (.start {} fun _ => none) hrun
  refine ⟨h, hr, ho, fun hall => ?_⟩
  obtain hnone | ⟨-, hlive⟩ := hall 1 (mem_slots.mpr (by decide))
  · exact absurd (hnone.symm.trans hmod) (by decide)
  · rw [hmod] at hlive
    exact hlive hlogin

end

end Icbd.Server
