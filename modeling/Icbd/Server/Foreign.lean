/-
# Icbd.Server.Foreign — a moderator's group is his own.

Whoever is neither the moderator nor the administrator leaves the entry of a group as it is, as long
as the group is not public, has its moderator and somebody stays in it. A packet may move its sender
out of the group, may open another one and may rename the sender's own; none of these comes near the
entry.

The seats in `S` are slots without a connection whose group is the one looked at. They matter where
the automatic user has to stay where he is (`Icbd.Server.AutoGroup`).
-/
import Icbd.Server.Moderator
import Icbd.Server.Tables

-- every bind doubles the size of the search's argument
set_option synthInstance.maxSize 1000000000000000000000000000000000000000000000000
set_option synthInstance.maxHeartbeats 200000

namespace Icbd.Server

open Icbd.Lib

section
variable [Env]

/-! ## §1 — nobody is logged in outside the table -/

/-- Logins and connections are slots of the user table. -/
def HostInside (h : Host) : Prop :=
  (∀ j, (h.w.uTab j).login ≠ .no → inUsers j) ∧ ∀ n, h.opened n → inUsers n

theorem startup_inside (sys : Sys) (db : Bytes → Option Bytes) :
    HostInside { w := startup sys db } := by
  refine ⟨fun j hj => ?_, nofun⟩
  obtain ⟨hseats, -, -⟩ := startup_seats sys db
  by_cases hserv : j = nickserv
  · rw [hserv]
    exact inUsers_nickserv
  · have hno : (startup sys db).seats j = ([], .no) := by
      rw [hseats, Function.update_of_ne hserv]
    exact absurd (congrArg Prod.snd hno) hj

theorem inside_step {h : Host} {sys : Sys} {e : Event} (hi : HostInside h) (he : e.enabled h) :
    HostInside (h.after sys e) := by
  obtain ⟨hlogin, hopen⟩ := hi
  refine ⟨?_, opened_step hopen he⟩
  -- one slot of the table apart, the logins stay
  have hsame {n : Int} {w : World} (hn : inUsers n) (hs : LoginSame (· ≠ n) h.w w) (j : Int)
      (hj : (w.uTab j).login ≠ .no) : inUsers j := by
    by_cases hjn : j = n
    · exact hjn ▸ hn
    · have heq : (w.uTab j).login = (h.w.uTab j).login := hs j hjn
      exact hlogin j (heq ▸ hj)
  cases e with
  | connect n secure remote =>
    exact hsame he.1 (Within.within (R := LoginSame (· ≠ n)) (x := sNewUser n secure remote)
      (h.toDaemon.at sys).w)
  | packet n contents => exact hsame (hopen n he) (dispatch_loginSame (d := h.toDaemon.at sys))
  | lost n =>
    exact hsame (hopen n he) (Within.within (R := LoginSame (· ≠ n)) (x := sLostUser n)
      (h.toDaemon.at sys).w)
  | didpoll =>
    exact hsame inUsers_nickserv (Within.within (R := LoginSame (· ≠ nickserv)) (x := sDidpoll)
      (h.toDaemon.at sys).w)

theorem Reachable.inside {P : Host → Sys → Event → Prop} {h : Host} (hr : Reachable P h) :
    HostInside h :=
  hr.invariant startup_inside fun _ _ _ hi _ he _ => inside_step hi he

/-! ## §2 — what leaves an entry alone -/

/-- The entry of group `i` and the seats in `S` stay, unless the group waits for its moderator. -/
def Kept (S : Int → Prop) (i : Int) (w w' : World) : Prop :=
  (w.gTab i).modtimeout = 0 → w'.gTab i = w.gTab i ∧ ∀ j, S j → w'.seats j = w.seats j

section
variable {S : Int → Prop} {i k n : Int} {w w' : World}

omit [Env] in
theorem Kept.same (hg : w'.gTab i = w.gTab i) (hu : ∀ j, S j → w'.seats j = w.seats j) :
    Kept S i w w' := fun _ => ⟨hg, hu⟩

omit [Env] in
theorem Kept.modU {f : User → User} (hf : ∀ u, (f u).group = u.group ∧ (f u).login = u.login) :
    Kept S i w (w.modU n f) := by
  refine .same rfl fun j _ => ?_
  by_cases hj : j = n
  · simp [World.seats, World.modU, hj, hf]
  · simp [World.seats, World.modU, Function.update_of_ne hj]

omit [Env] in
theorem Kept.modG {f : Group → Group} (hk : k ≠ i) : Kept S i w (w.modG k f) :=
  .same (Function.update_of_ne hk.symm _ _) fun _ _ => rfl

instance : Base (Kept S i) where
  refl _ _ := ⟨rfl, fun _ _ => rfl⟩
  trans _ _ _ h₁ h₂ ht := by
    obtain ⟨hg₁, hu₁⟩ := h₁ ht
    obtain ⟨hg₂, hu₂⟩ := h₂ (hg₁ ▸ ht)
    exact ⟨hg₂.trans hg₁, fun j hj => (hu₂ j hj).trans (hu₁ j hj)⟩
  misc _ _ := .same rfl fun _ _ => rfl

instance : SendsTo (Kept S i) n := ⟨fun _ _ => .same rfl fun _ _ => rfl⟩

instance : Still (Kept S i) where
  drops _ _ := .same rfl fun _ _ => rfl
  toPlain _ := inferInstance
  toUOpts _ := ⟨fun _ _ => .modU fun _ => ⟨rfl, rfl⟩⟩

instance {key : String} : DbTo (Kept S i) key := ⟨fun _ _ _ => .same rfl fun _ _ => rfl⟩
instance {v : Bytes} : NickTo (Kept S i) n v := ⟨fun _ => .modU fun _ => ⟨rfl, rfl⟩⟩
instance {v : Bytes} : RealTo (Kept S i) n v := ⟨fun _ => .modU fun _ => ⟨rfl, rfl⟩⟩
instance : IdentTo (Kept S i) n := ⟨fun _ _ _ _ => .modU fun _ => ⟨rfl, rfl⟩⟩

omit [Env] in
theorem Kept.gOptsAt (hk : k ≠ i) : GOptsAt (Kept S i) k := ⟨fun _ _ => .modG hk⟩

omit [Env] in
theorem Kept.modAt (hk : k ≠ i) (v : Int) : ModAt (Kept S i) k v := ⟨fun _ => .modG hk⟩

omit [Env] in
theorem Kept.missAt (hk : k ≠ i) : MissAt (Kept S i) k := ⟨fun _ _ _ => .modG hk⟩

/-- A group that waits for nobody is given back to nobody. -/
instance : Within (Kept S i) (regainMods n) := by
  unfold regainMods
  refine Within.each fun k _ => ⟨fun w => ?_⟩
  by_cases hk : k = i
  · subst hk
    intro ht
    have hskip {x : W Unit} {P : Prop} [Decidable P] :
        wp (whenever ((w.gTab k).modtimeout > 0 ∧ P) x)
          (fun _ w' => w'.gTab k = w.gTab k ∧ ∀ j, S j → w'.seats j = w.seats j)
          (getG k (getU n w).2).2 :=
      wp_whenever (fun hc => absurd hc.1 (by omega)) fun _ => ⟨rfl, fun _ _ => rfl⟩
    exact hskip
  · have := Kept.missAt (S := S) hk
    have := Kept.modAt (S := S) hk n
    exact Within.within (R := Kept S i) w

/-- A rename of another group rewrites the entries of connections only. -/
theorem setName_kept (hS : ∀ j, S j → maxRealUsers ≤ j) (hk : k ≠ i) (name : Bytes) :
    Within (Kept S i) (setName n k name) where
  within w := by
    rcases setName_cases n k name w with hS' | ⟨-, -, hren⟩
    · exact .same (congrFun hS'.groups i) fun j _ => congrFun hS'.seats j
    · refine .same (by rw [hren.groups, Function.update_of_ne hk.symm]) fun j hj => ?_
      rw [hren.seats, if_neg]
      rintro ⟨hreal, -⟩
      have := (mem_slots.mp hreal).2
      have := hS j hj
      omega

/-- A group change leaves the entry of a group alone that its mover is not in, or not alone in. -/
theorem Changes.kept {target : Bytes} {ok : Bool} (hc : Changes n target w ok w') (hn : ¬ S n)
    (hi : 0 ≤ i) (hname : (w.gTab i).name ≠ []) (hstay : groupOf w n ≠ i ∨
      ∃ j ∈ slots Env.maxUsers, j ≠ n ∧ strcaseEq (w.uTab j).group (w.gTab i).name) :
    Kept S i w w' := by
  have hseats {w₁ w₂ : World} {ngi ogi : Int} (hm : Moved n ngi ogi w₁ w₂) (j : Int) (hj : S j) :
      w₂.seats j = w₁.seats j := by
    have hjn : j ≠ n := fun heq => hn (heq ▸ hj)
    exact Prod.ext (congrArg UserId.group (hm.users j hjn)) (congrArg UserId.login (hm.users j hjn))
  have hcreated {w₁ : World} {name : Bytes} (hfree : 0 ≤ findEmptyGroup w)
      (hcr : Created n (findEmptyGroup w) name w w₁) : Kept S i w w₁ := by
    have hne : i ≠ findEmptyGroup w := fun heq => hname (heq ▸ (findEmptyGroup_nonneg hfree).2)
    exact .same (hcr.others i hne) fun j _ =>
      Prod.ext (congrArg UserId.group (hcr.users j)) (congrArg UserId.login (hcr.users j))
  have hmoved {w₁ : World} {ngi : Int} (hm : Moved n ngi (groupOf w n) w₁ w')
      (hg : w₁.gTab i = w.gTab i) (hu : ∀ j, (w₁.uTab j).toUserId = (w.uTab j).toUserId) :
      Kept S i w₁ w' := by
    refine .same ?_ (hseats hm)
    by_cases hgi : i = groupOf w n
    · obtain ⟨j, hj, hjn, hin⟩ := hstay.resolve_left fun hne => hne hgi.symm
      -- somebody stays, so the entry is not cleared
      obtain ⟨hclear, hor⟩ := hm.oldGroup (hgi ▸ hi) (by rwa [← hgi, hg])
      refine hgi ▸ hor.resolve_right fun hcl => hclear.mp hcl j hj ?_
      rw [congrArg UserId.group (hm.users j hjn), congrArg UserId.group (hu j), ← hgi, hg]
      exact hin
    · exact hm.otherGroups hgi
  cases hc with
  | refused _ hS => exact .same (congrFun hS.groups i) fun j _ => congrFun hS.seats j
  | joined _ _ _ _ _ hm => exact hmoved hm rfl fun _ => rfl
  | opened _ _ _ hfree _ hcr hm =>
    have hne : i ≠ findEmptyGroup w := fun heq => hname (heq ▸ (findEmptyGroup_nonneg hfree).2)
    exact trans_of (Kept S i) (hcreated hfree hcr) (hmoved hm (hcr.others i hne) hcr.users)
  | reopened _ _ _ hfree _ hcr => exact hcreated hfree hcr

/-! ## §3 — packets -/

/-- Group `i` waits for nobody, and somebody besides `n` is in it. -/
structure Peopled (w : World) (n i : Int) : Prop where
  slot : i ∈ slots maxGroups
  named : (w.gTab i).name ≠ []
  timeout : (w.gTab i).modtimeout = 0
  member : ∃ j ∈ slots Env.maxUsers, j ≠ n ∧ strcaseEq (w.uTab j).group (w.gTab i).name

/-- Moreover it has a moderator other than `n`, is not public, and `n` is not the administrator. -/
structure Foreign (w : World) (n i : Int) : Prop extends Peopled w n i where
  auth : ¬ checkAuth w n
  moderated : 0 ≤ (w.gTab i).mod
  other : (w.gTab i).mod ≠ n
  control : (w.gTab i).control ≠ .pub

theorem Peopled.still (h : Peopled w n i) (hS : Stilly w w') : Peopled w' n i := by
  obtain ⟨j, hj, hjn, hin⟩ := h.member
  refine ⟨h.slot, ?_, ?_, j, hj, hjn, ?_⟩
  · rw [hS.groups]
    exact h.named
  · rw [hS.groups]
    exact h.timeout
  · rwa [congrArg UserId.group (hS.users j), hS.groups]

theorem Foreign.still (h : Foreign w n i) (hS : Stilly w w') : Foreign w' n i := by
  refine ⟨h.toPeopled.still hS, ?_, ?_, ?_, ?_⟩
  · rw [hS.calmly.checkAuth]
    exact h.auth
  · rw [hS.groups]
    exact h.moderated
  · rw [hS.groups]
    exact h.other
  · rw [hS.groups]
    exact h.control

theorem Foreign.at {d : Daemon} (h : Foreign d.w n i) (sys : Sys) : Foreign (d.at sys).w n i :=
  ⟨⟨h.slot, h.named, h.timeout, h.member⟩, h.auth, h.moderated, h.other, h.control⟩

/-- Whoever may tend his group is in another one. -/
theorem Foreign.not_mayTend (h : Foreign w n i) (ht : mayTend w n) : groupOf w n ≠ i := by
  intro heq
  rcases ht with ha | hm | hneg | hpub
  · exact h.auth ha
  · exact h.other (heq ▸ hm)
  · have := h.moderated
    rw [← heq] at this
    omega
  · exact h.control (heq ▸ hpub)

/-- The seats in `S` are no connection's, they are in the group and nobody else may rule it. -/
structure Kept.Seats (S : Int → Prop) (w : World) (n i : Int) : Prop where
  unreal : ∀ j, S j → maxRealUsers ≤ j
  sender : ¬ S n
  group : ∀ j, S j → groupOf w j = i

/-- The last command of a packet. -/
theorem runCommand_kept {d : Daemon} (h : Foreign d.w n i) (hS : Kept.Seats S d.w n i) (argc : Nat)
    (c : Command) : Kept S i d.w (runCommand noCmd n argc c d).2.w := by
  have hi := (mem_slots.mp h.slot).1
  apply runCommand_guarded (R := Kept S i) (Q := Kept S i d.w)
  case hRQ => exact fun _ h => h
  case hmisc => exact fun w' m hk => trans_of (Kept S i) hk (Base.misc w' m)
  case hopts => exact fun ht => Kept.gOptsAt (h.not_mayTend ht)
  case hname => exact fun ht a => setName_kept hS.unreal (h.not_mayTend ht) a
  case hmod => exact fun hr v => Kept.modAt (h.not_mayTend hr.mayTend) v
  case hchange =>
    intro t b
    exact (sChange_cases n t b d.w).kept hS.sender hi h.named (.inr h.member)
  case hboot =>
    -- whoever is booted is in the caller's group
    intro hr dest _ _ hsame w₁ hk hC
    have hgroup : groupOf d.w dest ≠ i := hsame ▸ h.not_mayTend hr.mayTend
    have hkept := (sChange_cases dest bootGroup false
      (modMisc (fun m => { m with isBooting := true }) w₁).2).kept (S := S) (i := i)
      (fun hdest => hgroup (hS.group dest hdest)) hi
      (by rw [show (modMisc _ w₁).2.gTab = w₁.gTab from rfl, (hk h.timeout).1]; exact h.named)
      (.inl fun heq => hgroup ((hC.groupOf dest).symm.trans heq))
    exact trans_of (Kept S i) hk (trans_of (Kept S i) hkept (Base.misc _ _))
  case hexclude => exact fun _ => Within.within (R := Kept S i) d.w

/-- An open message, and the boot of a spammer. -/
theorem openmsg_kept {d : Daemon} {text : Bytes} (h : Peopled d.w n i)
    (hn : (d.w.uTab n).group = str "1" → ¬ S n) : Kept S i d.w (openmsg n text d).2.w := by
  refine openmsg_post (R := Kept S i) (Q := Kept S i d.w) (fun _ h₁ => h₁.1)
    (fun w₁ body h₁ => trans_of (Kept S i) h₁.1 (Within.within w₁)) fun hone w₁ w₂ h₁ h₂ => ?_
  have hp := h.still h₁.2
  have hchange := (sChange_cases n (str "ICB") false
    (modMisc (fun m => { m with isBooting := true }) w₁).2).kept (S := S) (hn hone)
    (mem_slots.mp h.slot).1 hp.named (.inr hp.member)
  have hboot : Kept S i w₁ (bootTo n (str "ICB") w₁).2 :=
    trans_of (Kept S i) hchange (Base.misc _ _)
  have hk : Kept S i d.w w₂ := trans_of (Kept S i) h₁.1 (trans_of (Kept S i) hboot h₂.1)
  exact ⟨hk, fun body => trans_of (Kept S i) hk (Within.within w₂)⟩

/-- **A packet of somebody who is logged in leaves a foreign group alone.** -/
theorem dispatch_kept {d : Daemon} {contents : Bytes} (hn : inUsers n)
    (hlogin : (d.w.uTab n).login = .complete) (hout : (d.w.uTab (-1)).login ≠ .complete)
    (h : Foreign d.w n i) (hS : Kept.Seats S d.w n i) :
    Kept S i d.w (dispatch n contents d).2.w := by
  have hkeep {x : M Unit} [Within (OnWorld (Kept S i)) x] : wp x (fun _ d' => Kept S i d.w d'.w) d :=
    Within.within (R := OnWorld (Kept S i)) d
  show wp (dispatch n contents) (fun _ d' => Kept S i d.w d'.w) d
  refine wp_ite (fun htype => ?_) fun _ => ?_
  · refine loginCase_rel (R := Kept S i) htype fun hno => ?_
    exact absurd (hlogin.symm.trans hno.2.2.1) (by decide)
  refine wp_ite (fun _ => openmsg_kept h.toPeopled fun _ => hS.sender) fun _ => wp_ite (fun _ => ?_) fun _ => ?_
  · refine cmdmsg_last (R := Kept S i) hn hout fun d' _ hS' _ _ => ?_
    refine runCommand_kept (h.still hS') ⟨hS.unreal, hS.sender, fun j hj => ?_⟩ _ _
    rw [hS'.calmly.groupOf]
    exact hS.group j hj
  · exact wp_ite (fun _ => hkeep) fun _ => wp_ite (fun _ => hkeep) fun _ => hkeep

end

/-- **A moderator's group is his own.** In every state reached, a packet of a user who is logged in and
is neither the administrator nor the moderator leaves the whole entry of a group as it is, if the
group is not public, has a moderator and a member besides the user and waits for nobody. -/
theorem foreign_group_kept {h : Host} {sys : Sys} {n i : Int} (contents : Bytes)
    (hr : Reachable (fun _ _ _ => True) h) (hlogin : (h.w.uTab n).login = .complete)
    (hforeign : Foreign h.w n i) :
    (h.after sys (.packet n contents)).w.gTab i = h.w.gTab i := by
  obtain ⟨hinside, -⟩ := hr.inside
  have hn : inUsers n := hinside n (by rw [hlogin]; decide)
  have hout : (h.w.uTab (-1)).login ≠ .complete := fun hc =>
    absurd (hinside (-1) (by rw [hc]; decide)) (by simp [inUsers])
  have hkept : Kept (fun _ => False) i h.w (h.after sys (.packet n contents)).w :=
    dispatch_kept (d := h.toDaemon.at sys) hn hlogin hout (hforeign.at sys) ⟨fun _ => False.elim, id, fun _ => False.elim⟩
  exact (hkept hforeign.timeout).1

end

section
attribute [local instance] smallEnv

/-- Two clients in a group of the first. -/
def twoInGroup : List Event :=
  [.connect 1 false none, .packet 1 (loginPkt "one" "first" "x" ""),
   .connect 2 false none, .packet 2 (loginPkt "two" "second" "x" "")]

/-- The second of them cannot change its topic. -/
theorem foreign_group_kept_topic :
    let h := Host.run {} { w := startup {} fun _ => none } twoInGroup
    (h.w.gTab 1).mod = 1 ∧
      (h.after {} (.packet 2 (cmdPkt "topic" "mine"))).w.gTab 1 = h.w.gTab 1 := by
  intro h
  obtain ⟨hr, hlogin, hauth, hname, hmod, htime, hcontrol, hmember⟩ := Reachable.leads_run
    (P := fun _ _ _ => True) (Q := fun h => (h.w.uTab 2).login = .complete ∧ ¬ checkAuth h.w 2 ∧
      (h.w.gTab 1).name ≠ [] ∧ (h.w.gTab 1).mod = 1 ∧ (h.w.gTab 1).modtimeout = 0 ∧
      (h.w.gTab 1).control ≠ .pub ∧ strcaseEq (h.w.uTab 1).group (h.w.gTab 1).name)
    (.start {} fun _ => none) (rfl : h = Host.run {} _ twoInGroup) (by decide +kernel)
  refine ⟨hmod, foreign_group_kept _ hr hlogin ?_⟩
  exact ⟨⟨mem_slots.mpr (by decide), hname, htime, 1, mem_slots.mpr (by decide), by decide, hmember⟩,
    hauth, by rw [hmod]; decide, by rw [hmod]; decide, hcontrol⟩

end

end Icbd.Server
