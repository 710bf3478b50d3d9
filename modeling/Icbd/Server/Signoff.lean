/-
# Icbd.Server.Signoff — the loop at the end of `s_lost_user`.

The groups of a moderator who is gone are given away one after the other until `check_mods` finds no more.
A group without members is left as it is and found again, for ever: the loop rests on every group having a
member. That is the agreement of the two tables, and it is kept up to the moment the loop is entered.
-/
import Icbd.Server.Moderator
import Icbd.Server.Tables

-- every bind doubles the size of the search's argument
set_option synthInstance.maxSize 1000000000000000000000000000000000000000000000000
set_option synthInstance.maxHeartbeats 200000

namespace Icbd.Server

open Icbd.Lib

section
variable [Env]

/-! ## §1 — the loop -/

/-- One turn of the loop. -/
def lostTurn (n : Int) (wasRegistered : Bool) (name : Bytes) (w : World) : World :=
  (whenever (countUsersInGroup w (w.gTab (checkMods w n)).name > 0)
    (lostMod (checkMods w n) wasRegistered name) w).2

/-- `while ((was_mod = check_mods(n)) != -1)`, in `k` turns. -/
def ModLoop (n : Int) (wasRegistered : Bool) (name : Bytes) : Nat → World → World → Prop :=
  Loop (fun w => checkMods w n ≠ -1) (lostTurn n wasRegistered name)

/-- What `s_lost_user` does for somebody who was logged in before it comes to the loop. -/
def untilLoop (n : Int) : W Unit := do
  let w ← getW
  let u ← getU n
  let group := u.group.take maxGroupLen
  notifyOff n
  clearUserItem n
  leaveGroup (findGroup w group) group
    (fullId u ++ (if w.sKill n > 0 then str " has been disconnected." else str " has signed off."))

section
variable {n : Int} {wasRegistered : Bool} {name : Bytes} {k : Nat} {w w' : World}

/-- With turns enough the bounded loop is the loop. -/
theorem ModLoop.lostMods_eq (h : ModLoop n wasRegistered name k w w') {fuel : Nat} (hk : k < fuel) :
    lostMods n wasRegistered name fuel w = ((), w') := by
  obtain ⟨fuel, rfl⟩ : ∃ m, fuel = m + 1 := ⟨fuel - 1, by omega⟩
  unfold ModLoop at h
  induction h generalizing fuel with
  | @done w hc =>
    show whenever (checkMods w n ≠ -1) _ w = ((), w)
    rw [whenever_neg hc]
    rfl
  | @turn k w w' hc hloop ih =>
    obtain ⟨fuel, rfl⟩ : ∃ m, fuel = m + 1 := ⟨fuel - 1, by omega⟩
    have hnext := ih fuel (by omega)
    show whenever (checkMods w n ≠ -1) _ w = ((), w')
    rw [whenever_pos hc]
    exact hnext

/-- A group that has nobody left in it is found again and again. -/
theorem ModLoop.stuck (hmod : checkMods w n ≠ -1)
    (hempty : countUsersInGroup w (w.gTab (checkMods w n)).name = 0) :
    ¬ ModLoop n wasRegistered name k w w' := by
  refine Loop.stuck hmod ?_
  rw [lostTurn, whenever_neg (by omega)]
  rfl

theorem sLostUser_eq (hreal : n < maxRealUsers) (hlogin : (w.uTab n).login ≠ .no)
    (hgroup : 0 ≤ findGroup w ((w.uTab n).group.take maxGroupLen)) :
    sLostUser n w = lostMods n ((w.uTab n).realname ≠ []) ((w.uTab n).nickname.take maxNickLen)
      (maxGroups + 1) (untilLoop n w).2 := by
  unfold sLostUser
  simp only [bind_apply]
  rw [if_neg (by omega), if_neg (show ¬ (getU n (getW w).2).1.login = .no from hlogin)]
  simp only [bind_apply]
  rw [whenever_pos (show findGroup (getW w).1 ((getU n (getW w).2).1.group.take maxGroupLen) ≥ 0 from hgroup)]
  rfl

/-! ## §2 — a turn -/

/-- How many groups a slot moderates. -/
def moderated (n : Int) (w : World) : Nat := (slots maxGroups).countP fun i => (w.gTab i).mod = n

/-- Somebody is gone, and the tables agree. -/
def Departed (n : Int) (w : World) : Prop := Agreed w.seats w.gTab ∧ (w.uTab n).login = .no

omit [Env] in
theorem checkMods_spec (hmod : checkMods w n ≠ -1) :
    checkMods w n ∈ slots maxGroups ∧ (w.gTab (checkMods w n)).mod = n := by
  obtain ⟨hm, hp⟩ | ⟨hnone, -⟩ := firstSlot_spec (slots maxGroups) fun i => (w.gTab i).mod = n
  · exact ⟨hm, of_decide_eq_true hp⟩
  · exact absurd hnone hmod

omit [Env] in
theorem checkMods_none (h : checkMods w n = -1) : ∀ i ∈ slots maxGroups, (w.gTab i).mod ≠ n := by
  intro i hi hin
  obtain ⟨hm, -⟩ | ⟨-, hnone⟩ := firstSlot_spec (slots maxGroups) fun i => (w.gTab i).mod = n
  · have := (mem_slots.mp hm).1
    rw [checkMods] at h
    omega
  · exact hnone i hi (decide_eq_true hin)

/-- A moderated group has somebody left in it. -/
theorem Departed.left (h : Departed n w) (hn : 0 ≤ n) (hmod : checkMods w n ≠ -1) :
    countUsersInGroup w (w.gTab (checkMods w n)).name > 0 := by
  obtain ⟨hi, hin⟩ := checkMods_spec hmod
  have hnamed : (w.gTab (checkMods w n)).name ≠ [] := by
    intro hnil
    have hcleared := h.1.cleared _ hi hnil
    rw [hcleared] at hin
    have hnone : (-1 : Int) = n := hin
    omega
  obtain ⟨j, hj, hjoin⟩ := h.1.member _ hi hmod hnamed
  by_contra hzero
  exact (countUsersInGroup_eq_zero hnamed).mp (by omega) j hj hjoin

/-- What giving a group away comes to: somebody else is its moderator, and no other group has changed. -/
structure Given (n i : Int) (w w' : World) : Prop where
  away : (w'.gTab i).mod ≠ n
  others : ∀ j, j ≠ i → (w'.gTab j).mod = (w.gTab j).mod
  gone : (w'.uTab n).login = .no

omit [Env] in
/-- The moderator is written behind some packets. -/
theorem setMod_given {i v : Int} (hv : v ≠ n) (hgone : (w.uTab n).login = .no) (h : Stilly w w') :
    Given n i w (setMod i v w').2 := by
  refine ⟨?_, fun j hj => ?_, ?_⟩
  · simpa [setMod, World.modG] using hv
  · simp [setMod, World.modG, Function.update_of_ne hj, h.groups]
  · show (w'.uTab n).login = .no
    rw [h.calmly.login, hgone]

variable (wasRegistered name) in
theorem lostMod_given (i : Int) (hn : 0 ≤ n) (hgone : (w.uTab n).login = .no) :
    wp (lostMod i wasRegistered name) (fun _ w' => Given n i w w') w := by
  have hget : Stilly w (getG i w).2 := Within.within w
  refine wp_bind (wp_getW (wp_bind (wp_getG (wp_ite (fun _ => ?_) fun _ => ?_))))
  · refine wp_bind (Within.wp Stilly fun _ w₁ h₁ => wp_bind ?_)
    have hset := setMod_given (i := i) (show (-1 : Int) ≠ n by omega) hgone (trans_of Stilly hget h₁)
    refine ⟨?_, fun j hj => ?_, hset.gone⟩
    · simpa [setMissing, World.modG] using hset.away
    · rw [← hset.others j hj]
      simp [setMissing, World.modG, Function.update_of_ne hj]
  · have hnew : leastIdle w (isMember w i) ≠ n := by
      rintro rfl
      rcases leastIdle_spec w (isMember w i) with hnone | hmember
      · omega
      · rw [isMember_complete hmember] at hgone
        cases hgone
    refine wp_bind (Within.wp Stilly fun _ w₁ h₁ => wp_after ?_)
    have hset := setMod_given (i := i) hnew hgone (trans_of Stilly hget h₁)
    refine Within.wp Stilly fun _ w₂ h₂ => ⟨?_, fun j hj => ?_, ?_⟩
    · rw [h₂.groups]
      exact hset.away
    · rw [h₂.groups]
      exact hset.others j hj
    · rw [h₂.calmly.login]
      exact hset.gone

omit [Env] in
/-- A list in which one entry stops counting. -/
theorem countP_lt {xs : List Int} {p q : Int → Bool} {i : Int} (hi : i ∈ xs) (hp : p i = true) (hq : q i = false)
    (hle : ∀ j, q j = true → p j = true) : xs.countP q < xs.countP p := by
  obtain ⟨s, t, rfl⟩ := List.append_of_mem hi
  have hs : s.countP q ≤ s.countP p := List.countP_mono_left fun j _ => hle j
  have ht : t.countP q ≤ t.countP p := List.countP_mono_left fun j _ => hle j
  rw [List.countP_append, List.countP_append, List.countP_cons_of_pos hp,
    List.countP_cons_of_neg (by rw [hq]; decide)]
  omega

variable (wasRegistered name) in
/-- **A turn** gives one group away and keeps the tables in agreement. -/
theorem Departed.turn (h : Departed n w) (hn : 0 ≤ n) (hmod : checkMods w n ≠ -1) :
    Departed n (lostTurn n wasRegistered name w) ∧
      moderated n (lostTurn n wasRegistered name w) < moderated n w := by
  obtain ⟨hi, hin⟩ := checkMods_spec hmod
  have hleft := h.left hn hmod
  have hgiven := lostMod_given wasRegistered name (checkMods w n) hn h.2
  have hturn : lostTurn n wasRegistered name w = (lostMod (checkMods w n) wasRegistered name w).2 := by
    rw [lostTurn, whenever_pos hleft]
  rw [hturn]
  refine ⟨⟨?_, hgiven.gone⟩, ?_⟩
  · have ht : Tended Agreed (checkMods w n) w.seats w.gTab := tended_of_mod h.1 (by rw [hin]; omega)
    exact (Within.within (R := KeepsTables (Tended Agreed (checkMods w n)))
      (x := lostMod (checkMods w n) wasRegistered name) w ht).1
  · refine countP_lt hi (decide_eq_true hin) (decide_eq_false hgiven.away) fun j hj => ?_
    by_cases hji : j = checkMods w n
    · subst hji
      exact decide_eq_true hin
    · rwa [← hgiven.others j hji]

variable (wasRegistered name) in
/-- **The loop ends** when the tables agree as it is entered, after at most one turn for every group. -/
theorem Departed.loop_ends (h : Departed n w) (hn : 0 ≤ n) :
    ∃ k w', ModLoop n wasRegistered name k w w' ∧ k ≤ maxGroups ∧ ∀ i ∈ slots maxGroups, (w'.gTab i).mod ≠ n := by
  obtain ⟨k, w', hloop, -, hk⟩ := Loop.ends (c := fun w => checkMods w n ≠ -1) (moderated n)
    (fun w hw hc => hw.turn wasRegistered name hn hc) h
  have hmax : moderated n w ≤ maxGroups := by
    refine Nat.le_trans List.countP_le_length ?_
    simp [slots]
  exact ⟨k, w', hloop, by omega, checkMods_none (not_not.mp hloop.exit)⟩

/-- **As the loop is entered** the tables agree: the group of the lost user has gone with him if he was the
last. -/
theorem untilLoop_gone (h : Agreed w.seats w.gTab) (hn : n ∈ slots maxRealUsers) (hgroup : 0 ≤ groupOf w n) :
    Departed n (untilLoop n w).2 := by
  show wp (untilLoop n) (fun _ w' => Departed n w') w
  refine wp_bind (wp_getW (wp_bind (wp_getU (wp_bind (Within.wp Stilly fun _ w₁ h₁ => ?_)))))
  have h₁ : Stilly w w₁ := trans_of Stilly (Within.within (x := getU n) w) h₁
  refine wp_bind (wp_mono (clearUserItem_but h (real_mem_users hn) h₁) fun _ w₂ ⟨hbut, h₂, hgone⟩ => ?_)
  obtain ⟨-, heq⟩ := findGroup_nonneg hgroup
  have hname : (w₂.gTab (groupOf w n)).name ≠ [] := h₂ ▸ findGroup_named hgroup
  rw [h.take_group hn]
  refine wp_mono (leaveGroup_agreed hbut hname (h₂ ▸ heq)) fun _ w₃ ⟨hA, hseats⟩ => ⟨hA, ?_⟩
  have hlogin := congrArg Prod.snd (congrFun hseats n)
  rw [hgone] at hlogin
  exact hlogin

end

/-! ## §3 — sign-off -/

/-- **Sign-off ends.** When a logged-in connection is lost, in any state a server reaches on which nobody
has given commands from the automatic user's slot, `s_lost_user` comes to its loop, the loop ends, and no
group has the lost user for a moderator. -/
theorem signoff_ends {h : Host} (hr : Reachable NoServerCommand h) {n : Int} (hn : n ∈ slots maxRealUsers)
    (hlogin : (h.w.uTab n).login = .complete) (sys : Sys) :
    let w := (h.toDaemon.at sys).w
    ∃ k w', ModLoop n ((w.uTab n).realname ≠ []) ((w.uTab n).nickname.take maxNickLen) k (untilLoop n w).2 w' ∧
      (sLostUser n w).2 = w' ∧ ∀ i ∈ slots maxGroups, (w'.gTab i).mod ≠ n := by
  intro w
  obtain ⟨hA, -⟩ : HostAgreed h :=
    hr.invariant (fun sys db => ⟨startup_agreed sys db, nofun⟩) fun _ _ _ hi hp he _ => hostAgreed_step hi hp he
  have hA : Agreed w.seats w.gTab := hA
  have hlogin : (w.uTab n).login = .complete := hlogin
  have hgroup : 0 ≤ groupOf w n := (mem_slots.mp (hA.held hn hlogin).2.1).1
  obtain ⟨hn0, hreal⟩ := mem_slots.mp hn
  obtain ⟨k, w', hloop, hk, hnone⟩ := (untilLoop_gone hA hn hgroup).loop_ends
    ((w.uTab n).realname ≠ []) ((w.uTab n).nickname.take maxNickLen) hn0
  refine ⟨k, w', hloop, ?_, hnone⟩
  have hfound : 0 ≤ findGroup w ((w.uTab n).group.take maxGroupLen) := by
    rw [hA.take_group hn]
    exact hgroup
  rw [sLostUser_eq hreal (by rw [hlogin]; decide) hfound, hloop.lostMods_eq (by omega)]

end

section
attribute [local instance] smallEnv

/-- A moderator leaves his group to somebody else and is lost. -/
def leavesGroup : List Event :=
  [.connect 1 false none, .packet 1 (loginPkt "one" "al" "x" ""), .connect 2 false none,
   .packet 2 (loginPkt "two" "bo" "x" ""), .packet 1 (cmdPkt "g" "y")]

theorem signoff_ends_given :
    let h : Host := Host.run {} { w := startup {} fun _ => none } leavesGroup
    (h.w.gTab 1).mod = 1 ∧ (h.w.gTab 2).mod = 1 ∧
      ∀ i ∈ slots maxGroups, ((sLostUser 1 (h.toDaemon.at {}).w).2.gTab i).mod ≠ 1 := by
  intro h
  obtain ⟨hr, hlogin, hmod⟩ := Reachable.leads_run (P := NoServerCommand)
    (Q := fun h => (h.w.uTab 1).login = .complete ∧ (h.w.gTab 1).mod = 1 ∧ (h.w.gTab 2).mod = 1)
    (.start {} fun _ => none) (rfl : h = Host.run {} _ leavesGroup) (by decide +kernel)
  have hreal : (1 : Int) ∈ slots maxRealUsers := by decide
  obtain ⟨k, w', -, heq, hnone⟩ := signoff_ends hr hreal hlogin {}
  refine ⟨hmod.1, hmod.2, ?_⟩
  rw [heq]
  exact hnone

/-- A client on the slot of the automatic user opens its group to all, passes it on and renames it. -/
def givesAway : List Event :=
  [.connect 1 false none, .packet 1 (loginPkt "one" "al" "x" ""), .connect 3 false none,
   .packet 3 (cmdPkt "status" "p"), .packet 3 (cmdPkt "pass" "al"), .packet 3 (cmdPkt "status" "name y")]

/-- **A sign-off that never ends.** The group has nobody in it and the lost user for its moderator. -/
theorem signoff_hangs : ∃ h : Host, Reachable (fun _ _ _ => True) h ∧ (1 : Int) ∈ slots maxRealUsers ∧
    (h.w.uTab 1).login = .complete ∧
    let w := (h.toDaemon.at {}).w
    ∀ k w', ¬ ModLoop 1 ((w.uTab 1).realname ≠ []) ((w.uTab 1).nickname.take maxNickLen) k
      (untilLoop 1 w).2 w' := by
  have hrun : Host.leads (fun _ _ _ => True) {} (fun h =>
      let w := (untilLoop 1 (h.toDaemon.at {}).w).2
      (h.w.uTab 1).login = .complete ∧ checkMods w 1 ≠ -1 ∧
        countUsersInGroup w (w.gTab (checkMods w 1)).name = 0) { w := startup {} fun _ => none } givesAway := by
    decide +kernel
  obtain ⟨h, hr, hlogin, hmod, hempty⟩ := Reachable.leads (.start {} fun _ => none) hrun
  exact ⟨h, hr, by decide, hlogin, fun k w' => ModLoop.stuck hmod hempty⟩

end

end Icbd.Server
