/-
# Icbd.Server.Boot — when a boot takes effect.

`s_boot` and the idle boot of `s_didpoll` call `s_change` with `is_booting` set and do not look at its
answer. The flag opens the door of a restricted group and nothing else: a full group table, a size
limit on a group that carries the boot group's name, and a user who is in that group already still
stop the change.
-/
import Icbd.Server.Change
import Icbd.Server.Moderator

-- every bind doubles the size of the search's argument
set_option synthInstance.maxSize 1000000000000000000000000000000000000000000000000
set_option synthInstance.maxHeartbeats 200000

namespace Icbd.Server

open Icbd.Lib

section
variable [Env]

/-! ## §1 — the change inside a boot -/

/-- The groups a boot leads to. -/
def isRefuge (target : Bytes) : Prop := target = bootGroup ∨ target = idleGroup

/-- There is room for `t` in the group: it has to be opened and there is a slot, or it is there, is
not the one `t` is in, and is not full for him. -/
def roomFor (w : World) (t : Int) (target : Bytes) : Bool :=
  if findGroup w target < 0 then 0 ≤ findEmptyGroup w
  else findGroup w target ≠ groupOf w t ∧ ¬ isFull w t (findGroup w target)

/-- `t` is in this group, and not in the one he was in. -/
def Removed (w : World) (t : Int) (target : Bytes) (w' : World) : Prop :=
  strcaseEq (w'.uTab t).group target ∧ ¬ strcaseEq (w'.uTab t).group (w.uTab t).group

section
variable {t : Int} {target : Bytes} {w w' : World}

omit [Env] in
/-- The name of such a group passes the filter as it is. -/
theorem isRefuge.name (h : isRefuge target) : targetName target = target ∧ target ≠ [] := by
  rcases h with rfl | rfl <;> decide

/-- It is no `@nick`. -/
theorem isRefuge.followAt (h : isRefuge target) :
    followAt w (Env.maxUsers + 1) target = some target := by
  rcases h with rfl | rfl <;> rfl

omit [Env] in
/-- A user whose group has an entry is in the group found under a name like his group's. -/
theorem findGroup_of_own (hown : 0 ≤ groupOf w t) (heq : strcaseEq target (w.uTab t).group) :
    findGroup w target = groupOf w t := by
  have hne : target ≠ [] := by
    rintro rfl
    rw [strcaseEq_comm] at heq
    exact ne_nil_of_findGroup hown (strcaseEq_nil heq)
  have hsame (name : Bytes) : strcaseEq name target = strcaseEq name (w.uTab t).group := by
    simp only [strcaseEq, beq_iff_eq] at heq ⊢
    rw [heq]
  simp only [groupOf, findGroup, hne, ne_nil_of_findGroup hown, ↓reduceIte, hsame]

/-- Whoever was moved has been removed. -/
theorem Changes.removed (href : isRefuge target) (hown : 0 ≤ groupOf w t)
    (h : Changes t target w true w') : Removed w t target w' := by
  have hmoved : strcaseEq (w'.uTab t).group target ∧ findGroup w target ≠ groupOf w t := by
    cases h with
    | joined ht hfound _ _ hother hmoved =>
      obtain rfl := Option.some.inj (href.followAt.symm.trans ht)
      rw [href.name.1] at hfound hother hmoved
      refine ⟨?_, hother⟩
      rw [show (w'.uTab t).group = _ from congrArg UserId.group hmoved.mover]
      exact (findGroup_nonneg hfound).2
    | opened ht _ hnew _ _ hcreated hmoved =>
      obtain rfl := Option.some.inj (href.followAt.symm.trans ht)
      rw [href.name.1] at hnew hcreated
      refine ⟨?_, by omega⟩
      rw [show (w'.uTab t).group = _ from congrArg UserId.group hmoved.mover, hcreated.name]
      exact strcaseEq_refl target
  refine ⟨hmoved.1, fun hsame => hmoved.2 (findGroup_of_own hown ?_)⟩
  exact strcaseEq_trans (strcaseEq_comm _ _ ▸ hmoved.1) hsame

/-- A refused change leaves everybody where he is. -/
theorem Changes.not_removed (h : Changes t target w false w') : ¬ Removed w t target w' := by
  have hstays : (w'.uTab t).group = (w.uTab t).group := by
    cases h with
    | refused _ hS => exact congrArg UserId.group (hS.users t)
    | reopened _ _ _ _ _ hcreated => exact congrArg UserId.group (hcreated.users t)
  rintro ⟨-, hother⟩
  exact hother (hstays ▸ strcaseEq_refl _)

/-- The change succeeds where there is room. -/
theorem sChange_booting (href : isRefuge target) (hown : 0 ≤ groupOf w t) (hboot : w.isBooting = true) :
    (sChange t target false w).1 = true ↔ roomFor w t target := by
  obtain ⟨hname, hne⟩ := href.name
  constructor
  · intro hok
    have hcases := sChange_cases t target false w
    rw [hok] at hcases
    cases hcases with
    | joined ht hfound _ hfull hother _ =>
      obtain rfl := Option.some.inj (href.followAt.symm.trans ht)
      rw [hname] at hfound hfull hother
      simp [roomFor, not_lt.mpr hfound, hother, hfull]
    | opened ht _ hnew hfree _ _ _ =>
      obtain rfl := Option.some.inj (href.followAt.symm.trans ht)
      rw [hname] at hnew
      simp [roomFor, hnew, hfree]
  · intro hroom
    show wp (sChange t target false) (fun ok _ => ok = true) w
    have hresolve : resolveAt t (Env.maxUsers + 1) target = pure (some target) := by
      rcases href with rfl | rfl <;> rfl
    unfold sChange
    rw [hresolve, pure_bind]
    show wp (enterGroup t target _) _ w
    refine wp_bind (wp_getW (wp_ite (fun h => absurd h hne) fun _ => ?_))
    rw [show filtergroupname (parseTarget target).1 = target from hname, if_neg hne]
    by_cases hnew : findGroup w target < 0
    · have hfree : 0 ≤ findEmptyGroup w := by simpa [roomFor, hnew] using hroom
      rw [if_neg fun h => absurd h.2 (by omega), whenever_pos hnew, if_pos hnew]
      refine wp_after ?_
      have hcreated := createGroup_created t (findEmptyGroup w) target (parseTarget target).2 w
      generalize (createGroup t (findEmptyGroup w) target (parseTarget target).2 w).2 = w₁ at hcreated
      refine wp_mono (joinGroup_cases t (findEmptyGroup w) target _ w₁) ?_
      rintro ok w' (⟨rfl, hwhy, -⟩ | ⟨rfl, -⟩)
      · -- a new group is nobody's group yet
        have hsame := hwhy hcreated.mayEnter hcreated.not_isFull
        rw [hcreated.groupOf hne hnew hfree t] at hsame
        split at hsame
        next heq =>
          rw [findGroup_of_own hown heq] at hnew
          omega
        next => exact absurd hsame.symm (groupOf_ne_empty hfree t)
      · rfl
    · obtain ⟨hother, hfull⟩ : findGroup w target ≠ groupOf w t ∧
          ¬ isFull w t (findGroup w target) := by simpa [roomFor, hnew] using hroom
      rw [if_neg fun h => absurd h.1 hnew, whenever_neg hnew, pure_bind, if_neg hnew]
      refine wp_mono (joinGroup_cases t (findGroup w target) target _ w) ?_
      rintro ok w' (⟨rfl, hwhy, -⟩ | ⟨rfl, -⟩)
      · exact absurd (hwhy (by simp [mayEnter, hboot]) hfull) hother
      · rfl

/-- **The group change of a boot** takes effect where there is room. -/
theorem bootTo_removed_iff (href : isRefuge target) (hown : 0 ≤ groupOf w t) :
    Removed w t target (bootTo t target w).2 ↔ roomFor w t target := by
  let w₁ : World := { w with isBooting := true }
  have hcases := sChange_cases t target false w₁
  have hroom : (sChange t target false w₁).1 = true ↔ roomFor w t target :=
    sChange_booting (w := w₁) href hown rfl
  rw [← hroom]
  show Removed w₁ t target (sChange t target false w₁).2 ↔ _
  cases hok : (sChange t target false w₁).1 with
  | true =>
    rw [hok] at hcases
    exact iff_of_true (hcases.removed href hown) rfl
  | false =>
    rw [hok] at hcases
    exact iff_of_false hcases.not_removed Bool.false_ne_true

/-- Nobody else is in the group of `t`. -/
def lastMember (w : World) (t : Int) : Prop :=
  ∀ j ∈ slots Env.maxUsers, j ≠ t → ¬ strcaseEq (w.uTab j).group (w.gTab (groupOf w t)).name

/-- There is room for `t` in the group, and nobody is left behind in his own. -/
def leavesEmpty (w : World) (t : Int) (target : Bytes) : Prop :=
  0 ≤ groupOf w t ∧ roomFor w t target ∧ lastMember w t

/-- A move away from a group. -/
theorem Moved.leaves {ngi ogi : Int} (h : Moved t ngi ogi w w') (hogi : 0 ≤ ogi) (hname : (w.gTab ogi).name ≠ [])
    (hother : ¬ strcaseEq (w.gTab ngi).name (w.gTab ogi).name) :
    ((∀ j ∈ slots Env.maxUsers, j ≠ t → ¬ strcaseEq (w.uTab j).group (w.gTab ogi).name) ↔
      w'.gTab ogi = clearedItem (w.gTab ogi)) ∧
    (w'.gTab ogi = w.gTab ogi ∨ w'.gTab ogi = clearedItem (w.gTab ogi)) := by
  obtain ⟨hempty, hold⟩ := h.oldGroup hogi hname
  refine ⟨?_, hold⟩
  rw [hempty]
  refine forall₂_congr fun j _ => ?_
  by_cases hj : j = t
  · subst hj
    rw [show (w'.uTab j).group = (w.gTab ngi).name from congrArg UserId.group h.mover]
    exact iff_of_true (fun hne => absurd rfl hne) hother
  · rw [show (w'.uTab j).group = (w.uTab j).group from congrArg UserId.group (h.users j hj)]
    exact ⟨fun h => h hj, fun h _ => h⟩

/-- What a change to another group does to the one that is left. -/
theorem Changes.oldGroup (h : Changes t target w true w') (hgi : 0 ≤ groupOf w t) :
    (lastMember w t ↔ w'.gTab (groupOf w t) = clearedItem (w.gTab (groupOf w t))) ∧
      (w'.gTab (groupOf w t) = w.gTab (groupOf w t) ∨
        w'.gTab (groupOf w t) = clearedItem (w.gTab (groupOf w t))) := by
  have hname := findGroup_named hgi
  have hown : strcaseEq (w.gTab (groupOf w t)).name (w.uTab t).group := (findGroup_nonneg hgi).2
  cases h with
  | @joined t' _ _ hfound _ _ hother hmoved =>
    refine hmoved.leaves hgi hname fun heq => hother (findGroup_of_own hgi ?_)
    have hto := (findGroup_nonneg hfound).2
    rw [strcaseEq_comm] at hto
    exact strcaseEq_trans hto (strcaseEq_trans heq hown)
  | @opened t' w₁ _ _ _ _ hfree hneq hcreated hmoved =>
    -- the new group is another slot, and the users have not moved
    have hold : w₁.gTab (groupOf w t) = w.gTab (groupOf w t) := hcreated.others _ (groupOf_ne_empty hfree t)
    have hgroup (j : Int) : (w₁.uTab j).group = (w.uTab j).group := congrArg UserId.group (hcreated.users j)
    rw [lastMember, ← hold]
    simp only [← hgroup]
    refine hmoved.leaves hgi (by rwa [hold]) fun heq => hneq ?_
    rw [hcreated.name, hold] at heq
    exact strcaseEq_trans heq hown

/-- A refused change leaves the group of `t` alone. -/
theorem Changes.sameGroup (h : Changes t target w false w') : w'.gTab (groupOf w t) = w.gTab (groupOf w t) := by
  cases h with
  | refused _ hS => rw [hS.groups]
  | reopened _ _ _ hfree _ hcreated => exact hcreated.others _ (groupOf_ne_empty hfree t)

/-- Nor is anything written for somebody whose group has no entry. -/
theorem Changes.noGroup (h : Changes t target w true w') (hgi : groupOf w t < 0) :
    w'.gTab (groupOf w t) = w.gTab (groupOf w t) := by
  cases h with
  | joined _ _ _ _ _ hmoved => rw [hmoved.groups, if_neg fun h => absurd h.1 (by omega)]
  | opened _ _ _ hfree _ hcreated hmoved =>
    rw [hmoved.groups, if_neg fun h => absurd h.1 (by omega)]
    exact hcreated.others _ (groupOf_ne_empty hfree t)

/-- **The group a booted user leaves** goes with him if nobody is left behind, and stays as it is otherwise. -/
theorem bootTo_oldGroup (target : Bytes) (href : isRefuge target) :
    (leavesEmpty w t target → (bootTo t target w).2.gTab (groupOf w t) = clearedItem (w.gTab (groupOf w t))) ∧
    (¬ leavesEmpty w t target → (bootTo t target w).2.gTab (groupOf w t) = w.gTab (groupOf w t)) := by
  let w₁ : World := { w with isBooting := true }
  have hcases := sChange_cases t target false w₁
  show (_ → (sChange t target false w₁).2.gTab (groupOf w₁ t) = clearedItem (w₁.gTab (groupOf w₁ t))) ∧
    (_ → (sChange t target false w₁).2.gTab (groupOf w₁ t) = w₁.gTab (groupOf w₁ t))
  cases hok : (sChange t target false w₁).1 with
  | false =>
    rw [hok] at hcases
    refine ⟨fun h => ?_, fun _ => hcases.sameGroup⟩
    rw [(sChange_booting (w := w₁) href h.1 rfl).mpr h.2.1] at hok
    cases hok
  | true =>
    rw [hok] at hcases
    by_cases hgi : 0 ≤ groupOf w t
    · obtain ⟨hlast, hor⟩ := hcases.oldGroup hgi
      refine ⟨fun h => hlast.mp h.2.2, fun h => hor.resolve_right fun hclear => h ?_⟩
      exact ⟨hgi, (sChange_booting (w := w₁) href hgi rfl).mp hok, hlast.mpr hclear⟩
    · exact ⟨fun h => absurd h.1 hgi, fun _ => hcases.noGroup (Int.not_le.mp hgi)⟩

/-! ## §2 — before the change -/

/-- Everybody is who he was, and every group has its name, its kind and its size limit. -/
structure SameDoors (w w' : World) : Prop where
  users : ∀ j, (w'.uTab j).toUserId = (w.uTab j).toUserId
  name : ∀ i, (w'.gTab i).name = (w.gTab i).name
  control : ∀ i, (w'.gTab i).control = (w.gTab i).control
  size : ∀ i, (w'.gTab i).size = (w.gTab i).size

omit [Env] in
theorem Stilly.sameDoors (h : Stilly w w') : SameDoors w w' :=
  ⟨h.users, fun i => by rw [h.groups], fun i => by rw [h.groups], fun i => by rw [h.groups]⟩

omit [Env] in
theorem SameDoors.trans {w₁ : World} (h₁ : SameDoors w w₁) (h₂ : SameDoors w₁ w') : SameDoors w w' :=
  ⟨fun j => (h₂.users j).trans (h₁.users j), fun i => (h₂.name i).trans (h₁.name i),
    fun i => (h₂.control i).trans (h₁.control i), fun i => (h₂.size i).trans (h₁.size i)⟩

/-- Is a moderated or controlled group at its size limit? -/
def atLimit (w : World) (gi : Int) : Bool :=
  let g := w.gTab gi
  g.control ≠ .restricted && g.control ≠ .pub && g.size > 0 &&
    ((slots maxRealUsers).filter fun i => strcaseEq (w.uTab i).group g.name).length ≥ g.size

theorem isFull_eq (w : World) (n gi : Int) :
    isFull w n gi = (atLimit w gi && decide ((w.gTab gi).mod ≠ n)) := rfl

theorem SameDoors.atLimit (h : SameDoors w w') (gi : Int) : atLimit w' gi = atLimit w gi := by
  simp only [Server.atLimit, h.control, h.size, h.name, congrArg UserId.group (h.users _)]

omit [Env] in
theorem SameDoors.findGroup (h : SameDoors w w') (name : Bytes) : findGroup w' name = findGroup w name := by
  simp only [Server.findGroup, h.name]

omit [Env] in
theorem SameDoors.groupOf (h : SameDoors w w') (j : Int) : groupOf w' j = groupOf w j := by
  simp only [Server.groupOf, h.findGroup, congrArg UserId.group (h.users j)]

omit [Env] in
theorem SameDoors.findEmptyGroup (h : SameDoors w w') : findEmptyGroup w' = findEmptyGroup w := by
  simp only [Server.findEmptyGroup, h.name]

omit [Env] in
theorem SameDoors.removed (h : SameDoors w w') (w'' : World) :
    Removed w' t target w'' ↔ Removed w t target w'' := by
  unfold Removed
  rw [show (w'.uTab t).group = (w.uTab t).group from congrArg UserId.group (h.users t)]

/-! ## §3 — `s_boot` -/

/-- `s_boot` gets past its checks and `t` is in the caller's group. -/
def Boots (w : World) (n : Int) (arg : Bytes) (t : Int) : Prop :=
  (checkAuth w n ∨ (w.gTab (groupOf w n)).mod = n) ∧ findUser w (getword arg) = t ∧ 0 ≤ t ∧
    ¬ strcaseEq (getword arg) (str "ADMIN") ∧
    (bootText (getTail arg) (w.uTab t).nickname).isOk ∧
    0 ≤ groupOf w n ∧ groupOf w t = groupOf w n

theorem SameDoors.roomFor (h : SameDoors w w') (hmod : ∀ i, (w'.gTab i).mod = (w.gTab i).mod) :
    roomFor w' t target = roomFor w t target := by
  have hfull (gi : Int) : isFull w' t gi = isFull w t gi := by
    rw [isFull_eq, isFull_eq, h.atLimit, hmod]
  simp only [Server.roomFor, h.findGroup, h.findEmptyGroup, h.groupOf, hfull]

theorem SameDoors.leavesEmpty (h : SameDoors w w') (hmod : ∀ i, (w'.gTab i).mod = (w.gTab i).mod) :
    leavesEmpty w' t target ↔ leavesEmpty w t target := by
  have hgroup (j : Int) : (w'.uTab j).group = (w.uTab j).group := congrArg UserId.group (h.users j)
  simp only [Server.leavesEmpty, lastMember, h.groupOf, h.roomFor hmod, h.name, hgroup]

/-- `s_boot` once the message is known. Before the change it takes the target's invitation back and sends. -/
theorem bootUser_before {n : Int} (arg text : Bytes) (hsame : groupOf w t = groupOf w n) :
    ∃ w₁ m, SameDoors w w₁ ∧ (∀ i, (w₁.gTab i).mod = (w.gTab i).mod) ∧
      (w₁.gTab (groupOf w t)).toGroupOpts =
        (cancelNick (w.uTab t).nickname (w.gTab (groupOf w t)).toGroupOpts).2 ∧
      (bootUser n t arg text w).2 = (bootTo t bootGroup w₁).2.withMisc m := by
  show wp (bootUser n t arg text) (fun _ w' => ∃ w₁ m, SameDoors w w₁ ∧
    (∀ i, (w₁.gTab i).mod = (w.gTab i).mod) ∧ (w₁.gTab (groupOf w t)).toGroupOpts =
      (cancelNick (w.uTab t).nickname (w.gTab (groupOf w t)).toGroupOpts).2 ∧
    w' = (bootTo t bootGroup w₁).2.withMisc m) w
  refine wp_bind (wp_getW (wp_bind (wp_getU (wp_bind (wp_getU (wp_bind (wp_getG ?_)))))))
  refine wp_ite (fun _ => wp_after ?_) fun hno => absurd hsame.symm hno
  generalize hw₁ : (modGOpts (groupOf w t) _ (getG (groupOf w t) _).2).2 = w₁
  have hdoors : SameDoors w w₁ ∧ ∀ i, (w₁.gTab i).mod = (w.gTab i).mod := by
    subst hw₁
    refine ⟨⟨fun _ => rfl, fun i => ?_, fun i => ?_, fun i => ?_⟩, fun i => ?_⟩ <;>
      by_cases hi : i = groupOf w t <;>
      simp [modGOpts, getG, getU, World.modG, Function.update, hi, cancelNick]
  have hopts : (w₁.gTab (groupOf w t)).toGroupOpts =
      (cancelNick (w.uTab t).nickname (w.gTab (groupOf w t)).toGroupOpts).2 := by
    subst hw₁
    simp [modGOpts, getG, getU, World.modG]
  refine wp_bind (Within.wp Stilly fun _ w₂ h₂ => wp_bind (Within.wp Stilly fun _ w₃ h₃ => ?_))
  refine wp_bind (Within.wp Stilly fun _ w₄ h₄ => wp_after ?_)
  have hS : Stilly w₁ w₄ := trans_of Stilly h₂ (trans_of Stilly h₃ h₄)
  refine ⟨w₄, _, hdoors.1.trans hS.sameDoors, fun i => ?_, ?_, rfl⟩
  · rw [hS.groups]
    exact hdoors.2 i
  · rw [hS.groups]
    exact hopts

/-- `s_boot` that gets past its checks comes to the change with the tables as they are, an invitation apart. -/
theorem sBoot_before {n : Int} {arg : Bytes} (hauth : checkAuth w n ∨ (w.gTab (groupOf w n)).mod = n)
    (hfind : findUser w (getword arg) = t) (hfound : 0 ≤ t) (hadmin : ¬ strcaseEq (getword arg) (str "ADMIN"))
    (htext : (bootText (getTail arg) (w.uTab t).nickname).isOk) (hsame : groupOf w t = groupOf w n) :
    ∃ w₁ m, SameDoors w w₁ ∧ (∀ i, (w₁.gTab i).mod = (w.gTab i).mod) ∧
      (w₁.gTab (groupOf w t)).toGroupOpts =
        (cancelNick (w.uTab t).nickname (w.gTab (groupOf w t)).toGroupOpts).2 ∧
      (sBoot n arg w).2 = (bootTo t bootGroup w₁).2.withMisc m := by
  subst hfind
  show wp (sBoot n arg) (fun _ w' => ∃ w₁ m, SameDoors w w₁ ∧ (∀ i, (w₁.gTab i).mod = (w.gTab i).mod) ∧
    (w₁.gTab (groupOf w (findUser w (getword arg)))).toGroupOpts =
      (cancelNick (w.uTab (findUser w (getword arg))).nickname
        (w.gTab (groupOf w (findUser w (getword arg)))).toGroupOpts).2 ∧
    w' = (bootTo (findUser w (getword arg)) bootGroup w₁).2.withMisc m) w
  refine wp_bind (wp_getW (wp_bind (wp_getU (wp_bind (wp_getG ?_)))))
  refine wp_ite (fun hno => absurd hauth hno) fun _ => wp_ite (fun hno => absurd hfound (by omega))
    fun _ => wp_ite (fun hno => absurd hno hadmin) fun _ => ?_
  cases hb : bootText (getTail arg) (w.uTab (findUser w (getword arg))).nickname with
  | error e =>
    rw [hb] at htext
    cases htext
  | ok text =>
    obtain ⟨w₁, m, hdoors, hmod, hopts, heq⟩ :=
      bootUser_before (w := (getG (groupOf w n) (getU n w).2).2) arg text hsame
    exact ⟨w₁, m, ⟨hdoors.users, hdoors.name, hdoors.control, hdoors.size⟩, hmod, hopts, heq⟩

/-- **A boot by a moderator** takes effect where there is room in the boot group. -/
theorem sBoot_removed_iff {n : Int} {arg : Bytes} (h : Boots w n arg t) :
    Removed w t bootGroup (sBoot n arg w).2 ↔ roomFor w t bootGroup := by
  obtain ⟨hauth, hfind, hfound, hadmin, htext, hgi, hsame⟩ := h
  obtain ⟨w₁, m, hdoors, hmod, -, heq⟩ := sBoot_before hauth hfind hfound hadmin htext hsame
  rw [heq]
  show Removed w t bootGroup (bootTo t bootGroup w₁).2 ↔ _
  rw [← hdoors.removed, ← hdoors.roomFor hmod]
  refine bootTo_removed_iff (.inl rfl) ?_
  rw [hdoors.groupOf, hsame]
  exact hgi

/-! ## §4 — the idle boot -/

/-- `s_didpoll` finds that `i` has been idle too long. -/
def Idles (w : World) (i : Int) : Prop :=
  (w.uTab i).login = .complete ∧ 0 ≤ groupOf w i ∧ ¬ strcaseEq (w.uTab i).group idleGroup ∧
    (w.gTab (groupOf w i)).idleboot > 0 ∧
    w.sys.now - (w.uTab i).tRecv > (w.gTab (groupOf w i)).idleboot

/-- There is room in the group for the idle. Its moderator has no privilege: the boot has taken his
groups from him before. -/
def idleRoom (w : World) : Bool :=
  if findGroup w idleGroup < 0 then 0 ≤ findEmptyGroup w
  else ¬ atLimit w (findGroup w idleGroup)

omit [Env] in
instance : Posts SameDoors where
  refl _ := ⟨fun _ => rfl, fun _ => rfl, fun _ => rfl, fun _ => rfl⟩
  trans _ _ _ h₁ h₂ := h₁.trans h₂
  misc _ _ := ⟨fun _ => rfl, fun _ => rfl, fun _ => rfl, fun _ => rfl⟩
  toPlain _ := ⟨fun _ _ _ => ⟨fun _ => rfl, fun _ => rfl, fun _ => rfl, fun _ => rfl⟩⟩

instance (v : Int) : ModTo SameDoors v := by
  refine ⟨fun w i => ⟨fun _ => rfl, fun k => ?_, fun k => ?_, fun k => ?_⟩⟩ <;>
    by_cases h : k = i <;> simp [World.modG, Function.update, h]

/-- After his turn the idle user moderates the group no more: he is not one of its members. -/
theorem idleBootMod_resigns {i f : Int} (hi : 0 ≤ i) (hf : strcaseEq (w.gTab f).name idleGroup)
    (hout : ¬ strcaseEq (w.uTab i).group idleGroup) :
    wp (idleBootMod i f) (fun _ w' => (w'.gTab f).mod ≠ i) w := by
  have hkeep {x : W Unit} {w₁ : World} [Within Stilly x] (h : (w₁.gTab f).mod ≠ i) :
      wp x (fun _ w' => (w'.gTab f).mod ≠ i) w₁ :=
    Within.wp Stilly fun _ w₂ hS => by rwa [hS.groups]
  refine wp_bind (wp_getW (wp_bind (wp_getU (wp_bind (wp_getG (wp_whenever (fun _ => wp_after ?_) id))))))
  refine hkeep ?_
  show ((setMod f (leastIdle w (isMember w f)) (getG f (getU i w).2).2).2.gTab f).mod ≠ i
  have hset : ((setMod f (leastIdle w (isMember w f)) (getG f (getU i w).2).2).2.gTab f).mod =
      leastIdle w (isMember w f) := by simp [setMod, World.modG]
  rw [hset]
  rintro rfl
  rcases leastIdle_spec w (isMember w f) with hnone | hmember
  · omega
  · simp only [isMember, Bool.and_eq_true] at hmember
    exact hout (strcaseEq_trans hmember.2 hf)

/-- Other groups' turns do not make him moderator of it. -/
theorem idleBootMod_keeps {i f j : Int} (h : (w.gTab f).mod ≠ i) :
    wp (idleBootMod i j) (fun _ w' => (w'.gTab f).mod ≠ i) w := by
  refine wp_bind (wp_getW (wp_bind (wp_getU (wp_bind (wp_getG (wp_whenever (fun hmod => ?_) fun _ => h))))))
  have hj : f ≠ j := by
    rintro rfl
    exact h hmod
  refine wp_after (Within.wp Stilly fun _ w₂ hS => ?_)
  rw [hS.groups]
  simpa [setMod, World.modG, Function.update_of_ne hj, getG, getU] using h

/-- The loop over the groups he moderates. -/
theorem idleBootMods_resigns {i : Int} (hi : 0 ≤ i) (hout : ¬ strcaseEq (w.uTab i).group idleGroup)
    (hw : SameDoors w w') :
    wp (each (slots maxGroups) (idleBootMod i)) (fun _ t => SameDoors w t ∧
      (0 ≤ findGroup w idleGroup → (t.gTab (findGroup w idleGroup)).mod ≠ i)) w' := by
  by_cases hf : 0 ≤ findGroup w idleGroup
  case neg => exact Within.wp SameDoors fun _ t ht => ⟨hw.trans ht, fun h => absurd h hf⟩
  obtain ⟨hmem, hname⟩ := findGroup_nonneg hf
  have hdoors {t : World} (j : Int) (ht : SameDoors w t) : SameDoors w (idleBootMod i j t).2 :=
    ht.trans (Within.within t)
  refine wp_mono (Q := fun _ t => SameDoors w t ∧ (t.gTab (findGroup w idleGroup)).mod ≠ i)
    (wp_each_of_mem (J := SameDoors w) hmem (fun t ht => ⟨hdoors _ ht, ?_⟩)
      (fun j _ t ht => ⟨hdoors j ht.1, idleBootMod_keeps ht.2⟩) (fun j _ t ht => hdoors j ht) hw)
    fun _ t ht => ⟨ht.1, fun _ => ht.2⟩
  refine idleBootMod_resigns hi (by rwa [ht.name]) ?_
  rwa [show (t.uTab i).group = (w.uTab i).group from congrArg UserId.group (ht.users i)]

/-- **An idle boot** takes effect where there is room in the group for the idle. -/
theorem idleBoot_removed_iff {i : Int} (hi : 0 ≤ i) (h : Idles w i) :
    Removed w i idleGroup (idleBoot i w).2 ↔ idleRoom w := by
  obtain ⟨hlogin, hgi, hout, hboot, hidle⟩ := h
  show wp (idleBoot i) (fun _ w' => Removed w i idleGroup w' ↔ idleRoom w) w
  refine wp_bind (wp_getW (wp_bind (wp_getU (wp_whenever (fun _ => ?_) fun hno =>
    absurd ⟨hlogin, hgi⟩ hno))))
  refine wp_bind (wp_getG (wp_whenever (fun _ => ?_) fun hno => absurd ⟨hout, hboot, hidle⟩ hno))
  refine wp_bind (Within.wp Stilly fun _ w₁ h₁ => wp_bind (Within.wp Stilly fun _ w₂ h₂ => ?_))
  have hS : Stilly w w₂ := trans_of Stilly (Within.within (x := getU i) w)
    (trans_of Stilly (Within.within (x := getG (groupOf w i)) _) (trans_of Stilly h₁ h₂))
  refine wp_bind (wp_mono (idleBootMods_resigns hi hout hS.sameDoors) ?_)
  rintro _ w₃ ⟨h₃, hmod⟩
  refine wp_after ?_
  show Removed w i idleGroup (bootTo i idleGroup w₃).2 ↔ _
  rw [← h₃.removed, bootTo_removed_iff (.inr rfl) (by rwa [h₃.groupOf]), roomFor, idleRoom,
    h₃.findGroup, h₃.findEmptyGroup]
  split
  · rfl
  next hf =>
    have hf : 0 ≤ findGroup w idleGroup := by omega
    -- the group he is in has another name
    have hother : findGroup w idleGroup ≠ groupOf w i := by
      intro heq
      have hname := (findGroup_nonneg hf).2
      have hown := (findGroup_nonneg hgi).2
      rw [show findGroup w (w.uTab i).group = findGroup w idleGroup from heq.symm, strcaseEq_comm] at hown
      exact hout (strcaseEq_trans hown hname)
    simp [isFull_eq, h₃.atLimit, h₃.groupOf, hother, hmod hf]

/-- **When a boot takes effect.** In any state, a boot by `s_boot` that passes its checks puts its
target into `BOOT_GROUP` if and only if there is room for him there, and an idle boot of `s_didpoll`
puts the idle user into `IDLE_GROUP` if and only if there is room there. -/
theorem boot_effective_iff (w : World) :
    (∀ n arg t, Boots w n arg t →
      (Removed w t bootGroup (sBoot n arg w).2 ↔ roomFor w t bootGroup)) ∧
    ∀ i ∈ slots maxRealUsers, Idles w i →
      (Removed w i idleGroup (idleBoot i w).2 ↔ idleRoom w) :=
  ⟨fun _ _ _ => sBoot_removed_iff, fun _ hi => idleBoot_removed_iff (mem_slots.mp hi).1⟩

end

end

section
attribute [local instance] smallEnv

/-- `al` has opened group `x`, renamed it, and `bo` has come in. -/
def bootCamp : Host :=
  Host.run {} { w := startup {} fun _ => none }
    [.connect 1 false none, .packet 1 (loginPkt "one" "al" "x" ""),
     .packet 1 (cmdPkt "status" "name ~RESEDA~"),
     .connect 2 false none, .packet 2 (loginPkt "two" "bo" "~RESEDA~" "")]

/-- A moderator whose group carries the boot group's name boots in vain. -/
theorem boot_in_vain : ∃ (h : Host) (n t : Int) (arg : Bytes), Reachable (fun _ _ _ => True) h ∧
    Boots h.w n arg t ∧ ¬ Removed h.w t bootGroup (sBoot n arg h.w).2 := by
  obtain ⟨hr, hboots, hstays⟩ := Reachable.leads_run (P := fun _ _ _ => True)
    (Q := fun h => Boots h.w 1 (str "bo") 2 ∧ ¬ Removed h.w 2 bootGroup (sBoot 1 (str "bo") h.w).2)
    (.start {} fun _ => none) (rfl : bootCamp = Host.run {} _ _) (by
      unfold Boots Removed
      decide +kernel)
  exact ⟨bootCamp, 1, 2, str "bo", hr, hboots, hstays⟩

/-- `al` has opened group `x`, and `bo` has come in. -/
def smallGroup : Host :=
  Host.run {} { w := startup {} fun _ => none }
    [.connect 1 false none, .packet 1 (loginPkt "one" "al" "x" ""),
     .connect 2 false none, .packet 2 (loginPkt "two" "bo" "x" "")]

theorem boot_effective_bo : Boots smallGroup.w 1 (str "bo") 2 ∧
    Removed smallGroup.w 2 bootGroup (sBoot 1 (str "bo") smallGroup.w).2 := by
  obtain ⟨hboots, hroom⟩ : Boots smallGroup.w 1 (str "bo") 2 ∧ roomFor smallGroup.w 2 bootGroup := by
    unfold Boots
    decide +kernel
  exact ⟨hboots, ((boot_effective_iff smallGroup.w).1 1 (str "bo") 2 hboots).mpr hroom⟩

end

end Icbd.Server
