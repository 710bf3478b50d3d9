/-
# Icbd.Server.Change — `s_change` as one step on the two tables.

`s_change` looks a group up or opens it, asks at its door, moves the user and drops the group he has
left if nobody is in it any more. `sChange_cases` says all it can do to the tables; what else is
known of group changes follows from it.

The group is opened before the door is asked. A new group lets its founder in, so the one refusal
behind the opening is the last: the founder's own group has the new name and no entry.
-/
import Icbd.Server.Nested

-- every bind doubles the size of the search's argument
set_option synthInstance.maxSize 1000000000000000000000000000000000000000000000000
set_option synthInstance.maxHeartbeats 200000

namespace Icbd.Server

open Icbd.Lib

section
variable [Env]

/-! ## §1 — names of the form `@nick` -/

/-- The name behind a chain of `@nick`, as `resolveAt` finds it. -/
def followAt (w : World) : Nat → Bytes → Option Bytes
  | 0, _ => none
  | fuel + 1, target =>
      if target.head? = some 64 then
        let t := findUser w target.tail
        if t < 0 then none
        else if (w.gTab (groupOf w t)).visibility ≠ .visible then none
        else followAt w fuel (w.uTab t).group
      else some target

theorem senderror_isBooting (n : Int) (msg : Bytes) (w : World) :
    (senderror n msg w).2.isBooting = w.isBooting := by
  show wp (senderror n msg) (fun _ w' => w'.isBooting = w.isBooting) w
  exact wp_bind (wp_getW (wp_whenever (fun _ => rfl) fun _ => rfl))

/-- `resolveAt` answers what the tables say, and touches neither them nor `is_booting`. -/
theorem resolveAt_spec {n : Int} {w w' : World} (hS : Stilly w w') (fuel : Nat) (target : Bytes) :
    wp (resolveAt n fuel target) (fun t w'' => t = followAt w fuel target ∧ Stilly w w'' ∧
      w''.isBooting = w'.isBooting) w' := by
  induction fuel generalizing w' target with
  | zero => exact ⟨rfl, trans_of Stilly hS (Within.within (x := resolveAt n 0 target) _), rfl⟩
  | succ fuel ih =>
    have hfind : findUser w' target.tail = findUser w target.tail := hS.calmly.findUser _
    have hgroup : findGroup w' (w'.uTab (findUser w' target.tail)).group =
        groupOf w (findUser w target.tail) := by
      rw [hfind]
      exact hS.calmly.groupOf _
    -- an answer after a complaint
    have hrefuse {w₁ : World} (h₁ : Stilly w w₁ ∧ w₁.isBooting = w'.isBooting) :
        wp (do senderror n (str "User not found."); pure none) (fun t w'' =>
          t = (none : Option Bytes) ∧ Stilly w w'' ∧ w''.isBooting = w'.isBooting) w₁ :=
      wp_after ⟨rfl, trans_of Stilly h₁.1 (Within.within _),
        (senderror_isBooting n _ w₁).trans h₁.2⟩
    rw [followAt]
    refine wp_ite (fun hat => ?_) fun hat => ⟨(if_neg hat).symm, hS, rfl⟩
    rw [if_pos hat]
    refine wp_bind (wp_getW (wp_ite (fun hneg => ?_) fun hpos => ?_))
    · rw [hfind] at hneg
      rw [if_pos hneg]
      exact hrefuse ⟨hS, rfl⟩
    · rw [hfind] at hpos
      rw [if_neg hpos]
      have hget : Stilly w (getG (groupOf w (findUser w target.tail))
          (getU (findUser w target.tail) w').2).2 :=
        trans_of Stilly hS (trans_of Stilly (Within.within _) (Within.within _))
      refine wp_bind (wp_getU (wp_bind (wp_getG ?_)))
      rw [hgroup, hfind]
      have hentry : (getU (findUser w target.tail) w').2.gTab = w.gTab := hS.groups
      rw [hentry]
      refine wp_ite (fun hvis => ?_) fun hvis => ?_
      · rw [if_pos hvis]
        exact hrefuse ⟨hget, rfl⟩
      · rw [if_neg hvis, show (w'.uTab (findUser w target.tail)).group =
          (w.uTab (findUser w target.tail)).group from congrArg UserId.group (hS.users _)]
        exact ih hget _

/-! ## §2 — opening, entering and leaving -/

/-- The entry `clear_group_item` leaves. -/
def clearedItem (g : Group) : Group :=
  { name := [], mod := -1, missingmod := [], modtimeout := 0
    topic := [], visibility := .visible, control := .pub, volume := .loud
    nInvites := nlclear g.nInvites, nrInvites := nlclear g.nrInvites
    sInvites := nlclear g.sInvites, srInvites := nlclear g.srInvites
    nBars := nlclear g.nBars, nNrBars := nlclear g.nNrBars
    sBars := nlclear g.sBars, sNrBars := nlclear g.sNrBars
    nTalk := nlclear g.nTalk, nrTalk := nlclear g.nrTalk
    size := 0, idleboot := defIdleBoot, idlebootMsg := [], idlemod := defIdleMod }

omit [Env] in
theorem clearGroupItem_eq (i : Int) (w : World) : (clearGroupItem i w).2 = w.modG i clearedItem := by
  simp only [clearGroupItem, setGroupName, setMod, setMissing, modGOpts, bind_apply, World.modG,
    Function.update_self, Function.update_idem]
  rfl

/-- Slot `i` has become a group of this name that lets its founder in. -/
structure Created (n i : Int) (name : Bytes) (w w' : World) : Prop where
  users : ∀ j, (w'.uTab j).toUserId = (w.uTab j).toUserId
  others : ∀ j ≠ i, w'.gTab j = w.gTab j
  name : (w'.gTab i).name = name
  door : (w'.gTab i).control = .pub ∨ (w'.gTab i).control = .moderated ∧ (w'.gTab i).mod = n
  db : w'.db = w.db
  sys : w'.sys = w.sys

omit [Env] in
theorem createGroup_created (n i : Int) (name : Bytes) (vis : Visibility) (w : World) :
    Created n i name w (createGroup n i name vis w).2 := by
  unfold createGroup
  by_cases hboot : strcaseEq bootGroup name
  · simp only [hboot, ↓reduceIte]
    constructor <;> simp +contextual [setGroupName, modGOpts, World.modG]
  by_cases hidle : strcaseEq idleGroup name
  · simp only [hboot, hidle, ↓reduceIte]
    constructor <;> simp +contextual [setGroupName, modGOpts, World.modG]
  by_cases hone : strcaseEq (str "1") name
  · simp only [hboot, hidle, hone, ↓reduceIte]
    constructor <;> simp +contextual [setGroupName, modGOpts, World.modG]
  · simp only [hboot, hidle, hone]
    constructor <;> simp +contextual [setGroupName, modGOpts, setMod, World.modG]

/-- `n` has moved to group slot `ngi`, and the slot `ogi` of his old group is cleared if nobody is left
in it. -/
structure Moved (n ngi ogi : Int) (w w' : World) : Prop where
  mover : (w'.uTab n).toUserId = { (w.uTab n).toUserId with group := (w.gTab ngi).name }
  users : ∀ j ≠ n, (w'.uTab j).toUserId = (w.uTab j).toUserId
  groups : w'.gTab = if 0 ≤ ogi ∧ countUsersInGroup w' (w.gTab ogi).name = 0
    then Function.update w.gTab ogi (clearedItem (w.gTab ogi)) else w.gTab
  db : w'.db = w.db
  sys : w'.sys = w.sys

theorem moveTo_moved (n ngi ogi : Int) (loginStatus : Bool) (w : World) :
    Moved n ngi ogi w (moveTo n ngi ogi loginStatus w).2 := by
  show wp (moveTo n ngi ogi loginStatus) (fun _ w' => Moved n ngi ogi w w') w
  refine wp_bind (wp_getG (wp_after (wp_bind (wp_getU ?_))))
  -- the table with the new group in it; from here on it is messages, up to the old group
  generalize hw₁ : (getU n (setUserGroup n (w.gTab ngi).name (getG ngi w).2).2).2 = w₁
  have hmover : (w₁.uTab n).toUserId = { (w.uTab n).toUserId with group := (w.gTab ngi).name } := by
    simp [← hw₁, getU, setUserGroup, getG, World.modU]
  have husers (j : Int) (hj : j ≠ n) : (w₁.uTab j).toUserId = (w.uTab j).toUserId := by
    simp [← hw₁, getU, setUserGroup, getG, World.modU, Function.update_of_ne hj]
  have hgroups : w₁.gTab = w.gTab := by
    simp [← hw₁, getU, setUserGroup, getG, World.modU]
  have hdb : w₁.db = w.db := by
    simp [← hw₁, getU, setUserGroup, getG, World.modU]
  have hsys : w₁.sys = w.sys := by
    simp [← hw₁, getU, setUserGroup, getG, World.modU]
  refine wp_bind (Within.wp Stilly fun _ w₂ h₂ => wp_bind (Within.wp Stilly fun _ w₃ h₃ => ?_))
  refine wp_bind (wp_getW (wp_bind (Within.wp Stilly fun _ w₄ h₄ => ?_)))
  have hto : Stilly w₁ w₃ := trans_of Stilly h₂ h₃
  have hS : Stilly w₁ w₄ := trans_of Stilly hto h₄
  have hcount (name : Bytes) {w' : World} (hS' : Stilly w₃ w') :
      countUsersInGroup w' name = countUsersInGroup w₃ name := by
    simp only [countUsersInGroup, congrArg UserId.group (hS'.users _)]
  have hstay {w' : World} (hS' : Stilly w₄ w')
      (hold : ¬ (0 ≤ ogi ∧ countUsersInGroup w' (w.gTab ogi).name = 0)) : Moved n ngi ogi w w' := by
    have hS' : Stilly w₁ w' := trans_of Stilly hS hS'
    refine ⟨(hS'.users n).trans hmover, fun j hj => (hS'.users j).trans (husers j hj), ?_,
      hS'.db.trans hdb, hS'.sys.trans hsys⟩
    rw [if_neg hold]
    exact hS'.groups.trans hgroups
  refine wp_whenever (fun hogi => wp_bind (wp_getG ?_)) fun hogi => hstay (refl_of Stilly _) fun h => hogi h.1
  rw [show w₄.gTab = w.gTab from hS.groups.trans hgroups]
  refine wp_ite (fun hleft => ?_) fun hleft => ?_
  · refine Within.wp Stilly fun _ w₅ h₅ => ?_
    have h₅ : Stilly w₄ w₅ := trans_of Stilly (Within.within (x := getG ogi) w₄) h₅
    refine hstay h₅ fun hempty => ?_
    rw [hcount _ (trans_of Stilly h₄ h₅)] at hempty
    omega
  · show Moved n ngi ogi w (clearGroupItem ogi (getG ogi w₄).2).2
    rw [clearGroupItem_eq]
    have hzero : countUsersInGroup ((getG ogi w₄).2.modG ogi clearedItem) (w.gTab ogi).name = 0 := by
      have : countUsersInGroup ((getG ogi w₄).2.modG ogi clearedItem) (w.gTab ogi).name =
          countUsersInGroup w₄ (w.gTab ogi).name := rfl
      rw [this, hcount _ h₄]
      omega
    refine ⟨(hS.users n).trans hmover, fun j hj => (hS.users j).trans (husers j hj), ?_,
      hS.db.trans hdb, hS.sys.trans hsys⟩
    rw [if_pos ⟨hogi, hzero⟩]
    show Function.update w₄.gTab ogi (clearedItem (w₄.gTab ogi)) = _
    rw [hS.groups, hgroups]

section
variable {n i ngi ogi : Int} {name : Bytes} {w w₁ w' : World}

omit [Env] in
theorem Created.before (hS : Stilly w w₁) (h : Created n i name w₁ w') : Created n i name w w' :=
  ⟨fun j => (h.users j).trans (hS.users j), fun j hj => (h.others j hj).trans (congrFun hS.groups j),
    h.name, h.door, h.db.trans hS.db, h.sys.trans hS.sys⟩

omit [Env] in
theorem Created.after (h : Created n i name w w₁) (hS : Stilly w₁ w') : Created n i name w w' :=
  ⟨fun j => (hS.users j).trans (h.users j), fun j hj => (congrFun hS.groups j).trans (h.others j hj),
    hS.groups ▸ h.name, hS.groups ▸ h.door, hS.db.trans h.db, hS.sys.trans h.sys⟩

theorem Moved.before (hS : Stilly w w₁) (h : Moved n ngi ogi w₁ w') : Moved n ngi ogi w w' := by
  refine ⟨h.mover.trans ?_, fun j hj => (h.users j hj).trans (hS.users j), ?_, h.db.trans hS.db,
    h.sys.trans hS.sys⟩
  · rw [hS.users, hS.groups]
  · rw [h.groups, hS.groups]

theorem Stilly.mayEnter (hS : Stilly w w') (hboot : w'.isBooting = w.isBooting) (n ngi : Int) :
    mayEnter w' n ngi = mayEnter w n ngi := by
  simp only [Server.mayEnter, isInvited, address, hS.groups, hS.calmly.checkAuth, hboot,
    congrArg UserId.nickname (hS.users n), congrArg UserId.loginid (hS.users n),
    congrArg UserId.nodeid (hS.users n), congrArg UserId.realname (hS.users n)]

theorem Stilly.isFull (hS : Stilly w w') (n ngi : Int) : isFull w' n ngi = isFull w n ngi := by
  simp only [Server.isFull, hS.groups, congrArg UserId.group (hS.users _)]

omit [Env] in
theorem Stilly.findEmptyGroup (hS : Stilly w w') : findEmptyGroup w' = findEmptyGroup w := by
  simp only [Server.findEmptyGroup, hS.groups]

/-- The founder of a group passes its door. -/
theorem Created.mayEnter (h : Created n i name w w') : mayEnter w' n i := by
  rcases h.door with hpub | ⟨hmod, -⟩ <;> simp [Server.mayEnter, *]

theorem Created.not_isFull (h : Created n i name w w') : ¬ isFull w' n i := by
  rcases h.door with hpub | ⟨-, hmod⟩ <;> simp [Server.isFull, *]

omit [Env] in
/-- Nobody's group is the empty slot. -/
theorem groupOf_ne_empty (hfree : 0 ≤ findEmptyGroup w) (j : Int) :
    groupOf w j ≠ findEmptyGroup w := by
  intro heq
  have hempty := (findEmptyGroup_nonneg hfree).2
  rw [← heq] at hfree hempty
  exact findGroup_named hfree hempty

omit [Env] in
/-- The group of a user after an opening: the new one if the name is his group's. -/
theorem Created.groupOf (h : Created n (findEmptyGroup w) name w w') (hname : name ≠ [])
    (hnew : findGroup w name < 0) (hempty : 0 ≤ findEmptyGroup w) (j : Int) :
    groupOf w' j = if strcaseEq name (w.uTab j).group then findEmptyGroup w else groupOf w j := by
  obtain ⟨hslot, hfree⟩ := findEmptyGroup_nonneg hempty
  have hgroup : (w'.uTab j).group = (w.uTab j).group := congrArg UserId.group (h.users j)
  unfold Server.groupOf
  rw [hgroup]
  split
  next heq =>
    have hne : (w.uTab j).group ≠ [] := fun hnil => hname (strcaseEq_nil (hnil ▸ heq))
    refine findGroup_eq hne hslot (by rwa [h.name]) fun k hk hki hk' => ?_
    rw [h.others k hki] at hk'
    refine findGroup_neg hname hnew hk (strcaseEq_trans hk' ?_)
    rwa [strcaseEq_comm]
  next hneq =>
    by_cases hnil : (w.uTab j).group = []
    · simp [findGroup, hnil]
    · apply findGroup_congr
      intro k _
      by_cases hki : k = findEmptyGroup w
      · subst hki
        have hno : ¬ strcaseEq [] (w.uTab j).group := fun heq =>
          hnil (strcaseEq_nil (by rwa [strcaseEq_comm]))
        rw [h.name, hfree]
        simp [hneq, hno]
      · rw [h.others k hki]

end

/-! ## §3 — all `s_change` can do -/

/-- The name a target asks for. -/
def targetName (target : Bytes) : Bytes := filtergroupname (parseTarget target).1

/-- Does the target ask for a new group under the name of `n`'s own, which has no entry? -/
def reopens (w : World) (n : Int) (target : Bytes) : Prop :=
  ∃ t ∈ followAt w (Env.maxUsers + 1) target, targetName t ≠ [] ∧
    findGroup w (targetName t) < 0 ∧ 0 ≤ findEmptyGroup w ∧
    strcaseEq (targetName t) (w.uTab n).group

/-- What `s_change` answers and does: it refuses and leaves the tables alone; it moves the user to a
group there is; it opens a group and moves him there; or it opens a group under the name of his own,
which has no entry, and takes it for the group he is in already. -/
inductive Changes (n : Int) (target : Bytes) (w : World) : Bool → World → Prop
  | refused {w'} : ¬ reopens w n target → Stilly w w' → Changes n target w false w'
  | joined {t w'} : followAt w (Env.maxUsers + 1) target = some t →
      0 ≤ findGroup w (targetName t) → mayEnter w n (findGroup w (targetName t)) →
      ¬ isFull w n (findGroup w (targetName t)) → findGroup w (targetName t) ≠ groupOf w n →
      Moved n (findGroup w (targetName t)) (groupOf w n) w w' → Changes n target w true w'
  | opened {t w₁ w'} : followAt w (Env.maxUsers + 1) target = some t →
      targetName t ≠ [] → findGroup w (targetName t) < 0 → 0 ≤ findEmptyGroup w →
      ¬ strcaseEq (targetName t) (w.uTab n).group →
      Created n (findEmptyGroup w) (targetName t) w w₁ →
      Moved n (findEmptyGroup w) (groupOf w n) w₁ w' → Changes n target w true w'
  | reopened {t w'} : followAt w (Env.maxUsers + 1) target = some t →
      targetName t ≠ [] → findGroup w (targetName t) < 0 → 0 ≤ findEmptyGroup w →
      strcaseEq (targetName t) (w.uTab n).group →
      Created n (findEmptyGroup w) (targetName t) w w' → Changes n target w false w'

/-- The last part of `s_change`. -/
theorem joinGroup_cases (n ngi : Int) (name : Bytes) (loginStatus : Bool) (w : World) :
    wp (joinGroup n ngi name loginStatus) (fun ok w' =>
      ok = false ∧ (mayEnter w n ngi → ¬ isFull w n ngi → ngi = groupOf w n) ∧ Stilly w w' ∨
      ok = true ∧ mayEnter w n ngi ∧ ¬ isFull w n ngi ∧ ngi ≠ groupOf w n ∧
        Moved n ngi (groupOf w n) w w') w := by
  have hget : Stilly w (getU n w).2 := Within.within w
  -- two messages and the answer -1
  have hrefuse {x y : W Unit} [Within Stilly x] [Within Stilly y]
      (hwhy : mayEnter w n ngi → ¬ isFull w n ngi → ngi = groupOf w n) :
      wp (do x; y; pure false) (fun ok w' =>
        ok = false ∧ (mayEnter w n ngi → ¬ isFull w n ngi → ngi = groupOf w n) ∧ Stilly w w' ∨
        ok = true ∧ mayEnter w n ngi ∧ ¬ isFull w n ngi ∧ ngi ≠ groupOf w n ∧
          Moved n ngi (groupOf w n) w w') (getU n w).2 := by
    refine wp_bind (Within.wp Stilly fun _ w₁ h₁ => wp_bind (Within.wp Stilly fun _ w₂ h₂ => ?_))
    exact .inl ⟨rfl, hwhy, trans_of Stilly hget (trans_of Stilly h₁ h₂)⟩
  refine wp_bind (wp_getW (wp_bind (wp_getU ?_)))
  refine wp_ite (fun hdoor => hrefuse fun h => absurd h hdoor) fun hdoor => ?_
  have hdoor : mayEnter w n ngi := Decidable.not_not.mp hdoor
  refine wp_ite (fun hfull => hrefuse fun _ h => absurd hfull h) fun hfull => ?_
  refine wp_ite (fun hown => ?_) fun hown => wp_after ?_
  · refine wp_bind (Within.wp Stilly fun _ w₁ h₁ => ?_)
    exact .inl ⟨rfl, fun _ _ => hown, trans_of Stilly hget h₁⟩
  · exact .inr ⟨rfl, hdoor, hfull, hown, (moveTo_moved n ngi (groupOf w n) loginStatus _).before hget⟩

/-- **All `s_change` can do.** -/
theorem sChange_cases (n : Int) (target : Bytes) (atLogin : Bool) (w : World) :
    Changes n target w (sChange n target atLogin w).1 (sChange n target atLogin w).2 := by
  show wp (sChange n target atLogin) (Changes n target w) w
  refine wp_bind (wp_mono (resolveAt_spec (refl_of Stilly w) _ target) ?_)
  rintro a w₀ ⟨rfl, hS, hboot⟩
  refine wp_ite (fun hsome => ?_) fun hnone => .refused ?_ hS
  case refine_2 =>
    rintro ⟨t, ht, -⟩
    exact hnone (Option.isSome_iff_exists.mpr ⟨t, ht⟩)
  obtain ⟨t, ht⟩ := Option.isSome_iff_exists.mp hsome
  rw [ht, Option.getD_some]
  have hreopens : reopens w n target ↔ targetName t ≠ [] ∧ findGroup w (targetName t) < 0 ∧
      0 ≤ findEmptyGroup w ∧ strcaseEq (targetName t) (w.uTab n).group := by
    simp [reopens, ht]
  -- the tables are still the ones `w` has
  have hfound : findGroup w₀ (targetName t) = findGroup w (targetName t) := hS.calmly.findGroup _
  have hempty : findEmptyGroup w₀ = findEmptyGroup w := hS.findEmptyGroup
  have hcomplain {msg : Bytes} (hno : ¬ reopens w n target) :
      wp (do senderror n msg; pure false) (Changes n target w) w₀ :=
    wp_bind (Within.wp Stilly fun _ w₁ h₁ => .refused hno (trans_of Stilly hS h₁))
  refine wp_bind (wp_getW (wp_ite (fun htarget => hcomplain fun h => ?_) fun _ => ?_))
  · exact (hreopens.mp h).1 (by rw [htarget]; rfl)
  refine wp_ite (fun hnil => hcomplain fun h => (hreopens.mp h).1 hnil) fun hname => ?_
  have hname : targetName t ≠ [] := hname
  refine wp_ite (fun hno => hcomplain fun h => ?_) fun hroom => ?_
  · have := (hreopens.mp h).2.2.1
    have : findEmptyGroup w₀ < 0 := hno.2
    omega
  have hroom : ¬ (findGroup w₀ (targetName t) < 0 ∧ findEmptyGroup w₀ < 0) := hroom
  rw [hfound, hempty] at hroom
  show wp (do
    whenever (findGroup w₀ (targetName t) < 0)
      (createGroup n (findEmptyGroup w₀) (targetName t) (parseTarget t).2)
    joinGroup n (if findGroup w₀ (targetName t) < 0 then findEmptyGroup w₀
      else findGroup w₀ (targetName t)) (targetName t) _) (Changes n target w) w₀
  rw [hfound, hempty]
  by_cases hnew : findGroup w (targetName t) < 0
  · have hfree : 0 ≤ findEmptyGroup w := by
      have := not_and.mp hroom hnew
      omega
    rw [whenever_pos hnew, if_pos hnew]
    refine wp_after ?_
    have hcreated := (createGroup_created n (findEmptyGroup w) (targetName t) (parseTarget t).2 w₀).before hS
    generalize (createGroup n (findEmptyGroup w) (targetName t) (parseTarget t).2 w₀).2 = w₁ at hcreated
    have hgroup := hcreated.groupOf hname hnew hfree n
    refine wp_mono (joinGroup_cases n (findEmptyGroup w) (targetName t) _ w₁) ?_
    rintro ok w' (⟨rfl, hwhy, hS'⟩ | ⟨rfl, -, -, hother, hmoved⟩)
    · -- the door is open, so it is the group he is in
      have hown : findEmptyGroup w = groupOf w₁ n := hwhy hcreated.mayEnter hcreated.not_isFull
      refine .reopened ht hname hnew hfree ?_ (hcreated.after hS')
      by_contra hneq
      rw [hgroup, if_neg hneq] at hown
      exact groupOf_ne_empty hfree n hown.symm
    · have hneq : ¬ strcaseEq (targetName t) (w.uTab n).group := fun heq => hother (by rw [hgroup, if_pos heq])
      rw [hgroup, if_neg hneq] at hmoved
      exact .opened ht hname hnew hfree hneq hcreated hmoved
  · rw [whenever_neg hnew, pure_bind, if_neg hnew]
    refine wp_mono (joinGroup_cases n (findGroup w (targetName t)) (targetName t) _ w₀) ?_
    rintro ok w' (⟨rfl, -, hS'⟩ | ⟨rfl, hdoor, hfull, hother, hmoved⟩)
    · exact .refused (fun h => hnew (hreopens.mp h).2.1) (trans_of Stilly hS hS')
    · rw [hS.mayEnter hboot] at hdoor
      rw [hS.isFull] at hfull
      rw [hS.calmly.groupOf] at hother hmoved
      exact .joined ht (by omega) hdoor hfull hother (hmoved.before hS)

/-! ## §4 — entry policy and atomicity -/

/-- The door of a restricted group: its moderator, the administrator, somebody invited, or a boot. -/
def Admitted (w : World) (n gi : Int) : Prop :=
  let u := w.uTab n
  let g := w.gTab gi
  g.mod = n ∨ checkAuth w n ∨ nlpresent u.nickname g.nInvites ∨
    nlmatch (ucaseit (address u)) g.sInvites ∨
    u.realname ≠ [] ∧ (nlpresent u.nickname g.nrInvites ∨ nlmatch (ucaseit (address u)) g.srInvites) ∨
    w.isBooting

/-- The number of connections in a group. -/
def countReal (w : World) (gi : Int) : Nat :=
  ((slots maxRealUsers).filter fun i => strcaseEq (w.uTab i).group (w.gTab gi).name).length

/-- The contract of `s_change`. A refusal leaves every user's group and every group alone. A success
moves `n` and nobody else to the group asked for, clears the old group if and only if nobody is left in
it, leaves every other group alone, and respects the door and the size of a group there was. -/
structure ChangeKept (w : World) (n : Int) (target : Bytes) (ok : Bool) (w' : World) : Prop where
  refusal : ok = false →
    (∀ j, (w'.uTab j).group = (w.uTab j).group) ∧ ∀ i ∈ slots maxGroups, w'.gTab i = w.gTab i
  stayers : ok = true → ∀ j ≠ n, (w'.uTab j).group = (w.uTab j).group
  mover : ok = true → ∃ t, followAt w (Env.maxUsers + 1) target = some t ∧
    0 ≤ findGroup w' (targetName t) ∧
    (w'.uTab n).group = (w'.gTab (findGroup w' (targetName t))).name
  oldGroup : ok = true → 0 ≤ groupOf w n →
    (w'.gTab (groupOf w n) = clearedItem (w.gTab (groupOf w n)) ↔
      ∀ j ∈ slots Env.maxUsers, ¬ strcaseEq (w'.uTab j).group (w.gTab (groupOf w n)).name) ∧
    (w'.gTab (groupOf w n) = w.gTab (groupOf w n) ∨
      w'.gTab (groupOf w n) = clearedItem (w.gTab (groupOf w n)))
  otherGroups : ok = true → ∀ i ∈ slots maxGroups, i ≠ groupOf w n → (w.gTab i).name ≠ [] →
    w'.gTab i = w.gTab i
  door : ok = true → ∀ t ∈ followAt w (Env.maxUsers + 1) target, 0 ≤ findGroup w (targetName t) →
    (w.gTab (findGroup w (targetName t))).control = .restricted →
    Admitted w n (findGroup w (targetName t))
  size : ok = true → ∀ t ∈ followAt w (Env.maxUsers + 1) target, 0 ≤ findGroup w (targetName t) →
    let g := w.gTab (findGroup w (targetName t))
    g.control = .moderated ∨ g.control = .controlled → 0 < g.size →
    countReal w (findGroup w (targetName t)) < g.size ∨ g.mod = n

section
variable {n ngi ogi : Int} {target name : Bytes} {w w' : World}

theorem admitted_of_mayEnter (h : mayEnter w n ngi) (hr : (w.gTab ngi).control = .restricted) :
    Admitted w n ngi := by
  simp only [mayEnter, isInvited, hr, ne_eq, not_true_eq_false, decide_false, Bool.false_or,
    Bool.or_eq_true, Bool.and_eq_true, decide_eq_true_eq] at h
  unfold Admitted
  tauto

theorem room_of_not_isFull (h : ¬ isFull w n ngi)
    (hc : (w.gTab ngi).control = .moderated ∨ (w.gTab ngi).control = .controlled)
    (hs : 0 < (w.gTab ngi).size) : countReal w ngi < (w.gTab ngi).size ∨ (w.gTab ngi).mod = n := by
  by_contra hno
  rw [not_or, not_lt] at hno
  apply h
  rcases hc with hc | hc <;>
    simpa [isFull, hc, hs, countReal] using hno

/-- What a move does to the group that is left. -/
theorem Moved.oldGroup (h : Moved n ngi ogi w w') (hogi : 0 ≤ ogi) (hname : (w.gTab ogi).name ≠ []) :
    (w'.gTab ogi = clearedItem (w.gTab ogi) ↔
      ∀ j ∈ slots Env.maxUsers, ¬ strcaseEq (w'.uTab j).group (w.gTab ogi).name) ∧
    (w'.gTab ogi = w.gTab ogi ∨ w'.gTab ogi = clearedItem (w.gTab ogi)) := by
  rw [← countUsersInGroup_eq_zero hname, h.groups]
  by_cases hzero : countUsersInGroup w' (w.gTab ogi).name = 0
  · simp [hogi, hzero]
  · have hneq : w.gTab ogi ≠ clearedItem (w.gTab ogi) := fun heq => hname (by rw [heq]; rfl)
    simp [hzero, hneq]

/-- The other groups stay. -/
theorem Moved.otherGroups (h : Moved n ngi ogi w w') {i : Int} (hi : i ≠ ogi) :
    w'.gTab i = w.gTab i := by
  rw [h.groups]
  split
  · exact Function.update_of_ne hi _ _
  · rfl

/-- Nor does a group get a name. -/
theorem Moved.name_eq_or_nil (h : Moved n ngi ogi w w') (i : Int) :
    (w'.gTab i).name = (w.gTab i).name ∨ (w'.gTab i).name = [] := by
  rw [h.groups]
  split
  · by_cases hi : i = ogi
    · subst hi
      rw [Function.update_self]
      exact .inr rfl
    · rw [Function.update_of_ne hi]
      exact .inl rfl
  · exact .inl rfl

/-- The group the mover is in is found under the name he asked for. -/
theorem Moved.findGroup (h : Moved n (findGroup w name) ogi w w') (hfound : 0 ≤ findGroup w name)
    (hother : findGroup w name ≠ ogi) : Server.findGroup w' name = Server.findGroup w name := by
  have hname := ne_nil_of_findGroup hfound
  obtain ⟨hslot, heq⟩ := findGroup_nonneg hfound
  unfold Server.findGroup at hslot heq hother ⊢
  rw [if_neg hname] at hslot heq hother
  rw [if_neg hname, if_neg hname]
  refine firstSlot_of_imp (fun i _ hi => ?_) hslot ?_
  · rcases h.name_eq_or_nil i with hsame | hnil
    · rwa [hsame] at hi
    · rw [hnil, strcaseEq_comm] at hi
      exact absurd (strcaseEq_nil hi) hname
  · simpa only [h.otherGroups hother] using heq

/-- A refusal that leaves the tables alone keeps the contract. -/
theorem ChangeKept.of_refused (hS : Stilly w w') : ChangeKept w n target false w' := by
  refine ⟨fun _ => ⟨fun j => congrArg UserId.group (hS.users j), fun i _ => by rw [hS.groups]⟩,
    nofun, nofun, nofun, nofun, nofun, nofun⟩

/-- So does a move to a group there is. -/
theorem ChangeKept.of_joined {t : Bytes} (ht : followAt w (Env.maxUsers + 1) target = some t)
    (hfound : 0 ≤ Server.findGroup w (targetName t))
    (hdoor : mayEnter w n (Server.findGroup w (targetName t)))
    (hfull : ¬ isFull w n (Server.findGroup w (targetName t)))
    (hother : Server.findGroup w (targetName t) ≠ groupOf w n)
    (h : Moved n (Server.findGroup w (targetName t)) (groupOf w n) w w') :
    ChangeKept w n target true w' where
  refusal := nofun
  stayers _ j hj := congrArg UserId.group (h.users j hj)
  mover _ := by
    have hsame := h.findGroup hfound hother
    refine ⟨t, ht, hsame ▸ hfound, ?_⟩
    rw [hsame, h.otherGroups hother]
    exact congrArg UserId.group h.mover
  oldGroup _ hogi := h.oldGroup hogi (findGroup_named hogi)
  otherGroups _ i _ hi _ := h.otherGroups hi
  door _ t' ht' _ hr := by
    obtain rfl : t = t' := Option.some.inj (ht.symm.trans ht')
    exact admitted_of_mayEnter hdoor hr
  size _ t' ht' _ hc hs := by
    obtain rfl : t = t' := Option.some.inj (ht.symm.trans ht')
    exact room_of_not_isFull hfull hc hs

/-- And a move to a new group. -/
theorem ChangeKept.of_opened {t : Bytes} {w₁ : World}
    (ht : followAt w (Env.maxUsers + 1) target = some t) (hname : targetName t ≠ [])
    (hnew : Server.findGroup w (targetName t) < 0) (hfree : 0 ≤ findEmptyGroup w)
    (hc : Created n (findEmptyGroup w) (targetName t) w w₁)
    (h : Moved n (findEmptyGroup w) (groupOf w n) w₁ w') : ChangeKept w n target true w' := by
  obtain ⟨hslot, hempty⟩ := findEmptyGroup_nonneg hfree
  -- the old group has a name, the new slot had none
  have hother : groupOf w n ≠ findEmptyGroup w := groupOf_ne_empty hfree n
  have hold : w₁.gTab (groupOf w n) = w.gTab (groupOf w n) := hc.others _ hother
  have hentry : w'.gTab (findEmptyGroup w) = w₁.gTab (findEmptyGroup w) := h.otherGroups hother.symm
  have hfind : Server.findGroup w' (targetName t) = findEmptyGroup w := by
    refine findGroup_eq hname hslot (by rw [hentry, hc.name, strcaseEq_refl]) fun j hj hje heq => ?_
    rcases h.name_eq_or_nil j with hsame | hnil
    · rw [hsame, hc.others j hje] at heq
      exact findGroup_neg hname hnew hj heq
    · rw [hnil, strcaseEq_comm] at heq
      exact hname (strcaseEq_nil heq)
  constructor
  case refusal => exact nofun
  case stayers =>
    intro _ j hj
    exact congrArg UserId.group ((h.users j hj).trans (hc.users j))
  case mover =>
    intro _
    refine ⟨t, ht, hfind ▸ hfree, ?_⟩
    rw [hfind, hentry]
    exact congrArg UserId.group h.mover
  case oldGroup =>
    intro _ hogi
    rw [← hold]
    exact h.oldGroup hogi (hold ▸ findGroup_named hogi)
  case otherGroups =>
    intro _ i _ hi hnamed
    have hie : i ≠ findEmptyGroup w := fun heq => hnamed (heq ▸ hempty)
    exact (h.otherGroups hi).trans (hc.others i hie)
  all_goals
    intro _ t' ht' hfound
    obtain rfl : t = t' := Option.some.inj (ht.symm.trans ht')
    omega

/-- `s_change` keeps its contract, unless the group asked for has the name of the user's own and no
entry: then an entry is left behind although the answer is -1. -/
theorem sChange_kept_iff (w : World) (n : Int) (target : Bytes) :
    ChangeKept w n target (sChange n target false w).1 (sChange n target false w).2 ↔
      ¬ reopens w n target := by
  generalize hok : (sChange n target false w).1 = ok
  generalize hw' : (sChange n target false w).2 = w'
  have hcases : Changes n target w ok w' := hok ▸ hw' ▸ sChange_cases n target false w
  constructor
  · rintro hkept hre
    have hre' := hre
    obtain ⟨t, ht, hname, hnew, hfree, heq⟩ := hre
    cases hcases with
    | refused hno => exact hno hre'
    | joined ht' hfound =>
      obtain rfl := Option.some.inj (ht.symm.trans ht')
      omega
    | opened ht' _ _ _ hneq =>
      obtain rfl := Option.some.inj (ht.symm.trans ht')
      exact hneq heq
    | reopened ht' _ _ _ _ hc =>
      obtain ⟨hslot, hempty⟩ := findEmptyGroup_nonneg hfree
      obtain rfl := Option.some.inj (ht.symm.trans ht')
      have hsame := (hkept.refusal rfl).2 _ hslot
      rw [← hc.name, hsame] at hname
      exact hname hempty
  · intro hno
    cases hcases with
    | refused _ hS => exact .of_refused hS
    | joined ht hfound hdoor hfull hother h => exact .of_joined ht hfound hdoor hfull hother h
    | opened ht hname hnew hfree _ hc h => exact .of_opened ht hname hnew hfree hc h
    | reopened ht hname hnew hfree heq _ => exact absurd ⟨_, ht, hname, hnew, hfree, heq⟩ hno

end

end

section
attribute [local instance] smallEnv

/-- A client on the slot of the automatic user renames the group `ICB`, whose only member has no
connection's slot and keeps the old name. Asked for that name, `s_change` opens a group and answers
-1. -/
theorem reopened_in_vain : ∃ h : Host, Reachable (fun _ _ _ => True) h ∧
    (h.w.uTab nickserv).login = .complete ∧
    ¬ ChangeKept h.w nickserv (str "ICB") (sChange nickserv (str "ICB") false h.w).1
      (sChange nickserv (str "ICB") false h.w).2 := by
  have hrun : let h : Host := { w := startup {} fun _ => none }
      let es : List Event := [.connect 3 false none, .packet 3 (cmdPkt "status" "name y")]
      h.follows (fun _ _ _ => True) {} es ∧ ((h.run {} es).w.uTab nickserv).login = .complete ∧
        (sChange nickserv (str "ICB") false (h.run {} es).w).1 = false ∧
        ((sChange nickserv (str "ICB") false (h.run {} es).w).2.gTab 1).name = str "ICB" ∧
        ((h.run {} es).w.gTab 1).name = [] := by decide +kernel
  obtain ⟨hf, hlogin, hno, hnew, hold⟩ := hrun
  refine ⟨_, .run (.start {} fun _ => none) hf, hlogin, fun hkept => ?_⟩
  have hsame := (hkept.refusal hno).2 1 (mem_slots.mpr (by decide))
  rw [hsame, hold] at hnew
  exact absurd hnew (by decide)

end

end Icbd.Server
