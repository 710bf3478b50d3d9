/-
# Icbd.Server.Tables — the user table and the group table agree.

Membership is a name: a user's entry holds the name of his group, and the group's entry does not know
its members. So no two groups share a name, everybody who is logged in is in a group there is, every
group has a member, and what has no name is cleared; and every operation has to keep both tables in
step.

A rename rewrites the entries of the connections only. The automatic user keeps the old name, so a
rename by him can leave a group with no member at all. He is given commands only by a connection on
his own slot: `dispatch` turns its logins away and takes its commands for his.
-/
import Icbd.Server.Command

-- every bind doubles the size of the search's argument
set_option synthInstance.maxSize 1000000000000000000000000000000000000000000000000
set_option synthInstance.maxHeartbeats 200000

namespace Icbd.Server

open Icbd.Lib

section
variable [Env]

/-! ## §1 — agreement -/

/-- What the groups depend on in a user's entry: his group and his login state. -/
def World.seats (w : World) (i : Int) : Bytes × Login := ((w.uTab i).group, (w.uTab i).login)

/-- The tables agree, apart from the members of group `x`. -/
structure AgreedBut (x : Int) (u : Int → Bytes × Login) (g : Int → Group) : Prop where
  unique : ∀ i ∈ slots maxGroups, ∀ j ∈ slots maxGroups,
    (g i).name ≠ [] → strcaseEq (g i).name (g j).name → i = j
  member : ∀ i ∈ slots maxGroups, i ≠ x → (g i).name ≠ [] →
    ∃ j ∈ slots Env.maxUsers, strcaseEq (u j).1 (g i).name
  known : ∀ j ∈ slots maxRealUsers, (u j).1 = [] ∨ ∃ i ∈ slots maxGroups, (g i).name = (u j).1
  seated : ∀ j ∈ slots maxRealUsers, (u j).2 = .complete → (u j).1 ≠ []
  away : ∀ j ∈ slots maxRealUsers, (u j).2 = .no → (u j).1 = []
  cleared : ∀ i ∈ slots maxGroups, (g i).name = [] → g i = clearedItem (g i)
  short : ∀ i ∈ slots maxGroups, (g i).name.length ≤ maxGroupLen

/-- The tables agree: slot -1 is no group's. -/
abbrev Agreed : (Int → Bytes × Login) → (Int → Group) → Prop := AgreedBut (-1)

section
variable {x i : Int} {u : Int → Bytes × Login} {g : Int → Group}

theorem real_mem_users {j : Int} (hj : j ∈ slots maxRealUsers) : j ∈ slots Env.maxUsers := by
  obtain ⟨h₁, h₂⟩ := mem_slots.mp hj
  unfold maxRealUsers at h₂
  exact mem_slots.mpr ⟨h₁, by omega⟩

/-- An entry with a name may change all but the name. -/
theorem AgreedBut.write {g' : Group} (h : AgreedBut x u g)
    (hnamed : i ∈ slots maxGroups → (g i).name ≠ []) (hname : g'.name = (g i).name) :
    AgreedBut x u (Function.update g i g') := by
  have hnames (j : Int) : (Function.update g i g' j).name = (g j).name := by
    by_cases hj : j = i
    · subst hj
      rw [Function.update_self, hname]
    · rw [Function.update_of_ne hj]
  constructor
  case unique => simpa only [hnames] using h.unique
  case member => simpa only [hnames] using h.member
  case known => simpa only [hnames] using h.known
  case seated => exact h.seated
  case away => exact h.away
  case short => simpa only [hnames] using h.short
  case cleared =>
    intro j hj hnil
    rw [hnames] at hnil
    have hji : j ≠ i := by
      rintro rfl
      exact hnamed hj hnil
    rw [Function.update_of_ne hji]
    exact h.cleared j hj hnil

/-- A group is renamed, with all its connections. -/
theorem AgreedBut.rename {n : Int} {new : Bytes} {u' : Int → Bytes × Login} (h : Agreed u g)
    (hi : i ∈ slots maxGroups) (hnamed : (g i).name ≠ []) (hn : n ∈ slots maxRealUsers)
    (hown : strcaseEq (u n).1 (g i).name) (hnew : new ≠ []) (hlen : new.length ≤ maxGroupLen)
    (hfree : ∀ k ∈ slots maxGroups, k ≠ i → ¬ strcaseEq (g k).name new)
    (hu' : ∀ j, u' j = if j ∈ slots maxRealUsers ∧ strcaseEq (u j).1 (g i).name
      then (new, (u j).2) else u j) :
    Agreed u' (Function.update g i { g i with name := new }) := by
  have hself : (Function.update g i { g i with name := new } i).name = new := by simp
  have hother {k : Int} (hk : k ≠ i) : Function.update g i { g i with name := new } k = g k :=
    Function.update_of_ne hk _ _
  have hlogin (j : Int) : (u' j).2 = (u j).2 := by
    rw [hu']
    split <;> rfl
  constructor
  case unique =>
    intro a ha b hb hne heq
    by_cases hai : a = i <;> by_cases hbi : b = i
    · rw [hai, hbi]
    · rw [hai, hself, hother hbi, strcaseEq_comm] at heq
      exact absurd heq (hfree b hb hbi)
    · rw [hbi, hself, hother hai] at heq
      exact absurd heq (hfree a ha hai)
    · rw [hother hai] at hne heq
      rw [hother hbi] at heq
      exact h.unique a ha b hb hne heq
  case member =>
    intro k hk hkx hne
    by_cases hki : k = i
    · refine ⟨n, real_mem_users hn, ?_⟩
      rw [hu', if_pos ⟨hn, hown⟩, hki, hself, strcaseEq_refl]
    · rw [hother hki] at hne ⊢
      obtain ⟨j, hj, hjk⟩ := h.member k hk hkx hne
      refine ⟨j, hj, ?_⟩
      -- a member of another group is not renamed
      rwa [hu', if_neg]
      rintro ⟨-, hji⟩
      refine hki (h.unique k hk i hi hne (strcaseEq_trans ?_ hji))
      rwa [strcaseEq_comm]
  case known =>
    intro j hj
    rw [hu']
    split
    next hji => exact .inr ⟨i, hi, hself⟩
    next hji =>
      refine (h.known j hj).imp_right ?_
      rintro ⟨k, hk, hkj⟩
      have hki : k ≠ i := by
        rintro rfl
        exact hji ⟨hj, by rw [hkj, strcaseEq_refl]⟩
      exact ⟨k, hk, by rwa [hother hki]⟩
  case seated =>
    intro j hj hc
    rw [hlogin] at hc
    rw [hu']
    split
    · exact hnew
    · exact h.seated j hj hc
  case away =>
    intro j hj hno
    rw [hlogin] at hno
    have hnil := h.away j hj hno
    rw [hu', if_neg]
    · exact hnil
    · rintro ⟨-, hji⟩
      rw [hnil, strcaseEq_comm] at hji
      exact hnamed (strcaseEq_nil hji)
  case cleared =>
    intro k hk hnil
    have hki : k ≠ i := by
      rintro rfl
      exact hnew (hself.symm.trans hnil)
    rw [hother hki] at hnil ⊢
    exact h.cleared k hk hnil
  case short =>
    intro k hk
    by_cases hki : k = i
    · rw [hki, hself]
      exact hlen
    · rw [hother hki]
      exact h.short k hk

/-- A user gets another group or another login state. Group `x` is what he may have left without a
member, group `y` what had none before. -/
theorem AgreedBut.reseat {n y : Int} {s : Bytes × Login} (h : AgreedBut y u g)
    (hn : n ∈ slots Env.maxUsers)
    (hknown : n ∈ slots maxRealUsers → s.1 = [] ∨ ∃ i ∈ slots maxGroups, (g i).name = s.1)
    (hseated : n ∈ slots maxRealUsers → s.2 = .complete → s.1 ≠ [])
    (haway : n ∈ slots maxRealUsers → s.2 = .no → s.1 = [])
    (hmember : ∀ i ∈ slots maxGroups, i ≠ x → (g i).name ≠ [] →
      strcaseEq s.1 (g i).name ∨ i ≠ y ∧ ¬ strcaseEq (u n).1 (g i).name) :
    AgreedBut x (Function.update u n s) g := by
  -- a fact about each connection holds if it holds of the new entry
  have heach {P : Bytes × Login → Prop} (hP : ∀ j ∈ slots maxRealUsers, P (u j))
      (hs : n ∈ slots maxRealUsers → P s) (j : Int) (hj : j ∈ slots maxRealUsers) :
      P (Function.update u n s j) := by
    by_cases hjn : j = n
    · subst hjn
      rw [Function.update_self]
      exact hs hj
    · rw [Function.update_of_ne hjn]
      exact hP j hj
  constructor
  case unique => exact h.unique
  case cleared => exact h.cleared
  case short => exact h.short
  case known => exact heach (P := fun s => s.1 = [] ∨ ∃ i ∈ slots maxGroups, (g i).name = s.1) h.known hknown
  case seated => exact heach (P := fun s => s.2 = .complete → s.1 ≠ []) h.seated hseated
  case away => exact heach (P := fun s => s.2 = .no → s.1 = []) h.away haway
  case member =>
    intro i hi hix hne
    rcases hmember i hi hix hne with hs | ⟨hiy, hnot⟩
    · exact ⟨n, hn, by rwa [Function.update_self]⟩
    · obtain ⟨j, hj, hji⟩ := h.member i hi hiy hne
      have hjn : j ≠ n := by
        rintro rfl
        exact hnot hji
      exact ⟨j, hj, by rwa [Function.update_of_ne hjn]⟩

/-- A group without a member is dropped. -/
theorem AgreedBut.drop (h : AgreedBut x u g)
    (hnone : ∀ j ∈ slots Env.maxUsers, ¬ strcaseEq (u j).1 (g x).name) :
    Agreed u (Function.update g x (clearedItem (g x))) := by
  have hself : (Function.update g x (clearedItem (g x)) x).name = [] := by
    rw [Function.update_self]
    rfl
  have hother {k : Int} (hk : k ≠ x) : Function.update g x (clearedItem (g x)) k = g k :=
    Function.update_of_ne hk _ _
  have hnamed {k : Int} (hne : (Function.update g x (clearedItem (g x)) k).name ≠ []) : k ≠ x := by
    rintro rfl
    exact hne hself
  constructor
  case unique =>
    intro a ha b hb hne heq
    have hax := hnamed hne
    rw [hother hax] at hne heq
    have hbx : b ≠ x := by
      rintro rfl
      rw [hself] at heq
      exact hne (strcaseEq_nil heq)
    rw [hother hbx] at heq
    exact h.unique a ha b hb hne heq
  case member =>
    intro k hk _ hne
    have hkx := hnamed hne
    rw [hother hkx] at hne ⊢
    exact h.member k hk hkx hne
  case known =>
    intro j hj
    refine (h.known j hj).imp_right ?_
    rintro ⟨k, hk, hkj⟩
    have hkx : k ≠ x := by
      rintro rfl
      exact hnone j (real_mem_users hj) (by rw [hkj, strcaseEq_refl])
    exact ⟨k, hk, by rwa [hother hkx]⟩
  case seated => exact h.seated
  case away => exact h.away
  case cleared =>
    intro k hk hnil
    by_cases hkx : k = x
    · subst hkx
      rw [Function.update_self]
      rfl
    · rw [hother hkx] at hnil ⊢
      exact h.cleared k hk hnil
  case short =>
    intro k hk
    by_cases hkx : k = x
    · rw [hkx, hself]
      exact Nat.zero_le _
    · rw [hother hkx]
      exact h.short k hk

/-- The group that was left out has a member after all. -/
theorem AgreedBut.settle (h : AgreedBut x u g)
    (hmember : x ∈ slots maxGroups → (g x).name ≠ [] →
      ∃ j ∈ slots Env.maxUsers, strcaseEq (u j).1 (g x).name) : Agreed u g :=
  { h with
    member := fun i hi _ hne => by
      by_cases hix : i = x
      · subst hix
        exact hmember hi hne
      · exact h.member i hi hix hne }

/-- An empty slot becomes a group that has no member yet. -/
theorem AgreedBut.open {g' : Int → Group} (h : Agreed u g) (hfree : (g i).name = [])
    (hothers : ∀ j ≠ i, g' j = g j) (hname : (g' i).name ≠ [])
    (hlen : (g' i).name.length ≤ maxGroupLen)
    (hnew : ∀ k ∈ slots maxGroups, ¬ strcaseEq (g k).name (g' i).name) : AgreedBut i u g' := by
  constructor
  case unique =>
    intro a ha b hb hne heq
    by_cases hai : a = i <;> by_cases hbi : b = i
    · rw [hai, hbi]
    · rw [hai, hothers b hbi, strcaseEq_comm] at heq
      exact absurd heq (hnew b hb)
    · rw [hbi, hothers a hai] at heq
      exact absurd heq (hnew a ha)
    · rw [hothers a hai] at hne heq
      rw [hothers b hbi] at heq
      exact h.unique a ha b hb hne heq
  case member =>
    intro k hk hki hne
    rw [hothers k hki] at hne ⊢
    exact h.member k hk (fun hneg => by simpa [hneg] using (mem_slots.mp hk).1) hne
  case known =>
    intro j hj
    by_cases hnil : (u j).1 = []
    · exact .inl hnil
    · obtain ⟨k, hk, hkj⟩ := (h.known j hj).resolve_left hnil
      have hki : k ≠ i := by
        rintro rfl
        exact hnil (hkj.symm.trans hfree)
      exact .inr ⟨k, hk, by rwa [hothers k hki]⟩
  case seated => exact h.seated
  case away => exact h.away
  case cleared =>
    intro k hk hnil
    have hki : k ≠ i := by
      rintro rfl
      exact hname hnil
    rw [hothers k hki] at hnil ⊢
    exact h.cleared k hk hnil
  case short =>
    intro k hk
    by_cases hki : k = i
    · exact hki ▸ hlen
    · rw [hothers k hki]
      exact h.short k hk

end

/-! ## §2 — group changes -/

section
variable {n ngi ogi : Int} {target : Bytes} {ok : Bool} {w w' : World}

omit [Env] in
theorem Stilly.seats (hS : Stilly w w') : w'.seats = w.seats := by
  funext j
  simp only [World.seats, congrArg UserId.group (hS.users j), congrArg UserId.login (hS.users j)]

/-- The slot of a user's group, if he is in one. -/
theorem AgreedBut.groupOf_eq {x i : Int} (h : AgreedBut x w.seats w.gTab) (hi : i ∈ slots maxGroups)
    (hne : (w.gTab i).name ≠ []) (hin : strcaseEq (w.uTab n).group (w.gTab i).name) :
    i = groupOf w n := by
  have hgroup : (w.uTab n).group ≠ [] := fun hnil =>
    hne (strcaseEq_nil (by rwa [hnil, strcaseEq_comm] at hin))
  have hin' : strcaseEq (w.gTab i).name (w.uTab n).group := by rwa [strcaseEq_comm]
  obtain ⟨hslot, heq⟩ := findGroup_nonneg (findGroup_of_mem hgroup hi hin')
  refine h.unique i hi _ hslot hne (strcaseEq_trans hin' ?_)
  rwa [strcaseEq_comm]

/-- A move keeps the tables in step. Before it the new group may be without a member. -/
theorem Moved.agreed {y : Int} (hm : Moved n ngi ogi w w') (h : AgreedBut y w.seats w.gTab)
    (hy : ∀ i ∈ slots maxGroups, i ≠ ngi → i ≠ y) (hn : n ∈ slots Env.maxUsers)
    (hlogin : n ∈ slots maxRealUsers → (w.uTab n).login ≠ .no) (hngi : ngi ∈ slots maxGroups)
    (hname : (w.gTab ngi).name ≠ []) (hogi : ogi = groupOf w n) : Agreed w'.seats w'.gTab := by
  subst hogi
  have hseats : w'.seats = Function.update w.seats n ((w.gTab ngi).name, (w.uTab n).login) := by
    funext j
    by_cases hj : j = n
    · subst hj
      rw [Function.update_self]
      simp only [World.seats, congrArg UserId.group hm.mover, congrArg UserId.login hm.mover]
    · rw [Function.update_of_ne hj]
      simp only [World.seats, congrArg UserId.group (hm.users j hj),
        congrArg UserId.login (hm.users j hj)]
  have hbut : AgreedBut (groupOf w n) w'.seats w.gTab := by
    rw [hseats]
    refine h.reseat hn (fun _ => .inr ⟨ngi, hngi, rfl⟩) (fun _ _ => hname)
      (fun hreal hno => absurd hno (hlogin hreal)) fun i hi hiogi hne => ?_
    by_cases hingi : i = ngi
    · exact .inl (by rw [hingi, strcaseEq_refl])
    · exact .inr ⟨hy i hi hingi, fun hin => hiogi (h.groupOf_eq hi hne hin)⟩
  rw [hm.groups]
  split
  next hempty =>
    have hold : (w.gTab (groupOf w n)).name ≠ [] := findGroup_named hempty.1
    exact hbut.drop ((countUsersInGroup_eq_zero hold).mp hempty.2)
  next hleft =>
    refine hbut.settle fun hslot hne => ?_
    by_contra hnone
    refine hleft ⟨(mem_slots.mp hslot).1, (countUsersInGroup_eq_zero hne).mpr fun j hj hin => ?_⟩
    exact hnone ⟨j, hj, hin⟩

omit [Env] in
theorem length_targetName_le (t : Bytes) : (targetName t).length ≤ maxGroupLen := by
  unfold targetName filtergroupname parseTarget
  rw [List.length_map]
  split
  · split <;> exact List.length_take_le _ _
  · exact List.length_take_le _ _

/-- **A group change keeps the tables in step**, and who has moved is in a group. -/
theorem Changes.agreed (hc : Changes n target w ok w') (h : Agreed w.seats w.gTab)
    (hn : n ∈ slots Env.maxUsers) (hlogin : n ∈ slots maxRealUsers → (w.uTab n).login ≠ .no) :
    Agreed w'.seats w'.gTab := by
  have hout {i : Int} (hi : i ∈ slots maxGroups) : i ≠ -1 := by
    have := (mem_slots.mp hi).1
    omega
  -- a new group, not entered yet
  have hopened {t : Bytes} {w₁ : World} (hname : targetName t ≠ [])
      (hnew : findGroup w (targetName t) < 0) (hfree : 0 ≤ findEmptyGroup w)
      (hcr : Created n (findEmptyGroup w) (targetName t) w w₁) :
      AgreedBut (findEmptyGroup w) w₁.seats w₁.gTab := by
    have hseats : w₁.seats = w.seats := by
      funext j
      simp only [World.seats, congrArg UserId.group (hcr.users j), congrArg UserId.login (hcr.users j)]
    rw [hseats]
    refine h.open (findEmptyGroup_nonneg hfree).2 hcr.others ?_ ?_ ?_
    · rwa [hcr.name]
    · rw [hcr.name]
      exact length_targetName_le t
    · rw [hcr.name]
      exact fun k hk => findGroup_neg hname hnew hk
  cases hc with
  | refused _ hS => rwa [hS.seats, hS.groups]
  | joined _ hfound _ _ _ hm =>
    refine hm.agreed h (fun i hi _ => hout hi) hn hlogin (findGroup_nonneg hfound).1
      (findGroup_named hfound) rfl
  | opened _ hname hnew hfree hneq hcr hm =>
    have hgroup := hcr.groupOf hname hnew hfree n
    rw [if_neg hneq] at hgroup
    refine hm.agreed (hopened hname hnew hfree hcr) (fun i _ hi => hi) hn (fun hreal => ?_)
      (findEmptyGroup_nonneg hfree).1 (by rwa [hcr.name]) hgroup.symm
    rw [congrArg UserId.login (hcr.users n)]
    exact hlogin hreal
  | reopened _ hname hnew hfree heq hcr =>
    refine (hopened hname hnew hfree hcr).settle fun _ _ => ⟨n, hn, ?_⟩
    rw [hcr.name, strcaseEq_comm]
    simpa only [World.seats, congrArg UserId.group (hcr.users n)] using heq

/-- Who has moved is in a group. -/
theorem Changes.in_group (hc : Changes n target w true w') : (w'.uTab n).group ≠ [] := by
  cases hc with
  | joined _ hfound _ _ _ hm =>
    rw [congrArg UserId.group hm.mover]
    exact findGroup_named hfound
  | opened _ hname _ _ _ hcr hm =>
    rw [congrArg UserId.group hm.mover]
    exact hcr.name ▸ hname

end

/-! ## §3 — renames -/

/-- Group slot `gi` has the name `new`, and so have the connections that were in it. -/
structure Renamed (gi : Int) (new : Bytes) (w w' : World) : Prop where
  seats : ∀ j, w'.seats j = if j ∈ slots maxRealUsers ∧ strcaseEq (w.seats j).1 (w.gTab gi).name
    then (new, (w.seats j).2) else w.seats j
  groups : w'.gTab = Function.update w.gTab gi { w.gTab gi with name := new }

/-- The loop over the members. -/
theorem each_rename (xs : List Int) (old new : Bytes) (w : World) :
    wp (each xs fun i => do
      let u ← getU i
      whenever (strcaseEq u.group old) (setUserGroup i new))
      (fun _ w' => (∀ j, w'.seats j = if j ∈ xs ∧ strcaseEq (w.seats j).1 old
        then (new, (w.seats j).2) else w.seats j) ∧ w'.gTab = w.gTab) w := by
  induction xs generalizing w with
  | nil => exact ⟨fun j => (if_neg fun h => List.not_mem_nil h.1).symm, rfl⟩
  | cons i xs ih =>
    -- the first entry
    refine wp_bind ?_
    have hfirst : wp (do
        let u ← getU i
        whenever (strcaseEq u.group old) (setUserGroup i new))
        (fun _ w₁ => (∀ j, w₁.seats j = if j = i ∧ strcaseEq (w.seats j).1 old
          then (new, (w.seats j).2) else w.seats j) ∧ w₁.gTab = w.gTab) w := by
      refine wp_bind (wp_getU (wp_whenever (fun heq => ⟨fun j => ?_, rfl⟩) fun hneq => ⟨fun j => ?_, rfl⟩))
      · by_cases hj : j = i
        · subst hj
          rw [if_pos ⟨rfl, heq⟩]
          simp [World.seats, setUserGroup, World.modU, getU]
        · simp [hj, World.seats, setUserGroup, World.modU, getU]
      · by_cases hj : j = i
        · subst hj
          rw [if_neg fun h => hneq h.2]
          rfl
        · simp [hj, World.seats, getU]
    refine wp_mono hfirst fun _ w₁ h₁ => wp_mono (ih w₁) fun _ w' h' => ?_
    refine ⟨fun j => ?_, h'.2.trans h₁.2⟩
    have hthen := h'.1 j
    have hnow := h₁.1 j
    by_cases heq : strcaseEq (w.seats j).1 old
    · by_cases hj : j = i
      · rw [if_pos ⟨hj, heq⟩] at hnow
        rw [if_pos ⟨hj ▸ List.mem_cons_self, heq⟩, hthen, hnow]
        split <;> rfl
      · rw [if_neg fun h => hj h.1] at hnow
        rw [hthen, hnow]
        simp [hj]
    · rw [if_neg fun h => heq h.2] at hnow
      rw [hthen, hnow, if_neg fun h => heq h.2, if_neg fun h => heq h.2]

/-- `set_name` refuses, or renames to a name no other group has. -/
theorem setName_cases (n gi : Int) (name : Bytes) (w : World) :
    wp (setName n gi name) (fun _ w' => Stilly w w' ∨
      name ≠ [] ∧ (0 ≤ findGroup w (name.take maxGroupLen) →
        findGroup w (name.take maxGroupLen) = gi) ∧ Renamed gi (name.take maxGroupLen) w w') w := by
  have hget : Stilly w (getG gi w).2 := Within.within w
  have hrefuse {msg : Bytes} : wp (do senderror n msg; pure false) (fun _ w' => Stilly w w' ∨
      name ≠ [] ∧ (0 ≤ findGroup w (name.take maxGroupLen) →
        findGroup w (name.take maxGroupLen) = gi) ∧ Renamed gi (name.take maxGroupLen) w w')
      (getG gi w).2 :=
    wp_bind (Within.wp Stilly fun _ w₁ h₁ => .inl (trans_of Stilly hget h₁))
  refine wp_bind (wp_getW (wp_bind (wp_getG (wp_ite (fun _ => hrefuse) fun hname => ?_))))
  refine wp_ite (fun _ => hrefuse) fun _ => wp_ite (fun _ => hrefuse) fun hfree => ?_
  refine wp_bind (wp_mono (each_rename _ _ _ _) fun _ w₁ h₁ => ?_)
  refine .inr ⟨hname, fun hfound => ?_, ?_, ?_⟩
  · by_contra hne
    exact hfree ⟨hfound, hne⟩
  · exact h₁.1
  · show Function.update w₁.gTab gi { w₁.gTab gi with name := name.take maxGroupLen } = _
    rw [h₁.2]
    rfl

/-! ## §4 — what may be written -/

/-- An invariant of the tables. -/
abbrev KeepsTables (J : (Int → Bytes × Login) → (Int → Group) → Prop) : World → World → Prop :=
  ViewInv (fun u => (u.group, u.login)) (fun g => g) J

section
variable {J : (Int → Bytes × Login) → (Int → Group) → Prop} {n i : Int} {v : Bytes}

instance : Still (KeepsTables J) where
  drops := Drops.drops
  toPlain _ := inferInstance
  toUOpts _ := ⟨fun _ _ => ViewInv.modU fun _ => rfl⟩

instance : NickTo (KeepsTables J) n v := ⟨fun _ => ViewInv.modU fun _ => rfl⟩
instance : RealTo (KeepsTables J) n v := ⟨fun _ => ViewInv.modU fun _ => rfl⟩
instance : IdentTo (KeepsTables J) n := ⟨fun _ _ _ _ => ViewInv.modU fun _ => rfl⟩

/-- An invariant of tables that agree, and that lets entries with a name change all but the name. -/
class NamedWrites (J : (Int → Bytes × Login) → (Int → Group) → Prop) : Prop where
  agreed : ∀ {u g}, J u g → Agreed u g
  write : ∀ {u g} (i : Int) (g' : Group), J u g → (i ∈ slots maxGroups → (g i).name ≠ []) →
    g'.name = (g i).name → J u (Function.update g i g')

/-- And group `i` has a name. -/
def Tended (J : (Int → Bytes × Login) → (Int → Group) → Prop) (i : Int) (u : Int → Bytes × Login)
    (g : Int → Group) : Prop :=
  J u g ∧ (i ∈ slots maxGroups → (g i).name ≠ [])

/-- And `n`, if he is a connection, is logged in. -/
def AgreedIn (n : Int) (u : Int → Bytes × Login) (g : Int → Group) : Prop :=
  Agreed u g ∧ (n ∈ slots maxRealUsers → (u n).2 ≠ .no)

/-- And the connection `n` is in group `i`. -/
def Held (n i : Int) (u : Int → Bytes × Login) (g : Int → Group) : Prop :=
  Agreed u g ∧ i ∈ slots maxGroups ∧ (g i).name ≠ [] ∧ n ∈ slots maxRealUsers ∧
    strcaseEq (u n).1 (g i).name

instance : NamedWrites Agreed where
  agreed := id
  write _ _ h hnamed hname := h.write hnamed hname

instance : NamedWrites (AgreedIn n) where
  agreed h := h.1
  write _ _ h hnamed hname := ⟨h.1.write hnamed hname, h.2⟩

omit [Env] in
theorem name_update {g : Int → Group} {g' : Group} (hname : g'.name = (g i).name) (k : Int) :
    (Function.update g i g' k).name = (g k).name := by
  by_cases hk : k = i
  · subst hk
    rw [Function.update_self, hname]
  · rw [Function.update_of_ne hk]

instance : NamedWrites (Held n i) where
  agreed h := h.1
  write k g' h hnamed hname := by
    obtain ⟨hA, hi, hne, hn, hown⟩ := h
    refine ⟨hA.write hnamed hname, hi, ?_, hn, ?_⟩
    · rwa [name_update hname]
    · rwa [name_update hname]

/-- A write to a group that has a name. -/
theorem Tended.write [NamedWrites J] {u : Int → Bytes × Login} {g : Int → Group} {g' : Group}
    (h : Tended J i u g) (hname : g'.name = (g i).name) : Tended J i u (Function.update g i g') := by
  refine ⟨NamedWrites.write i g' h.1 h.2 hname, fun hi => ?_⟩
  rw [Function.update_self, hname]
  exact h.2 hi

instance [NamedWrites J] : GOptsAt (KeepsTables (Tended J i)) i := ⟨fun _ _ => .writeG fun h => h.write rfl⟩
instance [NamedWrites J] : ModAt (KeepsTables (Tended J i)) i n := ⟨fun _ => .writeG fun h => h.write rfl⟩
instance [NamedWrites J] : MissAt (KeepsTables (Tended J i)) i := ⟨fun _ _ _ => .writeG fun h => h.write rfl⟩

instance : GOptsAt (KeepsTables (Held n i)) i :=
  ⟨fun _ _ => .writeG fun h => NamedWrites.write i _ h (fun _ => h.2.2.1) rfl⟩

instance {k : Int} : ModAt (KeepsTables (Held n i)) i k :=
  ⟨fun _ => .writeG fun h => NamedWrites.write i _ h (fun _ => h.2.2.1) rfl⟩

instance : Within (KeepsTables (Held n i)) (setName n i v) where
  within w h := by
    obtain ⟨hA, hi, hne, hn, hown⟩ := h
    show wp (setName n i v) (fun _ w' => Held n i w'.seats w'.gTab) w
    refine wp_mono (setName_cases n i v w) fun _ w' hcases => ?_
    rcases hcases with hS | ⟨hname, hfree, hren⟩
    · rw [hS.seats, hS.groups]
      exact ⟨hA, hi, hne, hn, hown⟩
    · have hnew : v.take maxGroupLen ≠ [] := by
        cases v with
        | nil => exact absurd rfl hname
        | cons b v => exact List.cons_ne_nil _ _
      have hnone (k : Int) (hk : k ∈ slots maxGroups) (hki : k ≠ i) :
          ¬ strcaseEq (w.gTab k).name (v.take maxGroupLen) := by
        intro heq
        have hfound := findGroup_of_mem hnew hk heq
        have hmatch := (findGroup_nonneg hfound).2
        rw [hfree hfound, strcaseEq_comm] at hmatch
        have hkne : (w.gTab k).name ≠ [] := fun hnil =>
          hnew (strcaseEq_nil (by rwa [hnil, strcaseEq_comm] at heq))
        exact hki (hA.unique k hk i hi hkne (strcaseEq_trans heq hmatch))
      have hagreed := hA.rename hi hne hn hown hnew (List.length_take_le _ _) hnone hren.seats
      rw [hren.groups]
      refine ⟨hagreed, hi, ?_, hn, ?_⟩
      · rwa [Function.update_self]
      · rw [hren.seats, if_pos ⟨hn, hown⟩, Function.update_self, strcaseEq_refl]

end

/-! ## §5 — loops over the groups -/

section
variable {J : (Int → Bytes × Login) → (Int → Group) → Prop} [NamedWrites J] {n i j : Int}
  {u : Int → Bytes × Login} {g : Int → Group}

/-- A group with a moderator has a name. -/
theorem tended_of_mod (h : J u g) (hmod : (g i).mod ≠ -1) : Tended J i u g := by
  refine ⟨h, fun hi hnil => hmod ?_⟩
  rw [(NamedWrites.agreed h).cleared i hi hnil]
  rfl

/-- So has a group that waits for its moderator. -/
theorem tended_of_timeout (h : J u g) (htime : (g i).modtimeout > 0) : Tended J i u g := by
  refine ⟨h, fun hi hnil => ?_⟩
  rw [(NamedWrites.agreed h).cleared i hi hnil] at htime
  exact absurd htime (lt_irrefl _)

instance : Within (KeepsTables J) (regainMods n) where
  within w h := by
    show wp (regainMods n) (fun _ w' => J w'.seats w'.gTab) w
    refine wp_each (fun i _ w h => ?_) h
    refine wp_bind (wp_getU (wp_bind (wp_getG (wp_whenever (fun hc => ?_) fun _ => h))))
    have ht : Tended J i w.seats w.gTab := tended_of_timeout h hc.1
    exact Within.wp (KeepsTables (Tended J i)) fun _ _ hkeep => (hkeep ht).1

instance : Within (KeepsTables J) (idleMod i) where
  within w h := by
    show wp (idleMod i) (fun _ w' => J w'.seats w'.gTab) w
    refine wp_bind (wp_getW (wp_bind (wp_getG (wp_whenever (fun hc => ?_) fun _ => h))))
    have hmod : (w.gTab i).mod ≥ 0 := hc.2
    have ht : Tended J i w.seats w.gTab := tended_of_mod h (by omega)
    exact Within.wp (KeepsTables (Tended J i)) fun _ _ hkeep => (hkeep ht).1

instance : Within (KeepsTables J) (passTimeout i) where
  within w h := by
    show wp (passTimeout i) (fun _ w' => J w'.seats w'.gTab) w
    refine wp_bind (wp_getW (wp_bind (wp_getG (wp_whenever (fun hc => ?_) fun _ => h))))
    have ht : Tended J i w.seats w.gTab := tended_of_timeout h hc.1
    exact Within.wp (KeepsTables (Tended J i)) fun _ _ hkeep => (hkeep ht).1

theorem idleBootMod_within (hi : 0 ≤ i) : Within (KeepsTables J) (idleBootMod i j) where
  within w h := by
    show wp (idleBootMod i j) (fun _ w' => J w'.seats w'.gTab) w
    refine wp_bind (wp_getW (wp_bind (wp_getU (wp_bind (wp_getG (wp_whenever (fun hc => ?_) fun _ => h))))))
    have hmod : (w.gTab j).mod = i := hc
    have ht : Tended J j w.seats w.gTab := tended_of_mod h (by omega)
    exact Within.wp (KeepsTables (Tended J j)) fun _ _ hkeep => (hkeep ht).1

instance {wasRegistered : Bool} {name : Bytes} {fuel : Nat} :
    Within (KeepsTables J) (lostMods n wasRegistered name fuel) := by
  induction fuel with
  | zero =>
    unfold lostMods
    infer_instance
  | succ fuel ih =>
    refine ⟨fun w h => ?_⟩
    show wp (lostMods n wasRegistered name (fuel + 1)) (fun _ w' => J w'.seats w'.gTab) w
    refine wp_bind (wp_getW (wp_whenever (fun _ => wp_bind ?_) fun _ => h))
    suffices hone : wp (whenever (countUsersInGroup w (w.gTab (checkMods w n)).name > 0)
        (lostMod (checkMods w n) wasRegistered name)) (fun _ w' => J w'.seats w'.gTab) w from
      wp_mono hone fun _ w' h' => ih.within w' h'
    refine wp_whenever (fun hcount => ?_) fun _ => h
    have ht : Tended J (checkMods w n) w.seats w.gTab := by
      refine ⟨h, fun _ hnil => ?_⟩
      simp [countUsersInGroup, hnil] at hcount
    exact Within.wp (KeepsTables (Tended J (checkMods w n))) fun _ _ hkeep => (hkeep ht).1

end

/-! ## §6 — boots, polls and departures -/

section
variable {n : Int} {target : Bytes} {ok : Bool} {w w' : World}

/-- A group change logs nobody in or out. -/
theorem Changes.login (hc : Changes n target w ok w') (j : Int) :
    (w'.uTab j).login = (w.uTab j).login := by
  have hmoved {ngi ogi : Int} {w₁ : World} (hm : Moved n ngi ogi w₁ w') :
      (w'.uTab j).login = (w₁.uTab j).login := by
    by_cases hj : j = n
    · rw [hj, congrArg UserId.login hm.mover]
    · exact congrArg UserId.login (hm.users j hj)
  cases hc with
  | refused _ hS => exact congrArg UserId.login (hS.users j)
  | joined _ _ _ _ _ hm => exact hmoved hm
  | opened _ _ _ _ _ hcr hm => exact (hmoved hm).trans (congrArg UserId.login (hcr.users j))
  | reopened _ _ _ _ _ hcr => exact congrArg UserId.login (hcr.users j)

theorem bootTo_agreedIn (hn : n ∈ slots Env.maxUsers) :
    Within (KeepsTables (AgreedIn n)) (bootTo n target) where
  within w h := by
    show wp (bootTo n target) (fun _ w' => AgreedIn n w'.seats w'.gTab) w
    refine wp_after (wp_after ?_)
    have hc := sChange_cases n target false (modMisc (fun m => { m with isBooting := true }) w).2
    refine ⟨hc.agreed h.1 hn h.2, fun hreal => ?_⟩
    exact fun hno => h.2 hreal ((hc.login n).symm.trans hno)

theorem idleBoot_within (hn : n ∈ slots maxRealUsers) : Within (KeepsTables Agreed) (idleBoot n) where
  within w h := by
    show wp (idleBoot n) (fun _ w' => Agreed w'.seats w'.gTab) w
    refine wp_bind (wp_getW (wp_bind (wp_getU (wp_whenever (fun hc => ?_) fun _ => h))))
    have hin : AgreedIn n w.seats w.gTab := by
      refine ⟨h, fun _ hno => ?_⟩
      have hlogin : (w.uTab n).login = .complete := hc.1
      exact absurd (hlogin.symm.trans hno) (by decide)
    have (j : Int) : Within (KeepsTables (AgreedIn n)) (idleBootMod n j) :=
      idleBootMod_within (mem_slots.mp hn).1
    have : Within (KeepsTables (AgreedIn n)) (bootTo n idleGroup) := bootTo_agreedIn (real_mem_users hn)
    exact Within.wp (KeepsTables (AgreedIn n)) fun _ _ hkeep => (hkeep hin).1

instance : Within (KeepsTables Agreed) sDidpoll := by
  have : Within (KeepsTables Agreed) (each (slots maxRealUsers) idleBoot) :=
    Within.each fun i hi => idleBoot_within hi
  unfold sDidpoll
  infer_instance

/-- The entry of a lost user. -/
theorem clearUserItem_seats (n : Int) (w : World) :
    wp (clearUserItem n) (fun _ w' => w'.seats = Function.update w.seats n ([], .no) ∧
      w'.gTab = w.gTab) w := by
  refine wp_bind (wp_getU (wp_bind (Within.wp
    (KeepsTables fun u g => u = w.seats ∧ g = w.gTab) fun _ w₁ hkeep => ?_)))
  obtain ⟨hu, hg⟩ : w₁.seats = w.seats ∧ w₁.gTab = w.gTab := hkeep ⟨rfl, rfl⟩
  refine ⟨?_, hg⟩
  rw [← hu]
  funext j
  by_cases hj : j = n
  · subst hj
    simp [setIdent, setNickname, setRealname, setUserGroup, setLogin, modUOpts, modMisc,
      World.seats, World.modU, World.withMisc]
  · simp [setIdent, setNickname, setRealname, setUserGroup, setLogin, modUOpts, modMisc,
      World.seats, World.modU, World.withMisc, hj]

/-- A connection in a group has the group's name, and it fits the buffer. -/
theorem AgreedBut.take_group {x : Int} (h : AgreedBut x w.seats w.gTab) (hn : n ∈ slots maxRealUsers) :
    (w.uTab n).group.take maxGroupLen = (w.uTab n).group := by
  apply List.take_of_length_le
  rcases h.known n hn with hnil | ⟨i, hi, hname⟩
  · have hnil : (w.uTab n).group = [] := hnil
    simp [hnil]
  · have hname : (w.gTab i).name = (w.uTab n).group := hname
    rw [← hname]
    exact h.short i hi

/-- A connection that is in no group there is, is in none. -/
theorem AgreedBut.group_nil {x : Int} (h : AgreedBut x w.seats w.gTab) (hn : n ∈ slots maxRealUsers)
    (hneg : groupOf w n < 0) : (w.uTab n).group = [] := by
  by_contra hne
  obtain ⟨i, hi, hname⟩ := (h.known n hn).resolve_left hne
  have hname : (w.gTab i).name = (w.uTab n).group := hname
  exact findGroup_neg hne hneg hi (by rw [hname, strcaseEq_refl])

/-- What is left of the group of a lost user. -/
theorem leaveGroup_agreed {ogi : Int} {text : Bytes} (hbut : AgreedBut ogi w.seats w.gTab)
    {group : Bytes} (hname : (w.gTab ogi).name ≠ [])
    (hgroup : strcaseEq (w.gTab ogi).name group) :
    wp (leaveGroup ogi group text) (fun _ w' => Agreed w'.seats w'.gTab ∧ w'.seats = w.seats) w := by
  have hne : group ≠ [] := by
    rintro rfl
    exact hname (strcaseEq_nil hgroup)
  refine wp_bind (wp_getW (wp_bind (wp_getG (wp_ite (fun hleft => ?_) fun hleft => ?_))))
  · have hagreed : Agreed w.seats w.gTab := by
      refine hbut.settle fun _ _ => ?_
      by_contra hnone
      have hzero : countUsersInGroup w group = 0 := by
        refine (countUsersInGroup_eq_zero hne).mpr fun j hj hin => hnone ⟨j, hj, ?_⟩
        refine strcaseEq_trans hin ?_
        rwa [strcaseEq_comm]
      omega
    exact Within.wp (KeepsTables fun u g => Agreed u g ∧ u = w.seats) fun _ _ hkeep => hkeep ⟨hagreed, rfl⟩
  · show Agreed (clearGroupItem ogi (getG ogi w).2).2.seats (clearGroupItem ogi (getG ogi w).2).2.gTab ∧
      (clearGroupItem ogi (getG ogi w).2).2.seats = w.seats
    rw [clearGroupItem_eq]
    refine ⟨?_, rfl⟩
    have hzero : countUsersInGroup w group = 0 := by omega
    refine hbut.drop fun j hj hin => (countUsersInGroup_eq_zero hne).mp hzero j hj ?_
    exact strcaseEq_trans hin hgroup

/-- Somebody's entry is cleared: everything but his group is in order. -/
theorem clearUserItem_but {w₁ : World} (h : Agreed w.seats w.gTab) (hn : n ∈ slots Env.maxUsers)
    (h₁ : Stilly w w₁) :
    wp (clearUserItem n) (fun _ w₂ => AgreedBut (groupOf w n) w₂.seats w₂.gTab ∧ w₂.gTab = w.gTab ∧
      w₂.seats n = ([], .no)) w₁ := by
  refine wp_mono (clearUserItem_seats n w₁) fun _ w₂ h₂ => ?_
  rw [h₁.seats, h₁.groups] at h₂
  refine ⟨?_, h₂.2, by rw [h₂.1, Function.update_self]⟩
  rw [h₂.1, h₂.2]
  refine h.reseat hn (fun _ => .inl rfl) (fun _ hc => absurd hc (by decide)) (fun _ _ => rfl)
    fun i hi hiogi hne => .inr ⟨?_, fun hin => hiogi (h.groupOf_eq hi hne hin)⟩
  have := (mem_slots.mp hi).1
  omega

/-- **Whoever leaves takes his group with him if he was the last.** -/
theorem sLostUser_agreed (h : Agreed w.seats w.gTab) (hn : n ∈ slots Env.maxUsers) :
    Agreed (sLostUser n w).2.seats (sLostUser n w).2.gTab := by
  show wp (sLostUser n) (fun _ w' => Agreed w'.seats w'.gTab) w
  refine wp_bind (wp_getW (wp_bind (wp_getU (wp_ite (fun _ => h) fun hreal => ?_))))
  have hreal : n ∈ slots maxRealUsers := mem_slots.mpr ⟨(mem_slots.mp hn).1, by omega⟩
  refine wp_ite (fun hlogin => ?_) fun hlogin => ?_
  · -- he never got in, and is in no group
    refine wp_mono (clearUserItem_seats n _) fun _ w' h' => ?_
    have hsame : w.seats n = ([], .no) := Prod.ext (h.away n hreal hlogin) hlogin
    rw [h'.1, h'.2]
    show Agreed (Function.update w.seats n ([], .no)) w.gTab
    rwa [← hsame, Function.update_eq_self]
  · refine wp_bind (Within.wp Stilly fun _ w₁ h₁ => ?_)
    have h₁ : Stilly w w₁ := trans_of Stilly (Within.within (x := getU n) w) h₁
    refine wp_bind (wp_mono (clearUserItem_but h hn h₁) fun _ w₂ ⟨hbut, h₂, _⟩ => ?_)
    rw [h.take_group hreal]
    show wp (whenever (groupOf w n ≥ 0) _) (fun _ w' => Agreed w'.seats w'.gTab) w₂
    refine wp_whenever (fun hogi => wp_bind ?_) fun hogi => ?_
    · obtain ⟨-, heq⟩ := findGroup_nonneg hogi
      have hname : (w₂.gTab (groupOf w n)).name ≠ [] := h₂ ▸ findGroup_named hogi
      refine wp_mono (leaveGroup_agreed hbut hname (h₂ ▸ heq)) fun _ w₃ h₃ => ?_
      exact Within.wp (KeepsTables Agreed) fun _ _ hkeep => hkeep h₃.1
    · refine hbut.settle fun hslot _ => absurd (mem_slots.mp hslot).1 ?_
      omega

end

/-! ## §7 — packets -/

section
variable {n : Int} {w : World} {d : Daemon} {a b c p text contents : Bytes}

/-- A connection that has not started to log in. -/
def Absent (n : Int) (u : Int → Bytes × Login) (g : Int → Group) : Prop :=
  Agreed u g ∧ n ∈ slots maxRealUsers ∧ u n = ([], .no)

omit [Env] in
/-- Filling in an absent entry seats nobody. -/
theorem fillUserEntry_seats {v : Bytes} {m : Nat} (h : w.seats n = ([], .no)) :
    (fillUserEntry n a v b c [] [] .no 0 0 m w).2.seats = w.seats := by
  funext j
  by_cases hj : j = n
  · subst hj
    rw [h]
    simp [fillUserEntry, setIdent, setNickname, setUserGroup, setLogin, modUOpts, World.seats,
      World.modU]
  · simp [fillUserEntry, setIdent, setNickname, setUserGroup, setLogin, modUOpts, World.seats,
      World.modU, hj]

theorem fillUserEntry_absent {v : Bytes} {m : Nat} (h : Absent n w.seats w.gTab) :
    Absent n (fillUserEntry n a v b c [] [] .no 0 0 m w).2.seats
      (fillUserEntry n a v b c [] [] .no 0 0 m w).2.gTab := by
  rw [fillUserEntry_seats h.2.2]
  exact h

omit [Env] in
/-- The session starts outside all groups. -/
theorem startSession_seats (h : w.seats n = ([], .no)) :
    (startSession n w).2.seats = Function.update w.seats n ([], .pending) := by
  funext j
  by_cases hj : j = n
  · subst hj
    have hnil : (w.uTab j).group = [] := congrArg Prod.fst h
    simp [startSession, setLogin, modUOpts, World.seats, World.modU, hnil]
  · simp [startSession, setLogin, modUOpts, World.seats, World.modU, hj]

theorem startSession_agreedIn (h : Absent n w.seats w.gTab) :
    AgreedIn n (startSession n w).2.seats (startSession n w).2.gTab := by
  obtain ⟨hA, hn, hno⟩ := h
  rw [startSession_seats hno]
  refine ⟨hA.reseat (real_mem_users hn) (fun _ => .inl rfl) (fun _ h => absurd h (by decide))
    (fun _ h => absurd h (by decide)) fun i hi hix hne => .inr ⟨hix, fun hin => ?_⟩, fun _ => ?_⟩
  · rw [hno, strcaseEq_comm] at hin
    exact hne (strcaseEq_nil hin)
  · rw [Function.update_self]
    decide

omit [Env] in
theorem setLogin_seats (n : Int) (w : World) :
    (setLogin n .complete w).2.seats = Function.update w.seats n ((w.uTab n).group, .complete) := by
  funext j
  by_cases hj : j = n
  · subst hj
    simp [setLogin, World.seats, World.modU]
  · simp [setLogin, World.seats, World.modU, hj]

/-- Whoever is in a group may complete his login. -/
theorem setLogin_agreed (h : Agreed w.seats w.gTab) (hn : n ∈ slots maxRealUsers)
    (hgroup : (w.uTab n).group ≠ []) :
    Agreed (setLogin n .complete w).2.seats (setLogin n .complete w).2.gTab := by
  rw [setLogin_seats]
  refine h.reseat (real_mem_users hn) (fun _ => h.known n hn) (fun _ _ => hgroup)
    (fun _ => nofun) fun i _ hix _ => ?_
  by_cases hin : strcaseEq (w.uTab n).group (w.gTab i).name
  · exact .inl hin
  · exact .inr ⟨hix, hin⟩

theorem enterServer_agreed (h : Absent n w.seats w.gTab) :
    Agreed (enterServer n a w).2.seats (enterServer n a w).2.gTab := by
  have hn : n ∈ slots maxRealUsers := h.2.1
  show wp (enterServer n a) (fun _ w' => Agreed w'.seats w'.gTab) w
  refine wp_after (wp_bind (wp_getU ?_))
  have hin : AgreedIn n (getU n (startSession n w).2).2.seats (getU n (startSession n w).2).2.gTab :=
    startSession_agreedIn h
  refine wp_bind (Within.wp (KeepsTables (AgreedIn n)) fun _ w₁ h₁ => ?_)
  refine wp_bind (Within.wp (KeepsTables (AgreedIn n)) fun _ w₂ h₂ => ?_)
  refine wp_bind (Within.wp (KeepsTables (AgreedIn n)) fun _ w₃ h₃ => ?_)
  obtain ⟨hA, hlogin⟩ : AgreedIn n w₃.seats w₃.gTab := h₃ (h₂ (h₁ hin))
  have hc := sChange_cases n a true w₃
  have hA' := hc.agreed hA (real_mem_users hn) hlogin
  refine wp_after (wp_ite (fun hok => wp_after ?_) fun _ => hA')
  rw [hok] at hc
  refine Within.wp (KeepsTables Agreed) fun _ _ hkeep => hkeep ?_
  exact setLogin_agreed hA' hn hc.in_group

theorem login_agreed (h : Absent n w.seats w.gTab) :
    Agreed (login n a b c p w).2.seats (login n a b c p w).2.gTab := by
  apply login_post (R := KeepsTables (Absent n)) (I := fun w => Absent n w.seats w.gTab)
    (Q := fun w => Agreed w.seats w.gTab)
  · exact fun _ _ hkeep => hkeep
  · exact fun _ h => h.1
  · exact fun _ _ _ => fillUserEntry_absent
  · exact fun _ _ => enterServer_agreed
  · exact h

/-- A logged-in connection holds its group. -/
theorem AgreedBut.held (h : Agreed w.seats w.gTab) (hn : n ∈ slots maxRealUsers)
    (hlogin : (w.uTab n).login = .complete) : Held n (groupOf w n) w.seats w.gTab := by
  have hgroup : (w.uTab n).group ≠ [] := h.seated n hn hlogin
  obtain ⟨i, hi, hname⟩ := (h.known n hn).resolve_left hgroup
  have hname : (w.gTab i).name = (w.uTab n).group := hname
  have hfound : 0 ≤ groupOf w n := findGroup_of_mem hgroup hi (by rw [hname, strcaseEq_refl])
  obtain ⟨hslot, heq⟩ := findGroup_nonneg hfound
  refine ⟨h, hslot, findGroup_named hfound, hn, ?_⟩
  show strcaseEq (w.uTab n).group (w.gTab (findGroup w (w.uTab n).group)).name
  rwa [strcaseEq_comm]

/-- The last command of a packet. -/
theorem runCommand_agreed (h : Agreed d.w.seats d.w.gTab) (hn : n ∈ slots maxRealUsers)
    (hlogin : (d.w.uTab n).login = .complete) (argc : Nat) (c : Command) :
    Agreed (runCommand noCmd n argc c d).2.w.seats (runCommand noCmd n argc c d).2.w.gTab := by
  have hheld := h.held hn hlogin
  apply runCommand_guarded (R := KeepsTables (Held n (groupOf d.w n)))
    (Q := fun w => Agreed w.seats w.gTab)
  case hRQ => exact fun _ hkeep => (hkeep hheld).1
  case hmisc => exact fun _ _ h => h
  case hopts => exact fun _ => inferInstance
  case hname => exact fun _ _ => inferInstance
  case hmod => exact fun _ _ => inferInstance
  case hchange =>
    intro t flag
    refine (sChange_cases n t flag d.w).agreed h (real_mem_users hn) fun _ => ?_
    rw [hlogin]
    decide
  case hboot =>
    -- whoever is in the group of a connection is logged in
    intro _ dest _ hdest hsame w₁ hkeep hC
    have hin : AgreedIn dest w₁.seats w₁.gTab := by
      refine ⟨(hkeep hheld).1, fun hreal hno => ?_⟩
      have hnil : (d.w.uTab dest).group = [] := h.away dest hreal ((hC.login dest).symm.trans hno)
      have hfound : 0 ≤ groupOf d.w dest := hsame ▸ (mem_slots.mp hheld.2.1).1
      exact ne_nil_of_findGroup hfound hnil
    exact ((bootTo_agreedIn (inUsers_iff.mp hdest)).within w₁ hin).1
  case hexclude => exact fun _ => (Within.within (R := KeepsTables (Held n (groupOf d.w n))) d.w hheld).1

/-- An open message. -/
theorem openmsg_agreed (h : Agreed d.w.seats d.w.gTab) (hn : n ∈ slots Env.maxUsers) :
    Agreed (openmsg n text d).2.w.seats (openmsg n text d).2.w.gTab := by
  by_cases hlogin : (d.w.uTab n).login = .complete
  · have hin : AgreedIn n d.w.seats d.w.gTab := by
      refine ⟨h, fun _ hno => ?_⟩
      exact absurd (hlogin.symm.trans hno) (by decide)
    have : Within (KeepsTables (AgreedIn n)) (bootTo n (str "ICB")) := bootTo_agreedIn hn
    exact (Within.within (R := OnWorld (KeepsTables (AgreedIn n))) (x := openmsg n text) d hin).1
  · exact openmsg_idle (R := KeepsTables Agreed) hlogin text h

/-- **A packet keeps the tables in step**, unless it is a command on the slot of the automatic user. -/
theorem dispatch_agreed (h : Agreed d.w.seats d.w.gTab) (hn : n ∈ slots Env.maxUsers)
    (hserv : (cstr contents).head? = some pktCommand → n < maxRealUsers) :
    Agreed (dispatch n contents d).2.w.seats (dispatch n contents d).2.w.gTab := by
  have hreal (hlt : n < maxRealUsers) : n ∈ slots maxRealUsers := mem_slots.mpr ⟨(mem_slots.mp hn).1, hlt⟩
  have hkeep {x : M Unit} [Within (OnWorld (KeepsTables Agreed)) x] :
      wp x (fun _ d' => Agreed d'.w.seats d'.w.gTab) d :=
    Within.within (R := OnWorld (KeepsTables Agreed)) d h
  show wp (dispatch n contents) (fun _ d' => Agreed d'.w.seats d'.w.gTab) d
  refine wp_ite (fun htype => ?_) fun _ => ?_
  · refine loginCase_rel (R := KeepsTables Agreed) htype (fun hlogin p h => ?_) h
    have hn' := hreal hlogin.2.1
    exact login_agreed ⟨h, hn', Prod.ext (h.away n hn' hlogin.2.2.1) hlogin.2.2.1⟩
  refine wp_ite (fun _ => openmsg_agreed h hn) fun _ => wp_ite (fun hcmd => ?_) fun _ => ?_
  · have hlt := hserv hcmd
    refine cmdmsg_rel (R := KeepsTables Agreed) hlt rfl (fun d' _ hlogin _ _ h => ?_) h
    exact runCommand_agreed h (hreal hlt) hlogin _ _
  · exact wp_ite (fun _ => hkeep) fun _ => wp_ite (fun _ => hkeep) fun _ => hkeep

end

/-! ## §8 — runs -/

/-- What is asked of the events of a run: no command comes in on the slot of the automatic user. -/
def NoServerCommand (_ : Host) (_ : Sys) : Event → Prop
  | .packet n contents => (cstr contents).head? = some pktCommand → n < maxRealUsers
  | _ => True

/-- The invariant of the host: the tables agree, and only slots of the user table are open. -/
def HostAgreed (h : Host) : Prop := Agreed h.w.seats h.w.gTab ∧ ∀ n, h.opened n → inUsers n

/-- At first the automatic user is alone in the only group. -/
theorem startup_seats (sys : Sys) (db : Bytes → Option Bytes) :
    (startup sys db).seats = Function.update (fun _ => ([], .no)) nickserv (str "ICB", .complete) ∧
    (∀ i ≠ 0, (startup sys db).gTab i = {}) ∧ ((startup sys db).gTab 0).name = str "ICB" := by
  show wp (do
    fillUserEntry nickserv (str "server") Env.thishost (str "Server") [] (str "ICB") [] .complete 0 1 0
    modUOpts nickserv fun o => { o with tOn := sys.now, tRecv := sys.now }
    setRealname nickserv registered
    fillGroupEntry 0 (str "ICB") (str "...here to serve you!") .supersecret .restricted nickserv .quiet
    nickwritetime nickserv false)
    (fun _ w => w.seats = Function.update (fun _ => ([], .no)) nickserv (str "ICB", .complete) ∧
      (∀ i ≠ 0, w.gTab i = {}) ∧ (w.gTab 0).name = str "ICB") _
  refine wp_after (wp_after (wp_after (wp_after (Within.wp (KeepsTables fun u g =>
    u = Function.update (fun _ => ([], .no)) nickserv (str "ICB", .complete) ∧
      (∀ i ≠ 0, g i = {}) ∧ (g 0).name = str "ICB") fun _ _ hkeep => hkeep ⟨?_, ?_, ?_⟩))))
  · have hname : (str "ICB").take maxGroupLen = str "ICB" := rfl
    funext j
    by_cases hj : j = nickserv
    · subst hj
      simp [fillGroupEntry, fillUserEntry, setIdent, setNickname, setUserGroup, setLogin, setRealname,
        setGroupName, setMod, modGOpts, modUOpts, World.modU, World.modG, hname]
    · simp [fillGroupEntry, fillUserEntry, setIdent, setNickname, setUserGroup, setLogin, setRealname,
        setGroupName, setMod, modGOpts, modUOpts, World.modU, World.modG, hj]
  · intro i hi
    simp [fillGroupEntry, fillUserEntry, setIdent, setNickname, setUserGroup, setLogin, setRealname,
      setGroupName, setMod, modGOpts, modUOpts, World.modU, World.modG, hi]
  · simp [fillGroupEntry, setGroupName, setMod, modGOpts, World.modG]

theorem startup_agreed (sys : Sys) (db : Bytes → Option Bytes) :
    Agreed (startup sys db).seats (startup sys db).gTab := by
  obtain ⟨hseats, hothers, hicb⟩ := startup_seats sys db
  have hnamed {i : Int} (hne : ((startup sys db).gTab i).name ≠ []) : i = 0 := by
    by_contra hi
    rw [hothers i hi] at hne
    exact hne rfl
  have habsent {j : Int} (hj : j ∈ slots maxRealUsers) : (startup sys db).seats j = ([], .no) := by
    have hjn : j ≠ nickserv := by
      have hlt := (mem_slots.mp hj).2
      have htwo := Env.two_le_maxUsers
      unfold maxRealUsers at hlt
      unfold nickserv
      omega
    rw [hseats, Function.update_of_ne hjn]
  constructor
  case unique =>
    intro i _ j _ hne heq
    obtain rfl := hnamed hne
    refine (hnamed fun hnil => hne ?_).symm
    rw [hnil] at heq
    exact strcaseEq_nil heq
  case member =>
    intro i _ _ hne
    obtain rfl := hnamed hne
    refine ⟨nickserv, ?_, ?_⟩
    · have := Env.two_le_maxUsers
      exact mem_slots.mpr ⟨by unfold nickserv; omega, by unfold nickserv; omega⟩
    · rw [hseats, Function.update_self, hicb, strcaseEq_refl]
  case known =>
    intro j hj
    rw [habsent hj]
    exact .inl rfl
  case seated =>
    intro j hj hc
    rw [habsent hj] at hc
    exact absurd hc (by decide)
  case away =>
    intro j hj _
    rw [habsent hj]
  case cleared =>
    intro i _ hnil
    have hi : i ≠ 0 := by
      rintro rfl
      rw [hicb] at hnil
      exact absurd hnil (by decide)
    rw [hothers i hi]
    rfl
  case short =>
    intro i _
    by_cases hi : i = 0
    · rw [hi, hicb]
      decide
    · rw [hothers i hi]
      exact Nat.zero_le _

theorem hostAgreed_step {h : Host} {sys : Sys} {e : Event} (hi : HostAgreed h)
    (hp : NoServerCommand h sys e) (he : e.enabled h) : HostAgreed (h.after sys e) := by
  obtain ⟨hA, hopen⟩ := hi
  refine ⟨?_, opened_step hopen he⟩
  cases e with
  | connect n secure remote =>
    exact Within.within (R := KeepsTables Agreed) (x := sNewUser n secure remote)
      (h.toDaemon.at sys).w hA
  | packet n contents =>
    exact dispatch_agreed (d := h.toDaemon.at sys) hA (inUsers_iff.mp (hopen n he)) hp
  | lost n => exact sLostUser_agreed (w := (h.toDaemon.at sys).w) hA (inUsers_iff.mp (hopen n he))
  | didpoll => exact Within.within (R := KeepsTables Agreed) (x := sDidpoll) (h.toDaemon.at sys).w hA

/-- The tables agree in every state reached: group names differ, whoever is logged in is in a group
there is, every group has a member, and a slot without a name is as `clear_group_item` leaves it. -/
theorem tables_agree {h : Host} (hr : Reachable NoServerCommand h) :
    (∀ i ∈ slots maxGroups, ∀ j ∈ slots maxGroups, i ≠ j → (h.w.gTab i).name ≠ [] →
      ¬ strcaseEq (h.w.gTab i).name (h.w.gTab j).name) ∧
    (∀ n ∈ slots maxRealUsers, (h.w.uTab n).login = .complete →
      (h.w.uTab n).group ≠ [] ∧ 0 ≤ findGroup h.w (h.w.uTab n).group) ∧
    (∀ i ∈ slots maxGroups, (h.w.gTab i).name ≠ [] →
      ∃ j ∈ slots Env.maxUsers, strcaseEq (h.w.uTab j).group (h.w.gTab i).name) ∧
    ∀ i ∈ slots maxGroups, (h.w.gTab i).name = [] →
      (clearGroupItem i h.w).2.gTab i = h.w.gTab i := by
  obtain ⟨hA, -⟩ : HostAgreed h :=
    hr.invariant (fun sys db => ⟨startup_agreed sys db, nofun⟩)
      fun _ _ _ hi hp he _ => hostAgreed_step hi hp he
  refine ⟨fun i hi j hj hij hne heq => hij (hA.unique i hi j hj hne heq), fun n hn hlogin => ?_,
    fun i hi hne => ?_, fun i hi hnil => ?_⟩
  · have hheld := hA.held hn hlogin
    exact ⟨hA.seated n hn hlogin, (mem_slots.mp hheld.2.1).1⟩
  · refine hA.member i hi ?_ hne
    have := (mem_slots.mp hi).1
    omega
  · rw [clearGroupItem_eq]
    show Function.update h.w.gTab i (clearedItem (h.w.gTab i)) i = h.w.gTab i
    rw [Function.update_self]
    exact (hA.cleared i hi hnil).symm

instance (h : Host) (sys : Sys) : (e : Event) → Decidable (NoServerCommand h sys e)
  | .connect .. | .packet .. | .lost _ | .didpoll => by dsimp only [NoServerCommand]; infer_instance

end

section
attribute [local instance] smallEnv

/-- A client opens a group, renames it and leaves it for group 1. -/
def comesAndGoes : List Event :=
  [.connect 1 false none, .packet 1 (loginPkt "one" "first" "x" ""),
   .packet 1 (cmdPkt "status" "name y"), .packet 1 (cmdPkt "g" "1")]

theorem tables_agree_left :
    ((Host.run {} { w := startup {} fun _ => none } comesAndGoes).w.gTab 1).name = [] ∧
      (clearGroupItem 1 (Host.run {} { w := startup {} fun _ => none } comesAndGoes).w).2.gTab 1 =
        (Host.run {} { w := startup {} fun _ => none } comesAndGoes).w.gTab 1 := by
  obtain ⟨hr, hnil⟩ := Reachable.leads_run (P := NoServerCommand) (Q := fun h => (h.w.gTab 1).name = [])
    (.start {} fun _ => none) (rfl : _ = Host.run {} _ comesAndGoes) (by decide +kernel)
  exact ⟨hnil, (tables_agree hr).2.2.2 1 (mem_slots.mpr (by decide)) hnil⟩

/-- A client on the slot of the automatic user renames his group: nobody is in it any more. -/
theorem renamed_without_member : ∃ h : Host, Reachable (fun _ _ _ => True) h ∧
    ¬ ∀ i ∈ slots maxGroups, (h.w.gTab i).name ≠ [] →
      ∃ j ∈ slots Env.maxUsers, strcaseEq (h.w.uTab j).group (h.w.gTab i).name := by
  have hrun : let h : Host := { w := startup {} fun _ => none }
      let es : List Event := [.connect 3 false none, .packet 3 (cmdPkt "status" "name y")]
      h.follows (fun _ _ _ => True) {} es ∧ ((h.run {} es).w.gTab 0).name ≠ [] ∧
        ∀ j ∈ slots Env.maxUsers,
          ¬ strcaseEq ((h.run {} es).w.uTab j).group ((h.run {} es).w.gTab 0).name := by
    decide +kernel
  obtain ⟨hf, hname, hnone⟩ := hrun
  refine ⟨_, .run (.start {} fun _ => none) hf, fun hall => ?_⟩
  obtain ⟨j, hj, hin⟩ := hall 0 (mem_slots.mpr (by decide)) hname
  exact hnone j hj hin

end

end Icbd.Server
