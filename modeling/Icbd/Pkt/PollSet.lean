/-
# Icbd.Pkt.PollSet — the descriptors `poll` watches, and one pass over them.

`g_pollset` is an array that `add_pollfd` extends and `delete_pollfd` compacts. `handle_pollfds` saves its
size and hands the elements to the state machine one index after the other, while the state machine takes
its own descriptor out of the array or a listener puts a new one in. The slots behind the size keep what they
held, and a new element keeps the `revents` of the slot it is put into.

What a call of the state machine does to the array is one of three outcomes, and any sequence of outcomes is
allowed. Allocations succeed.
-/
import Mathlib.Data.List.Nodup
import Icbd.Pkt.Serv

namespace Icbd.Pkt

/-! ## §1 — the array -/

/-- `struct pollfd`. `polled` is not in the source: it says that `revents` is what `poll` reported for this
descriptor, and not what was left in the slot. -/
structure PollFd where
  fd : Nat := 0
  events : PollBits := {}
  revents : PollBits := {}
  polled : Bool := false
  deriving DecidableEq, Repr

/-- `g_pollset` and `g_pollsetsize`: the slots, stale ones behind the size included. No descriptor is in it
twice. -/
structure PollSet where
  slot : Nat → PollFd
  size : Nat
  nodup : ∀ i < size, ∀ j < size, (slot i).fd = (slot j).fd → i = j

/-- The first index below `n` with this descriptor. -/
def fdIndex (slot : Nat → PollFd) (n fd : Nat) : Option Nat :=
  (List.range n).find? fun i => (slot i).fd = fd

theorem fdIndex_eq_none {slot : Nat → PollFd} {n fd : Nat} :
    fdIndex slot n fd = none ↔ ∀ i < n, (slot i).fd ≠ fd := by
  simp [fdIndex]

theorem fdIndex_eq_some {slot : Nat → PollFd} {n fd i : Nat} (h : fdIndex slot n fd = some i) :
    i < n ∧ (slot i).fd = fd := by
  have hmem := List.mem_of_find?_eq_some h
  have htest := List.find?_some h
  exact ⟨List.mem_range.mp hmem, by simpa using htest⟩

/-- The descriptor's own index. -/
theorem PollSet.fdIndex_self (p : PollSet) {i : Nat} (hi : i < p.size) :
    fdIndex p.slot p.size (p.slot i).fd = some i := by
  cases h : fdIndex p.slot p.size (p.slot i).fd with
  | none => exact absurd rfl (fdIndex_eq_none.mp h i hi)
  | some j =>
    obtain ⟨hj, heq⟩ := fdIndex_eq_some h
    rw [p.nodup j hj i hi heq]

/-- `add_pollfd`: a descriptor that is in the set is only watched for input again, another one is put behind
the last. Its `revents` are left as they are. -/
def PollSet.addPollfd (p : PollSet) (fd : Nat) : PollSet :=
  match h : fdIndex p.slot p.size fd with
  | some i =>
      { slot := Function.update p.slot i { p.slot i with events := { pollin := true } }
        size := p.size
        nodup := by
          intro j hj k hk heq
          refine p.nodup j hj k hk ?_
          by_cases hji : j = i <;> by_cases hki : k = i <;> simp_all [Function.update_of_ne] }
  | none =>
      { slot := Function.update p.slot p.size
          { p.slot p.size with fd := fd, events := { pollin := true }, polled := false }
        size := p.size + 1
        nodup := by
          have hnew := fdIndex_eq_none.mp h
          intro j hj k hk heq
          by_cases hjn : j = p.size <;> by_cases hkn : k = p.size
          · rw [hjn, hkn]
          · rw [hjn, Function.update_self, Function.update_of_ne hkn] at heq
            exact absurd heq.symm (hnew k (by omega))
          · rw [hkn, Function.update_self, Function.update_of_ne hjn] at heq
            exact absurd heq (hnew j (by omega))
          · rw [Function.update_of_ne hjn, Function.update_of_ne hkn] at heq
            exact p.nodup j (by omega) k (by omega) heq }

/-- The elements behind an index one place further down are still different. -/
theorem PollSet.moved_nodup (p : PollSet) (i : Nat) : ∀ j < p.size - 1, ∀ k < p.size - 1,
    (if i ≤ j ∧ j + 1 < p.size then p.slot (j + 1) else p.slot j).fd =
      (if i ≤ k ∧ k + 1 < p.size then p.slot (k + 1) else p.slot k).fd → j = k := by
  intro j hj k hk heq
  by_cases hji : i ≤ j <;> by_cases hki : i ≤ k
  · rw [if_pos (by omega), if_pos (by omega)] at heq
    exact Nat.succ.inj (p.nodup (j + 1) (by omega) (k + 1) (by omega) heq)
  · rw [if_pos (by omega), if_neg (by omega)] at heq
    have := p.nodup (j + 1) (by omega) k (by omega) heq
    omega
  · rw [if_neg (by omega), if_pos (by omega)] at heq
    have := p.nodup j (by omega) (k + 1) (by omega) heq
    omega
  · rw [if_neg (by omega), if_neg (by omega)] at heq
    exact p.nodup j (by omega) k (by omega) heq

/-- `delete_pollfd`: the elements behind the descriptor move down by one, and the last slot keeps its
content. -/
def PollSet.deletePollfd (p : PollSet) (fd : Nat) : PollSet :=
  match fdIndex p.slot p.size fd with
  | none => p
  | some i =>
      { slot := fun k => if i ≤ k ∧ k + 1 < p.size then p.slot (k + 1) else p.slot k
        size := p.size - 1
        nodup := p.moved_nodup i }

/-- `poll` returns: every element has its report, and nothing behind them has one. -/
def PollSet.poll (p : PollSet) (revents : Nat → PollBits) : PollSet where
  slot i := if i < p.size then { p.slot i with revents := revents i, polled := true }
    else { p.slot i with polled := false }
  size := p.size
  nodup := by
    intro j hj k hk heq
    rw [if_pos hj, if_pos hk] at heq
    exact p.nodup j hj k hk heq

/-! ## §2 — one pass -/

/-- What a call of `pollfd_state_machine` does to the set. -/
inductive Outcome
  /-- nothing -/
  | kept
  /-- `handle_raw_disconnect` took the descriptor out -/
  | removed
  /-- `pktsocket_accept` put this one in -/
  | accepted (ns : Nat)
  deriving DecidableEq, Repr

/-- The set after a call for this descriptor. -/
def Outcome.apply (p : PollSet) (fd : Nat) : Outcome → PollSet
  | .kept => p
  | .removed => p.deletePollfd fd
  | .accepted ns => p.addPollfd ns

/-- The set after the first `i` calls of `handle_pollfds`. -/
def PollSet.after (out : Nat → Outcome) (p : PollSet) : Nat → PollSet
  | 0 => p
  | i + 1 => (out i).apply (p.after out i) ((p.after out i).slot i).fd

/-- `handle_pollfds`: what is handed to the state machine, one index after the other up to the size saved at
the start. -/
def handlePollfds (out : Nat → Outcome) (p : PollSet) : List PollFd :=
  (List.range p.size).map fun i => (p.after out i).slot i

/-- What is asked of a pass: every descriptor that was in the set when `poll` returned is handed over exactly
once with its own report, and nothing else is handed over. -/
structure ServesAll (out : Nat → Outcome) (p : PollSet) : Prop where
  once : ∀ i < p.size,
    ((handlePollfds out p).filter fun e => e.polled && e.fd == (p.slot i).fd).map (·.revents) =
      [(p.slot i).revents]
  reported : ∀ e ∈ handlePollfds out p, e.polled = true

/-! ## §3 — what a call leaves of the others -/

/-- Two elements that agree up to the events watched for. -/
structure PollFd.Same (e e' : PollFd) : Prop where
  fd : e.fd = e'.fd
  revents : e.revents = e'.revents
  polled : e.polled = e'.polled

theorem PollFd.Same.refl (e : PollFd) : e.Same e := ⟨rfl, rfl, rfl⟩

theorem PollFd.Same.trans {e e' e'' : PollFd} (h : e.Same e') (h' : e'.Same e'') : e.Same e'' :=
  ⟨h.fd.trans h'.fd, h.revents.trans h'.revents, h.polled.trans h'.polled⟩

/-- What `add_pollfd` does, with the two cases apart. -/
theorem PollSet.addPollfd_cases (p : PollSet) (fd : Nat) :
    ((∃ i < p.size, (p.slot i).fd = fd) ∧ (p.addPollfd fd).size = p.size ∧
      ∀ k, ((p.addPollfd fd).slot k).Same (p.slot k)) ∨
    ((∀ i < p.size, (p.slot i).fd ≠ fd) ∧ (p.addPollfd fd).size = p.size + 1 ∧
      ((p.addPollfd fd).slot p.size).polled = false ∧ ((p.addPollfd fd).slot p.size).fd = fd ∧
      ∀ k, k ≠ p.size → (p.addPollfd fd).slot k = p.slot k) := by
  unfold PollSet.addPollfd
  split
  · rename_i i h
    refine .inl ⟨⟨i, fdIndex_eq_some h⟩, rfl, fun k => ?_⟩
    by_cases hk : k = i
    · subst hk
      simp only [Function.update_self]
      exact ⟨rfl, rfl, rfl⟩
    · simp only [Function.update_of_ne hk]
      exact .refl _
  · rename_i h
    refine .inr ⟨fdIndex_eq_none.mp h, rfl, ?_, ?_, fun k hk => ?_⟩
    · simp only [Function.update_self]
    · simp only [Function.update_self]
    · simp only [Function.update_of_ne hk]

/-- What `delete_pollfd` does for the element at an index. -/
theorem PollSet.deletePollfd_self (p : PollSet) {i : Nat} (hi : i < p.size) (k : Nat) :
    (p.deletePollfd (p.slot i).fd).slot k =
      if i ≤ k ∧ k + 1 < p.size then p.slot (k + 1) else p.slot k := by
  unfold PollSet.deletePollfd
  rw [p.fdIndex_self hi]

/-- Behind an index no slot holds a report for a descriptor. -/
def PollSet.Absent (p : PollSet) (fd i : Nat) : Prop :=
  ∀ k, i < k → (p.slot k).polled = true → (p.slot k).fd ≠ fd

/-- Elements only move down and new ones have no report, so this stays. -/
theorem PollSet.Absent.apply {p : PollSet} {fd i : Nat} (h : p.Absent fd i) (o : Outcome) (fd' : Nat) :
    (o.apply p fd').Absent fd i := by
  cases o with
  | kept => exact h
  | removed =>
    intro k hk
    simp only [Outcome.apply, PollSet.deletePollfd]
    split
    · exact h k hk
    · dsimp only
      split
      · exact h (k + 1) (by omega)
      · exact h k hk
  | accepted ns =>
    intro k hk
    rcases p.addPollfd_cases ns with ⟨-, -, hsame⟩ | ⟨-, -, hpolled, -, hother⟩
    · have hs := hsame k
      simp only [Outcome.apply]
      rw [hs.polled, hs.fd]
      exact h k hk
    · simp only [Outcome.apply]
      by_cases hkn : k = p.size
      · rw [hkn, hpolled]
        exact fun hp => absurd hp (by decide)
      · rw [hother k hkn]
        exact h k hk

theorem PollSet.Absent.after {out : Nat → Outcome} {p : PollSet} {fd i j : Nat}
    (h : (p.after out j).Absent fd i) (d : Nat) : (p.after out (j + d)).Absent fd i := by
  induction d with
  | zero => exact h
  | succ d ih => exact ih.apply (out (j + d)) _

/-! ## §4 — before the first removal -/

/-- The set before anything is removed: the elements that were there stand where they were, and everything
behind them has no report. -/
structure Intact (p q : PollSet) : Prop where
  size : p.size ≤ q.size
  same : ∀ k < p.size, (q.slot k).Same (p.slot k)
  behind : ∀ k, p.size ≤ k → (q.slot k).polled = false

theorem Intact.apply {p q : PollSet} (h : Intact p q) {o : Outcome} (ho : o ≠ .removed) (fd : Nat) :
    Intact p (o.apply q fd) ∧ q.size ≤ (o.apply q fd).size := by
  cases o with
  | kept => exact ⟨h, Nat.le_refl _⟩
  | removed => exact absurd rfl ho
  | accepted ns =>
    simp only [Outcome.apply]
    rcases q.addPollfd_cases ns with ⟨-, hsize, hsame⟩ | ⟨-, hsize, hpolled, -, hother⟩
    · refine ⟨⟨hsize ▸ h.size, fun k hk => (hsame k).trans (h.same k hk), fun k hk => ?_⟩, by omega⟩
      rw [(hsame k).polled]
      exact h.behind k hk
    · have hle := h.size
      refine ⟨⟨by omega, fun k hk => ?_, fun k hk => ?_⟩, by omega⟩
      · rw [hother k (by omega)]
        exact h.same k hk
      · by_cases hkn : k = q.size
        · rw [hkn]
          exact hpolled
        · rw [hother k hkn]
          exact h.behind k hk

section pass

variable {out : Nat → Outcome} {p : PollSet} {i : Nat}
variable (hbehind : ∀ k, p.size ≤ k → (p.slot k).polled = false) (hkeep : ∀ j < i, out j ≠ .removed)

include hbehind hkeep in
theorem PollSet.after_intact : Intact p (p.after out i) := by
  induction i with
  | zero => exact ⟨Nat.le_refl _, fun k _ => .refl _, hbehind⟩
  | succ i ih =>
    have := ih fun j hj => hkeep j (Nat.lt_succ_of_lt hj)
    exact (this.apply (hkeep i (Nat.lt_succ_self i)) _).1

/-- A descriptor of the set. -/
def PollSet.Has (p : PollSet) (fd : Nat) : Prop := ∃ k < p.size, (p.slot k).fd = fd

include hbehind hkeep in
/-- A new descriptor makes the set longer. -/
theorem PollSet.after_longer {j ns : Nat} (hj : j < i) (hout : out j = .accepted ns) (hnew : ¬ p.Has ns) :
    p.size < (p.after out i).size := by
  induction i with
  | zero => exact absurd hj (Nat.not_lt_zero j)
  | succ i ih =>
    have hkeep' : ∀ j < i, out j ≠ .removed := fun j hj => hkeep j (Nat.lt_succ_of_lt hj)
    have hq := PollSet.after_intact hbehind hkeep'
    obtain ⟨-, hgrow⟩ := hq.apply (hkeep i (Nat.lt_succ_self i)) ((p.after out i).slot i).fd
    rcases Nat.lt_succ_iff_lt_or_eq.mp hj with hj | rfl
    · exact Nat.lt_of_lt_of_le (ih hkeep' hj) hgrow
    · simp only [PollSet.after, hout, Outcome.apply]
      have hle := hq.size
      rcases (p.after out j).addPollfd_cases ns with ⟨⟨k, hk, heq⟩, hsize, -⟩ | ⟨-, hsize, -⟩
      · -- it was added before, so the set is longer already
        rw [hsize]
        by_contra hshort
        exact hnew ⟨k, by omega, (hq.same k (by omega)).fd.symm.trans heq⟩
      · omega

include hbehind hkeep in
/-- Without a new descriptor the set keeps its size. -/
theorem PollSet.after_size (hold : ∀ j < i, ∀ ns, out j = .accepted ns → p.Has ns) :
    (p.after out i).size = p.size := by
  induction i with
  | zero => rfl
  | succ i ih =>
    have hkeep' : ∀ j < i, out j ≠ .removed := fun j hj => hkeep j (Nat.lt_succ_of_lt hj)
    have hq := PollSet.after_intact hbehind hkeep'
    have hsize := ih hkeep' fun j hj => hold j (Nat.lt_succ_of_lt hj)
    cases hout : out i with
    | kept => simpa only [PollSet.after, hout, Outcome.apply] using hsize
    | removed => exact absurd hout (hkeep i (Nat.lt_succ_self i))
    | accepted ns =>
      simp only [PollSet.after, hout, Outcome.apply]
      obtain ⟨k, hk, heq⟩ := hold i (Nat.lt_succ_self i) ns hout
      rcases (p.after out i).addPollfd_cases ns with ⟨-, hsame, -⟩ | ⟨hnone, -⟩
      · rw [hsame, hsize]
      · exact absurd ((hq.same k hk).fd.trans heq) (hnone k (by omega))

end pass

/-! ## §5 — the pass -/

/-- When every call is handed the element that stood at its index, the pass serves all. -/
theorem servesAll_of_same {out : Nat → Outcome} {p : PollSet}
    (hpolled : ∀ i < p.size, (p.slot i).polled = true)
    (hsame : ∀ i < p.size, ((p.after out i).slot i).Same (p.slot i)) : ServesAll out p := by
  constructor
  · intro i hi
    have htest : ∀ k ∈ List.range p.size,
        ((fun e : PollFd => e.polled && e.fd == (p.slot i).fd) ∘ fun i => (p.after out i).slot i) k =
          decide (k = i) := by
      intro k hk
      have hk := List.mem_range.mp hk
      simp only [Function.comp, (hsame k hk).polled, (hsame k hk).fd, hpolled k hk, Bool.true_and]
      by_cases hki : k = i
      · simp [hki]
      · simp only [hki, decide_false, beq_eq_false_iff_ne]
        exact fun heq => hki (p.nodup k hk i hi heq)
    have hone : (List.range p.size).filter (fun k => decide (k = i)) = [i] := by
      rw [List.filter_eq, List.count_eq_one_of_mem List.nodup_range (List.mem_range.mpr hi)]
      rfl
    rw [handlePollfds, List.filter_map, List.filter_congr htest, hone]
    simp [(hsame i hi).revents]
  · intro e he
    obtain ⟨i, hi, rfl⟩ := List.mem_map.mp he
    have hi := List.mem_range.mp hi
    rw [(hsame i hi).polled]
    exact hpolled i hi

/-- A removal before the last but one element: the next element is never handed over. -/
theorem not_servesAll_of_removed {out : Nat → Outcome} {p : PollSet} {i : Nat}
    (hbehind : ∀ k, p.size ≤ k → (p.slot k).polled = false) (hkeep : ∀ j < i, out j ≠ .removed)
    (hi : i + 2 < p.size) (hout : out i = .removed) : ¬ ServesAll out p := by
  intro hserves
  have hq := PollSet.after_intact hbehind hkeep
  have hsize := hq.size
  have hne {k : Nat} (hk : k < p.size) (hki : k ≠ i + 1) : (p.slot k).fd ≠ (p.slot (i + 1)).fd :=
    fun heq => hki (p.nodup k hk (i + 1) (by omega) heq)
  have habsent : (p.after out (i + 1)).Absent (p.slot (i + 1)).fd i := by
    have hstay {k : Nat} (hki : k ≠ i + 1) (hpolled : ((p.after out i).slot k).polled = true) :
        ((p.after out i).slot k).fd ≠ (p.slot (i + 1)).fd := by
      by_cases hk : k < p.size
      · rw [(hq.same k hk).fd]
        exact hne hk hki
      · rw [hq.behind k (by omega)] at hpolled
        cases hpolled
    intro k hk
    simp only [PollSet.after, hout, Outcome.apply]
    rw [PollSet.deletePollfd_self _ (by omega)]
    split
    · exact hstay (by omega)
    · exact hstay (by omega)
  have honce := hserves.once (i + 1) (by omega)
  have hnone : ((handlePollfds out p).filter fun e => e.polled && e.fd == (p.slot (i + 1)).fd) = [] := by
    rw [List.filter_eq_nil_iff]
    intro e he
    obtain ⟨k, hk, rfl⟩ := List.mem_map.mp he
    have hk := List.mem_range.mp hk
    simp only [Bool.and_eq_true, beq_iff_eq, not_and]
    intro hpolled
    rcases Nat.lt_or_ge i k with hik | hki
    · obtain ⟨d, rfl⟩ : ∃ d, k = i + 1 + d := ⟨k - (i + 1), by omega⟩
      exact habsent.after d _ hik hpolled
    · have hsame := (PollSet.after_intact hbehind (fun j (hj : j < k) => hkeep j (by omega))).same k hk
      rw [hsame.fd]
      exact hne hk (by omega)
  rw [hnone] at honce
  cases honce

/-- A removal of the last but one element after a new one was added: the new one is handed over. -/
theorem not_servesAll_of_added {out : Nat → Outcome} {p : PollSet} {i j ns : Nat}
    (hbehind : ∀ k, p.size ≤ k → (p.slot k).polled = false) (hkeep : ∀ j < i, out j ≠ .removed)
    (hi : i + 2 = p.size) (hout : out i = .removed) (hj : j < i) (hadd : out j = .accepted ns)
    (hnew : ¬ p.Has ns) : ¬ ServesAll out p := by
  intro hserves
  have hq := PollSet.after_intact hbehind hkeep
  have hlonger := PollSet.after_longer hbehind hkeep hj hadd hnew
  have hcall : (p.after out (i + 1)).slot (i + 1) = (p.after out i).slot p.size := by
    simp only [PollSet.after, hout, Outcome.apply]
    rw [PollSet.deletePollfd_self _ (by omega), if_pos (by omega), hi]
  have hmem : (p.after out (i + 1)).slot (i + 1) ∈ handlePollfds out p :=
    List.mem_map.mpr ⟨i + 1, List.mem_range.mpr (by omega), rfl⟩
  have hpolled := hserves.reported _ hmem
  rw [hcall, hq.behind p.size (Nat.le_refl _)] at hpolled
  cases hpolled

/-- The removals a pass copes with. -/
def RemovesLate (out : Nat → Outcome) (p : PollSet) : Prop :=
  (∀ i, i + 2 < p.size → out i ≠ .removed) ∧
  ∀ i, i + 2 = p.size → out i = .removed → ∀ j < i, ∀ ns, out j = .accepted ns → p.Has ns

/-- **When a pass serves every descriptor exactly once.** After `poll` has returned, for any outcomes: just
when none of the elements but the last two is removed, and the last but one only if no new descriptor was
added before it. -/
theorem servesAll_iff (set : PollSet) (revents : Nat → PollBits) (out : Nat → Outcome) :
    ServesAll out (set.poll revents) ↔ RemovesLate out (set.poll revents) := by
  generalize hp : set.poll revents = p
  have hpolled : ∀ i < p.size, (p.slot i).polled = true := by
    intro i hi
    subst hp
    change i < set.size at hi
    simp only [PollSet.poll, if_pos hi]
  have hbehind : ∀ k, p.size ≤ k → (p.slot k).polled = false := by
    intro k hk
    subst hp
    change set.size ≤ k at hk
    simp only [PollSet.poll, if_neg (Nat.not_lt.mpr hk)]
  constructor
  · intro hserves
    have hearly : ∀ i, i + 2 < p.size → out i ≠ .removed := by
      intro i
      induction i using Nat.strongRecOn with
      | ind i ih =>
        intro hi hout
        exact not_servesAll_of_removed hbehind (fun j hj => ih j hj (by omega)) hi hout hserves
    refine ⟨hearly, fun i hi hout j hj ns hadd => ?_⟩
    by_contra hnew
    exact not_servesAll_of_added hbehind (fun j hj => hearly j (by omega)) hi hout hj hadd hnew hserves
  · rintro ⟨hearly, hlate⟩
    refine servesAll_of_same hpolled fun i hi => ?_
    by_cases hlast : i + 1 = p.size ∧ 0 < i ∧ out (i - 1) = .removed
    · -- the last element has moved down, and its old slot still holds it
      obtain ⟨hlen, hpos, hout⟩ := hlast
      obtain ⟨k, rfl⟩ : ∃ k, i = k + 1 := ⟨i - 1, by omega⟩
      rw [Nat.add_sub_cancel] at hout
      have hkeep : ∀ j < k, out j ≠ .removed := fun j hj => hearly j (by omega)
      have hq := PollSet.after_intact hbehind hkeep
      have hsize := PollSet.after_size hbehind hkeep (hlate k (by omega) hout)
      simp only [PollSet.after, hout, Outcome.apply]
      rw [PollSet.deletePollfd_self _ (by omega), if_neg (by omega)]
      exact hq.same (k + 1) hi
    · have hkeep : ∀ j < i, out j ≠ .removed := by
        intro j hj hout
        by_cases hj' : j + 2 < p.size
        · exact hearly j hj' hout
        · refine hlast ⟨by omega, by omega, ?_⟩
          rw [show i - 1 = j by omega]
          exact hout
      exact (PollSet.after_intact hbehind hkeep).same i hi

/-- Three descriptors, the first of which is closed. -/
def threeFds : PollSet where
  slot i := { fd := i }
  size := 3
  nodup := fun _ _ _ _ h => h

/-- The first of three descriptors is closed in its call: the second is not served in this pass. -/
theorem skips_descriptor : ¬ ∀ (set : PollSet) (revents : Nat → PollBits) (out : Nat → Outcome),
    ServesAll out (set.poll revents) := by
  intro h
  have honce := (h threeFds (fun _ => { pollin := true })
    (fun i => if i = 0 then .removed else .kept)).once 1 (by decide)
  exact absurd honce (by decide)

end Icbd.Pkt
