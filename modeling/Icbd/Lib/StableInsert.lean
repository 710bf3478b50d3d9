/-
# Icbd.Lib.StableInsert — insertion behind everything that is not larger.

Elements are compared by a key in a linear order. Inserting each in front of the first element with a
larger key keeps a list sorted, and inserting them all one after the other leaves those with equal keys
in the order in which they came.
-/
import Mathlib.Data.List.Sort

namespace Icbd.Lib

universe u v

variable {α : Type u} {β : Type v} [LinearOrder β]

/-! ## §1 — one element -/

/-- `a` in front of the first element with a larger key. -/
def stableInsert (key : α → β) (a : α) (l : List α) : List α :=
  l.orderedInsert (fun x y => key x < key y) a

/-- Sorted by the key. -/
def SortedBy (key : α → β) (l : List α) : Prop := l.Pairwise fun x y => key x ≤ key y

section
variable {key : α → β} {a i : α} {l xs ys : List α}

theorem stableInsert_perm (key : α → β) (a : α) (l : List α) :
    (stableInsert key a l).Perm (a :: l) :=
  List.perm_orderedInsert _ a l

/-- The place of `a`, when there is a larger element. -/
theorem stableInsert_before (hxs : ∀ x ∈ xs, ¬ key a < key x) (hi : key a < key i) :
    stableInsert key a (xs ++ i :: ys) = xs ++ a :: i :: ys := by
  induction xs with
  | nil => simp [stableInsert, hi]
  | cons x xs ih =>
      obtain ⟨hx, hxs⟩ := List.forall_mem_cons.mp hxs
      have htail := ih hxs
      simp only [stableInsert] at htail
      simp only [stableInsert, List.cons_append, List.orderedInsert, hx, if_false, htail]

/-- The place of `a`, when there is none. -/
theorem stableInsert_last (hl : ∀ x ∈ l, ¬ key a < key x) : stableInsert key a l = l ++ [a] := by
  induction l with
  | nil => rfl
  | cons x xs ih =>
      obtain ⟨hx, hxs⟩ := List.forall_mem_cons.mp hl
      have htail := ih hxs
      simp only [stableInsert] at htail
      simp only [stableInsert, List.cons_append, List.orderedInsert, hx, if_false, htail]

/-- Either there is a larger element, and `a` goes in front of the first, or it goes to the end. -/
theorem stableInsert_cases (key : α → β) (a : α) (l : List α) :
    (∃ xs i ys, l = xs ++ i :: ys ∧ (∀ x ∈ xs, ¬ key a < key x) ∧ key a < key i) ∨
      ∀ x ∈ l, ¬ key a < key x := by
  cases hfind : l.find? (fun x => key a < key x) with
  | none =>
      right
      intro x hx
      have := List.find?_eq_none.mp hfind x hx
      simpa using this
  | some i =>
      left
      obtain ⟨hi, xs, ys, hl, hxs⟩ := List.find?_eq_some_iff_append.mp hfind
      refine ⟨xs, i, ys, hl, ?_, by simpa using hi⟩
      intro x hx
      simpa using hxs x hx

/-- **A sorted list stays sorted.** -/
theorem SortedBy.stableInsert (h : SortedBy key l) (a : α) : SortedBy key (stableInsert key a l) := by
  rcases stableInsert_cases key a l with ⟨xs, i, ys, rfl, hxs, hi⟩ | hl
  · rw [stableInsert_before hxs hi]
    obtain ⟨hleft, hright, hcross⟩ := List.pairwise_append.mp h
    obtain ⟨hiys, -⟩ := List.pairwise_cons.mp hright
    apply List.pairwise_append.mpr
    refine ⟨hleft, List.pairwise_cons.mpr ⟨?_, hright⟩, ?_⟩
    · intro y hy
      rcases List.mem_cons.mp hy with rfl | hy
      · exact hi.le
      · exact hi.le.trans (hiys y hy)
    · intro x hx y hy
      rcases List.mem_cons.mp hy with rfl | hy
      · exact not_lt.mp (hxs x hx)
      · exact hcross x hx y hy
  · rw [stableInsert_last hl]
    apply List.pairwise_append.mpr
    refine ⟨h, List.pairwise_singleton _ a, ?_⟩
    intro x hx y hy
    obtain rfl := List.mem_singleton.mp hy
    exact not_lt.mp (hl x hx)

/-- **The new element comes behind those with the same key.** -/
theorem stableInsert_filter (h : SortedBy key l) (a : α) {p : α → Bool} {k : β}
    (hp : ∀ x, p x = true ↔ key x = k) :
    (stableInsert key a l).filter p = l.filter p ++ [a].filter p := by
  rcases stableInsert_cases key a l with ⟨xs, i, ys, rfl, hxs, hi⟩ | hl
  · -- what stands behind `a` has a larger key
    have hlarger : ∀ y ∈ i :: ys, key a < key y := by
      obtain ⟨-, hright, -⟩ := List.pairwise_append.mp h
      intro y hy
      rcases List.mem_cons.mp hy with rfl | hy
      · exact hi
      · exact hi.trans_le ((List.pairwise_cons.mp hright).1 y hy)
    rw [stableInsert_before hxs hi, List.filter_append, List.filter_append, List.append_assoc]
    congr 1
    by_cases ha : key a = k
    · have hnone : (i :: ys).filter p = [] := by
        rw [List.filter_eq_nil_iff]
        intro y hy heq
        exact absurd (ha.trans ((hp y).mp heq).symm) (hlarger y hy).ne
      rw [← List.singleton_append, List.filter_append, hnone, List.append_nil, List.nil_append]
    · have hnone : [a].filter p = [] := by
        rw [List.filter_cons_of_neg (mt (hp a).mp ha), List.filter_nil]
      rw [← List.singleton_append, List.filter_append, hnone, List.append_nil, List.nil_append]
  · rw [stableInsert_last hl, List.filter_append]

/-! ## §2 — many elements -/

/-- Elements inserted one after the other. -/
def stableInsertAll (key : α → β) (as l : List α) : List α :=
  as.foldl (fun l a => Icbd.Lib.stableInsert key a l) l

/-- **A stable sort**: sorted, the same elements, and equal keys in the order of insertion. -/
theorem stableInsertAll_spec (h : SortedBy key l) (as : List α) :
    SortedBy key (stableInsertAll key as l) ∧ (stableInsertAll key as l).Perm (l ++ as) ∧
      ∀ (p : α → Bool) (k : β), (∀ x, p x = true ↔ key x = k) →
        (stableInsertAll key as l).filter p = l.filter p ++ as.filter p := by
  induction as generalizing l with
  | nil => exact ⟨h, by rw [List.append_nil]; exact List.Perm.refl l, fun p k _ => by simp [stableInsertAll]⟩
  | cons a as ih =>
      obtain ⟨hsorted, hperm, hfilter⟩ := ih (h.stableInsert a)
      refine ⟨hsorted, ?_, ?_⟩
      · apply hperm.trans
        apply ((stableInsert_perm key a l).append_right as).trans
        exact List.perm_middle.symm
      · intro p k hp
        have hall := hfilter p k hp
        rw [stableInsert_filter h a hp] at hall
        rw [stableInsertAll, List.foldl_cons, ← stableInsertAll, hall, List.append_assoc,
          ← List.filter_append, List.singleton_append]

end

end Icbd.Lib
