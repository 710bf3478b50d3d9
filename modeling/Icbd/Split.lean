/-
# Icbd.Split — the fields of a packet.

`split` cuts a packet at its `^A`s into the global array `fields` before anything else looks at the packet.
What it should store is `List.splitOn` of the separator, the first `MAX_FIELDS` pieces of it. Its bound test
stands behind the increment and asks `i > MAX_FIELDS`, so the packet with one field too many is stored one
past the array; the pieces inside the array and the number returned are right for every packet.
-/
import Mathlib.Data.List.TakeWhile
import Icbd.Text

namespace Icbd

/-! ## §1 — one turn of the loop -/

/-- A packet without a separator is one field. -/
theorem splitPieces_of_not_mem (n : Nat) {s : Bytes} (h : 1 ∉ s) : splitPieces n s = [s] := by
  cases n with
  | zero => rfl
  | succ n =>
    have hnone : s.dropWhile (· ≠ 1) = [] := by
      rw [List.dropWhile_eq_nil_iff]
      intro x hx
      simpa using ne_of_mem_of_not_mem hx h
    simp only [splitPieces, hnone]

/-- At a separator the field before it is closed and the scan goes on behind it. -/
theorem splitPieces_succ (n : Nat) {s rest : Bytes} (h : 1 ∉ s) :
    splitPieces (n + 1) (s ++ 1 :: rest) = s :: splitPieces n rest := by
  have hs : ∀ x ∈ s, decide (x ≠ 1) = true := by
    intro x hx
    simpa using ne_of_mem_of_not_mem hx h
  have hdrop : (s ++ 1 :: rest).dropWhile (· ≠ 1) = 1 :: rest := by
    rw [List.dropWhile_append_of_pos hs]
    rfl
  have htake : (s ++ 1 :: rest).takeWhile (· ≠ 1) = s := by
    rw [List.takeWhile_append_of_pos hs]
    simp
  simp only [splitPieces, hdrop, htake]

/-- A packet has no separator, or a first one. -/
theorem first_separator (s : Bytes) : 1 ∉ s ∨ ∃ f rest, 1 ∉ f ∧ s = f ++ 1 :: rest := by
  by_cases h : 1 ∈ s
  · obtain ⟨f, rest, hs, hf⟩ := List.eq_append_cons_of_mem h
    exact .inr ⟨f, rest, hf, hs⟩
  · exact .inl h

/-! ## §2 — the whole scan -/

theorem splitOn_length (s : Bytes) : (s.splitOn 1).length = s.count 1 + 1 := by
  induction s with
  | nil => rfl
  | cons b bs ih =>
    rw [List.splitOn_cons_eq_if_modifyHead, List.count_cons]
    split <;> simp [ih]

/-- One field for each separator and one more, but no more than the bound test lets be stored. -/
theorem splitPieces_length (n : Nat) (s : Bytes) :
    (splitPieces n s).length = min (s.count 1) n + 1 := by
  induction n generalizing s with
  | zero => simp [splitPieces]
  | succ n ih =>
    rcases first_separator s with h | ⟨f, rest, hf, rfl⟩
    · simp [splitPieces_of_not_mem _ h, List.count_eq_zero.mpr h]
    · rw [splitPieces_succ n hf, List.length_cons, ih, List.count_append, List.count_eq_zero.mpr hf,
        List.count_cons_self]
      omega

/-- The fields before the last one stored are those between the separators. -/
theorem splitPieces_take (n : Nat) (s : Bytes) :
    (splitPieces n s).take n = (s.splitOn 1).take n := by
  induction n generalizing s with
  | zero => simp
  | succ n ih =>
    rcases first_separator s with h | ⟨f, rest, hf, rfl⟩
    · rw [splitPieces_of_not_mem _ h, List.splitOn_eq_singleton h]
    · rw [splitPieces_succ n hf, List.splitOn_append_cons_self_of_not_mem hf, List.take_succ_cons,
        List.take_succ_cons, ih]

/-- What `split` returns is right for every packet. -/
theorem splitCount_eq (s : Bytes) : splitCount s = min (s.count 1 + 1) maxFields := by
  simp only [splitCount, splitFields, splitPieces_length]
  omega

/-- The fields a caller may look at are right for every packet. -/
theorem splitFields_take (s : Bytes) :
    (splitFields s).take (splitCount s) = (s.splitOn 1).take maxFields := by
  have hle : splitCount s ≤ maxFields := by
    rw [splitCount_eq]
    omega
  have htake : (s.splitOn 1).take (splitCount s) = (s.splitOn 1).take maxFields := by
    rw [splitCount_eq, ← splitOn_length, Nat.min_comm, ← List.take_eq_take_min]
  calc (splitFields s).take (splitCount s)
      = ((splitFields s).take maxFields).take (splitCount s) := by
        rw [List.take_take, Nat.min_eq_left hle]
    _ = ((s.splitOn 1).take maxFields).take (splitCount s) := by
        rw [splitFields, splitPieces_take]
    _ = (s.splitOn 1).take maxFields := by
        rw [List.take_take, Nat.min_eq_left hle, htake]

/-! ## §3 — the array -/

/-- What is asked of `split`: every field it stores lies in the array, it returns the number of fields, up
to `MAX_FIELDS`, and the fields it returns are those between the separators in order. The fields are stored
at indices 0, 1, ... of the array. -/
structure SplitsWell (s : Bytes) : Prop where
  inside : ∀ i < (splitFields s).length, i < maxFields
  count : splitCount s = min (s.count 1 + 1) maxFields
  fields : (splitFields s).take (splitCount s) = (s.splitOn 1).take maxFields

/-- **`split` stays inside `fields` exactly for packets with fewer than `MAX_FIELDS` separators.** -/
theorem splitsWell_iff (s : Bytes) : SplitsWell s ↔ s.count 1 < maxFields := by
  have hlen : (splitFields s).length = min (s.count 1) maxFields + 1 := splitPieces_length maxFields s
  constructor
  · intro h
    have := h.inside (min (s.count 1) maxFields) (by omega)
    omega
  · intro h
    refine ⟨fun i hi => ?_, splitCount_eq s, splitFields_take s⟩
    omega

/-- Twenty separators: the twenty-first field is stored behind the array. -/
theorem splits_past_array : ¬ SplitsWell (List.replicate 20 1) := by
  intro h
  have hlen : (splitFields (List.replicate 20 1)).length = 21 := by decide
  have hpast : 20 < maxFields := h.inside 20 (by omega)
  exact absurd hpast (by decide)

end Icbd
