/-
# Icbd.Lib.Framing — blocks read off a stream.

A framing writes each block so that it can be told where it ends: `next` reads one off the front of a
stream, and waits as long as what is there is only the beginning of one. `Framing.read` reads all that is
there. Whatever part of a sequence of blocks has arrived, it finds the blocks that are complete, and keeps
the beginning of the next one.
-/
import Mathlib.Data.List.Infix

namespace Icbd.Lib

universe u v

/-- Blocks of type `α` as symbols of type `β`. -/
structure Framing (α : Type u) (β : Type v) where
  encode : α → List β
  next : List β → Option (α × List β)
  nonempty : ∀ a, encode a ≠ []
  next_whole : ∀ a s, next (encode a ++ s) = some (a, s)
  next_part : ∀ a s, s <+: encode a → s ≠ encode a → next s = none

namespace Framing

variable {α : Type u} {β : Type v} (F : Framing α β)

/-- Blocks written one behind the other. -/
def write (as : List α) : List β := as.flatMap F.encode

/-- At most `n` blocks off the front of a stream, and what is left. -/
def readUpTo : Nat → List β → List α × List β
  | 0, s => ([], s)
  | n + 1, s =>
      match F.next s with
      | none => ([], s)
      | some (a, rest) => (a :: (readUpTo n rest).1, (readUpTo n rest).2)

/-- All the blocks that are there. -/
def read (s : List β) : List α × List β := F.readUpTo s.length s

@[simp] theorem write_nil : F.write [] = [] := rfl

@[simp] theorem write_cons (a : α) (as : List α) : F.write (a :: as) = F.encode a ++ F.write as := rfl

theorem write_append (as bs : List α) : F.write (as ++ bs) = F.write as ++ F.write bs :=
  List.flatMap_append

theorem next_nil : F.next [] = none := by
  cases h : F.next [] with
  | none => rfl
  | some r => exact h.symm.trans (F.next_part r.1 [] List.nil_prefix (F.nonempty r.1).symm)

/-- What is not a whole block yet: nothing, or the beginning of one. -/
def Part (s : List β) : Prop := s = [] ∨ ∃ a, s <+: F.encode a ∧ s ≠ F.encode a

theorem Part.next {s : List β} (h : F.Part s) : F.next s = none := by
  rcases h with rfl | ⟨a, hs, hne⟩
  · exact F.next_nil
  · exact F.next_part a s hs hne

/-- A part of a sequence of blocks ends between two of them or inside one. -/
theorem prefix_cases {as : List α} {s : List β} (h : s <+: F.write as) :
    ∃ done rest part, as = done ++ rest ∧ s = F.write done ++ part ∧
      (part = [] ∨ ∃ a rest', rest = a :: rest' ∧ part <+: F.encode a ∧ part ≠ F.encode a) := by
  induction as generalizing s with
  | nil => exact ⟨[], [], [], rfl, List.prefix_nil.mp h, .inl rfl⟩
  | cons a as ih =>
    rw [write_cons] at h
    rcases List.prefix_or_prefix_of_prefix h (List.prefix_append _ _) with hs | hs
    · by_cases heq : s = F.encode a
      · exact ⟨[a], as, [], rfl, by simp [heq], .inl rfl⟩
      · exact ⟨[], a :: as, s, rfl, rfl, .inr ⟨a, as, rfl, hs, heq⟩⟩
    · obtain ⟨t, rfl⟩ := hs
      obtain ⟨done, rest, part, rfl, rfl, hpart⟩ := ih ((List.prefix_append_right_inj _).mp h)
      exact ⟨a :: done, rest, part, rfl, by rw [write_cons, List.append_assoc], hpart⟩

/-- Enough turns read all the blocks. -/
theorem readUpTo_write {n : Nat} {done : List α} {part : List β} (hn : (F.write done).length ≤ n)
    (hpart : F.Part part) : F.readUpTo n (F.write done ++ part) = (done, part) := by
  induction n generalizing done with
  | zero =>
    cases done with
    | nil => rfl
    | cons a done =>
      have hpos := List.length_pos_iff.mpr (F.nonempty a)
      rw [write_cons, List.length_append] at hn
      omega
  | succ n ih =>
    cases done with
    | nil =>
      show F.readUpTo (n + 1) part = _
      rw [readUpTo, hpart.next]
    | cons a done =>
      have hpos := List.length_pos_iff.mpr (F.nonempty a)
      rw [write_cons, List.length_append] at hn
      rw [write_cons, List.append_assoc, readUpTo, F.next_whole]
      simp only
      rw [ih (by omega)]

/-- **Reading a part of what was written** finds the blocks that are complete; what is left is the beginning of
the next one. -/
theorem read_prefix {as : List α} {s : List β} (h : s <+: F.write as) :
    (F.read s).1 <+: as ∧ s = F.write (F.read s).1 ++ (F.read s).2 ∧
      ((F.read s).2 = [] ∨
        ∃ a, as[(F.read s).1.length]? = some a ∧ (F.read s).2 <+: F.encode a ∧ (F.read s).2 ≠ F.encode a) := by
  obtain ⟨done, rest, part, rfl, rfl, hpart⟩ := F.prefix_cases h
  have hread : F.read (F.write done ++ part) = (done, part) := by
    refine F.readUpTo_write (by simp) (hpart.imp_right ?_)
    rintro ⟨a, -, -, hpart⟩
    exact ⟨a, hpart⟩
  rw [hread]
  refine ⟨List.prefix_append _ _, rfl, hpart.imp_right ?_⟩
  rintro ⟨a, rest', rfl, hpart, hne⟩
  exact ⟨a, by simp, hpart, hne⟩

end Framing

end Icbd.Lib
