/-
# Icbd.Lib.Glob — shell patterns over any alphabet.

A pattern is a list of tokens: a symbol that passes a test, or a star. `Matches` says which strings a
pattern stands for. `Hopeless` says more than that a string is not one of them: no end of it is one. A
backtracking matcher that finds out so much may stop trying the later starting points of the star it is
in, and of every star before it.
-/
import Mathlib.Data.List.Infix

namespace Icbd.Lib

universe u

/-! ## §1 — patterns and what they stand for -/

/-- A piece of a pattern. -/
inductive Token (α : Type u)
  /-- one symbol, of those that pass the test -/
  | one (test : α → Bool)
  /-- any number of symbols -/
  | star

variable {α : Type u} {test : α → Bool} {a : α} {ts : List (Token α)} {s u : List α}

/-- The strings a pattern stands for. -/
inductive Matches : List (Token α) → List α → Prop
  | nil : Matches [] []
  | one {test : α → Bool} {a : α} {ts : List (Token α)} {s : List α} :
      test a = true → Matches ts s → Matches (.one test :: ts) (a :: s)
  | skip {ts : List (Token α)} {s : List α} : Matches ts s → Matches (.star :: ts) s
  | take {ts : List (Token α)} {s : List α} (a : α) :
      Matches (.star :: ts) s → Matches (.star :: ts) (a :: s)

@[simp] theorem matches_nil : Matches ([] : List (Token α)) s ↔ s = [] :=
  ⟨fun h => by cases h; rfl, fun h => h ▸ Matches.nil⟩

@[simp] theorem not_matches_one_nil : ¬ Matches (.one test :: ts) [] := fun h => by cases h

@[simp] theorem matches_one_cons :
    Matches (.one test :: ts) (a :: s) ↔ test a = true ∧ Matches ts s :=
  ⟨fun h => by cases h with | one ht hs => exact ⟨ht, hs⟩, fun h => Matches.one h.1 h.2⟩

/-- A star takes what is in front of some end of the string. -/
theorem matches_star : Matches (.star :: ts) s ↔ ∃ u, u <:+ s ∧ Matches ts u := by
  constructor
  · intro h
    generalize hp : Token.star :: ts = p at h
    induction h with
    | nil => cases hp
    | one => cases hp
    | @skip ts' s h =>
      cases hp
      exact ⟨s, List.suffix_rfl, h⟩
    | take a _ ih =>
      obtain ⟨u, hu, h⟩ := ih hp
      exact ⟨u, hu.trans (List.suffix_cons a _), h⟩
  · rintro ⟨u, ⟨v, rfl⟩, h⟩
    induction v with
    | nil => exact Matches.skip h
    | cons a v ih => exact Matches.take a ih

theorem matches_star_self (s : List α) : Matches [.star] s :=
  matches_star.mpr ⟨[], List.nil_suffix, Matches.nil⟩

/-- Consecutive stars act just like one. -/
theorem matches_stars (k : Nat) :
    Matches (.star :: (List.replicate k .star ++ ts)) s ↔ Matches (.star :: ts) s := by
  induction k generalizing s with
  | zero => rfl
  | succ k ih =>
    rw [List.replicate_succ, List.cons_append, matches_star]
    constructor
    · rintro ⟨u, hu, h⟩
      obtain ⟨v, hv, h⟩ := matches_star.mp (ih.mp h)
      exact matches_star.mpr ⟨v, hv.trans hu, h⟩
    · exact fun h => ⟨s, List.suffix_rfl, ih.mpr h⟩

/-! ## §2 — giving up -/

/-- No end of the string matches. -/
def Hopeless (ts : List (Token α)) (s : List α) : Prop := ∀ u, u <:+ s → ¬ Matches ts u

theorem Hopeless.not_matches (h : Hopeless ts s) : ¬ Matches ts s := h s List.suffix_rfl

/-- A pattern that needs a symbol finds none. -/
theorem hopeless_nil : Hopeless (.one test :: ts) [] := by
  intro u hu
  rw [List.suffix_nil.mp hu]
  exact not_matches_one_nil

/-- Nothing matches at the first symbol, and nothing behind it. -/
theorem Hopeless.cons (hfirst : ¬ Matches ts (a :: s)) (h : Hopeless ts s) : Hopeless ts (a :: s) := by
  intro u hu
  rcases List.suffix_cons_iff.mp hu with rfl | hu
  · exact hfirst
  · exact h u hu

/-- What has no hope behind a symbol has none with one symbol more to match in front. -/
theorem Hopeless.one (h : Hopeless ts s) : Hopeless (.one test :: ts) (a :: s) := by
  intro u hu hm
  cases hm with
  | @one _ b _ v _ hv =>
    rcases List.suffix_cons_iff.mp hu with heq | hu
    · exact h v (by rw [(List.cons.inj heq).2]) hv
    · exact h v ((List.suffix_cons b v).trans hu) hv

/-- A star does not help. -/
theorem Hopeless.star (h : Hopeless ts s) : Hopeless (.star :: ts) s := by
  intro u hu hm
  obtain ⟨v, hv, hm⟩ := matches_star.mp hm
  exact h v (hv.trans hu) hm

end Icbd.Lib
