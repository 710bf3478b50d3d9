/-
# Icbd.Lib.Path — runs of a labelled transition system.

`Path step s ls t`: the labels `ls`, in this order, lead from `s` to `t`. A run under a condition is
a path of `Under ok step`: every step meets `ok` in the state where it is taken. A ghost log that
every step may extend is a path of `Logging`.
-/
import Mathlib.Data.List.Basic

namespace Icbd.Lib

universe u v w

variable {S : Type u} {L : Type v} {A : Type w} {step : L → S → S → Prop}

/-- The runs from `s`, newest label last. -/
inductive Path (step : L → S → S → Prop) (s : S) : List L → S → Prop
  | nil : Path step s [] s
  | snoc {ls : List L} {t t' : S} (l : L) :
      Path step s ls t → step l t t' → Path step s (ls ++ [l]) t'

theorem Path.single {l : L} {s t : S} (h : step l s t) : Path step s [l] t :=
  Path.snoc l Path.nil h

theorem Path.trans {s t t' : S} {ls ls' : List L} (h : Path step s ls t)
    (h' : Path step t ls' t') : Path step s (ls ++ ls') t' := by
  induction h' with
  | nil => rwa [List.append_nil]
  | snoc l _ hstep ih =>
      rw [← List.append_assoc]
      exact Path.snoc l ih hstep

theorem Path.cons {l : L} {s t t' : S} {ls : List L} (h : step l s t) (h' : Path step t ls t') :
    Path step s (l :: ls) t' :=
  (Path.single h).trans h'

/-- **The invariant rule.** What holds at the start and is kept by every step holds along the run. -/
theorem Path.invariant {I : S → Prop} {s t : S} {ls : List L} (h : Path step s ls t) (h₀ : I s)
    (hkeep : ∀ l t t', I t → step l t t' → I t') : I t := by
  induction h with
  | nil => exact h₀
  | snoc l _ hstep ih => exact hkeep l _ _ ih hstep

/-- A step that meets `ok` where it is taken. -/
def Under (ok : L → S → Prop) (step : L → S → S → Prop) (l : L) (s t : S) : Prop :=
  ok l s ∧ step l s t

theorem Path.of_under {ok : L → S → Prop} {s t : S} {ls : List L}
    (h : Path (Under ok step) s ls t) : Path step s ls t := by
  induction h with
  | nil => exact Path.nil
  | snoc l _ hstep ih => exact Path.snoc l ih hstep.2

/-- A step together with what it adds to a log. -/
def Logging (adds : L → S → List A) (step : L → S → S → Prop) (l : L) (s t : S × List A) : Prop :=
  step l s.1 t.1 ∧ t.2 = s.2 ++ adds l s.1

end Icbd.Lib
