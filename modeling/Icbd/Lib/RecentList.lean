/-
# Icbd.Lib.RecentList — bounded most-recently-used lists.

The latest entry stands first. A known entry moves to the front, a new one is put there, and what does not
fit falls out at the end. After any number of such steps the list is read off the whole sequence of entries
at once: the newest first, each once, as many as there is room for.
-/
import Mathlib.Data.List.Induction
import Mathlib.Data.List.Nodup

namespace Icbd.Lib

universe u

variable {α : Type u} [BEq α] {k : Nat} {x y : α} {l xs : List α}

/-! ## §1 — one entry -/

/-- `x` comes to the front of a list with room for `k`. -/
def touch (k : Nat) (l : List α) (x : α) : List α := (x :: l.erase x).take k

theorem touch_length_le : (touch k l x).length ≤ k := List.length_take_le k _

variable [LawfulBEq α]

theorem touch_nodup (h : l.Nodup) : (touch k l x).Nodup :=
  (List.nodup_cons.mpr ⟨h.not_mem_erase, h.erase x⟩).sublist (List.take_sublist k _)

/-- With the entry known already nothing is pushed out. -/
theorem touch_of_mem (hx : x ∈ l) (hl : l.length ≤ k) : touch k l x = x :: l.erase x := by
  refine List.take_of_length_le ?_
  rw [List.length_cons, List.length_erase_of_mem hx]
  have := List.length_pos_of_mem hx
  omega

/-! ## §2 — many entries -/

/-- Only the entries in front of the cut decide what an erasure leaves there. -/
theorem take_erase_take (m : Nat) (l : List α) (x : α) :
    ((l.take (m + 1)).erase x).take m = (l.erase x).take m := by
  induction l generalizing m with
  | nil => rfl
  | cons y ys ih =>
    by_cases hy : y = x
    · subst hy
      simp [List.take_take]
    · rw [List.take_succ_cons, List.erase_cons_tail (by simpa using hy), List.erase_cons_tail (by simpa using hy)]
      cases m with
      | zero => rfl
      | succ m => rw [List.take_succ_cons, List.take_succ_cons, ih m]

/-- What was cut off before is cut off after. -/
theorem touch_take (l : List α) (x : α) : touch k (l.take k) x = touch k l x := by
  unfold touch
  cases k with
  | zero => rfl
  | succ m => rw [List.take_succ_cons, List.take_succ_cons, take_erase_take]

/-- The order of the first occurrences does not depend on what is filtered out. -/
theorem eraseDups_filter (p : α → Bool) (l : List α) : (l.filter p).eraseDups = l.eraseDups.filter p := by
  generalize hn : l.length = n
  induction n using Nat.strongRecOn generalizing l with
  | ind n ih =>
    cases l with
    | nil => rfl
    | cons a as =>
      have hlen : as.length < n := by
        rw [← hn, List.length_cons]
        omega
      have hle : (as.filter fun b => !b == a).length < n := Nat.lt_of_le_of_lt (List.length_filter_le _ as) hlen
      by_cases hp : p a
      · rw [List.filter_cons_of_pos hp, List.eraseDups_cons, List.eraseDups_cons, List.filter_cons_of_pos hp,
          List.filter_filter, ← ih _ hle _ rfl, List.filter_filter]
        simp only [Bool.and_comm]
      · rw [List.filter_cons_of_neg hp, List.eraseDups_cons, List.filter_cons_of_neg hp, ← ih _ hle _ rfl,
          List.filter_filter]
        congr 1
        refine List.filter_congr fun b _ => ?_
        by_cases hb : b = a
        · subst hb
          simpa using hp
        · simp [hb]

theorem nodup_eraseDups (l : List α) : l.eraseDups.Nodup := by
  generalize hn : l.length = n
  induction n using Nat.strongRecOn generalizing l with
  | ind n ih =>
    cases l with
    | nil => exact List.nodup_nil
    | cons a as =>
      rw [List.eraseDups_cons, List.nodup_cons]
      refine ⟨by simp [List.mem_eraseDups], ih _ ?_ _ rfl⟩
      rw [← hn, List.length_cons]
      exact Nat.lt_succ_of_le (List.length_filter_le _ as)

theorem eraseDups_of_nodup (h : l.Nodup) : l.eraseDups = l := by
  induction l with
  | nil => rfl
  | cons a as ih =>
    obtain ⟨ha, has⟩ := List.nodup_cons.mp h
    rw [List.eraseDups_cons, List.filter_eq_self.mpr fun b hb => ?_, ih has]
    simpa using fun heq : b = a => ha (heq ▸ hb)

/-- The newest entry first, each once. -/
theorem touch_eraseDups (l : List α) (x : α) : touch k l.eraseDups x = (x :: l).eraseDups.take k := by
  rw [touch, List.eraseDups_cons, eraseDups_filter, (nodup_eraseDups l).erase_eq_filter]
  rfl

/-- **The closed form.** After the entries `xs`, in this order, the list holds the first `k` different ones
of `xs` from the last to the first, followed by the old list. -/
theorem foldl_touch (hnodup : l.Nodup) (hlen : l.length ≤ k) (xs : List α) :
    xs.foldl (touch k) l = (xs.reverse ++ l).eraseDups.take k := by
  induction xs using List.reverseRecOn with
  | nil => rw [List.reverse_nil, List.nil_append, eraseDups_of_nodup hnodup, List.take_of_length_le hlen]; rfl
  | append_singleton xs x ih =>
    rw [List.foldl_concat, ih, touch_take, touch_eraseDups, List.reverse_concat, List.cons_append]

end Icbd.Lib
