/-
# Icbd.Decimal — numbers written and read back.

The server keeps numbers as text: in the database, in the restart file and in its packets. `%d` writes the
digits of a number behind its sign, `atoi` reads them back, and the two are inverse on an `int`.
-/
import Icbd.Text

namespace Icbd

/-! ## §1 — digits -/

/-- The digits of a number, most significant first. -/
def digits (n : Nat) : Bytes := str (toString n)

theorem digits_eq_if (n : Nat) :
    digits n = if n < 10 then [UInt8.ofNat (48 + n)] else digits (n / 10) ++ [UInt8.ofNat (48 + n % 10)] := by
  have hchar {d : Nat} (hd : d < 10) : UInt8.ofNat (Nat.digitChar d).toNat = UInt8.ofNat (48 + d) := by
    rw [Nat.toNat_digitChar_of_lt_ten hd]
  simp only [digits, str, Nat.toString_eq_ofList_toDigits, String.toList_ofList]
  rw [Nat.toDigits_eq_if (by decide)]
  split
  · simp [hchar ‹_›]
  · simp [hchar (Nat.mod_lt n (by decide))]

theorem decimal_natCast (n : Nat) : decimal n = digits n := rfl

theorem decimal_neg {n : Nat} (hn : n ≠ 0) : decimal (-n) = 45 :: digits n := by
  obtain ⟨k, rfl⟩ := Nat.exists_eq_succ_of_ne_zero hn
  have hsign : toString (-((k + 1 : Nat) : Int)) = "-" ++ toString (k + 1) := rfl
  rw [decimal, hsign, str, String.toList_append, List.map_append]
  rfl

/-- The digits stand behind a sign or nothing. -/
theorem decimal_sign (i : Int) : ∃ sign, (sign = [] ∨ sign = [45]) ∧ decimal i = sign ++ digits i.natAbs := by
  by_cases h : i < 0
  · refine ⟨[45], .inr rfl, ?_⟩
    rw [show i = -(i.natAbs : Nat) by omega, decimal_neg (by omega), Int.natAbs_neg, Int.natAbs_natCast]
    rfl
  · refine ⟨[], .inl rfl, ?_⟩
    rw [show i = (i.natAbs : Nat) by omega, decimal_natCast, Int.natAbs_natCast]
    rfl

/-- A digit. -/
def isDigit (b : UInt8) : Bool := 48 ≤ b && b ≤ 57

theorem isDigit_ofNat {d : Nat} (hd : d < 10) : isDigit (UInt8.ofNat (48 + d)) = true := by
  revert d
  decide

theorem isDigit_digits (n : Nat) : ∀ b ∈ digits n, isDigit b = true := by
  induction n using Nat.strongRecOn with
  | ind n ih =>
    rw [digits_eq_if]
    split
    · simpa using isDigit_ofNat ‹_›
    · intro b hb
      rcases List.mem_append.mp hb with hb | hb
      · exact ih (n / 10) (by omega) b hb
      · rw [List.mem_singleton.mp hb]
        exact isDigit_ofNat (Nat.mod_lt n (by decide))

theorem digits_ne_nil (n : Nat) : digits n ≠ [] := by
  rw [digits_eq_if]
  split <;> simp

theorem digits_length_le {n k : Nat} (hk : 0 < k) (h : n < 10 ^ k) : (digits n).length ≤ k := by
  simp only [digits, str, Nat.toString_eq_ofList_toDigits, String.toList_ofList, List.length_map]
  exact (Nat.length_toDigits_le_iff (by decide) hk).mpr h

theorem decimal_ne_nil (i : Int) : decimal i ≠ [] := by
  obtain ⟨sign, -, hsign⟩ := decimal_sign i
  exact hsign ▸ List.append_ne_nil_of_right_ne_nil _ (digits_ne_nil _)

/-- An `int` has a sign and ten digits at most. -/
theorem decimal_length_le {i : Int} (hlo : -(2 ^ 31) ≤ i) (hhi : i < 2 ^ 31) : (decimal i).length ≤ 11 := by
  obtain ⟨sign, hsign, heq⟩ := decimal_sign i
  have hdigits : (digits i.natAbs).length ≤ 10 := digits_length_le (by decide) (by omega)
  have hlen : sign.length ≤ 1 := by rcases hsign with rfl | rfl <;> decide
  rw [heq, List.length_append]
  omega

/-! ## §2 — reading them -/

theorem digitsFrom_append {s t : Bytes} (hs : ∀ b ∈ s, isDigit b = true) (acc : Int) :
    digitsFrom acc (s ++ t) = digitsFrom (digitsFrom acc s) t := by
  induction s generalizing acc with
  | nil => rfl
  | cons b bs ih =>
    have hb : 48 ≤ b ∧ b ≤ 57 := by simpa [isDigit] using hs b List.mem_cons_self
    simp only [List.cons_append, digitsFrom, if_pos hb]
    exact ih (fun x hx => hs x (List.mem_cons_of_mem b hx)) _

theorem digitsFrom_digit {d : Nat} (hd : d < 10) (acc : Int) :
    digitsFrom acc [UInt8.ofNat (48 + d)] = acc * 10 + d := by
  have hb : 48 ≤ UInt8.ofNat (48 + d) ∧ UInt8.ofNat (48 + d) ≤ 57 := by
    simpa [isDigit] using isDigit_ofNat hd
  have hval : (UInt8.ofNat (48 + d)).toNat = 48 + d := by
    rw [UInt8.toNat_ofNat', Nat.mod_eq_of_lt (by omega)]
  simp only [digitsFrom, if_pos hb, hval]
  omega

theorem digitsFrom_digits (n : Nat) : digitsFrom 0 (digits n) = n := by
  induction n using Nat.strongRecOn with
  | ind n ih =>
    rw [digits_eq_if]
    split
    · rw [digitsFrom_digit ‹_›]
      omega
    · rw [digitsFrom_append (isDigit_digits _), ih (n / 10) (by omega),
        digitsFrom_digit (Nat.mod_lt n (by decide))]
      omega

/-- What stands behind the digits does not matter if it is no digit. -/
theorem digitsFrom_stop {t : Bytes} (ht : ∀ b ∈ t.head?, isDigit b = false) (acc : Int) :
    digitsFrom acc t = acc := by
  cases t with
  | nil => rfl
  | cons b bs =>
    have hb : ¬ (48 ≤ b ∧ b ≤ 57) := by simpa [isDigit] using ht b rfl
    simp only [digitsFrom, if_neg hb]

/-- A digit is no blank and no sign. -/
theorem isDigit_plain {b : UInt8} (h : isDigit b = true) : isspace b = false ∧ b ≠ 45 ∧ b ≠ 43 := by
  simp only [isDigit, isspace, Bool.and_eq_true, decide_eq_true_eq, Bool.or_eq_false_iff,
    beq_eq_false_iff_ne, Bool.and_eq_false_iff, decide_eq_false_iff_not, ne_eq, ← UInt8.toNat_inj,
    UInt8.le_iff_toNat_le, UInt8.reduceToNat] at h ⊢
  omega

theorem atol_digits (n : Nat) (hn : n < 2 ^ 63) : atol (digits n) = n := by
  obtain ⟨b, bs, hbs⟩ := List.exists_cons_of_ne_nil (digits_ne_nil n)
  obtain ⟨hspace, hminus, hplus⟩ := isDigit_plain (isDigit_digits n b (by rw [hbs]; exact List.mem_cons_self))
  have hdrop : (digits n).dropWhile isspace = digits n := by
    rw [hbs, List.dropWhile_cons_of_neg (by simp [hspace])]
  have hread := digitsFrom_digits n
  simp only [atol, hdrop]
  split
  · rename_i heq
    exact absurd (by rw [hbs] at heq; exact (List.cons.inj heq).1) hminus
  · rename_i heq
    exact absurd (by rw [hbs] at heq; exact (List.cons.inj heq).1) hplus
  · rw [hread]
    omega

theorem atol_neg_digits (n : Nat) (hn : n ≤ 2 ^ 63) : atol (45 :: digits n) = -n := by
  have hdrop : (45 :: digits n).dropWhile isspace = 45 :: digits n :=
    List.dropWhile_cons_of_neg (by decide)
  simp only [atol, hdrop]
  rw [digitsFrom_digits]
  omega

/-- **What `%d` writes, `atoi` reads.** -/
theorem atoi_decimal {i : Int} (hlo : -(2 ^ 31) ≤ i) (hhi : i < 2 ^ 31) : atoi (decimal i) = i := by
  have hwrap {j : Int} (h₁ : -(2 ^ 31) ≤ j) (h₂ : j < 2 ^ 31) : toInt32 j = j := by
    unfold toInt32
    omega
  by_cases h : i < 0
  · obtain ⟨n, rfl⟩ : ∃ n : Nat, i = -n := ⟨i.natAbs, by omega⟩
    rw [decimal_neg (by omega), atoi, atol_neg_digits n (by omega), hwrap hlo hhi]
  · obtain ⟨n, rfl⟩ : ∃ n : Nat, i = n := ⟨i.natAbs, by omega⟩
    rw [decimal_natCast, atoi, atol_digits n (by omega), hwrap hlo hhi]

theorem digits_injective {n m : Nat} (h : digits n = digits m) : n = m := by
  have hn := digitsFrom_digits n
  rw [h, digitsFrom_digits] at hn
  omega

end Icbd
