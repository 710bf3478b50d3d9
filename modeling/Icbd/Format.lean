/-
# Icbd.Format — `filterfmt` against the formats of `printf`.

`filterfmt` never parses a format: it jumps from percent sign to percent sign with `strchr` and looks at
one character behind each. The parser here takes a format apart as `printf` does, into text, `%%` and
conversions with flags, width, precision, length modifier and specifier; a format may end inside a
conversion. The two part company only behind a conversion that is neither `%s` nor `%%`.
-/
import Icbd.Decimal

namespace Icbd

/-! ## §1 — the loop -/

/-- `strchr`: the string from the first occurrence on, if there is one. -/
def strchr : Bytes → UInt8 → Option Bytes
  | [], _ => none
  | b :: bs, c => if b = c then some (b :: bs) else strchr bs c

/-- The loop of `filterfmt`: `cp`, `num_s` and `num_bad`. Every iteration leaves a percent sign behind,
so as many as there are bytes are enough. -/
def filterfmtLoop : Nat → Option Bytes → Nat → Nat → Nat × Nat
  | _, none, numS, numBad => (numS, numBad)
  | 0, _, numS, numBad => (numS, numBad)
  | fuel + 1, some cp, numS, numBad =>
      let cp := cp.tail
      if cp.head? = some 115 then filterfmtLoop fuel (strchr cp 37) (numS + 1) numBad
      else if cp.head? = some 37 then filterfmtLoop fuel (strchr cp.tail 37) numS numBad
      else filterfmtLoop fuel (strchr cp 37) numS (numBad + 1)

theorem scanFmt_text {b : UInt8} (h : b ≠ 37) (bs : Bytes) : scanFmt (b :: bs) = scanFmt bs :=
  scanFmt.eq_5 b bs (fun _ hb _ => h hb) (fun _ hb _ => h hb) h

/-- A percent sign with something else behind it. -/
theorem scanFmt_bad {bs : Bytes} (h1 : bs.head? ≠ some 37) (h2 : bs.head? ≠ some 115) :
    scanFmt (37 :: bs) = ((scanFmt bs).1, (scanFmt bs).2 + 1) := by
  apply scanFmt.eq_4
  · rintro x rfl
    exact h1 rfl
  · rintro x rfl
    exact h2 rfl

/-- **The loop counts what `scanFmt` counts**, by induction on the string: between two percent signs
`strchr` moves on. -/
theorem filterfmtLoop_eq {fuel : Nat} {s : Bytes} (h : s.length ≤ fuel) (numS numBad : Nat) :
    filterfmtLoop fuel (strchr s 37) numS numBad =
      (numS + (scanFmt s).1, numBad + (scanFmt s).2) := by
  induction s using scanFmt.induct generalizing fuel numS numBad with
  | case1 => simp [strchr, filterfmtLoop, scanFmt]
  | case2 bs ih =>
      -- `%%`: the search goes on behind both
      obtain ⟨fuel, rfl⟩ : ∃ n, fuel = n + 1 := Nat.exists_eq_add_one.mpr (by simp at h; omega)
      simp only [List.length_cons] at h
      simp only [strchr, if_true, filterfmtLoop, List.tail_cons, List.head?_cons, scanFmt]
      exact ih (by omega) numS numBad
  | case3 bs ih =>
      -- `%s`: it goes on at the `s`
      obtain ⟨fuel, rfl⟩ : ∃ n, fuel = n + 1 := Nat.exists_eq_add_one.mpr (by simp at h; omega)
      simp only [List.length_cons] at h
      have hs : strchr (115 :: bs) 37 = strchr bs 37 := rfl
      simp only [strchr, if_true, filterfmtLoop, List.tail_cons, List.head?_cons, scanFmt, hs]
      rw [ih (by omega), Nat.add_right_comm]
      rfl
  | case4 bs h37 h115 ih =>
      obtain ⟨fuel, rfl⟩ : ∃ n, fuel = n + 1 := Nat.exists_eq_add_one.mpr (by simp at h; omega)
      simp only [List.length_cons] at h
      have hp : bs.head? ≠ some 37 := by
        intro hb
        obtain ⟨t, rfl⟩ := List.head?_eq_some_iff.mp hb
        exact h37 t rfl
      have hs : bs.head? ≠ some 115 := by
        intro hb
        obtain ⟨t, rfl⟩ := List.head?_eq_some_iff.mp hb
        exact h115 t rfl
      simp only [strchr, if_true, filterfmtLoop, List.tail_cons, hs, if_false, hp]
      rw [ih (by omega), scanFmt_bad hp hs, Nat.add_right_comm]
      rfl
  | case5 b bs _ _ hb ih =>
      have hb' : b ≠ 37 := hb
      simp only [strchr, hb', if_false]
      rw [scanFmt_text hb']
      exact ih (by simp at h; omega) numS numBad

/-- The loop as `filterfmt` enters it. -/
theorem scanFmt_eq_loop (s : Bytes) : scanFmt s = filterfmtLoop s.length (strchr s 37) 0 0 := by
  rw [filterfmtLoop_eq (Nat.le_refl _), Nat.zero_add, Nat.zero_add]

/-! ## §2 — formats, as `printf` reads them -/

/-- A conversion specification: the flags, the width (digits or a star), the precision if there is a
point, the length modifier, and the specifier unless the format ends before it. -/
structure Conversion where
  flags : Bytes
  width : Bytes
  precision : Option Bytes
  length : Bytes
  specifier : Option UInt8
  deriving DecidableEq, Repr

/-- A piece of a format. -/
inductive Piece
  | text (b : UInt8)
  | percent
  | conversion (c : Conversion)
  deriving DecidableEq, Repr

/-- `-`, `+`, blank, `#`, `0` and the `'` of POSIX. -/
def isFlag (b : UInt8) : Bool := b ∈ [45, 43, 32, 35, 48, 39]

/-- A width or a precision, and what follows. -/
def fieldNumber : Bytes → Bytes × Bytes
  | 42 :: s => ([42], s)
  | s => (s.takeWhile isDigit, s.dropWhile isDigit)

/-- A precision, and what follows. -/
def fieldPrecision : Bytes → Option Bytes × Bytes
  | 46 :: s => (some (fieldNumber s).1, (fieldNumber s).2)
  | s => (none, s)

/-- `hh`, `h`, `ll`, `l`, `j`, `z`, `t`, `L` or nothing, and what follows. -/
def lengthModifier : Bytes → Bytes × Bytes
  | 104 :: 104 :: s => ([104, 104], s)
  | 108 :: 108 :: s => ([108, 108], s)
  | b :: s => if b ∈ [104, 108, 106, 122, 116, 76] then ([b], s) else ([], b :: s)
  | [] => ([], [])

/-- What stands behind a percent sign, and what follows it. -/
def conversion (s : Bytes) : Conversion × Bytes :=
  let width := fieldNumber (s.dropWhile isFlag)
  let precision := fieldPrecision width.2
  let length := lengthModifier precision.2
  (⟨s.takeWhile isFlag, width.1, precision.1, length.1, length.2.head?⟩, length.2.tail)

/-- The conversion with a specifier and nothing else. -/
def plain (c : UInt8) : Conversion := ⟨[], [], none, [], some c⟩

theorem fieldNumber_suffix (s : Bytes) : (fieldNumber s).1 ++ (fieldNumber s).2 = s := by
  unfold fieldNumber
  split
  · rfl
  · exact List.takeWhile_append_dropWhile

theorem length_fieldPrecision_le (s : Bytes) : (fieldPrecision s).2.length ≤ s.length := by
  unfold fieldPrecision
  split
  · rename_i s
    have h := congrArg List.length (fieldNumber_suffix s)
    rw [List.length_append] at h
    simp only [List.length_cons]
    omega
  · exact Nat.le_refl _

theorem length_lengthModifier_le (s : Bytes) : (lengthModifier s).2.length ≤ s.length := by
  unfold lengthModifier
  split
  · simp only [List.length_cons]
    omega
  · simp only [List.length_cons]
    omega
  · split
    · simp
    · exact Nat.le_refl _
  · exact Nat.le_refl _

theorem length_conversion_le (s : Bytes) : (conversion s).2.length ≤ s.length := by
  have h1 := congrArg List.length (fieldNumber_suffix (s.dropWhile isFlag))
  rw [List.length_append] at h1
  have h2 := length_fieldPrecision_le (fieldNumber (s.dropWhile isFlag)).2
  have h3 := length_lengthModifier_le (fieldPrecision (fieldNumber (s.dropWhile isFlag)).2).2
  have h4 := (List.dropWhile_suffix isFlag (l := s)).length_le
  simp only [conversion, List.length_tail]
  omega

/-- A format, from left to right. -/
def parseFormat : Bytes → List Piece
  | [] => []
  | 37 :: s =>
      (if (conversion s).1 = plain 37 then .percent else .conversion (conversion s).1) ::
        parseFormat (conversion s).2
  | b :: s => .text b :: parseFormat s
  termination_by s => s.length
  decreasing_by
    · have := length_conversion_le s
      simp only [List.length_cons]
      omega
    · simp

/-- The conversions of a format. -/
def conversions (s : Bytes) : List Conversion :=
  (parseFormat s).filterMap fun p =>
    match p with
    | .conversion c => some c
    | _ => none

/-! ## §3 — in step -/

/-- A conversion with nothing in front of its specifier is what stands behind the percent sign. -/
theorem head_of_conversion {s : Bytes} {c : UInt8} (h : (conversion s).1 = plain c) :
    s.head? = some c := by
  simp only [conversion, plain, Conversion.mk.injEq] at h
  obtain ⟨hflags, hwidth, hprecision, hlength, hspec⟩ := h
  have e1 : s.dropWhile isFlag = s := by
    have := List.takeWhile_append_dropWhile (p := isFlag) (l := s)
    rwa [hflags, List.nil_append] at this
  rw [e1] at hwidth hprecision hlength hspec
  have e2 : (fieldNumber s).2 = s := by
    have := fieldNumber_suffix s
    rwa [hwidth, List.nil_append] at this
  rw [e2] at hprecision hlength hspec
  have e3 : (fieldPrecision s).2 = s := by
    unfold fieldPrecision at hprecision ⊢
    split at hprecision
    · cases hprecision
    · rfl
  rw [e3] at hlength hspec
  have e4 : (lengthModifier s).2 = s := by
    unfold lengthModifier at hlength ⊢
    split at hlength
    · cases hlength
    · cases hlength
    · split at hlength
      · cases hlength
      · rename_i hno
        simp only [hno, if_false]
    · rfl
  rwa [e4] at hspec

theorem conversions_percent (s : Bytes) : conversions (37 :: 37 :: s) = conversions s := by
  have h : conversion (37 :: s) = (plain 37, s) := rfl
  simp only [conversions, parseFormat, h, if_true, List.filterMap_cons]

theorem conversions_s (s : Bytes) : conversions (37 :: 115 :: s) = plain 115 :: conversions s := by
  have h : conversion (115 :: s) = (plain 115, s) := rfl
  have hne : plain 115 ≠ plain 37 := by decide
  simp only [conversions, parseFormat, h, hne, if_false, List.filterMap_cons]

theorem conversions_text {b : UInt8} (hb : b ≠ 37) (s : Bytes) :
    conversions (b :: s) = conversions s := by
  rw [conversions, parseFormat.eq_3 b s hb, List.filterMap_cons]
  rfl

/-- A percent sign with something else behind it begins a conversion that is not `%s`. -/
theorem conversions_bad {s : Bytes} (h37 : s.head? ≠ some 37) (h115 : s.head? ≠ some 115) :
    ∃ c cs, conversions (37 :: s) = c :: cs ∧ c ≠ plain 115 := by
  have hp : (conversion s).1 ≠ plain 37 := fun h => h37 (head_of_conversion h)
  refine ⟨(conversion s).1, conversions (conversion s).2, ?_, fun h => h115 (head_of_conversion h)⟩
  simp only [conversions, parseFormat, hp, if_false, List.filterMap_cons]

/-- **In step up to the first bad conversion**: the scan finds one exactly when the parser does, and
when there is none both have counted the same. -/
theorem scanFmt_conversions (s : Bytes) :
    ((scanFmt s).2 = 0 ↔ ∀ c ∈ conversions s, c = plain 115) ∧
      ((scanFmt s).2 = 0 → (scanFmt s).1 = (conversions s).length) := by
  induction s using scanFmt.induct with
  | case1 => simp [scanFmt, conversions, parseFormat]
  | case2 bs ih =>
      rw [scanFmt, conversions_percent]
      exact ih
  | case3 bs ih =>
      obtain ⟨hiff, hlen⟩ := ih
      rw [scanFmt, conversions_s]
      constructor
      · rw [List.forall_mem_cons]
        exact ⟨fun h => ⟨rfl, hiff.mp h⟩, fun h => hiff.mpr h.2⟩
      · intro h
        rw [List.length_cons, ← hlen h]
  | case4 bs h37 h115 ih =>
      have hp : bs.head? ≠ some 37 := by
        intro hb
        obtain ⟨t, rfl⟩ := List.head?_eq_some_iff.mp hb
        exact h37 t rfl
      have hs : bs.head? ≠ some 115 := by
        intro hb
        obtain ⟨t, rfl⟩ := List.head?_eq_some_iff.mp hb
        exact h115 t rfl
      obtain ⟨c, cs, hc, hne⟩ := conversions_bad hp hs
      rw [scanFmt_bad hp hs, hc]
      constructor
      · constructor
        · intro h
          exact absurd h (Nat.succ_ne_zero _)
        · intro h
          exact absurd (h c List.mem_cons_self) hne
      · intro h
        exact absurd h (Nat.succ_ne_zero _)
  | case5 b bs _ _ hb ih =>
      have hb' : b ≠ 37 := hb
      rw [scanFmt_text hb', conversions_text hb']
      exact ih

/-! ## §4 — the answer -/

/-- **`filterfmt` recognises exactly the safe formats.** It returns no error if and only if the
conversions of the format are `k` times `%s` and no other; when it returns one, it sets `*n` to `-1` if
some percent sign begins something that is neither `%s` nor `%%`, and otherwise to the number of `%s`. -/
theorem filterfmt_recognises (s : Bytes) (k : Nat) :
    ((filterfmt s k).1 = none ↔ conversions s = List.replicate k (plain 115)) ∧
    ((filterfmt s k).1 ≠ none →
      ((∃ c ∈ conversions s, c ≠ plain 115) → (filterfmt s k).2 = -1) ∧
      ((∀ c ∈ conversions s, c = plain 115) →
        (filterfmt s k).2 = ((conversions s).length : Int))) := by
  obtain ⟨hiff, hlen⟩ := scanFmt_conversions s
  by_cases hbad : (scanFmt s).2 = 0
  · have hall := hiff.mp hbad
    have hcount : ((scanFmt s).1 : Int) = ((conversions s).length : Int) := by rw [hlen hbad]
    have hrep : conversions s = List.replicate k (plain 115) ↔ (conversions s).length = k := by
      rw [List.eq_replicate_iff]
      exact ⟨fun h => h.1, fun h => ⟨h, hall⟩⟩
    have hn : filterfmt s k = if ((conversions s).length : Int) ≠ k then
        (some (if (k : Int) = 0 then fmtBad
          else str "Message must contain (only) " ++ decimal k ++ str " %s for the username."),
          ((conversions s).length : Int)) else (none, (k : Int)) := by
      simp only [filterfmt, hbad, gt_iff_lt, Nat.lt_irrefl, if_false, hcount]
    rw [hn, hrep]
    by_cases hk : (conversions s).length = k
    · simp [hk]
    · have hk' : ((conversions s).length : Int) ≠ k := by exact_mod_cast hk
      rw [if_pos hk']
      refine ⟨by simp [hk], ?_⟩
      intro _
      constructor
      · rintro ⟨c, hc, hne⟩
        exact absurd (hall c hc) hne
      · intro _
        rfl
  · have hsome : ¬ ∀ c ∈ conversions s, c = plain 115 := fun h => hbad (hiff.mpr h)
    have hn : filterfmt s k = (some fmtBad, -1) := by
      simp only [filterfmt, gt_iff_lt, Nat.pos_of_ne_zero hbad, if_true]
    rw [hn]
    constructor
    · simp only [reduceCtorEq, false_iff]
      intro h
      apply hsome
      intro c hc
      rw [h] at hc
      exact (List.mem_replicate.mp hc).2
    · intro _
      exact ⟨fun _ => rfl, fun h => absurd h hsome⟩

end Icbd
