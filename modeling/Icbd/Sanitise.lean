/-
# Icbd.Sanitise — `filtertext` as a truncating sanitiser.

Well-formed UTF-8 is what `String.utf8EncodeChar` writes, one character after the other. The decoder of
`utf8.c` is compared with it: the sequences it accepts are the encodings of characters with the code point
they decode to, and every byte it waits behind begins such an encoding. `filtertext` is then a machine that
holds the bytes of the sequence it is in and, for each byte it reads, emits a character, a question mark or
nothing; what it emits never outgrows what it has read.
-/
import Icbd.Text

namespace Icbd

/-! ## §1 — the decoder in numbers -/

/-- The state behind the first byte of a sequence. -/
def firstState (b : Nat) : Nat :=
  if b < 128 then 0 else if b < 194 then 1 else if b < 224 then 2 else if b = 224 then 4
  else if b = 237 then 5 else if b < 240 then 3 else if b = 240 then 6 else if b < 244 then 7
  else if b = 244 then 8 else 1

/-- What the first byte contributes to the code point. -/
def firstBits (b : Nat) : Nat :=
  if b < 128 then b else if b < 224 then b - 192 else if b < 240 then b - 224 else b - 240

/-- The least and the greatest byte that may follow in a state. -/
def tailRange (s : Nat) : Nat × Nat :=
  (if s = 4 then 160 else if s = 6 then 144 else 128, if s = 5 then 159 else if s = 8 then 143 else 191)

/-- The state behind a later byte of a sequence. -/
def tailState (s b : Nat) : Nat :=
  if (tailRange s).1 ≤ b ∧ b ≤ (tailRange s).2 then
    if s = 2 then 0 else if s ≤ 5 then 2 else 3
  else 1

/-- The class of a byte. -/
def byteClass (b : Nat) : Nat :=
  if b < 128 then 0 else if b < 144 then 1 else if b < 160 then 9 else if b < 192 then 7
  else if b < 194 then 8 else if b < 224 then 2 else if b = 224 then 10 else if b = 237 then 4
  else if b < 240 then 3 else if b = 240 then 11 else if b < 244 then 6 else if b = 244 then 5 else 8

theorem utf8d_length : utf8d.length = 400 := by
  simp only [utf8d, List.length_append, List.length_replicate, List.length_cons, List.length_nil]

theorem byteClass_mem (b : UInt8) : (utf8d.getD b.toNat 0, b.toNat) ∈ (utf8d.take 256).zipIdx := by
  have hb := b.toNat_lt
  rw [List.mk_mem_zipIdx_iff_getElem?, List.getElem?_take_of_lt (by simpa using hb),
    List.getD_eq_getElem?_getD, List.getElem?_eq_getElem (by rw [utf8d_length]; omega)]
  rfl

theorem transition_mem {k : Nat} (hk : k < 144) :
    (utf8d.getD (256 + k) 1, k) ∈ (utf8d.drop 256).zipIdx := by
  rw [List.mk_mem_zipIdx_iff_getElem?, List.getElem?_drop, List.getD_eq_getElem?_getD,
    List.getElem?_eq_getElem (by rw [utf8d_length]; omega)]
  rfl

theorem utf8d_byteClass : ∀ p ∈ (utf8d.take 256).zipIdx, p.1 = byteClass p.2 := by
  decide +kernel

/-- The state behind a byte of a class. -/
def nextState (s t : Nat) : Nat :=
  if s = 0 then [0, 1, 2, 3, 5, 8, 7, 1, 1, 1, 4, 6, 1, 1, 1, 1].getD t 1
  else if (t = 1 ∧ s ≠ 4 ∧ s ≠ 6) ∨ (t = 9 ∧ s ≠ 4 ∧ s ≠ 8) ∨ (t = 7 ∧ s ≠ 5 ∧ s ≠ 8) then
    if s = 2 then 0 else if s ≤ 5 then 2 else 3
  else 1

theorem utf8d_nextState : ∀ p ∈ (utf8d.drop 256).zipIdx, p.2 < 16 ∨ 32 ≤ p.2 →
    p.1 = nextState (p.2 / 16) (p.2 % 16) := by
  decide +kernel

theorem nextState_first : ∀ b < 256, nextState 0 (byteClass b) = firstState b := by
  decide +kernel

theorem nextState_tail : ∀ s < 9, 2 ≤ s → ∀ b < 256, nextState s (byteClass b) = tailState s b := by
  decide +kernel

theorem byteClass_bits : ∀ b < 256, byteClass b < 16 ∧
    (firstState b ≠ 1 → (255 >>> byteClass b) &&& b = firstBits b) := by
  decide +kernel

theorem utf8d_class (b : UInt8) : utf8d.getD b.toNat 0 = byteClass b.toNat :=
  utf8d_byteClass _ (byteClass_mem b)

theorem decode_state {s : Nat} (hs : s = 0 ∨ 2 ≤ s) (h9 : s < 9) (codep : Nat) (b : UInt8) :
    (decode s codep b).1 = nextState s (byteClass b.toNat) := by
  have hclass := (byteClass_bits b.toNat b.toNat_lt).1
  have hnext := utf8d_nextState _ (transition_mem (k := s * 16 + byteClass b.toNat) (by omega))
  simp only at hnext
  rw [show (s * 16 + byteClass b.toNat) / 16 = s by omega,
    show (s * 16 + byteClass b.toNat) % 16 = byteClass b.toNat by omega] at hnext
  rw [← hnext (by omega)]
  simp only [decode, utf8d_class, Nat.add_assoc]

theorem decode_start_state (codep : Nat) (b : UInt8) : (decode 0 codep b).1 = firstState b.toNat := by
  rw [decode_state (.inl rfl) (by decide), nextState_first b.toNat b.toNat_lt]

theorem decode_start_bits (codep : Nat) {b : UInt8} (h : firstState b.toNat ≠ 1) :
    (decode 0 codep b).2 = firstBits b.toNat := by
  have hbits := (byteClass_bits b.toNat b.toNat_lt).2 h
  rw [← utf8d_class] at hbits
  exact hbits

theorem decode_tail_state {s : Nat} (h2 : 2 ≤ s) (h9 : s < 9) (codep : Nat) (b : UInt8) :
    (decode s codep b).1 = tailState s b.toNat := by
  rw [decode_state (.inr h2) h9, nextState_tail s h9 h2 b.toNat b.toNat_lt]

theorem decode_tail_bits {s : Nat} (h2 : 2 ≤ s) {codep : Nat} (hc : codep < 2 ^ 20) (b : UInt8) :
    (decode s codep b).2 = codep * 64 + b.toNat % 64 := by
  have hlow : b.toNat &&& 63 = b.toNat % 64 := Nat.and_two_pow_sub_one_eq_mod b.toNat 6
  have hshift : (codep <<< 6) % 2 ^ 32 = 64 * codep := by
    rw [Nat.shiftLeft_eq, Nat.mod_eq_of_lt (by omega)]
    omega
  have hor : b.toNat % 64 ||| 64 * codep = 64 * codep + b.toNat % 64 := by
    rw [Nat.or_comm, ← Nat.two_pow_add_eq_or_of_lt (i := 6) (Nat.mod_lt _ (by decide)) codep]
  simp only [decode]
  rw [if_pos (by omega), hlow, hshift, hor]
  omega

/-! ## §2 — the decoder and the encoding -/

/-- The encoding of a character. -/
def encode (c : Char) : Bytes := String.utf8EncodeChar c

/-- The encoding of a text. -/
def encodeText (cs : List Char) : Bytes := cs.flatMap encode

/-- A character is no surrogate. -/
theorem scalar (c : Char) : c.toNat < 55296 ∨ 57343 < c.toNat ∧ c.toNat < 1114112 := c.valid

/-- The bytes of a character, by the size of its code point. -/
theorem encode_cases (c : Char) :
    c.toNat < 128 ∧ (encode c).map UInt8.toNat = [c.toNat] ∨
    (128 ≤ c.toNat ∧ c.toNat < 2048) ∧
      (encode c).map UInt8.toNat = [192 + c.toNat / 64, 128 + c.toNat % 64] ∨
    (2048 ≤ c.toNat ∧ c.toNat < 65536) ∧ (encode c).map UInt8.toNat =
      [224 + c.toNat / 4096, 128 + c.toNat / 64 % 64, 128 + c.toNat % 64] ∨
    (65536 ≤ c.toNat ∧ c.toNat < 1114112) ∧ (encode c).map UInt8.toNat =
      [240 + c.toNat / 262144, 128 + c.toNat / 4096 % 64, 128 + c.toNat / 64 % 64,
        128 + c.toNat % 64] := by
  have hc := scalar c
  have hv : c.val.toNat = c.toNat := rfl
  unfold encode String.utf8EncodeChar
  simp only [hv]
  rcases Nat.lt_or_ge c.toNat 128 with h₁ | h₁
  · rw [if_pos (by omega)]
    refine .inl ⟨h₁, ?_⟩
    simp only [List.map_cons, List.map_nil, UInt8.toNat_ofNat', List.cons.injEq, and_true]
    omega
  rw [if_neg (by omega)]
  rcases Nat.lt_or_ge c.toNat 2048 with h₂ | h₂
  · rw [if_pos (by omega)]
    refine .inr (.inl ⟨⟨h₁, h₂⟩, ?_⟩)
    simp only [List.map_cons, List.map_nil, UInt8.toNat_ofNat', List.cons.injEq, and_true]
    omega
  rw [if_neg (by omega)]
  rcases Nat.lt_or_ge c.toNat 65536 with h₃ | h₃
  · rw [if_pos (by omega)]
    refine .inr (.inr (.inl ⟨⟨h₂, h₃⟩, ?_⟩))
    simp only [List.map_cons, List.map_nil, UInt8.toNat_ofNat', List.cons.injEq, and_true]
    omega
  · rw [if_neg (by omega)]
    refine .inr (.inr (.inr ⟨⟨h₃, by omega⟩, ?_⟩))
    simp only [List.map_cons, List.map_nil, UInt8.toNat_ofNat', List.cons.injEq, and_true]
    omega

/-- The character of a code point that is none of the surrogates. -/
theorem exists_char {v : Nat} (h : v < 55296 ∨ 57343 < v ∧ v < 1114112) : ∃ c : Char, c.toNat = v :=
  ⟨Char.ofNatAux v h, rfl⟩

/-- A sequence the decoder is in the middle of: the state, the code point so far, and the bytes so far. -/
inductive Unfinished : Nat → Nat → List Nat → Prop
  | two {x : Nat} : 2 ≤ x → x < 32 → Unfinished 2 x [192 + x]
  | three {x : Nat} : x < 16 → Unfinished (if x = 0 then 4 else if x = 13 then 5 else 3) x [224 + x]
  | threeMore {x : Nat} : 32 ≤ x → x < 1024 → (x < 864 ∨ 896 ≤ x) →
      Unfinished 2 x [224 + x / 64, 128 + x % 64]
  | four {x : Nat} : x < 5 → Unfinished (if x = 0 then 6 else if x = 4 then 8 else 7) x [240 + x]
  | fourMore {x : Nat} : 16 ≤ x → x < 272 → Unfinished 3 x [240 + x / 64, 128 + x % 64]
  | fourLast {x : Nat} : 1024 ≤ x → x < 17408 →
      Unfinished 2 x [240 + x / 4096, 128 + x / 64 % 64, 128 + x % 64]

theorem Unfinished.bounds {s x : Nat} {q : List Nat} (h : Unfinished s x q) :
    2 ≤ s ∧ s < 9 ∧ x < 2 ^ 20 ∧ q ≠ [] := by
  cases h <;> refine ⟨?_, ?_, ?_, by simp⟩ <;> (try split_ifs) <;> omega

theorem firstState_two : ∀ x < 32, 2 ≤ x → firstState (192 + x) = 2 ∧ firstBits (192 + x) = x := by
  decide

theorem firstState_three : ∀ x < 16,
    firstState (224 + x) = (if x = 0 then 4 else if x = 13 then 5 else 3) ∧ firstBits (224 + x) = x := by
  decide

theorem firstState_four : ∀ x < 5,
    firstState (240 + x) = (if x = 0 then 6 else if x = 4 then 8 else 7) ∧ firstBits (240 + x) = x := by
  decide

/-- Which bytes are characters of their own, and which begin a longer one. -/
theorem firstState_cases : ∀ b < 256,
    (firstState b = 0 → b < 128) ∧ (firstState b ≠ 0 → firstState b ≠ 1 → 194 ≤ b ∧ b < 245) := by
  intro b hb
  unfold firstState
  grind

/-- A byte that can only be the first of a sequence is refused inside one. -/
theorem tailState_of_first (s : Nat) {b : Nat} (hb : 194 ≤ b) : tailState s b = 1 := by
  have hhi : (tailRange s).2 ≤ 191 := by
    unfold tailRange
    split_ifs <;> simp
  exact if_neg fun h => by omega

/-- The first byte of a longer sequence. -/
theorem Unfinished.first {b : Nat} (hb : b < 256) (h0 : firstState b ≠ 0) (h1 : firstState b ≠ 1) :
    Unfinished (firstState b) (firstBits b) [b] := by
  have hb := (firstState_cases b hb).2 h0 h1
  rcases Nat.lt_or_ge b 224 with h | h
  · obtain ⟨x, rfl⟩ : ∃ x, b = 192 + x := ⟨b - 192, by omega⟩
    obtain ⟨hs, hx⟩ := firstState_two x (by omega) (by omega)
    rw [hs, hx]
    exact .two (by omega) (by omega)
  rcases Nat.lt_or_ge b 240 with h' | h'
  · obtain ⟨x, rfl⟩ : ∃ x, b = 224 + x := ⟨b - 224, by omega⟩
    obtain ⟨hs, hx⟩ := firstState_three x (by omega)
    rw [hs, hx]
    exact .three (by omega)
  · obtain ⟨x, rfl⟩ : ∃ x, b = 240 + x := ⟨b - 240, by omega⟩
    obtain ⟨hs, hx⟩ := firstState_four x (by omega)
    rw [hs, hx]
    exact .four (by omega)

/-- What the byte that is not refused in a state looks like. -/
theorem tailState_ne_one {s b : Nat} (h : tailState s b ≠ 1) :
    (tailRange s).1 ≤ b ∧ b ≤ (tailRange s).2 ∧
      tailState s b = if s = 2 then 0 else if s ≤ 5 then 2 else 3 := by
  unfold tailState at h ⊢
  split at h
  · rename_i hr
    exact ⟨hr.1, hr.2, if_pos hr⟩
  · exact absurd rfl h

/-- A later byte of a sequence completes the encoding of a character, whose code point the decoder has then
put together, or leaves the sequence unfinished. -/
theorem Unfinished.tail {s x b : Nat} {q : List Nat} (h : Unfinished s x q) (hb : tailState s b ≠ 1) :
    tailState s b = 0 ∧
      (∃ c : Char, c.toNat = x * 64 + b % 64 ∧ (encode c).map UInt8.toNat = q ++ [b]) ∨
    Unfinished (tailState s b) (x * 64 + b % 64) (q ++ [b]) := by
  obtain ⟨hlo, hhi, hs⟩ := tailState_ne_one hb
  rw [hs]
  generalize hv : x * 64 + b % 64 = v
  cases h with
  | two h₁ h₂ =>
    replace hlo : 128 ≤ b := hlo
    replace hhi : b ≤ 191 := hhi
    obtain ⟨c, hc⟩ := exists_char (v := v) (by omega)
    refine .inl ⟨rfl, c, hc, ?_⟩
    rcases encode_cases c with ⟨hr, he⟩ | ⟨hr, he⟩ | ⟨hr, he⟩ | ⟨hr, he⟩ <;> rw [he] <;>
      simp only [List.cons_append, List.nil_append, List.cons.injEq, and_true] <;> omega
  | three h₁ =>
    right
    have hlow : (if x = 0 then 160 else 128) ≤ b ∧ b ≤ if x = 13 then 159 else 191 := by
      unfold tailRange at hlo hhi
      split_ifs at hlo hhi ⊢ <;> omega
    have hq : [224 + x] ++ [b] = [224 + v / 64, 128 + v % 64] := by
      simp only [List.cons_append, List.nil_append, List.cons.injEq, and_true]
      split_ifs at hlow <;> omega
    rw [hq, show (if (if x = 0 then 4 else if x = 13 then 5 else 3) = 2 then 0
      else if (if x = 0 then 4 else if x = 13 then 5 else 3) ≤ 5 then 2 else 3) = 2 by
        split_ifs <;> omega]
    refine .threeMore ?_ ?_ ?_ <;> split_ifs at hlow <;> omega
  | threeMore h₁ h₂ h₃ =>
    replace hlo : 128 ≤ b := hlo
    replace hhi : b ≤ 191 := hhi
    obtain ⟨c, hc⟩ := exists_char (v := v) (by omega)
    refine .inl ⟨rfl, c, hc, ?_⟩
    rcases encode_cases c with ⟨hr, he⟩ | ⟨hr, he⟩ | ⟨hr, he⟩ | ⟨hr, he⟩ <;> rw [he] <;>
      simp only [List.cons_append, List.nil_append, List.cons.injEq, and_true] <;> omega
  | four h₁ =>
    right
    have hlow : (if x = 0 then 144 else 128) ≤ b ∧ b ≤ if x = 4 then 143 else 191 := by
      unfold tailRange at hlo hhi
      split_ifs at hlo hhi ⊢ <;> omega
    have hq : [240 + x] ++ [b] = [240 + v / 64, 128 + v % 64] := by
      simp only [List.cons_append, List.nil_append, List.cons.injEq, and_true]
      split_ifs at hlow <;> omega
    rw [hq, show (if (if x = 0 then 6 else if x = 4 then 8 else 7) = 2 then 0
      else if (if x = 0 then 6 else if x = 4 then 8 else 7) ≤ 5 then 2 else 3) = 3 by
        split_ifs <;> omega]
    refine .fourMore ?_ ?_ <;> split_ifs at hlow <;> omega
  | fourMore h₁ h₂ =>
    right
    replace hlo : 128 ≤ b := hlo
    replace hhi : b ≤ 191 := hhi
    have hq : [240 + x / 64, 128 + x % 64] ++ [b] =
        [240 + v / 4096, 128 + v / 64 % 64, 128 + v % 64] := by
      simp only [List.cons_append, List.nil_append, List.cons.injEq, and_true]
      omega
    rw [hq]
    exact .fourLast (by omega) (by omega)
  | fourLast h₁ h₂ =>
    replace hlo : 128 ≤ b := hlo
    replace hhi : b ≤ 191 := hhi
    obtain ⟨c, hc⟩ := exists_char (v := v) (by omega)
    refine .inl ⟨rfl, c, hc, ?_⟩
    rcases encode_cases c with ⟨hr, he⟩ | ⟨hr, he⟩ | ⟨hr, he⟩ | ⟨hr, he⟩ <;> rw [he] <;>
      simp only [List.cons_append, List.nil_append, List.cons.injEq, and_true] <;> omega

/-- The first byte of a character: the decoder takes it, and waits for more just when there is more. -/
theorem encode_first {c : Char} {b : Nat} {r : List Nat} (h : (encode c).map UInt8.toNat = b :: r) :
    firstState b ≠ 1 ∧ (firstState b = 0 ↔ r = []) := by
  rcases encode_cases c with ⟨hv, he⟩ | ⟨hv, he⟩ | ⟨hv, he⟩ | ⟨hv, he⟩ <;> rw [he] at h <;>
    obtain ⟨rfl, rfl⟩ := List.cons.inj h
  · have hs : firstState c.toNat = 0 := if_pos hv
    simp [hs]
  · rw [(firstState_two (c.toNat / 64) (by omega) (by omega)).1]
    simp
  · rw [(firstState_three (c.toNat / 4096) (by omega)).1]
    constructor <;> split_ifs <;> simp
  · rw [(firstState_four (c.toNat / 262144) (by omega)).1]
    constructor <;> split_ifs <;> simp

/-- In the middle of a character the decoder takes its next byte, and waits for more just when there is
more. -/
theorem Unfinished.encode {s x b : Nat} {q r : List Nat} {c : Char} (h : Unfinished s x q)
    (hc : (Icbd.encode c).map UInt8.toNat = q ++ b :: r) :
    tailState s b ≠ 1 ∧ (tailState s b = 0 ↔ r = []) := by
  have hvalid := scalar c
  have hrange (hb : (tailRange s).1 ≤ b ∧ b ≤ (tailRange s).2) (hr : s = 2 ↔ r = []) :
      tailState s b ≠ 1 ∧ (tailState s b = 0 ↔ r = []) := by
    unfold tailState
    rw [if_pos hb, ← hr]
    split_ifs <;> simp_all
  -- which of the four sizes the character has shows in its first byte
  rcases encode_cases c with ⟨hv, he⟩ | ⟨hv, he⟩ | ⟨hv, he⟩ | ⟨hv, he⟩ <;> rw [he] at hc <;> cases h <;>
    simp only [List.cons_append, List.nil_append, List.cons.injEq, reduceCtorEq, and_false] at hc
  case inr.inl.two =>
    obtain ⟨-, rfl, rfl⟩ := hc
    exact hrange ⟨Nat.le_add_right 128 _, show _ ≤ 191 by omega⟩ (by simp)
  case inr.inr.inl.three =>
    obtain ⟨hx, rfl, rfl⟩ := hc
    refine hrange ?_ ?_
    · unfold tailRange
      constructor <;> split_ifs <;> omega
    · simp only [reduceCtorEq, iff_false]
      split_ifs <;> omega
  case inr.inr.inl.threeMore =>
    obtain ⟨-, -, rfl, rfl⟩ := hc
    exact hrange ⟨Nat.le_add_right 128 _, show _ ≤ 191 by omega⟩ (by simp)
  case inr.inr.inr.four =>
    obtain ⟨hx, rfl, rfl⟩ := hc
    refine hrange ?_ ?_
    · unfold tailRange
      constructor <;> split_ifs <;> omega
    · simp only [reduceCtorEq, iff_false]
      split_ifs <;> omega
  case inr.inr.inr.fourMore =>
    obtain ⟨-, -, rfl, rfl⟩ := hc
    exact hrange ⟨Nat.le_add_right 128 _, show _ ≤ 191 by omega⟩ (by simp)
  case inr.inr.inr.fourLast =>
    obtain ⟨-, -, -, rfl, rfl⟩ := hc
    exact hrange ⟨Nat.le_add_right 128 _, show _ ≤ 191 by omega⟩ (by simp)
  all_goals omega

/-! ## §3 — the machine -/

/-- The filter between two bytes: the decoder's state and code point so far, and the bytes of the sequence it
is in the middle of. -/
structure Reader where
  state : Nat
  codep : Nat
  seq : Bytes

/-- Between two characters. -/
def Reader.start : Reader := ⟨0, 0, []⟩

/-- What a byte makes the filter emit, and where it stands then, when the byte is looked at once. -/
def Reader.once (d : Reader) (b : UInt8) : Bytes × Reader :=
  let r := decode d.state d.codep b
  if r.1 = 0 then (if 32 ≤ r.2 then d.seq ++ [b] else [], .start)
  else if r.1 = 1 then ([63], .start)
  else ([], ⟨r.1, r.2, d.seq ++ [b]⟩)

/-- A byte refused in the middle of a sequence is looked at again from the start. -/
def Reader.byte (d : Reader) (b : UInt8) : Bytes × Reader :=
  if d.state ≠ 0 ∧ (decode d.state d.codep b).1 = 1 then
    (63 :: (Reader.start.once b).1, (Reader.start.once b).2)
  else d.once b

/-- What the filter emits for a text, and where it stands behind it. -/
def Reader.read (d : Reader) : Bytes → Bytes × Reader
  | [] => ([], d)
  | b :: bs => ((d.byte b).1 ++ ((d.byte b).2.read bs).1, ((d.byte b).2.read bs).2)

theorem Reader.read_append (d : Reader) (s t : Bytes) :
    d.read (s ++ t) = ((d.read s).1 ++ ((d.read s).2.read t).1, ((d.read s).2.read t).2) := by
  induction s generalizing d with
  | nil => simp [Reader.read]
  | cons b bs ih => simp [Reader.read, ih]

/-- A reader stands between two characters or in the middle of one. -/
inductive Reader.Sound : Reader → Prop
  | start : Sound .start
  | within {d : Reader} (h : Unfinished d.state d.codep (d.seq.map UInt8.toNat)) : Sound d

/-- A text of printable characters. -/
def Clean (s : Bytes) : Prop := ∃ cs : List Char, (∀ c ∈ cs, 32 ≤ c.toNat) ∧ encodeText cs = s

theorem Clean.nil : Clean [] := ⟨[], by simp, rfl⟩

theorem Clean.append {s t : Bytes} (hs : Clean s) (ht : Clean t) : Clean (s ++ t) := by
  obtain ⟨cs, hcs, rfl⟩ := hs
  obtain ⟨ds, hds, rfl⟩ := ht
  refine ⟨cs ++ ds, fun c hc => ?_, by simp [encodeText]⟩
  rcases List.mem_append.mp hc with h | h
  · exact hcs c h
  · exact hds c h

theorem Clean.char {c : Char} (h : 32 ≤ c.toNat) : Clean (encode c) :=
  ⟨[c], by simpa using h, by simp [encodeText]⟩

theorem Clean.questionMark : Clean [63] := Clean.char (c := '?') (by decide)

/-- The bytes of a character, from their values. -/
theorem eq_encode {c : Char} {s : Bytes} (h : (encode c).map UInt8.toNat = s.map UInt8.toNat) : encode c = s :=
  List.map_injective_iff.mpr (fun _ _ => UInt8.toNat_inj.mp) h

/-- Printable ASCII. -/
theorem Clean.ascii {s : Bytes} (h : ∀ b ∈ s, 32 ≤ b.toNat ∧ b.toNat < 128) : Clean s := by
  induction s with
  | nil => exact .nil
  | cons b s ih =>
    obtain ⟨hlow, hhigh⟩ := h b List.mem_cons_self
    obtain ⟨c, hc⟩ := exists_char (v := b.toNat) (by omega)
    have hbyte : encode c = [b] := by
      refine eq_encode ?_
      rcases encode_cases c with ⟨hv, he⟩ | ⟨hv, he⟩ | ⟨hv, he⟩ | ⟨hv, he⟩
      · rw [he, hc]
        rfl
      all_goals omega
    exact (hbyte ▸ Clean.char (by omega) : Clean [b]).append (ih fun b' hb => h b' (List.mem_cons_of_mem b hb))

/-- What looking at a byte once comes to. -/
inductive Reader.Once (d : Reader) (b : UInt8) : Bytes × Reader → Prop
  | char {c : Char} (hc : encode c = d.seq ++ [b]) (hcp : (decode d.state d.codep b).2 = c.toNat)
      (h0 : (decode d.state d.codep b).1 = 0) :
      Once d b (if 32 ≤ c.toNat then encode c else [], .start)
  | refused (h1 : (decode d.state d.codep b).1 = 1) : Once d b ([63], .start)
  | more (h0 : (decode d.state d.codep b).1 ≠ 0) (h1 : (decode d.state d.codep b).1 ≠ 1)
      (h : Unfinished (decode d.state d.codep b).1 (decode d.state d.codep b).2
        ((d.seq ++ [b]).map UInt8.toNat)) :
      Once d b ([], ⟨(decode d.state d.codep b).1, (decode d.state d.codep b).2, d.seq ++ [b]⟩)

theorem Reader.once_start (b : UInt8) : Reader.start.Once b (Reader.start.once b) := by
  have hstate : (decode Reader.start.state Reader.start.codep b).1 = firstState b.toNat :=
    decode_start_state 0 b
  by_cases h1 : firstState b.toNat = 1
  · have := Reader.Once.refused (d := .start) (hstate.trans h1)
    simpa [Reader.once, hstate, h1] using this
  have hbits : (decode Reader.start.state Reader.start.codep b).2 = firstBits b.toNat :=
    decode_start_bits 0 h1
  by_cases h0 : firstState b.toNat = 0
  · have hb : b.toNat < 128 := (firstState_cases b.toNat b.toNat_lt).1 h0
    obtain ⟨c, hc⟩ := exists_char (v := b.toNat) (by omega)
    have henc : encode c = [b] := by
      rcases encode_cases c with ⟨-, he⟩ | ⟨hv, -⟩ | ⟨hv, -⟩ | ⟨hv, -⟩
      · exact eq_encode (by rw [he, hc]; rfl)
      all_goals omega
    have hcp : (decode Reader.start.state Reader.start.codep b).2 = c.toNat := by
      rw [hbits, hc]
      exact if_pos hb
    have heq : Reader.start.once b = (if 32 ≤ c.toNat then encode c else [], .start) := by
      simp only [Reader.once]
      rw [if_pos (hstate.trans h0), hcp, henc]
      rfl
    rw [heq]
    exact .char henc hcp (hstate.trans h0)
  · have hmore := Unfinished.first b.toNat_lt h0 h1
    rw [← hstate, ← hbits] at hmore
    rw [← hstate] at h0 h1
    have := Reader.Once.more (d := .start) h0 h1 hmore
    simpa [Reader.once, h0, h1] using this

theorem Reader.once_within {d : Reader} (hd : Unfinished d.state d.codep (d.seq.map UInt8.toNat))
    (b : UInt8) : d.Once b (d.once b) := by
  obtain ⟨h2, h9, hx, -⟩ := hd.bounds
  have hstate := decode_tail_state h2 h9 d.codep b
  have hbits := decode_tail_bits h2 hx b
  by_cases h1 : tailState d.state b.toNat = 1
  · have := Reader.Once.refused (hstate.trans h1)
    simpa [Reader.once, hstate, h1] using this
  rcases hd.tail h1 with ⟨h0, c, hc, henc⟩ | hmore
  · have henc' : encode c = d.seq ++ [b] := eq_encode (by simpa using henc)
    have hcp := hbits.trans hc.symm
    have heq : d.once b = (if 32 ≤ c.toNat then encode c else [], .start) := by
      simp only [Reader.once]
      rw [if_pos (hstate.trans h0), hcp, henc']
    rw [heq]
    exact .char henc' hcp (hstate.trans h0)
  · have h0 : tailState d.state b.toNat ≠ 0 := by
      have := hmore.bounds
      omega
    rw [← hstate, ← hbits] at hmore
    rw [← hstate] at h0 h1
    have := Reader.Once.more h0 h1 (by simpa using hmore)
    simpa [Reader.once, h0, h1] using this

theorem Reader.Sound.once_cases {d : Reader} (hd : d.Sound) (b : UInt8) : d.Once b (d.once b) := by
  cases hd with
  | start => exact Reader.once_start b
  | within h => exact Reader.once_within h b

/-- What reading keeps: the reader stays sound, what is emitted is clean text, and what is emitted and what
is held back are no more than what was held back and read. -/
structure Reader.Keeps (d : Reader) (n : Nat) (r : Bytes × Reader) : Prop where
  sound : r.2.Sound
  clean : Clean r.1
  length : r.1.length + r.2.seq.length ≤ d.seq.length + n

theorem Reader.Sound.once {d : Reader} (hd : d.Sound) (b : UInt8) : d.Keeps 1 (d.once b) := by
  have h := hd.once_cases b
  generalize d.once b = r at h
  cases h with
  | @char c hc hcp h0 =>
    have hlen : (encode c).length = d.seq.length + 1 := by simp [hc]
    split_ifs with h32
    · exact ⟨.start, .char h32, by simp [hlen, Reader.start]⟩
    · exact ⟨.start, .nil, by simp [Reader.start]⟩
  | refused h1 => exact ⟨.start, .questionMark, by simp [Reader.start]⟩
  | more h0 h1 h => exact ⟨.within h, .nil, by simp⟩

/-- In the middle of a sequence at least one byte is held back, so a question mark for it and whatever the
refused byte comes to still fit. -/
theorem Reader.Sound.byte {d : Reader} (hd : d.Sound) (b : UInt8) : d.Keeps 1 (d.byte b) := by
  unfold Reader.byte
  split_ifs with h
  · cases hd with
    | start => exact absurd rfl h.1
    | within hw =>
      have hseq : 0 < d.seq.length := by
        have := hw.bounds.2.2.2
        simpa [List.length_pos_iff] using this
      have hk := Reader.Sound.start.once b
      have hlen := hk.length
      simp only [Reader.start, List.length_nil] at hlen
      refine ⟨hk.sound, Clean.questionMark.append hk.clean, ?_⟩
      simp only [List.length_cons]
      exact Nat.le_trans (by simp only [Reader.start]; omega) (Nat.add_le_add_right hseq 1)
  · exact hd.once b

theorem Reader.Sound.read {d : Reader} (hd : d.Sound) (s : Bytes) : d.Keeps s.length (d.read s) := by
  induction s generalizing d with
  | nil => exact ⟨hd, .nil, by simp [Reader.read]⟩
  | cons b bs ih =>
    have hb := hd.byte b
    have hbs := ih hb.sound
    refine ⟨hbs.sound, hb.clean.append hbs.clean, ?_⟩
    have h₁ := hb.length
    have h₂ := hbs.length
    simp only [Reader.read, List.length_append, List.length_cons]
    omega

/-! ## §4 — reading characters -/

theorem encode_injective {c c' : Char} (h : encode c = encode c') : c = c' := by
  have hdecode (c : Char) := ByteArray.utf8DecodeChar?_utf8EncodeChar_append (b := .empty) (c := c)
  have hc := hdecode c
  have hc' := hdecode c'
  unfold encode at h
  rw [h, hc'] at hc
  exact (Option.some.inj hc).symm

/-- A byte that is not refused is looked at once. -/
theorem Reader.byte_taken {d : Reader} {b : UInt8} (h : (decode d.state d.codep b).1 ≠ 1) :
    d.byte b = d.once b := if_neg fun hr => h hr.2

theorem Reader.start_byte (b : UInt8) : Reader.start.byte b = Reader.start.once b :=
  if_neg fun h => h.1 rfl

/-- The next byte of a character in the middle of it: the character is emitted if it was the last byte and
held back if not. -/
theorem Reader.byte_within {d : Reader} (hd : Unfinished d.state d.codep (d.seq.map UInt8.toNat))
    {c : Char} {b : UInt8} {r : Bytes} (hc : encode c = d.seq ++ b :: r) :
    r = [] ∧ d.byte b = (if 32 ≤ c.toNat then encode c else [], .start) ∨
    r ≠ [] ∧ (d.byte b).1 = [] ∧ (d.byte b).2.seq = d.seq ++ [b] ∧
      Unfinished (d.byte b).2.state (d.byte b).2.codep ((d.byte b).2.seq.map UInt8.toNat) := by
  obtain ⟨h2, h9, -⟩ := hd.bounds
  have hstate := decode_tail_state h2 h9 d.codep b
  obtain ⟨h1, h0⟩ := hd.encode (b := b.toNat) (r := r.map UInt8.toNat) (by rw [hc]; simp)
  rw [List.map_eq_nil_iff] at h0
  rw [← hstate] at h1 h0
  rw [Reader.byte_taken h1]
  have honce := Reader.once_within hd b
  generalize d.once b = p at honce
  cases honce with
  | @char c' hc' hcp hacc =>
    have hr := h0.mp hacc
    have heq : c' = c := encode_injective (by rw [hc', hc, hr])
    rw [heq]
    exact .inl ⟨hr, rfl⟩
  | refused hrej => exact absurd hrej h1
  | more hacc hrej hmore => exact .inr ⟨mt h0.mpr hacc, rfl, rfl, hmore⟩

/-- The first byte of a character between two characters. -/
theorem Reader.byte_start {c : Char} {b : UInt8} {r : Bytes} (hc : encode c = b :: r) :
    r = [] ∧ Reader.start.byte b = (if 32 ≤ c.toNat then encode c else [], .start) ∨
    r ≠ [] ∧ (Reader.start.byte b).1 = [] ∧ (Reader.start.byte b).2.seq = [b] ∧
      Unfinished (Reader.start.byte b).2.state (Reader.start.byte b).2.codep
        ((Reader.start.byte b).2.seq.map UInt8.toNat) := by
  have hstate : (decode Reader.start.state Reader.start.codep b).1 = firstState b.toNat :=
    decode_start_state 0 b
  obtain ⟨h1, h0⟩ := encode_first (c := c) (b := b.toNat) (r := r.map UInt8.toNat) (by rw [hc]; rfl)
  rw [List.map_eq_nil_iff] at h0
  rw [← hstate] at h1 h0
  rw [Reader.start_byte]
  have honce := Reader.once_start b
  generalize Reader.start.once b = p at honce
  cases honce with
  | @char c' hc' hcp hacc =>
    have hr := h0.mp hacc
    have heq : c' = c := encode_injective (by rw [hc', hc, hr]; rfl)
    rw [heq]
    exact .inl ⟨hr, rfl⟩
  | refused hrej => exact absurd hrej h1
  | more hacc hrej hmore => exact .inr ⟨mt h0.mpr hacc, rfl, rfl, hmore⟩

/-- The rest of a character is read: the character is emitted, unless it is a control character. -/
theorem Reader.read_within {d : Reader} (hd : Unfinished d.state d.codep (d.seq.map UInt8.toNat))
    {c : Char} {r : Bytes} (hr : r ≠ []) (hc : encode c = d.seq ++ r) :
    d.read r = (if 32 ≤ c.toNat then encode c else [], .start) := by
  induction r generalizing d with
  | nil => exact absurd rfl hr
  | cons b bs ih =>
    rcases Reader.byte_within hd hc with ⟨rfl, hbyte⟩ | ⟨hbs, hout, hseq, hnext⟩
    · simp [Reader.read, hbyte]
    · have := ih hnext hbs (by rw [hseq, hc]; simp)
      rw [Reader.read, hout, this]
      rfl

/-- A part of the rest of a character is read: nothing is emitted. -/
theorem Reader.read_part {d : Reader} (hd : Unfinished d.state d.codep (d.seq.map UInt8.toNat))
    {c : Char} {r t : Bytes} (ht : t ≠ []) (hc : encode c = d.seq ++ (r ++ t)) : (d.read r).1 = [] := by
  induction r generalizing d with
  | nil => rfl
  | cons b bs ih =>
    rcases Reader.byte_within hd hc with ⟨h, -⟩ | ⟨-, hout, hseq, hnext⟩
    · exact absurd (List.append_eq_nil_iff.mp h).2 ht
    · have := ih hnext (by rw [hseq, hc]; simp)
      rw [Reader.read, hout, this]
      rfl

theorem Reader.read_char (c : Char) :
    Reader.start.read (encode c) = (if 32 ≤ c.toNat then encode c else [], .start) := by
  obtain ⟨b, r, hc⟩ : ∃ b r, encode c = b :: r := List.exists_cons_of_ne_nil String.utf8EncodeChar_ne_nil
  rcases Reader.byte_start hc with ⟨rfl, hbyte⟩ | ⟨hr, hout, hseq, hnext⟩
  · nth_rewrite 1 [hc]
    simp [Reader.read, hbyte]
  · have := Reader.read_within hnext hr (by rw [hseq, hc]; rfl)
    nth_rewrite 1 [hc]
    rw [Reader.read, hout, this]
    rfl

/-- A text is read character by character; the control characters are left out. -/
theorem Reader.read_text (cs : List Char) :
    Reader.start.read (encodeText cs) = (encodeText (cs.filter fun c => 32 ≤ c.toNat), .start) := by
  induction cs with
  | nil => rfl
  | cons c cs ih =>
    have hcons : encodeText (c :: cs) = encode c ++ encodeText cs := List.flatMap_cons
    rw [hcons, Reader.read_append, Reader.read_char, ih]
    by_cases h : 32 ≤ c.toNat <;> simp [h, encodeText]

/-- The beginning of a character that is not finished: nothing of it is emitted, only the question mark for
a sequence that it cuts off. -/
theorem Reader.Sound.read_cut {d : Reader} (hd : d.Sound) {c : Char} {q t : Bytes} (ht : t ≠ [])
    (hc : encode c = q ++ t) : (d.read q).1 = [] ∨ d.state ≠ 0 ∧ (d.read q).1 = [63] := by
  cases q with
  | nil => exact .inl rfl
  | cons b bs =>
    have hmore : bs ++ t ≠ [] := fun h => ht (List.append_eq_nil_iff.mp h).2
    rcases Reader.byte_start hc with ⟨h, -⟩ | ⟨-, hout, hseq, hnext⟩
    · exact absurd h hmore
    have hrest := Reader.read_part hnext ht (by rw [hseq, hc]; rfl)
    cases hd with
    | start =>
      left
      rw [Reader.read, hout, hrest]
      rfl
    | @within d hw =>
      right
      obtain ⟨h2, h9, -⟩ := hw.bounds
      have hb : 194 ≤ b.toNat := by
        obtain ⟨h1, h0⟩ := encode_first (c := c) (b := b.toNat) (r := (bs ++ t).map UInt8.toNat)
          (by rw [hc]; rfl)
        rw [List.map_eq_nil_iff, iff_false_right hmore] at h0
        exact ((firstState_cases b.toNat b.toNat_lt).2 h0 h1).1
      have hrej : (decode d.state d.codep b).1 = 1 := by
        rw [decode_tail_state h2 h9, tailState_of_first d.state hb]
      have hbyte : d.byte b = (63 :: (Reader.start.once b).1, (Reader.start.once b).2) :=
        if_pos ⟨by omega, hrej⟩
      rw [Reader.start_byte] at hout hrest
      refine ⟨by omega, ?_⟩
      rw [Reader.read, hbyte, hout, hrest]
      rfl

/-! ## §5 — the loop -/

/-- What the loop copies for a character: its bytes, fetched from behind the current one. How many there
are shows in the code point. -/
theorem copied_char {c : Char} {b : UInt8} {seq back : Bytes} (hc : encode c = seq ++ [b])
    (hback : back.take seq.length = seq.reverse) :
    (if 32 ≤ c.toNat ∧ c.toNat ≤ 127 then [b]
      else if 128 ≤ c.toNat ∧ c.toNat ≤ 2047 then (back.take 1).reverse ++ [b]
      else if 2048 ≤ c.toNat ∧ c.toNat ≤ 65535 then (back.take 2).reverse ++ [b]
      else if 65536 ≤ c.toNat ∧ c.toNat ≤ 1114111 then (back.take 3).reverse ++ [b]
      else []) = if 32 ≤ c.toNat then encode c else [] := by
  have hlen : ((encode c).map UInt8.toNat).length = seq.length + 1 := by simp [hc]
  have hcopy : (back.take seq.length).reverse ++ [b] = encode c := by
    rw [hback, List.reverse_reverse, hc]
  rcases encode_cases c with ⟨hv, he⟩ | ⟨hv, he⟩ | ⟨hv, he⟩ | ⟨hv, he⟩ <;> rw [he] at hlen
  · obtain rfl : seq = [] := List.length_eq_zero_iff.mp (Nat.succ.inj hlen).symm
    rw [hc]
    split_ifs <;> (try rfl) <;> omega
  · rw [if_neg (by omega), if_pos (by omega), if_pos (by omega), ← hcopy, ← Nat.succ.inj hlen]
    rfl
  · rw [if_neg (by omega), if_neg (by omega), if_pos (by omega), if_pos (by omega), ← hcopy,
      ← Nat.succ.inj hlen]
    rfl
  · rw [if_neg (by omega), if_neg (by omega), if_neg (by omega), if_pos (by omega), if_pos (by omega),
      ← hcopy, ← Nat.succ.inj hlen]
    rfl

/-- The code point left from a finished character does not matter. -/
theorem decode_agrees {cur codep : Nat} {d : Reader} (hstate : cur = d.state)
    (hcodep : cur ≠ 0 → codep = d.codep) (b : UInt8) : decode cur codep b = decode d.state d.codep b := by
  by_cases h : cur = 0
  · rw [← hstate, h]
    rfl
  · rw [← hstate, hcodep h]

/-- The loop reads the bytes up to the limit. -/
theorem filtertextLoop_eq (len fuel pos cur codep : Nat) (back s : Bytes) {d : Reader} (hd : d.Sound)
    (hstate : cur = d.state) (hcodep : cur ≠ 0 → codep = d.codep)
    (hback : back.take d.seq.length = d.seq.reverse)
    (hfuel : 2 * s.length + (if cur = 0 then 0 else 1) ≤ fuel) :
    filtertextLoop len fuel pos cur codep back s = (d.read (s.take (len - pos))).1 := by
  fun_induction filtertextLoop len fuel pos cur codep back s generalizing d
  case case1 pos cur codep back s =>
    have : s = [] := List.length_eq_zero_iff.mp (by omega)
    simp [this, Reader.read]
  case case2 => simp [Reader.read]
  case case3 fuel pos cur codep back b bs hpos =>
    rw [show len - pos = 0 by omega, List.take_zero]
    rfl
  case case4 fuel pos cur codep back b bs hpos r cp hr emitted ih =>
    have hdec := decode_agrees hstate hcodep b
    have htake : (b :: bs).take (len - pos) = b :: bs.take (len - (pos + 1)) := by
      rw [show len - pos = len - (pos + 1) + 1 by omega, List.take_succ_cons]
    simp only [List.length_cons] at hfuel
    rw [htake, ih .start rfl (fun h => absurd rfl h) rfl (by simp; omega)]
    have hacc : (decode d.state d.codep b).1 = 0 := by rw [← hdec]; exact hr
    have hbyte := Reader.byte_taken (d := d) (b := b) (by omega)
    have honce := hd.once_cases b
    rw [← hbyte] at honce
    generalize hp : d.byte b = p at honce
    simp only [Reader.read, hp]
    cases honce with
    | @char c hc hcp h0 =>
      have hcp' : cp = c.toNat := by rw [← hcp, ← hdec]
      have hemit : emitted = if 32 ≤ c.toNat then encode c else [] := by
        unfold emitted
        rw [hcp']
        exact copied_char hc hback
      rw [hemit]
    | refused h1 => omega
    | more h0 h1 h => exact absurd hacc h0
  case case5 fuel pos cur codep back b bs hpos r cp hr₀ hr₁ hcur ih =>
    have hdec := decode_agrees hstate hcodep b
    have htake : (b :: bs).take (len - pos) = b :: bs.take (len - (pos + 1)) := by
      rw [show len - pos = len - (pos + 1) + 1 by omega, List.take_succ_cons]
    rw [if_neg hcur, List.length_cons] at hfuel
    have hrej : (decode d.state d.codep b).1 = 1 := by rw [← hdec]; exact hr₁
    have hbyte : d.byte b = (63 :: (Reader.start.byte b).1, (Reader.start.byte b).2) := by
      rw [Reader.start_byte]
      exact if_pos ⟨by omega, hrej⟩
    rw [ih .start rfl (fun h => absurd rfl h) rfl (by simp; omega), htake, Reader.read, Reader.read, hbyte]
    rfl
  case case6 fuel pos cur codep back b bs hpos r cp hr₀ hr₁ hcur ih =>
    have hdec := decode_agrees hstate hcodep b
    have htake : (b :: bs).take (len - pos) = b :: bs.take (len - (pos + 1)) := by
      rw [show len - pos = len - (pos + 1) + 1 by omega, List.take_succ_cons]
    simp only [List.length_cons] at hfuel
    have hrej : (decode d.state d.codep b).1 = 1 := by rw [← hdec]; exact hr₁
    have hbyte : d.byte b = ([63], .start) := by
      have hzero : d.state = 0 := by omega
      rw [Reader.byte, if_neg (fun h => h.1 hzero), Reader.once, if_neg (by omega), if_pos hrej]
    rw [ih .start rfl (fun h => absurd rfl h) rfl (by simp; omega), htake, Reader.read, hbyte]
    rfl
  case case7 fuel pos cur codep back b bs hpos r cp hr₀ hr₁ ih =>
    have hdec := decode_agrees hstate hcodep b
    have htake : (b :: bs).take (len - pos) = b :: bs.take (len - (pos + 1)) := by
      rw [show len - pos = len - (pos + 1) + 1 by omega, List.take_succ_cons]
    simp only [List.length_cons] at hfuel
    have h0 : (decode d.state d.codep b).1 ≠ 0 := by rw [← hdec]; exact hr₀
    have h1 : (decode d.state d.codep b).1 ≠ 1 := by rw [← hdec]; exact hr₁
    have hbyte : d.byte b = ([], ⟨r.1, cp, d.seq ++ [b]⟩) := by
      have hr : r = decode d.state d.codep b := hdec
      rw [Reader.byte_taken h1, Reader.once, if_neg h0, if_neg h1, ← hdec]
    have hsound := (hd.byte b).sound
    rw [hbyte] at hsound
    have hnext : (b :: back).take (d.seq ++ [b]).length = (d.seq ++ [b]).reverse := by simp [hback]
    rw [ih hsound rfl (fun _ => rfl) hnext (by split_ifs at hfuel ⊢ <;> omega), htake, Reader.read, hbyte]
    rfl

/-- `filtertext` reads the first `len` bytes. -/
theorem filtertext_eq (s : Bytes) (len : Nat) : filtertext s len = (Reader.start.read (s.take len)).1 :=
  filtertextLoop_eq len _ 0 0 0 [] s .start rfl (fun h => absurd rfl h) rfl (by simp)

/-- The bytes of printable characters are printable or beyond ASCII. -/
theorem Clean.printable {s : Bytes} (hs : Clean s) {x : UInt8} (hx : x ∈ s) : 32 ≤ x.toNat := by
  obtain ⟨cs, hcs, rfl⟩ := hs
  obtain ⟨c, hc, hx⟩ := List.mem_flatMap.mp hx
  have h32 := hcs c hc
  have hmem : x.toNat ∈ (encode c).map UInt8.toNat := List.mem_map_of_mem hx
  rcases encode_cases c with ⟨hv, he⟩ | ⟨hv, he⟩ | ⟨hv, he⟩ | ⟨hv, he⟩ <;>
    (rw [he] at hmem; simp only [List.mem_cons, List.not_mem_nil, or_false] at hmem; omega)

theorem filtertext_printable {s : Bytes} {len : Nat} {x : UInt8} (hx : x ∈ filtertext s len) :
    32 ≤ x.toNat := by
  rw [filtertext_eq] at hx
  exact (Reader.Sound.start.read (s.take len)).clean.printable hx

/-- No more bytes come out than are read. -/
theorem filtertext_shortens (s : Bytes) (len : Nat) : (filtertext s len).length ≤ (s.take len).length := by
  have h := (Reader.Sound.start.read (s.take len)).length
  rw [filtertext_eq]
  simp only [Reader.start, List.length_nil] at h ⊢
  omega

/-! ## §6 — the sanitiser -/

/-- Well-formed UTF-8, control characters included. -/
def WellFormed (s : Bytes) : Prop := ∃ cs : List Char, encodeText cs = s

/-- Clean text that fits is copied. -/
theorem filtertext_clean {s : Bytes} {len : Nat} (hs : Clean s) (hlen : s.length ≤ len) :
    filtertext s len = s := by
  obtain ⟨cs, hcs, rfl⟩ := hs
  have hall : cs.filter (fun c => 32 ≤ c.toNat) = cs := by
    rw [List.filter_eq_self]
    intro c hc
    simpa using hcs c hc
  rw [filtertext_eq, List.take_of_length_le hlen, Reader.read_text, hall]

/-- Printable ASCII that fits is copied. -/
theorem filtertext_ascii {s : Bytes} {len : Nat} (hs : ∀ b ∈ s, 32 ≤ b.toNat ∧ b.toNat < 128)
    (hlen : s.length ≤ len) : filtertext s len = s :=
  filtertext_clean (.ascii hs) hlen

/-- A character that is cut by the limit is dropped whole. -/
theorem filtertext_cut {pre rest : Bytes} {c : Char} {len : Nat} (hpre : pre.length ≤ len)
    (hcut : len < pre.length + (encode c).length) :
    filtertext (pre ++ encode c ++ rest) len = filtertext pre len ∨
      ¬ WellFormed pre ∧ filtertext (pre ++ encode c ++ rest) len = filtertext pre len ++ [63] := by
  have htake : (pre ++ encode c ++ rest).take len = pre ++ (encode c).take (len - pre.length) := by
    rw [List.append_assoc, List.take_append, List.take_of_length_le hpre, List.take_append,
      Nat.sub_eq_zero_of_le (show len - pre.length ≤ (encode c).length by omega), List.take_zero,
      List.append_nil]
  have hdrop : (encode c).drop (len - pre.length) ≠ [] := by
    rw [Ne, List.drop_eq_nil_iff]
    omega
  have hread := Reader.read_append .start pre ((encode c).take (len - pre.length))
  have hpart := (Reader.Sound.start.read pre).sound.read_cut hdrop (List.take_append_drop _ _).symm
  rw [filtertext_eq, filtertext_eq, htake, List.take_of_length_le hpre, hread]
  rcases hpart with h | ⟨hmid, h⟩
  · left
    simp [h]
  · right
    refine ⟨?_, by simp [h]⟩
    rintro ⟨cs, rfl⟩
    rw [Reader.read_text] at hmid
    exact hmid rfl

/-- What a truncating sanitiser of UTF-8 text does with a text and a limit. -/
structure Sanitises (src : Bytes) (len : Nat) : Prop where
  /-- No more than `len` bytes come out. -/
  length : (filtertext src len).length ≤ len
  /-- What comes out is the encoding of characters from U+0020 up. -/
  clean : Clean (filtertext src len)
  /-- Only the first `len` bytes matter. -/
  depends : ∀ src', src'.take len = src.take len → filtertext src' len = filtertext src len
  /-- Text that needs no change gets none. -/
  copies : Clean src → src.length ≤ len → filtertext src len = src
  /-- Of a character that does not fit nothing comes out; a question mark may come out for an unfinished
  sequence that stands before it. -/
  cuts : ∀ pre c rest, src = pre ++ encode c ++ rest → pre.length ≤ len →
    len < pre.length + (encode c).length →
    filtertext src len = filtertext pre len ∨
      ¬ WellFormed pre ∧ filtertext src len = filtertext pre len ++ [63]
  /-- A second pass changes nothing. -/
  again : filtertext (filtertext src len) len = filtertext src len

/-- **`filtertext` is a truncating sanitiser**, for every text and every limit. -/
theorem filtertext_sanitises (src : Bytes) (len : Nat) : Sanitises src len := by
  have hkeeps := Reader.Sound.start.read (src.take len)
  have hlength : (filtertext src len).length ≤ len :=
    Nat.le_trans (filtertext_shortens src len) (List.length_take_le len src)
  have hclean : Clean (filtertext src len) := by
    rw [filtertext_eq]
    exact hkeeps.clean
  refine ⟨hlength, hclean, fun src' h => ?_, filtertext_clean, ?_, filtertext_clean hclean hlength⟩
  · rw [filtertext_eq, filtertext_eq, h]
  · rintro pre c rest rfl hpre hcut
    exact filtertext_cut hpre hcut

/-- Two bytes of a character of three behind an `a`: only the `a` comes out. -/
example : filtertext [97, 0xe2, 0x82, 0xac, 98] 3 = [97] := by decide

end Icbd
