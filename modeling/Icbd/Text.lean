/-
# Icbd.Text — the string routines of the server.

`strutil.c`, `utf8.c`, `wildmat.c` and the C library functions the server leans on, over byte
strings. A byte string stands for a C string: it has no NUL, and where a buffer may hold one the
model cuts the string there (`cstr`). Library functions behave as in the C locale.
-/
import Icbd.Config
import Mathlib.Algebra.Group.Int.Defs
import Mathlib.Algebra.Group.Nat.Defs

namespace Icbd

/-! ## §1 — C strings -/

/-- The bytes of a literal. -/
def str (s : String) : Bytes := s.toList.map fun c => UInt8.ofNat c.toNat

/-- The C string at the start of a buffer. -/
def cstr (b : Bytes) : Bytes := b.takeWhile (· ≠ 0)

/-- A C string with only the characters that fit a buffer of `n` bytes, as `snprintf` leaves it. -/
def snprintf (n : Nat) (s : Bytes) : Bytes := s.take (n - 1)

/-- One byte, lower-cased by `lcaseit` (`*s |= 040`). -/
def lower (b : UInt8) : UInt8 := if 65 ≤ b ∧ b ≤ 90 then b ||| 32 else b

/-- One byte, upper-cased by `ucaseit` (`*s ^= 040`). -/
def upper (b : UInt8) : UInt8 := if 97 ≤ b ∧ b ≤ 122 then b ^^^ 32 else b

/-- `lcaseit`. -/
def lcaseit (s : Bytes) : Bytes := s.map lower

/-- `ucaseit`. -/
def ucaseit (s : Bytes) : Bytes := s.map upper

/-- `strcasecmp(a, b) == 0`. -/
def strcaseEq (a b : Bytes) : Bool := lcaseit a == lcaseit b

@[simp] theorem strcaseEq_refl (a : Bytes) : strcaseEq a a = true := by simp [strcaseEq]

theorem strcaseEq_comm (a b : Bytes) : strcaseEq a b = strcaseEq b a := by
  simp [strcaseEq, Bool.beq_comm]

theorem strcaseEq_trans {a b c : Bytes} (h₁ : strcaseEq a b = true) (h₂ : strcaseEq b c = true) :
    strcaseEq a c = true := by
  simp only [strcaseEq, beq_iff_eq] at *
  exact h₁.trans h₂

theorem strcaseEq_nil {a : Bytes} (h : strcaseEq a [] = true) : a = [] := by
  simpa [strcaseEq, lcaseit] using h

/-- `isalnum` in the C locale. -/
def isalnum (b : UInt8) : Bool :=
  (65 ≤ b && b ≤ 90) || (97 ≤ b && b ≤ 122) || (48 ≤ b && b ≤ 57)

/-- `isspace` in the C locale. -/
def isspace (b : UInt8) : Bool := b == 32 || (9 ≤ b && b ≤ 13)

/-- `%d`. -/
def decimal (i : Int) : Bytes := str (toString i)

/-- `%02d`. -/
def decimal02 (i : Int) : Bytes := if 0 ≤ i ∧ i < 10 then 48 :: decimal i else decimal i

/-- What is kept of a number in a `short`. -/
def toInt16 (i : Int) : Int := (i + 2 ^ 15) % 2 ^ 16 - 2 ^ 15

/-- A signed 32-bit result. -/
def toInt32 (i : Int) : Int := (i + 2 ^ 31) % 2 ^ 32 - 2 ^ 31

/-- The digits at the start of a string, most significant first, added to `acc`. -/
def digitsFrom (acc : Int) : Bytes → Int
  | [] => acc
  | b :: bs => if 48 ≤ b ∧ b ≤ 57 then digitsFrom (acc * 10 + (b.toNat - 48)) bs else acc

/-- `atol`, as `strtol(s, NULL, 10)` with a 64-bit `long`. -/
def atol (s : Bytes) : Int :=
  let clamp (i : Int) : Int := max (-(2 ^ 63)) (min (2 ^ 63 - 1) i)
  match s.dropWhile isspace with
  | 45 :: bs => clamp (-(digitsFrom 0 bs))
  | 43 :: bs => clamp (digitsFrom 0 bs)
  | bs => clamp (digitsFrom 0 bs)

/-- `atoi`. -/
def atoi (s : Bytes) : Int := toInt32 (atol s)

/-- `%-ns`: filled with blanks on the right. -/
def padRight (n : Nat) (s : Bytes) : Bytes := s ++ List.replicate (n - s.length) 32

/-- `strcasecmp(a, b) > 0`. -/
def strcaseGt (a b : Bytes) : Bool := lcaseit b < lcaseit a

/-- `strncmp(a, b, n) == 0`. -/
def strncmpEq (a b : Bytes) (n : Nat) : Bool := a.take n == b.take n

/-- `lookup`: the index of a string in a table of literals, -1 if it is not there. -/
def lookup (s : Bytes) (table : List String) : Int :=
  match table.findIdx? (fun t => strcaseEq s (str t)) with
  | some i => i
  | none => -1

/-! ## §2 — names -/

/-- `OKNICKCHARS`. -/
def okNickChars : Bytes := str "-.!'$+,/?_@"

/-- `OKGROUPCHARS`. -/
def okGroupChars : Bytes := str "-.!'$+,/?_~"

/-- One character of a name: letters, digits and the allowed punctuation stay, a blank becomes an
underscore and anything else a question mark. -/
def filterNameChar (ok : Bytes) (b : UInt8) : UInt8 :=
  if isalnum b then b
  else if ok.contains b then b
  else if b = 32 then 95
  else 63

/-- `filternickname`. -/
def filternickname (s : Bytes) : Bytes := s.map (filterNameChar okNickChars)

/-- `filtergroupname`. -/
def filtergroupname (s : Bytes) : Bytes := s.map (filterNameChar okGroupChars)

/-! ## §3 — words and fields -/

/-- Blank or tab. -/
def isBlank (b : UInt8) : Bool := b == 32 || b == 9

/-- `getword`: the first word, cut to the 64 characters the loop copies. -/
def getword (s : Bytes) : Bytes := (s.takeWhile fun b => !isBlank b).take 64

/-- `get_tail`: what follows the first word and the blanks after it. -/
def getTail (s : Bytes) : Bytes := (s.dropWhile fun b => !isBlank b).dropWhile isBlank

/-- The pieces of a string between `^A`s; the last one of at most `n + 1` pieces keeps the `^A`s
after it. -/
def splitPieces : Nat → Bytes → List Bytes
  | 0, s => [s]
  | n + 1, s =>
      match s.dropWhile (· ≠ 1) with
      | [] => [s]
      | _ :: rest => (s.takeWhile (· ≠ 1)) :: splitPieces n rest

/-- `split`: the pieces stored in `fields`, the last of them one past the end of the array when there
are more than `MAX_FIELDS`. -/
def splitFields (s : Bytes) : List Bytes := splitPieces maxFields s

/-- The number `split` returns. -/
def splitCount (s : Bytes) : Nat := min maxFields (splitFields s).length

/-! ## §4 — format strings -/

/-- The scan of `filterfmt`: how many `%s` and how many other conversions. After `%%` the scan goes
on behind both; after any other `%c` it goes on at `c`. -/
def scanFmt : Bytes → Nat × Nat
  | [] => (0, 0)
  | 37 :: 37 :: bs => scanFmt bs
  | 37 :: 115 :: bs => ((scanFmt bs).1 + 1, (scanFmt bs).2)
  | 37 :: bs => ((scanFmt bs).1, (scanFmt bs).2 + 1)
  | _ :: bs => scanFmt bs

/-- `bad` of `filterfmt`. -/
def fmtBad : Bytes := str "Message can't include %d, %f and such. Use %% to quote a single %."

/-- `filterfmt`: the error, if any, and the new value of `*n`. -/
def filterfmt (s : Bytes) (n : Int) : Option Bytes × Int :=
  let r := scanFmt s
  if r.2 > 0 then (some fmtBad, -1)
  else if (r.1 : Int) ≠ n then
    (some (if n = 0 then fmtBad
           else str "Message must contain (only) " ++ decimal n ++ str " %s for the username."), r.1)
  else (none, n)

/-- A format applied to one string, for the formats `filterfmt` accepts: `%s` is the argument and
`%%` a percent sign. -/
def applyFmt (fmt arg : Bytes) : Bytes :=
  match fmt with
  | [] => []
  | 37 :: 37 :: bs => 37 :: applyFmt bs arg
  | 37 :: 115 :: bs => arg ++ applyFmt bs arg
  | b :: bs => b :: applyFmt bs arg

/-! ## §5 — text -/

/-- `utf8d`: the byte classes, then the transitions. -/
def utf8d : List Nat :=
  List.replicate 128 0 ++ List.replicate 16 1 ++ List.replicate 16 9 ++ List.replicate 32 7 ++
  [8, 8] ++ List.replicate 30 2 ++
  [10, 3, 3, 3, 3, 3, 3, 3, 3, 3, 3, 3, 3, 4, 3, 3] ++
  [11, 6, 6, 6, 5, 8, 8, 8, 8, 8, 8, 8, 8, 8, 8, 8] ++
  [0, 1, 2, 3, 5, 8, 7, 1, 1, 1, 4, 6, 1, 1, 1, 1] ++
  [1, 1, 1, 1, 1, 1, 1, 1, 1, 1, 1, 1, 1, 1, 1, 1, 1, 0, 1, 1, 1, 1, 1, 0, 1, 0, 1, 1, 1, 1, 1, 1] ++
  [1, 2, 1, 1, 1, 1, 1, 2, 1, 2, 1, 1, 1, 1, 1, 1, 1, 1, 1, 1, 1, 1, 1, 2, 1, 1, 1, 1, 1, 1, 1, 1] ++
  [1, 2, 1, 1, 1, 1, 1, 1, 1, 2, 1, 1, 1, 1, 1, 1, 1, 1, 1, 1, 1, 1, 1, 3, 1, 3, 1, 1, 1, 1, 1, 1] ++
  [1, 3, 1, 1, 1, 1, 1, 3, 1, 3, 1, 1, 1, 1, 1, 1, 1, 3, 1, 1, 1, 1, 1, 1, 1, 1, 1, 1, 1, 1, 1, 1]

/-- `decode`: the next state and code point. State 0 accepts, state 1 rejects. -/
def decode (state codep : Nat) (byte : UInt8) : Nat × Nat :=
  let type := utf8d.getD byte.toNat 0
  (utf8d.getD (256 + state * 16 + type) 1,
    if state ≠ 0 then (byte.toNat &&& 63) ||| (codep <<< 6) % 2 ^ 32
    else (255 >>> type) &&& byte.toNat)

/-- The loop of `filtertext`. `back` holds the bytes before the current one, nearest first, and `cur`
is the decoder's state. A byte that is refused in the middle of a sequence is looked at once more
from the accepting state, so each byte takes at most two turns. -/
def filtertextLoop (len : Nat) : Nat → Nat → Nat → Nat → Bytes → Bytes → Bytes
  | 0, _, _, _, _, _ => []
  | _ + 1, _, _, _, _, [] => []
  | fuel + 1, pos, cur, codep, back, b :: bs =>
      if pos ≥ len then []
      else
        let r := decode cur codep b
        let cp := r.2
        if r.1 = 0 then
          let emitted : Bytes :=
            if 32 ≤ cp ∧ cp ≤ 127 then [b]
            else if 128 ≤ cp ∧ cp ≤ 2047 then (back.take 1).reverse ++ [b]
            else if 2048 ≤ cp ∧ cp ≤ 65535 then (back.take 2).reverse ++ [b]
            else if 65536 ≤ cp ∧ cp ≤ 1114111 then (back.take 3).reverse ++ [b]
            else []
          emitted ++ filtertextLoop len fuel (pos + 1) 0 cp (b :: back) bs
        else if r.1 = 1 then
          if cur ≠ 0 then 63 :: filtertextLoop len fuel pos 0 cp back (b :: bs)
          else 63 :: filtertextLoop len fuel (pos + 1) 0 cp (b :: back) bs
        else filtertextLoop len fuel (pos + 1) r.1 cp (b :: back) bs

/-- `filtertext` into a cleared buffer of `len` bytes. -/
def filtertext (s : Bytes) (len : Nat) : Bytes :=
  filtertextLoop len (2 * s.length + 1) 0 0 0 [] s

/-- Each of at most two turns for a byte writes at most four bytes. -/
theorem filtertextLoop_length_le (len fuel pos cur codep : Nat) (back s : Bytes) :
    (filtertextLoop len fuel pos cur codep back s).length ≤
      4 * (2 * (len - pos) + if cur = 0 then 0 else 1) := by
  fun_induction filtertextLoop len fuel pos cur codep back s with
  | case1 | case2 | case3 => simp
  | case4 fuel pos cur codep back b bs hpos r cp hr emitted ih =>
    have hemitted : emitted.length ≤ 4 := by
      unfold emitted
      split_ifs <;> simp <;> omega
    simp only [List.length_append, ↓reduceIte] at ih ⊢
    split_ifs <;> omega
  | case5 fuel pos cur codep back b bs hpos r cp hr₀ hr₁ hcur ih =>
    simp only [List.length_cons, ↓reduceIte, if_neg hcur] at ih ⊢
    omega
  | case6 fuel pos cur codep back b bs hpos r cp hr₀ hr₁ hcur ih =>
    simp only [List.length_cons, ↓reduceIte] at ih ⊢
    split_ifs <;> omega
  | case7 fuel pos cur codep back b bs hpos r cp hr₀ hr₁ ih =>
    rw [if_neg hr₀] at ih
    split_ifs <;> omega

theorem filtertext_length_le (s : Bytes) (len : Nat) : (filtertext s len).length ≤ 8 * len := by
  have := filtertextLoop_length_le len (2 * s.length + 1) 0 0 0 [] s
  simp only [↓reduceIte] at this
  unfold filtertext
  omega

/-! ## §6 — `wildmat` -/

/-- What `DoMatch` returns. -/
inductive MatchResult
  | matched
  | failed
  | abort
  deriving DecidableEq, Repr

/-- A character class from behind its `[`: whether the character is in it and the pattern behind the
closing bracket. `last` is the previous character of the class. A class that is never closed ends
with the pattern. -/
def matchClass (c : UInt8) : Nat → UInt8 → Bool → Bytes → Bool × Bytes
  | 0, _, m, p => (m, p)
  | _ + 1, _, m, [] => (m, [])
  | fuel + 1, last, m, x :: p =>
      if x = 93 then (m, p)
      else
        if x = 45 ∧ p.head? ≠ some 93 then
          let y := p.headD 0
          let inRange := decide (c.toInt8 ≤ y.toInt8) && decide (c.toInt8 ≥ last.toInt8)
          matchClass c fuel y (m || inRange) p.tail
        else matchClass c fuel x (m || c == x) p

/-- `DoMatch`. -/
def doMatch : Nat → Bytes → Bytes → MatchResult
  | 0, _, _ => .failed
  | _ + 1, text, [] => if text = [] then .matched else .failed
  | fuel + 1, text, p :: ps =>
      match text with
      | [] =>
          if p = 42 then
            match ps.dropWhile (· = 42) with
            | [] => .matched
            | _ => .abort
          else .abort
      | t :: ts =>
          if p = 42 then
            match ps.dropWhile (· = 42) with
            | [] => .matched
            | q :: qs => starLoop fuel (q :: qs) (t :: ts)
          else if p = 63 then doMatch fuel ts ps
          else if p = 92 then
            match ps with
            | [] => .failed
            | q :: qs => if t = q then doMatch fuel ts qs else .failed
          else if p = 91 then
            let neg := ps.head? = some 94
            let ps := if neg then ps.tail else ps
            let first := ps.head? = some 93 ∨ ps.head? = some 45
            let r :=
              if first then
                matchClass t ps.length (ps.headD 0) (ps.headD 0 == t) ps.tail
              else matchClass t (ps.length + 1) (if neg then 94 else 91) false ps
            if r.1 = decide neg then .failed else doMatch fuel ts r.2
          else if t = p then doMatch fuel ts ps
          else .failed
where
  /-- The loop of the star case over the rest of the text. -/
  starLoop (fuel : Nat) (p : Bytes) : Bytes → MatchResult
    | [] => .abort
    | t :: ts =>
        match doMatch fuel (t :: ts) p with
        | .failed => starLoop fuel p ts
        | r => r

/-- `wildmat(text, pattern)`. -/
def wildmat (text p : Bytes) : Bool :=
  p == [42] || doMatch (p.length + 1) text p == .matched

end Icbd
