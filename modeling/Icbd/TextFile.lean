/-
# Icbd.TextFile — records as lines of text, written by `fprintf` and read back by `fscanf` and `fgets`.

A record is written field by field: a number as `"%d\n"`, a string as `"%sX\n"`, a list as the number of
its entries and each of them as a string. The reader takes numbers with `"%d\n"`, where the newline stands
for any white space there is, and strings with `fgets`, which stops at the first newline. So a string may
lose its beginning to the number in front of it, and one with a newline in it is two lines.

`readAll_iff` says when every number and every string comes back, for any record with lawful fields.
-/
import Icbd.Decimal
import Mathlib.Data.List.TakeWhile

namespace Icbd

/-! ## §1 — the stream -/

/-- White space in a format of `fscanf`. -/
def skipSpace (s : Bytes) : Bytes := s.dropWhile isspace

/-- `fscanf (f, "%d\n", &x)`: the number and what is left. Without a number `x` stays as it is and the white
space behind it is not looked for. A number that was written from an `int` or a `long` fits one. -/
def fscanfNum (x : Int) (s : Bytes) : Int × Bytes :=
  let signed (sign : Int) (t : Bytes) : Int × Bytes :=
    if t.takeWhile isDigit = [] then (x, t)
    else (sign * digitsFrom 0 t, skipSpace (t.dropWhile isDigit))
  match skipSpace s with
  | 45 :: t => signed (-1) t
  | 43 :: t => signed 1 t
  | t => signed 1 t

/-- The size of `name`, without the byte for the terminator. -/
def nameSize : Nat := 255

/-- `fgets (name, sizeof(name), f)`: the buffer and what is left. At the end of the file the buffer stays as
it is. -/
def fgets (name s : Bytes) : Bytes × Bytes :=
  if s = [] then (name, [])
  else
    let len := min nameSize ((s.takeWhile (· ≠ 10)).length + 1)
    (s.take len, s.drop len)

/-- `strncpy (field, name, strlen(name) - 2)`, which runs over everything if there are not two bytes. -/
def chop (name : Bytes) : Option Bytes :=
  if name.length < 2 then none else some (name.take (name.length - 2))

/-- The file, and the variables of the reader. -/
structure Scan where
  input : Bytes
  name : Bytes := []
  j : Int := 0
  k : Int := 0

/-- A line of the file, without its mark. -/
def readLine (s : Scan) : Option (Bytes × Scan) :=
  let r := fgets s.name s.input
  (chop r.1).map fun v => (v, { s with name := r.1, input := r.2 })

/-- A string, as it is written. -/
def line (v : Bytes) : Bytes := v ++ [88, 10]

/-- A number, as it is written. -/
def num (i : Int) : Bytes := decimal i ++ [10]

/-! ## §2 — fields -/

/-- A field of a record: what is written of it, and what is done with what is read. -/
inductive Field (σ : Type)
  /-- A string. -/
  | text (get : σ → Bytes) (set : Bytes → σ → σ)
  /-- A number that is read into `j`. -/
  | int (get : σ → Int) (set : Int → σ → σ)
  /-- A number that is read into `k`; what is stored is made of both. -/
  | long (get : σ → Int) (pick : Int → Int → Int) (set : Int → σ → σ)
  /-- A list: its entries in the order they are written, and one entry put into it. -/
  | names (get : σ → List Bytes) (put : Bytes → σ → σ)

section
variable {σ τ α : Type}

/-- A field, as it is written. -/
def Field.write (u : σ) : Field σ → Bytes
  | .text get _ => line (get u)
  | .int get _ => num (get u)
  | .long get _ _ => num (get u)
  | .names get _ => num (get u).length ++ (get u).flatMap line

/-- The loop over the entries of a list. -/
def readNames (put : Bytes → σ → σ) : Nat → σ × Scan → Option (σ × Scan)
  | 0, r => some r
  | n + 1, (u, s) => (readLine s).bind fun (v, s) => readNames put n (put v u, s)

/-- A field is read. -/
def Field.read : Field σ → σ × Scan → Option (σ × Scan)
  | .text _ set, (u, s) => (readLine s).map fun (v, s) => (set v u, s)
  | .int _ set, (u, s) =>
      let r := fscanfNum s.j s.input
      some (set r.1 u, { s with j := r.1, input := r.2 })
  | .long _ pick set, (u, s) =>
      let r := fscanfNum s.k s.input
      some (set (pick s.j r.1) u, { s with k := r.1, input := r.2 })
  | .names _ put, (u, s) =>
      let r := fscanfNum s.j s.input
      readNames put r.1.toNat (u, { s with j := min r.1 0, input := r.2 })

/-- A record, as it is written. -/
def writeAll (fs : List (Field σ)) (u : σ) : Bytes := fs.flatMap (Field.write u)

/-- A record is read. -/
def readAll : List (Field σ) → σ × Scan → Option (σ × Scan)
  | [], r => some r
  | f :: fs, r => (f.read r).bind (readAll fs)

/-- The field of a part. -/
def Field.lift (get : τ → σ) (mod : (σ → σ) → τ → τ) : Field σ → Field τ
  | .text g s => .text (fun t => g (get t)) fun v => mod (s v)
  | .int g s => .int (fun t => g (get t)) fun v => mod (s v)
  | .long g p s => .long (fun t => g (get t)) p fun v => mod (s v)
  | .names g p => .names (fun t => g (get t)) fun v => mod (p v)

/-- The number or the string of a field is the same in two records. -/
def Field.Same (u u' : σ) : Field σ → Prop
  | .text get _ => get u' = get u
  | .int get _ => get u' = get u
  | .long get _ _ => get u' = get u
  | .names _ _ => True

/-- Reading the field leaves something else alone. -/
def Field.Spares (view : σ → α) : Field σ → Prop
  | .text _ set => ∀ v u, view (set v u) = view u
  | .int _ set => ∀ v u, view (set v u) = view u
  | .long _ _ set => ∀ v u, view (set v u) = view u
  | .names _ put => ∀ v u, view (put v u) = view u

/-- Reading `g` leaves the number or the string of `f` alone. -/
def Field.Apart (f g : Field σ) : Prop :=
  match f with
  | .text get _ => g.Spares get
  | .int get _ => g.Spares get
  | .long get _ _ => g.Spares get
  | .names _ _ => True

/-- What is stored is there, for every string and for the numbers of any record. -/
def Field.Lawful : Field σ → Prop
  | .text get set => ∀ v u, get (set v u) = v
  | .int get set => ∀ u₀ u, get (set (get u₀) u) = get u₀
  | .long get pick set => ∀ j u₀ u, get (set (pick j (get u₀)) u) = pick j (get u₀)
  | .names _ _ => True

/-! ## §3 — one item -/

/-- A string that is one line, and fits the buffer with its mark. -/
def OneLine (v : Bytes) : Prop := 10 ∉ v ∧ v.length + 2 ≤ nameSize

/-- The white space behind a number, if there was one. -/
def eat (lead : Bool) (s : Bytes) : Bytes := if lead then skipSpace s else s

variable {s : Scan} {v rest : Bytes} {lead : Bool}

theorem skipSpace_append {t : Bytes} (ht : ∀ b ∈ t.head?, isspace b = false) (hne : t ≠ []) (v : Bytes) :
    skipSpace (v ++ t) = skipSpace v ++ t := by
  obtain ⟨b, bs, rfl⟩ := List.exists_cons_of_ne_nil hne
  induction v with
  | nil => exact List.dropWhile_cons_of_neg (by simp [ht b rfl])
  | cons c v ih =>
    by_cases hc : isspace c = true
    · simpa [skipSpace, List.dropWhile_cons, hc] using ih
    · simp [skipSpace, hc]

theorem eat_line (lead : Bool) (v rest : Bytes) : eat lead (line v ++ rest) = line (eat lead v) ++ rest := by
  cases lead with
  | false => rfl
  | true =>
    show skipSpace (v ++ [88, 10] ++ rest) = skipSpace v ++ [88, 10] ++ rest
    rw [List.append_assoc, List.append_assoc]
    exact skipSpace_append (by simp; decide) (by simp) v

theorem eat_suffix (lead : Bool) (v : Bytes) : eat lead v <:+ v := by
  cases lead with
  | false => exact List.suffix_refl v
  | true => exact List.dropWhile_suffix _

theorem OneLine.eat (h : OneLine v) : OneLine (eat lead v) :=
  ⟨fun hmem => h.1 ((eat_suffix lead v).subset hmem),
    le_trans (Nat.add_le_add_right (eat_suffix lead v).length_le 2) h.2⟩

/-- The line that `fgets` finds, and what `strncpy` leaves of it. -/
theorem readLine_spec (hne : s.input ≠ []) :
    let len := min nameSize ((s.input.takeWhile (· ≠ 10)).length + 1)
    readLine s = if (s.input.take len).length < 2 then none
      else some ((s.input.take len).take ((s.input.take len).length - 2),
        { s with name := s.input.take len, input := s.input.drop len }) := by
  simp only [readLine, fgets, if_neg hne, chop]
  split <;> rfl

theorem takeWhile_line (h : 10 ∉ v) (rest : Bytes) : (line v ++ rest).takeWhile (· ≠ 10) = v ++ [88] := by
  have hone (x : UInt8) (hx : x ∈ v ++ [88]) : decide (x ≠ 10) = true := by
    rw [decide_eq_true_eq]
    rintro rfl
    rcases List.mem_append.mp hx with hx | hx
    · exact h hx
    · exact absurd (List.mem_singleton.mp hx) (by decide)
  have hshape : line v ++ rest = (v ++ [88]) ++ 10 :: rest := by simp [line]
  rw [hshape, List.takeWhile_append_of_pos hone]
  simp

/-- A line is read back. -/
theorem readLine_line (hin : s.input = line v ++ rest) (h : OneLine v) :
    readLine s = some (v, { s with name := line v, input := rest }) := by
  have hlen : (line v).length = v.length + 2 := by simp [line]
  have hne : s.input ≠ [] := by
    rw [hin]
    simp [line]
  have hcut : min nameSize ((s.input.takeWhile (· ≠ 10)).length + 1) = (line v).length := by
    have := h.2
    rw [hin, takeWhile_line h.1, List.length_append, hlen]
    simp only [List.length_singleton]
    omega
  have htake : s.input.take (line v).length = line v := by rw [hin, List.take_left]
  have hdrop : s.input.drop (line v).length = rest := by rw [hin, List.drop_left]
  rw [readLine_spec hne, hcut, htake, hdrop, if_neg (by omega), hlen, Nat.add_sub_cancel]
  simp [line]

/-- **A line that is read back is one line**, and has not lost its beginning. -/
theorem readLine_same {s' : Scan} (hin : s.input = eat lead (line v ++ rest))
    (h : readLine s = some (v, s')) : OneLine v ∧ eat lead v = v := by
  rw [eat_line] at hin
  have hne : s.input ≠ [] := by
    rw [hin]
    simp [line]
  have hsuff := eat_suffix lead v
  have hle := hsuff.length_le
  rw [readLine_spec hne] at h
  split at h
  · cases h
  next htwo =>
    have hv := congrArg List.length (Prod.mk.inj (Option.some.inj h)).1
    rw [List.length_take, List.length_take] at hv
    rw [List.length_take] at htwo
    have hclean : 10 ∉ eat lead v := by
      intro hmem
      -- the line ends in the string
      obtain ⟨a, b, hab, ha⟩ := List.eq_append_cons_of_mem hmem
      have hwhile : (s.input.takeWhile (· ≠ 10)).length ≤ a.length := by
        rw [hin, hab, line, List.append_assoc, List.append_assoc, List.cons_append]
        rw [List.takeWhile_append_of_pos fun x hx => by
          rw [decide_eq_true_eq]
          rintro rfl
          exact ha hx]
        simp
      have : a.length < (eat lead v).length := by
        rw [hab]
        simp
      omega
    have hwhile : (s.input.takeWhile (· ≠ 10)).length = (eat lead v).length + 1 := by
      rw [hin, takeWhile_line hclean]
      simp
    have hsame : eat lead v = v := hsuff.eq_of_length (by omega)
    refine ⟨⟨hsame ▸ hclean, ?_⟩, hsame⟩
    omega

/-- A number is read back, and the white space behind it is gone. -/
theorem fscanfNum_num (x i : Int) (lead : Bool) (rest : Bytes) :
    fscanfNum x (eat lead (num i ++ rest)) = (i, skipSpace rest) := by
  have hdigits (n : Nat) : ((digits n ++ 10 :: rest).takeWhile isDigit = digits n) ∧
      (digits n ++ 10 :: rest).dropWhile isDigit = 10 :: rest ∧
      digitsFrom 0 (digits n ++ 10 :: rest) = n := by
    refine ⟨?_, ?_, ?_⟩
    · rw [List.takeWhile_append_of_pos (isDigit_digits n)]
      simp [isDigit]
    · rw [List.dropWhile_append_of_pos (isDigit_digits n)]
      simp [isDigit]
    · rw [digitsFrom_append (isDigit_digits n), digitsFrom_digits, digitsFrom_stop]
      intro b hb
      rw [← Option.some.inj hb]
      decide
  have hnewline : skipSpace (10 :: rest) = skipSpace rest := rfl
  -- the number starts with a digit or a sign, so no white space is lost
  have hskip {b : UInt8} {t : Bytes} (hb : isspace b = false) : skipSpace (eat lead (b :: t)) = b :: t := by
    have hone : skipSpace (b :: t) = b :: t := List.dropWhile_cons_of_neg (by simp [hb])
    cases lead with
    | false => exact hone
    | true =>
      show skipSpace (skipSpace (b :: t)) = b :: t
      rw [hone, hone]
  have hshape : num i ++ rest = decimal i ++ 10 :: rest := by simp [num]
  rw [hshape]
  by_cases hneg : i < 0
  · obtain ⟨n, rfl⟩ : ∃ n : Nat, i = -n := ⟨i.natAbs, by omega⟩
    obtain ⟨htake, hdrop, hval⟩ := hdigits n
    rw [decimal_neg (by omega), List.cons_append]
    simp only [fscanfNum]
    rw [hskip (by decide)]
    simp only [htake, hdrop, hval, hnewline, if_neg (digits_ne_nil n)]
    rw [Int.neg_one_mul]
  · obtain ⟨n, rfl⟩ : ∃ n : Nat, i = n := ⟨i.natAbs, by omega⟩
    obtain ⟨htake, hdrop, hval⟩ := hdigits n
    obtain ⟨b, bs, hbs⟩ := List.exists_cons_of_ne_nil (digits_ne_nil n)
    obtain ⟨hspace, hminus, hplus⟩ := isDigit_plain (isDigit_digits n b (by rw [hbs]; exact List.mem_cons_self))
    have hread : skipSpace (eat lead (digits n ++ 10 :: rest)) = digits n ++ 10 :: rest := by
      rw [hbs, List.cons_append]
      exact hskip hspace
    rw [decimal_natCast]
    simp only [fscanfNum]
    rw [hread]
    have hfirst : digits n ++ 10 :: rest = b :: (bs ++ 10 :: rest) := by rw [hbs, List.cons_append]
    split
    · rename_i heq
      rw [hfirst] at heq
      exact absurd (List.cons.inj heq).1 hminus
    · rename_i heq
      rw [hfirst] at heq
      exact absurd (List.cons.inj heq).1 hplus
    · simp only [htake, hdrop, hval, hnewline, if_neg (digits_ne_nil n), Int.one_mul]

/-- The entries of a list as they come back: the first may lose its beginning. -/
def readBack (lead : Bool) : List Bytes → List Bytes
  | [] => []
  | e :: es => eat lead e :: es

/-- The entries of a list are put into it one by one. -/
theorem readNames_lines (put : Bytes → σ → σ) (u : σ) {es : List Bytes} (hes : ∀ e ∈ es, OneLine e)
    (hin : s.input = eat lead (es.flatMap line ++ rest)) :
    ∃ s', readNames put es.length (u, s) = some ((readBack lead es).foldl (fun u e => put e u) u, s') ∧
      s'.input = eat (lead && es.isEmpty) rest ∧ s'.j = s.j := by
  have hrest {es : List Bytes} {u : σ} {s : Scan} (hes : ∀ e ∈ es, OneLine e)
      (hin : s.input = es.flatMap line ++ rest) :
      ∃ s', readNames put es.length (u, s) = some (es.foldl (fun u e => put e u) u, s') ∧
        s'.input = rest ∧ s'.j = s.j := by
    induction es generalizing u s with
    | nil => exact ⟨s, rfl, hin, rfl⟩
    | cons e es ih =>
      rw [List.flatMap_cons, List.append_assoc] at hin
      obtain ⟨s', hread, hin', hj⟩ := ih (u := put e u)
        (s := { s with name := line e, input := es.flatMap line ++ rest })
        (fun e he => hes e (List.mem_cons_of_mem _ he)) rfl
      refine ⟨s', ?_, hin', hj⟩
      simp only [List.length_cons, readNames, readLine_line hin (hes e List.mem_cons_self), Option.bind_some]
      exact hread
  cases es with
  | nil => exact ⟨s, rfl, by simpa using hin, rfl⟩
  | cons e es =>
    rw [List.flatMap_cons, List.append_assoc, eat_line] at hin
    obtain ⟨s', hread, hin', hj⟩ := hrest (u := put (eat lead e) u)
      (s := { s with name := line (eat lead e), input := es.flatMap line ++ rest })
      (fun e he => hes e (List.mem_cons_of_mem _ he)) rfl
    refine ⟨s', ?_, by simpa [eat] using hin', hj⟩
    simp only [List.length_cons, readNames, readLine_line hin (hes e List.mem_cons_self).eat, Option.bind_some]
    exact hread

/-! ## §4 — records -/

/-- The record comes back, field by field: every string is one line, and does not begin with white space if
it is behind a number; and what is made of the numbers is the number that was written. `lead` says that a
number has just been read, and `j` is the last one that was read into `j`. -/
def Survives : Bool → Int → List (Field σ) → σ → Prop
  | _, _, [], _ => True
  | lead, j, .text get _ :: fs, u => OneLine (get u) ∧ eat lead (get u) = get u ∧ Survives false j fs u
  | _, _, .int get _ :: fs, u => Survives true (get u) fs u
  | _, j, .long get pick _ :: fs, u => pick j (get u) = get u ∧ Survives true j fs u
  | _, _, .names get _ :: fs, u => Survives (get u).isEmpty 0 fs u

/-- Whether the last of the fields leaves the white space behind a number to be read. -/
def leadAfter : Bool → List (Field σ) → σ → Bool
  | lead, [], _ => lead
  | _, .text _ _ :: fs, u => leadAfter false fs u
  | _, .int _ _ :: fs, u => leadAfter true fs u
  | _, .long _ _ _ :: fs, u => leadAfter true fs u
  | _, .names get _ :: fs, u => leadAfter (get u).isEmpty fs u

/-- What is in `j` behind the fields. -/
def jAfter : Int → List (Field σ) → σ → Int
  | j, [], _ => j
  | j, .text _ _ :: fs, u => jAfter j fs u
  | _, .int get _ :: fs, u => jAfter (get u) fs u
  | j, .long _ _ _ :: fs, u => jAfter j fs u
  | _, .names _ _ :: fs, u => jAfter 0 fs u

/-- The entries of the lists are single lines. -/
def Field.Lines (u : σ) : Field σ → Prop
  | .names get _ => ∀ e ∈ get u, OneLine e
  | _ => True

variable {f : Field σ} {fs : List (Field σ)} {u b : σ}

theorem leadAfter_append (fs gs : List (Field σ)) (lead : Bool) (u : σ) :
    leadAfter lead (fs ++ gs) u = leadAfter (leadAfter lead fs u) gs u := by
  induction fs generalizing lead with
  | nil => rfl
  | cons f fs ih => cases f <;> exact ih _

theorem survives_append (fs gs : List (Field σ)) (lead : Bool) (j : Int) (u : σ) :
    Survives lead j (fs ++ gs) u ↔
      Survives lead j fs u ∧ Survives (leadAfter lead fs u) (jAfter j fs u) gs u := by
  induction fs generalizing lead j with
  | nil => simp [Survives, leadAfter, jAfter]
  | cons f fs ih =>
    cases f <;> simp only [List.cons_append, Survives, leadAfter, jAfter, ih, and_assoc]

/-- What all the fields that are read leave alone stays. -/
theorem readNames_spares {view : σ → α} {put : Bytes → σ → σ} (h : ∀ v u, view (put v u) = view u) {n : Nat}
    {r r' : σ × Scan} (hr : readNames put n r = some r') : view r'.1 = view r.1 := by
  induction n generalizing r with
  | zero => rw [← Option.some.inj hr]
  | succ n ih =>
    obtain ⟨⟨v, s⟩, -, hr⟩ := Option.bind_eq_some_iff.mp hr
    rw [ih hr]
    exact h v r.1

theorem Field.read_spares {view : σ → α} (h : f.Spares view) {r r' : σ × Scan} (hr : f.read r = some r') :
    view r'.1 = view r.1 := by
  obtain ⟨u, s⟩ := r
  cases f with
  | text get set =>
    obtain ⟨⟨v, s'⟩, -, rfl⟩ := Option.map_eq_some_iff.mp hr
    exact h v u
  | int get set =>
    rw [← Option.some.inj hr]
    exact h _ u
  | long get pick set =>
    rw [← Option.some.inj hr]
    exact h _ u
  | names get put =>
    change readNames put _ _ = some r' at hr
    rw [readNames_spares h hr]

theorem readAll_spares (view : σ → α) (h : ∀ f ∈ fs, f.Spares view) {r r' : σ × Scan}
    (hr : readAll fs r = some r') : view r'.1 = view r.1 := by
  induction fs generalizing r with
  | nil => rw [← Option.some.inj hr]
  | cons f fs ih =>
    obtain ⟨r₁, hf, hr⟩ := Option.bind_eq_some_iff.mp hr
    rw [ih (fun g hg => h g (List.mem_cons_of_mem f hg)) hr]
    exact Field.read_spares (h f List.mem_cons_self) hf

section
variable {get : σ → Bytes} {set : Bytes → σ → σ} {geti : σ → Int} {seti : Int → σ → σ}
  {pick : Int → Int → Int} {i : Int}

theorem read_text (hin : s.input = eat lead (line v ++ rest)) (hone : OneLine v) (heat : eat lead v = v) :
    (Field.text get set).read (b, s) = some (set v b, { s with name := line v, input := rest }) := by
  rw [eat_line, heat] at hin
  rw [Field.read, readLine_line hin hone]
  rfl

theorem read_int (hin : s.input = eat lead (num i ++ rest)) :
    (Field.int geti seti).read (b, s) = some (seti i b, { s with j := i, input := skipSpace rest }) := by
  have hnum : fscanfNum s.j s.input = (i, skipSpace rest) := by rw [hin, fscanfNum_num]
  simp only [Field.read, hnum]

theorem read_long (hin : s.input = eat lead (num i ++ rest)) :
    (Field.long geti pick seti).read (b, s) =
      some (seti (pick s.j i) b, { s with k := i, input := skipSpace rest }) := by
  have hnum : fscanfNum s.k s.input = (i, skipSpace rest) := by rw [hin, fscanfNum_num]
  simp only [Field.read, hnum]

theorem read_names (getn : σ → List Bytes) (put : Bytes → σ → σ) (b : σ) {es : List Bytes} (hes : ∀ e ∈ es, OneLine e)
    (hin : s.input = eat lead (num es.length ++ es.flatMap line ++ rest)) :
    ∃ s', (Field.names getn put).read (b, s) = some ((readBack true es).foldl (fun u e => put e u) b, s') ∧
      s'.input = eat es.isEmpty rest ∧ s'.j = 0 := by
  have hnum : fscanfNum s.j s.input = ((es.length : Int), skipSpace (es.flatMap line ++ rest)) := by
    rw [hin, List.append_assoc, fscanfNum_num]
  simp only [Field.read, hnum, Int.toNat_natCast]
  have hlines : ({ s with j := min (es.length : Int) 0, input := skipSpace (es.flatMap line ++ rest) } : Scan).input =
      eat true (es.flatMap line ++ rest) := rfl
  obtain ⟨s', hread, hin', hj⟩ := readNames_lines put b hes hlines
  refine ⟨s', hread, by simpa using hin', ?_⟩
  rw [hj]
  show min (es.length : Int) 0 = 0
  omega

end

theorem readAll_append (fs gs : List (Field σ)) (r : σ × Scan) :
    readAll (fs ++ gs) r = (readAll fs r).bind (readAll gs) := by
  induction fs generalizing r with
  | nil => rfl
  | cons f fs ih =>
    simp only [List.cons_append, readAll, Option.bind_assoc]
    exact congrArg _ (funext ih)

/-- **When a record comes back.** A record with lawful fields that leave each other alone, and with lists of
single lines, is read back with every number and every string as it was, if and only if it survives. -/
theorem readAll_iff (happart : fs.Pairwise Field.Apart) (hlaw : ∀ f ∈ fs, f.Lawful)
    (hlines : ∀ f ∈ fs, f.Lines u) (hin : s.input = eat lead (writeAll fs u ++ rest)) :
    (∃ r, readAll fs (b, s) = some r ∧ ∀ f ∈ fs, f.Same u r.1) ↔ Survives lead s.j fs u := by
  induction fs generalizing b s lead with
  | nil => simp [readAll, Survives]
  | cons f fs ih =>
    obtain ⟨hapart, hpair⟩ := List.pairwise_cons.mp happart
    have hlaw' : ∀ g ∈ fs, g.Lawful := fun g hg => hlaw g (List.mem_cons_of_mem f hg)
    have hlines' : ∀ g ∈ fs, g.Lines u := fun g hg => hlines g (List.mem_cons_of_mem f hg)
    have hlawf := hlaw f List.mem_cons_self
    rw [writeAll, List.flatMap_cons, List.append_assoc] at hin
    simp only [readAll, List.forall_mem_cons]
    cases f with
    | text get set =>
      have hstored {v : Bytes} {s : Scan} {r : σ × Scan} (hr : readAll fs (set v b, s) = some r) :
          get r.1 = v := (readAll_spares get hapart hr).trans (hlawf v b)
      have hplain : ({ s with name := line (get u), input := writeAll fs u ++ rest } : Scan).input =
          eat false (writeAll fs u ++ rest) := rfl
      constructor
      · rintro ⟨r, hr, hsame, hsames⟩
        obtain ⟨r₁, hf, hr⟩ := Option.bind_eq_some_iff.mp hr
        obtain ⟨⟨v, s'⟩, hread, rfl⟩ := Option.map_eq_some_iff.mp hf
        obtain rfl : v = get u := (hstored hr).symm.trans hsame
        obtain ⟨hone, heat⟩ := readLine_same hin hread
        rw [read_text hin hone heat] at hf
        rw [← Option.some.inj hf] at hr
        exact ⟨hone, heat, (ih hpair hlaw' hlines' hplain).mp ⟨r, hr, hsames⟩⟩
      · rintro ⟨hone, heat, hfs⟩
        rw [read_text hin hone heat]
        obtain ⟨r, hr, hsames⟩ := (ih (b := set (get u) b) hpair hlaw' hlines' hplain).mpr hfs
        have hget := hstored hr
        exact ⟨r, hr, hget, hsames⟩
    | int get set =>
      rw [read_int hin]
      have hskip : ({ s with j := get u, input := skipSpace (writeAll fs u ++ rest) } : Scan).input =
          eat true (writeAll fs u ++ rest) := rfl
      have hiff := ih (b := set (get u) b) hpair hlaw' hlines' hskip
      rw [Survives, ← hiff]
      refine exists_congr fun r => and_congr_right fun hr => and_iff_right ?_
      exact (readAll_spares get hapart hr).trans (hlawf u b)
    | long get pick set =>
      rw [read_long hin]
      have hskip : ({ s with k := get u, input := skipSpace (writeAll fs u ++ rest) } : Scan).input =
          eat true (writeAll fs u ++ rest) := rfl
      have hiff := ih (b := set (pick s.j (get u)) b) hpair hlaw' hlines' hskip
      rw [Survives, ← hiff]
      have hstored {s' : Scan} {r : σ × Scan} (hr : readAll fs (set (pick s.j (get u)) b, s') = some r) :
          get r.1 = pick s.j (get u) := (readAll_spares get hapart hr).trans (hlawf _ u b)
      constructor
      · rintro ⟨r, hr, hsame, hsames⟩
        exact ⟨(hstored hr).symm.trans hsame, r, hr, hsames⟩
      · rintro ⟨hpick, r, hr, hsames⟩
        have hget := (hstored hr).trans hpick
        exact ⟨r, hr, hget, hsames⟩
    | names get put =>
      obtain ⟨s', hread, hin', hj'⟩ := read_names get put b (hlines _ List.mem_cons_self) hin
      rw [hread, Survives, ← hj', ← ih hpair hlaw' hlines' hin']
      exact exists_congr fun r => and_congr_right fun _ => and_iff_right trivial

/-- Numbers are always read, whatever is made of them. -/
theorem readAll_longs (hfs : ∀ f ∈ fs, ∃ get pick set, f = .long get pick set)
    (hin : s.input = eat true (writeAll fs u ++ rest)) :
    ∃ r, readAll fs (b, s) = some r ∧ r.2.input = eat true rest ∧ r.2.j = s.j := by
  induction fs generalizing b s with
  | nil => exact ⟨(b, s), rfl, hin, rfl⟩
  | cons f fs ih =>
    obtain ⟨get, pick, set, rfl⟩ := hfs f List.mem_cons_self
    rw [writeAll, List.flatMap_cons, List.append_assoc] at hin
    simp only [readAll]
    rw [read_long hin]
    exact ih (s := { s with k := get u, input := skipSpace (writeAll fs u ++ rest) })
      (fun g hg => hfs g (List.mem_cons_of_mem _ hg)) rfl

/-! ## §5 — the fields of a part -/

section
variable {get : τ → σ} {mod : (σ → σ) → τ → τ} {g : Field σ}

/-- Fields of a part leave alone what the part does not show in. -/
theorem Field.spares_lift (view : τ → α) (h : ∀ k t, view (mod k t) = view t) :
    (g.lift get mod).Spares view := by
  cases g <;> exact fun _ _ => h _ _

theorem Field.Spares.lift {view : σ → α} (hget : ∀ k t, get (mod k t) = k (get t)) (h : g.Spares view) :
    (g.lift get mod).Spares fun t => view (get t) := by
  cases g <;> exact fun v t => (congrArg view (hget _ t)).trans (h v (get t))

theorem Field.Apart.lift (hget : ∀ k t, get (mod k t) = k (get t)) (h : f.Apart g) :
    (f.lift get mod).Apart (g.lift get mod) := by
  cases f with
  | names => trivial
  | _ => exact Field.Spares.lift hget h

/-- Fields of two parts. -/
theorem Field.apart_lift {ρ : Type} {get' : τ → ρ} {mod' : (ρ → ρ) → τ → τ} {g : Field ρ}
    (hget : ∀ k t, get (mod' k t) = get t) : (f.lift get mod).Apart (g.lift get' mod') := by
  cases f with
  | names => trivial
  | text f _ => exact Field.spares_lift (fun t => f (get t)) fun k t => congrArg f (hget k t)
  | int f _ => exact Field.spares_lift (fun t => f (get t)) fun k t => congrArg f (hget k t)
  | long f _ _ => exact Field.spares_lift (fun t => f (get t)) fun k t => congrArg f (hget k t)

theorem Field.Lawful.lift (hget : ∀ k t, get (mod k t) = k (get t)) (h : f.Lawful) :
    (f.lift get mod).Lawful := by
  cases f with
  | names => trivial
  | text get' _ => exact fun v t => (congrArg get' (hget _ t)).trans (h v (get t))
  | int get' _ => exact fun t₀ t => (congrArg get' (hget _ t)).trans (h (get t₀) (get t))
  | long get' _ _ => exact fun j t₀ t => (congrArg get' (hget _ t)).trans (h j (get t₀) (get t))

theorem survives_lift {t : τ} (fs : List (Field σ)) (lead : Bool) (j : Int) :
    Survives lead j (fs.map (.lift get mod)) t ↔ Survives lead j fs (get t) := by
  induction fs generalizing lead j with
  | nil => exact Iff.rfl
  | cons f fs ih => cases f <;> simp only [List.map_cons, Field.lift, Survives, ih]

theorem leadAfter_lift {t : τ} (fs : List (Field σ)) (lead : Bool) :
    leadAfter lead (fs.map (.lift get mod)) t = leadAfter lead fs (get t) := by
  induction fs generalizing lead with
  | nil => rfl
  | cons f fs ih => cases f <;> exact ih _

theorem Field.lines_lift {t : τ} : (f.lift get mod).Lines t ↔ f.Lines (get t) := by
  cases f <;> exact Iff.rfl

theorem Field.same_lift {t t' : τ} : (f.lift get mod).Same t t' ↔ f.Same (get t) (get t') := by
  cases f <;> exact Iff.rfl

end

end

end Icbd
