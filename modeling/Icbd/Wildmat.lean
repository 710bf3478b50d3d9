/-
# Icbd.Wildmat — what `wildmat` matches, and in how many calls.

`Spells` is the grammar of the patterns, `Matches` of the library what they stand for, and `wildmat_iff`
says that the matcher decides just that, for every text and every pattern whose character classes are
closed. Behind one that is not the source reads on past the end of the pattern.

The recursion is in the loop of the star case only. `doMatchCounting` counts its calls: the `ABORT` of the
source keeps them at one for each character of the text.
-/
import Icbd.Lib.Glob
import Icbd.NameList

namespace Icbd

open Icbd.Lib

/-! ## §1 — the syntax of patterns -/

/-- The ranges of a character class from behind the character `last`, and the pattern behind the `]`. A
`-` makes a range from the character in front of it to the one behind it, unless that is the `]`. -/
def classItems : UInt8 → Bytes → Option (List (UInt8 × UInt8) × Bytes)
  | _, [] => none
  | last, x :: p =>
      if x = 93 then some ([], p)
      else if x = 45 ∧ p.head? ≠ some 93 then
        match p with
        | [] => none
        | y :: p => (classItems y p).map fun r => ((last, y) :: r.1, r.2)
      else (classItems x p).map fun r => ((x, x) :: r.1, r.2)

/-- A character in one of the ranges. Characters are signed. -/
def inItems (items : List (UInt8 × UInt8)) (c : UInt8) : Bool :=
  items.any fun r => decide (r.1.toInt8 ≤ c.toInt8) && decide (c.toInt8 ≤ r.2.toInt8)

/-- The same from behind the `[` or the `[^`: a `]` or `-` in front stands for itself. -/
def classRanges (last : UInt8) (q : Bytes) : Option (List (UInt8 × UInt8) × Bytes) :=
  if q.head? = some 93 ∨ q.head? = some 45 then
    (classItems (q.headD 0) q.tail).map fun r => ((q.headD 0, q.headD 0) :: r.1, r.2)
  else classItems last q

/-- A character class from behind its `[`: the characters it stands for, all others if it begins with a
`^`, and the pattern behind it. -/
def charClass (q : Bytes) : Option ((UInt8 → Bool) × Bytes) :=
  let neg := q.head? = some 94
  (classRanges (if neg then 94 else 91) (if neg then q.tail else q)).map fun r =>
    (fun c => inItems r.1 c ^^ decide neg, r.2)

/-- The patterns and the tokens they are written for. -/
inductive Spells : Bytes → List (Token UInt8) → Prop
  | nil : Spells [] []
  | star {p : Bytes} {ts : List (Token UInt8)} : Spells p ts → Spells (42 :: p) (.star :: ts)
  | any {p : Bytes} {ts : List (Token UInt8)} : Spells p ts → Spells (63 :: p) (.one (fun _ => true) :: ts)
  | quoted {p : Bytes} {ts : List (Token UInt8)} (c : UInt8) :
      Spells p ts → Spells (92 :: c :: p) (.one (· == c) :: ts)
  -- compared with the NUL behind the pattern
  | unquoted : Spells [92] [.one fun _ => false]
  | charClass {q p : Bytes} {test : UInt8 → Bool} {ts : List (Token UInt8)} :
      charClass q = some (test, p) → Spells p ts → Spells (91 :: q) (.one test :: ts)
  | literal {c : UInt8} {p : Bytes} {ts : List (Token UInt8)} :
      c ∉ [42, 63, 92, 91] → Spells p ts → Spells (c :: p) (.one (· == c) :: ts)

/-- A pattern without character classes. -/
theorem exists_spells {p : Bytes} (h : 91 ∉ p) : ∃ ts, Spells p ts := by
  induction hlen : p.length using Nat.strong_induction_on generalizing p with
  | _ n ih =>
    cases p with
    | nil => exact ⟨_, Spells.nil⟩
    | cons c p =>
      obtain ⟨hc, hp⟩ := not_or.mp (mt List.mem_cons.mpr h)
      obtain ⟨ts, hts⟩ := ih p.length (by rw [← hlen]; exact Nat.lt_succ_self _) hp rfl
      by_cases hspecial : c ∈ [42, 63, 92, 91]
      · simp only [List.mem_cons, List.not_mem_nil, or_false] at hspecial
        rcases hspecial with rfl | rfl | rfl | rfl
        · exact ⟨_, Spells.star hts⟩
        · exact ⟨_, Spells.any hts⟩
        · cases p with
          | nil => exact ⟨_, Spells.unquoted⟩
          | cons x p =>
            obtain ⟨ts, hts⟩ := ih p.length (by rw [← hlen]; simp only [List.length_cons]; omega) (fun hx => hp (List.mem_cons_of_mem x hx)) rfl
            exact ⟨_, Spells.quoted x hts⟩
        · exact absurd rfl hc
      · exact ⟨_, Spells.literal hspecial hts⟩

/-! ## §2 — character classes -/

theorem inItems_self (x c : UInt8) (items : List (UInt8 × UInt8)) :
    inItems ((x, x) :: items) c = (c == x || inItems items c) := by
  have hself : (decide (x.toInt8 ≤ c.toInt8) && decide (c.toInt8 ≤ x.toInt8)) = (c == x) := by
    rw [Bool.eq_iff_iff]
    simp only [Bool.and_eq_true, decide_eq_true_eq, beq_iff_eq]
    constructor
    · rintro ⟨hlo, hhi⟩
      exact (congrArg Int8.toUInt8 (Int8.le_antisymm hlo hhi)).symm
    · rintro rfl
      exact ⟨Int8.le_refl _, Int8.le_refl _⟩
  rw [inItems, List.any_cons, hself, inItems]

/-- The scan over a closed class. -/
theorem matchClass_eq {c last : UInt8} {m : Bool} {p rest : Bytes} {items : List (UInt8 × UInt8)} {fuel : Nat}
    (hfuel : p.length < fuel) (h : classItems last p = some (items, rest)) :
    matchClass c fuel last m p = (m || inItems items c, rest) := by
  induction fuel generalizing last m p items with
  | zero => omega
  | succ fuel ih =>
    cases p with
    | nil => cases h
    | cons x p =>
      rw [List.length_cons] at hfuel
      unfold classItems at h
      unfold matchClass
      by_cases hend : x = 93
      · rw [if_pos hend] at h ⊢
        cases h
        simp [inItems]
      rw [if_neg hend] at h ⊢
      by_cases hrange : x = 45 ∧ p.head? ≠ some 93
      · rw [if_pos hrange] at h ⊢
        cases p with
        | nil => cases h
        | cons y p =>
          obtain ⟨⟨items, rest⟩, hr, heq⟩ := Option.map_eq_some_iff.mp h
          cases heq
          rw [List.headD_cons, List.tail_cons, ih (by rw [List.length_cons] at hfuel; omega) hr, Bool.or_assoc,
            Bool.and_comm]
          rfl
      · rw [if_neg hrange] at h ⊢
        obtain ⟨⟨items, rest⟩, hr, heq⟩ := Option.map_eq_some_iff.mp h
        cases heq
        rw [ih (by omega) hr, inItems_self, Bool.or_assoc]

theorem classItems_length {last : UInt8} {p rest : Bytes} {items : List (UInt8 × UInt8)}
    (h : classItems last p = some (items, rest)) : rest.length < p.length := by
  fun_induction classItems last p generalizing items with
  | case1 => cases h
  | case2 last p =>
    cases h
    exact Nat.lt_succ_self _
  | case3 => cases h
  | case4 last x hend y p hrange ih =>
    obtain ⟨⟨items, rest⟩, hr, heq⟩ := Option.map_eq_some_iff.mp h
    cases heq
    exact (ih hr).trans (by simp only [List.length_cons]; omega)
  | case5 last x p hend hrange ih =>
    obtain ⟨⟨items, rest⟩, hr, heq⟩ := Option.map_eq_some_iff.mp h
    cases heq
    exact (ih hr).trans (Nat.lt_succ_self _)

/-- The scan over a closed class, with the first character looked at on its own if it stands for itself. -/
theorem matchClass_ranges {c last : UInt8} {q rest : Bytes} {items : List (UInt8 × UInt8)}
    (h : classRanges last q = some (items, rest)) :
    (if q.head? = some 93 ∨ q.head? = some 45 then matchClass c q.length (q.headD 0) (q.headD 0 == c) q.tail
      else matchClass c (q.length + 1) last false q) = (inItems items c, rest) := by
  unfold classRanges at h
  by_cases hfirst : q.head? = some 93 ∨ q.head? = some 45
  · rw [if_pos hfirst] at h ⊢
    obtain ⟨⟨items, rest⟩, hr, heq⟩ := Option.map_eq_some_iff.mp h
    cases heq
    cases q with
    | nil => simp at hfirst
    | cons x q =>
      change classItems x q = some (items, rest) at hr
      rw [List.headD_cons, List.tail_cons, List.length_cons, matchClass_eq (Nat.lt_succ_self _) hr,
        inItems_self, Bool.beq_comm]
  · rw [if_neg hfirst] at h ⊢
    rw [matchClass_eq (Nat.lt_succ_self _) h, Bool.false_or]

theorem classRanges_length {last : UInt8} {q rest : Bytes} {items : List (UInt8 × UInt8)}
    (h : classRanges last q = some (items, rest)) : rest.length < q.length := by
  unfold classRanges at h
  split at h
  · obtain ⟨⟨items, rest⟩, hr, heq⟩ := Option.map_eq_some_iff.mp h
    cases heq
    exact (classItems_length hr).trans_le (by rw [List.length_tail]; omega)
  · exact classItems_length h

theorem charClass_length {q p : Bytes} {test : UInt8 → Bool} (h : charClass q = some (test, p)) :
    p.length < q.length := by
  obtain ⟨⟨items, rest⟩, hr, heq⟩ := Option.map_eq_some_iff.mp h
  cases heq
  refine (classRanges_length hr).trans_le ?_
  split
  · rw [List.length_tail]
    omega
  · exact Nat.le_refl _

/-! ## §3 — the calls of the star loop -/

/-- The calls of `DoMatch` made from its star loop, those made inside them included. -/
def doMatchCalls : Nat → Bytes → Bytes → Nat
  | 0, _, _ => 0
  | _ + 1, _, [] => 0
  | fuel + 1, text, p :: ps =>
      match text with
      | [] => 0
      | t :: ts =>
          if p = 42 then
            match ps.dropWhile (· = 42) with
            | [] => 0
            | q :: qs => starCalls fuel (q :: qs) (t :: ts)
          else if p = 63 then doMatchCalls fuel ts ps
          else if p = 92 then
            match ps with
            | [] => 0
            | q :: qs => if t = q then doMatchCalls fuel ts qs else 0
          else if p = 91 then
            let neg := ps.head? = some 94
            let ps := if neg then ps.tail else ps
            let first := ps.head? = some 93 ∨ ps.head? = some 45
            let r :=
              if first then
                matchClass t ps.length (ps.headD 0) (ps.headD 0 == t) ps.tail
              else matchClass t (ps.length + 1) (if neg then 94 else 91) false ps
            if r.1 = decide neg then 0 else doMatchCalls fuel ts r.2
          else if t = p then doMatchCalls fuel ts ps
          else 0
where
  /-- The calls of one star's loop. -/
  starCalls (fuel : Nat) (p : Bytes) : Bytes → Nat
    | [] => 0
    | t :: ts =>
        1 + doMatchCalls fuel (t :: ts) p +
          match doMatch fuel (t :: ts) p with
          | .failed => starCalls fuel p ts
          | _ => 0

/-- A pattern that begins with a token for one character, and the pattern behind it: what the loop of
`DoMatch` does in one turn. -/
structure Turn (p rest : Bytes) (test : UInt8 → Bool) : Prop where
  shorter : rest.length < p.length
  abort : ∀ fuel, doMatch (fuel + 1) [] p = .abort
  step : ∀ fuel t s, doMatch (fuel + 1) (t :: s) p = if test t then doMatch fuel s rest else .failed
  none : ∀ fuel, doMatchCalls (fuel + 1) [] p = 0
  calls : ∀ fuel t s, doMatchCalls (fuel + 1) (t :: s) p = if test t then doMatchCalls fuel s rest else 0

/-- What the loop finds of a class. -/
theorem charClass_eq {q p : Bytes} {test : UInt8 → Bool} (h : charClass q = some (test, p)) (t : UInt8) :
    let neg := q.head? = some 94
    let q := if neg then q.tail else q
    let r := if q.head? = some 93 ∨ q.head? = some 45 then
        matchClass t q.length (q.headD 0) (q.headD 0 == t) q.tail
      else matchClass t (q.length + 1) (if neg then 94 else 91) false q
    r.2 = p ∧ (r.1 = decide neg ↔ test t = false) := by
  intro neg q' r
  obtain ⟨⟨items, rest⟩, hr, heq⟩ := Option.map_eq_some_iff.mp h
  cases heq
  have hr' : r = (inItems items t, rest) := matchClass_ranges hr
  rw [hr']
  refine ⟨rfl, ?_⟩
  show inItems items t = decide neg ↔ (inItems items t ^^ decide neg) = false
  cases inItems items t <;> cases decide neg <;> simp

/-- **One turn of the loop** for each kind of token. -/
theorem Spells.turn {p : Bytes} {test : UInt8 → Bool} {ts : List (Token UInt8)}
    (h : Spells p (.one test :: ts)) : ∃ rest, Spells rest ts ∧ Turn p rest test := by
  generalize hts : Token.one test :: ts = ts' at h
  cases h with
  | nil | star => cases hts
  | @any p _ h =>
    cases hts
    exact ⟨p, h, Nat.lt_succ_self _, fun _ => doMatch.eq_def _ _ _, fun _ _ _ => doMatch.eq_def _ _ _,
      fun _ => doMatchCalls.eq_def _ _ _, fun _ _ _ => doMatchCalls.eq_def _ _ _⟩
  | @quoted p _ c h =>
    cases hts
    refine ⟨p, h, by simp only [List.length_cons]; omega, fun _ => doMatch.eq_def _ _ _, fun _ t _ => ?_,
      fun _ => doMatchCalls.eq_def _ _ _, fun _ t _ => ?_⟩
    · simp [doMatch]
    · simp [doMatchCalls]
  | unquoted =>
    cases hts
    exact ⟨[], Spells.nil, Nat.zero_lt_one, fun _ => doMatch.eq_def _ _ _, fun _ _ _ => doMatch.eq_def _ _ _,
      fun _ => doMatchCalls.eq_def _ _ _, fun _ _ _ => doMatchCalls.eq_def _ _ _⟩
  | @charClass q p _ _ hq h =>
    cases hts
    refine ⟨p, h, (charClass_length hq).trans (Nat.lt_succ_self _), fun _ => doMatch.eq_def _ _ _,
      fun fuel t s => (doMatch.eq_def _ _ _).trans ?_, fun _ => doMatchCalls.eq_def _ _ _,
      fun fuel t s => (doMatchCalls.eq_def _ _ _).trans ?_⟩
    · obtain ⟨hrest, htest⟩ := charClass_eq hq t
      show (if _ = _ then MatchResult.failed else doMatch fuel s _) = _
      rw [hrest]
      cases ht : test t with
      | false => exact if_pos (htest.mpr ht)
      | true => exact if_neg (mt htest.mp (by rw [ht]; decide))
    · obtain ⟨hrest, htest⟩ := charClass_eq hq t
      show (if _ = _ then 0 else doMatchCalls fuel s _) = _
      rw [hrest]
      cases ht : test t with
      | false => exact if_pos (htest.mpr ht)
      | true => exact if_neg (mt htest.mp (by rw [ht]; decide))
  | @literal c p _ hc h =>
    cases hts
    simp only [List.mem_cons, List.not_mem_nil, or_false, not_or] at hc
    refine ⟨p, h, Nat.lt_succ_self _, fun _ => ?_, fun _ t _ => (doMatch.eq_def _ _ _).trans ?_,
      fun _ => doMatchCalls.eq_def _ _ _, fun _ t _ => (doMatchCalls.eq_def _ _ _).trans ?_⟩
    · simp [doMatch, hc]
    · simp [hc]
    · simp [hc]

theorem doMatch_star (fuel : Nat) (text ps : Bytes) :
    doMatch (fuel + 1) text (42 :: ps) =
      match ps.dropWhile (· = 42) with
      | [] => .matched
      | q :: qs => doMatch.starLoop fuel (q :: qs) text := by
  rw [doMatch.eq_def]
  cases text with
  | nil =>
    cases h : ps.dropWhile (· = 42) with
    | nil => simp [h]
    | cons q qs => simp [h, doMatch.starLoop]
  | cons t text => rfl

theorem doMatchCalls_star (fuel : Nat) (text ps : Bytes) :
    doMatchCalls (fuel + 1) text (42 :: ps) =
      match ps.dropWhile (· = 42) with
      | [] => 0
      | q :: qs => doMatchCalls.starCalls fuel (q :: qs) text := by
  rw [doMatchCalls.eq_def]
  cases text with
  | nil =>
    cases h : ps.dropWhile (· = 42) with
    | nil => rfl
    | cons q qs => simp [doMatchCalls.starCalls]
  | cons t text => rfl

/-- The loop skips a run of stars. -/
theorem Spells.skipStars {p : Bytes} {ts : List (Token UInt8)} (h : Spells p ts) : ∃ k ts',
    ts = List.replicate k .star ++ ts' ∧ Spells (p.dropWhile (· = 42)) ts' ∧
      ((p.dropWhile (· = 42) = [] ∧ ts' = []) ∨ ∃ test ts'', ts' = .one test :: ts'') := by
  induction h with
  | nil => exact ⟨0, [], rfl, Spells.nil, .inl ⟨rfl, rfl⟩⟩
  | star _ ih =>
    obtain ⟨k, ts', rfl, h, hcases⟩ := ih
    exact ⟨k + 1, ts', rfl, h, hcases⟩
  | any h => exact ⟨0, _, rfl, Spells.any h, .inr ⟨_, _, rfl⟩⟩
  | quoted c h => exact ⟨0, _, rfl, Spells.quoted c h, .inr ⟨_, _, rfl⟩⟩
  | unquoted => exact ⟨0, _, rfl, Spells.unquoted, .inr ⟨_, _, rfl⟩⟩
  | charClass hq h => exact ⟨0, _, rfl, Spells.charClass hq h, .inr ⟨_, _, rfl⟩⟩
  | @literal c p _ hc h =>
    refine ⟨0, _, rfl, ?_, .inr ⟨_, _, rfl⟩⟩
    have h42 : c ≠ 42 := fun heq => hc (by simp [heq])
    rw [List.dropWhile_cons_of_neg (by simpa using h42)]
    exact Spells.literal hc h

/-! ## §4 — what `wildmat` decides -/

/-- What an answer of `DoMatch` says. -/
def MatchResult.Says (ts : List (Token UInt8)) (text : Bytes) : MatchResult → Prop
  | .matched => Matches ts text
  | .failed => ¬ Matches ts text
  | .abort => Hopeless ts text

/-- The loop of a star never fails: it finds a match or gives up for good. -/
theorem says_starLoop {fuel : Nat} {p : Bytes} {test : UInt8 → Bool} {ts : List (Token UInt8)}
    (h : ∀ text, (doMatch fuel text p).Says (.one test :: ts) text) (text : Bytes) :
    doMatch.starLoop fuel p text ≠ .failed ∧
      (doMatch.starLoop fuel p text).Says (.star :: .one test :: ts) text := by
  induction text with
  | nil =>
    rw [doMatch.starLoop]
    exact ⟨by decide, hopeless_nil.star⟩
  | cons t text ih =>
    have hfirst := h (t :: text)
    rw [doMatch.starLoop]
    cases hr : doMatch fuel (t :: text) p with
    | matched =>
      rw [hr] at hfirst
      exact ⟨by simp, Matches.skip hfirst⟩
    | abort =>
      rw [hr] at hfirst
      exact ⟨by simp, Hopeless.star hfirst⟩
    | failed =>
      rw [hr] at hfirst
      refine ⟨ih.1, ?_⟩
      have hrest := ih.2
      show MatchResult.Says _ _ (doMatch.starLoop fuel p text)
      cases hs : doMatch.starLoop fuel p text with
      | matched =>
        rw [hs] at hrest
        exact Matches.take t hrest
      | abort =>
        rw [hs] at hrest
        refine Hopeless.cons (fun hm => ?_) hrest
        cases hm with
        | skip hm => exact hfirst hm
        | take _ hm => exact hrest.not_matches hm
      | failed => exact absurd hs ih.1

theorem Spells.eq_nil {p : Bytes} (h : Spells p []) : p = [] := by
  cases h
  rfl

theorem Spells.of_star {p : Bytes} {ts : List (Token UInt8)} (h : Spells p (.star :: ts)) :
    ∃ ps, p = 42 :: ps ∧ Spells ps ts := by
  cases h with
  | star h => exact ⟨_, rfl, h⟩

theorem MatchResult.says_congr {r : MatchResult} {ts ts' : List (Token UInt8)} {text : Bytes}
    (h : ∀ s, Matches ts s ↔ Matches ts' s) : r.Says ts text ↔ r.Says ts' text := by
  cases r with
  | matched => exact h text
  | failed => exact not_congr (h text)
  | abort => exact forall₂_congr fun s _ => not_congr (h s)

/-- The answer behind a character that passes. -/
theorem MatchResult.Says.one {r : MatchResult} {test : UInt8 → Bool} {ts : List (Token UInt8)} {t : UInt8}
    {text : Bytes} (ht : test t = true) (h : r.Says ts text) : r.Says (.one test :: ts) (t :: text) := by
  cases r with
  | matched => exact Matches.one ht h
  | failed => exact fun hm => h (matches_one_cons.mp hm).2
  | abort => exact Hopeless.one h

/-- **`DoMatch` on a closed pattern.** -/
theorem says_doMatch {fuel : Nat} {p : Bytes} {ts : List (Token UInt8)} (hfuel : p.length < fuel)
    (h : Spells p ts) (text : Bytes) : (doMatch fuel text p).Says ts text := by
  induction fuel generalizing p ts text with
  | zero => omega
  | succ fuel ih =>
    cases ts with
    | nil =>
      rw [h.eq_nil, doMatch.eq_def]
      show MatchResult.Says [] text (if text = [] then .matched else .failed)
      split_ifs with htext
      · exact matches_nil.mpr htext
      · exact fun hm => htext (matches_nil.mp hm)
    | cons token ts =>
      cases token with
      | one test =>
        obtain ⟨rest, hrest, hturn⟩ := h.turn
        have hshort := hturn.shorter
        cases text with
        | nil =>
          rw [hturn.abort]
          exact hopeless_nil
        | cons t text =>
          rw [hturn.step]
          split_ifs with ht
          · exact (ih (by omega) hrest text).one ht
          · exact fun hm => ht (matches_one_cons.mp hm).1
      | star =>
        obtain ⟨ps, rfl, hps⟩ := h.of_star
        obtain ⟨k, ts, rfl, hp, hcases⟩ := hps.skipStars
        have hlen := (List.dropWhile_suffix (l := ps) (· = 42)).length_le
        rw [List.length_cons] at hfuel
        rw [doMatch_star]
        rcases hcases with ⟨hnil, rfl⟩ | ⟨test, ts, rfl⟩
        · rw [hnil]
          exact (matches_stars k).mpr (matches_star_self text)
        · have hloop := (says_starLoop (fun text => ih (by omega) hp text) text).2
          cases hq : ps.dropWhile (· = 42) with
          | nil =>
            rw [hq] at hp
            cases hp
          | cons q qs =>
            rw [hq] at hloop
            exact (MatchResult.says_congr fun s => matches_stars k).mpr hloop

/-- **`wildmat` decides what its pattern stands for**: a text is matched exactly if it is one of the
strings the pattern is written for. -/
theorem wildmat_iff {p : Bytes} {ts : List (Token UInt8)} (h : Spells p ts) (text : Bytes) :
    wildmat text p = true ↔ Matches ts text := by
  by_cases hstar : p = [42]
  · subst hstar
    obtain ⟨ps, heq, hps⟩ : ∃ ps, [42] = 42 :: ps ∧ ∃ ts', ts = .star :: ts' ∧ Spells ps ts' := by
      cases h with
      | star h => exact ⟨[], rfl, _, rfl, h⟩
      | literal hc => exact absurd List.mem_cons_self hc
    obtain ⟨ts', rfl, hps⟩ := hps
    cases (List.cons.inj heq).2
    cases hps
    exact iff_of_true (by simp [wildmat]) (matches_star_self text)
  · have hsays := says_doMatch (Nat.lt_succ_self p.length) h text
    have hw : wildmat text p = (doMatch (p.length + 1) text p == .matched) := by
      simp [wildmat, hstar]
    rw [hw, beq_iff_eq]
    cases hr : doMatch (p.length + 1) text p with
    | matched =>
      rw [hr] at hsays
      exact iff_of_true rfl hsays
    | failed =>
      rw [hr] at hsays
      exact iff_of_false (by decide) hsays
    | abort =>
      rw [hr] at hsays
      exact iff_of_false (by decide) hsays.not_matches

/-- `*[a-c]?`: a star, a class and any character. -/
theorem spells_range : Spells [42, 91, 97, 45, 99, 93, 63]
    [.star, .one fun c => inItems [(97, 97), (97, 99)] c ^^ false, .one fun _ => true] :=
  Spells.star (Spells.charClass rfl (Spells.any Spells.nil))

theorem wildmat_iff_range : wildmat [120, 98, 122] [42, 91, 97, 45, 99, 93, 63] = true :=
  (wildmat_iff spells_range _).mpr (Matches.take _ (Matches.skip (Matches.one rfl (Matches.one rfl Matches.nil))))

/-- The lists of the server that hold patterns. -/
theorem nlmatch_iff {name : Bytes} {nl : NamList} (h : ∀ p ∈ nl.names, ∃ ts, Spells p ts) :
    nlmatch name nl = true ↔ ∃ p ∈ nl.names, ∃ ts, Spells p ts ∧ Matches ts name := by
  rw [nlmatch, List.any_eq_true]
  refine exists_congr fun p => and_congr_right fun hp => ?_
  constructor
  · intro hw
    obtain ⟨ts, hts⟩ := h p hp
    exact ⟨ts, hts, (wildmat_iff hts name).mp hw⟩
  · rintro ⟨ts, hts, hm⟩
    exact (wildmat_iff hts name).mpr hm

/-! ## §5 — how often `DoMatch` is called -/

/-- The loop of one star: a call that fails has made none itself, and after any other the loop ends. -/
theorem starCalls_le {fuel : Nat} {p : Bytes}
    (hcalls : ∀ text : Bytes, doMatchCalls fuel text p ≤ text.length - 1)
    (hfailed : ∀ text, doMatch fuel text p = .failed → doMatchCalls fuel text p = 0) (text : Bytes) :
    doMatchCalls.starCalls fuel p text ≤ text.length := by
  induction text with
  | nil =>
    rw [doMatchCalls.starCalls]
    exact Nat.le_refl 0
  | cons t text ih =>
    have hfirst := hcalls (t :: text)
    rw [List.length_cons] at hfirst ⊢
    rw [doMatchCalls.starCalls]
    cases hr : doMatch fuel (t :: text) p with
    | failed =>
      have := hfailed _ hr
      simp only
      omega
    | matched | abort =>
      simp only
      omega

theorem doMatchCalls_le {fuel : Nat} {p : Bytes} {ts : List (Token UInt8)} (hfuel : p.length < fuel)
    (h : Spells p ts) (text : Bytes) :
    doMatchCalls fuel text p ≤ text.length ∧
      ((∃ test ts', ts = .one test :: ts') → doMatchCalls fuel text p ≤ text.length - 1) ∧
      (doMatch fuel text p = .failed → doMatchCalls fuel text p = 0) := by
  induction fuel generalizing p ts text with
  | zero => omega
  | succ fuel ih =>
    cases ts with
    | nil =>
      have hnone : doMatchCalls (fuel + 1) text p = 0 := by
        rw [h.eq_nil]
        exact doMatchCalls.eq_def _ _ _
      rw [hnone]
      exact ⟨Nat.zero_le _, fun _ => Nat.zero_le _, fun _ => rfl⟩
    | cons token ts =>
      cases token with
      | one test =>
        obtain ⟨rest, hrest, hturn⟩ := h.turn
        have hshort := hturn.shorter
        cases text with
        | nil =>
          rw [hturn.none]
          exact ⟨Nat.le_refl 0, fun _ => Nat.le_refl 0, fun _ => rfl⟩
        | cons t text =>
          obtain ⟨hle, -, hfailed⟩ := ih (by omega) hrest text
          rw [hturn.calls, hturn.step, List.length_cons]
          split_ifs
          · exact ⟨by omega, fun _ => by omega, hfailed⟩
          · exact ⟨Nat.zero_le _, fun _ => Nat.zero_le _, fun _ => rfl⟩
      | star =>
        obtain ⟨ps, rfl, hps⟩ := h.of_star
        obtain ⟨k, ts, rfl, hp, hcases⟩ := hps.skipStars
        have hlen := (List.dropWhile_suffix (l := ps) (· = 42)).length_le
        rw [List.length_cons] at hfuel
        rw [doMatch_star, doMatchCalls_star]
        rcases hcases with ⟨hnil, rfl⟩ | ⟨test, ts, rfl⟩
        · rw [hnil]
          exact ⟨Nat.zero_le _, by rintro ⟨_, _, ⟨⟩⟩, fun _ => rfl⟩
        cases hq : ps.dropWhile (· = 42) with
        | nil =>
          rw [hq] at hp
          cases hp
        | cons q qs =>
          rw [hq] at hp hlen
          have hbound := starCalls_le (fun text => (ih (by omega) hp text).2.1 ⟨_, _, rfl⟩)
            (fun text => (ih (by omega) hp text).2.2) text
          -- the loop of a star never fails
          have hloop : doMatch.starLoop fuel (q :: qs) text ≠ .failed :=
            (says_starLoop (fun text => says_doMatch (by omega) hp text) text).1
          exact ⟨hbound, by rintro ⟨_, _, ⟨⟩⟩, fun hr => absurd hr hloop⟩

/-- **The `ABORT` at work.** However many stars the pattern has, `wildmat` calls `DoMatch` at most once for
each position of the text. -/
theorem wildmat_calls {p : Bytes} {ts : List (Token UInt8)} (h : Spells p ts) (text : Bytes) :
    1 + doMatchCalls (p.length + 1) text p ≤ 1 + text.length :=
  Nat.add_le_add_left (doMatchCalls_le (Nat.lt_succ_self _) h text).1 1

theorem wildmat_calls_range :
    1 + doMatchCalls 8 [120, 98, 122] [42, 91, 97, 45, 99, 93, 63] ≤ 1 + 3 :=
  wildmat_calls spells_range _

end Icbd
