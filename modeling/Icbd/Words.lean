/-
# Icbd.Words — the words of an argument.

`getword` copies the first word of a string into a static buffer of 64 bytes and `get_tail` skips it and the
blanks behind it; the commands take their arguments apart by calling the two in turn. The words of a string
are what `List.splitOnP` leaves between blanks and tabs. The loop of `getword` stops after 64 characters and
stores the NUL behind them all the same, so a word has to be shorter than that; and a blank in front of the
first word is taken for the end of an empty one.
-/
import Mathlib.Data.List.TakeWhile
import Mathlib.Logic.Function.Iterate
import Icbd.Text

namespace Icbd

/-! ## §1 — `getword` and its buffer -/

/-- The stores of `getword` to `word[]`, index and byte, once `w - word` characters are copied. -/
def getwordStores (w : Nat) : Bytes → List (Nat × UInt8)
  | [] => [(w, 0)]
  | b :: bs => if !isBlank b ∧ w < 64 then (w, b) :: getwordStores (w + 1) bs else [(w, 0)]

/-- The memory behind `word` after some stores. -/
def stored (mem : Nat → UInt8) (sts : List (Nat × UInt8)) : Nat → UInt8 :=
  sts.foldl (fun mem st i => if i = st.1 then st.2 else mem i) mem

/-- The first word, whole. -/
def firstWord (s : Bytes) : Bytes := s.takeWhile fun b => !isBlank b

theorem getword_eq (s : Bytes) : getword s = (firstWord s).take 64 := rfl

/-- What is stored below an index stays when the stores go on from there. -/
theorem stored_before {mem : Nat → UInt8} {w i : Nat} (s : Bytes) (h : i < w) :
    stored mem (getwordStores w s) i = mem i := by
  induction s generalizing w mem with
  | nil => simp [getwordStores, stored, show i ≠ w by omega]
  | cons b bs ih =>
    unfold getwordStores
    split
    · show stored _ (getwordStores (w + 1) bs) i = mem i
      rw [ih (by omega)]
      exact if_neg (by simp only; omega)
    · simp [stored, show i ≠ w by omega]

/-- The string that stands in memory behind `w` characters after the stores: the rest of the word up to the
64 characters, and a NUL. -/
theorem stored_word (mem : Nat → UInt8) (w : Nat) (s : Bytes) :
    (∀ i (h : i < ((firstWord s).take (64 - w)).length),
      stored mem (getwordStores w s) (w + i) = ((firstWord s).take (64 - w))[i]) ∧
    stored mem (getwordStores w s) (w + ((firstWord s).take (64 - w)).length) = 0 := by
  induction s generalizing w mem with
  | nil => simp [getwordStores, stored, firstWord]
  | cons b bs ih =>
    unfold getwordStores
    split
    next hb =>
      obtain ⟨k, hk⟩ : ∃ k, 64 - w = k + 1 := ⟨63 - w, by omega⟩
      have htake : (firstWord (b :: bs)).take (64 - w) = b :: (firstWord bs).take (64 - (w + 1)) := by
        rw [hk, show 64 - (w + 1) = k by omega]
        simp [firstWord, hb.1]
      obtain ⟨hchars, hnul⟩ := ih (fun i => if i = w then b else mem i) (w + 1)
      rw [htake]
      refine ⟨fun i hi => ?_, ?_⟩
      · show stored _ (getwordStores (w + 1) bs) (w + i) = _
        cases i with
        | zero => rw [stored_before bs (by omega)]; simp
        | succ i =>
          rw [show w + (i + 1) = w + 1 + i by omega]
          exact hchars i (by simpa using hi)
      · show stored _ (getwordStores (w + 1) bs) _ = 0
        rw [List.length_cons, ← hnul]
        congr 1
        omega
    next hb =>
      have hnil : (firstWord (b :: bs)).take (64 - w) = [] := by
        by_cases hblank : isBlank b
        · simp [firstWord, hblank]
        · rw [show 64 - w = 0 by simp [hblank] at hb; omega, List.take_zero]
      simp [hnil, stored]

/-- The static buffer holds what `getword` returns. -/
theorem stored_getword (mem : Nat → UInt8) (s : Bytes) :
    (∀ i (h : i < (getword s).length), stored mem (getwordStores 0 s) i = (getword s)[i]) ∧
      stored mem (getwordStores 0 s) (getword s).length = 0 := by
  simpa [getword_eq] using stored_word mem 0 s

/-- All stores stay inside the buffer if and only if the word is shorter than it. -/
theorem getwordStores_inside {w : Nat} (hw : w ≤ 64) (s : Bytes) :
    (∀ st ∈ getwordStores w s, st.1 < 64) ↔ w + (firstWord s).length < 64 := by
  induction s generalizing w with
  | nil => simp [getwordStores, firstWord]
  | cons b bs ih =>
    by_cases hblank : isBlank b
    · simp [getwordStores, firstWord, hblank]
    · have hlen : (firstWord (b :: bs)).length = (firstWord bs).length + 1 := by
        simp [firstWord, hblank]
      by_cases hroom : w < 64
      · rw [getwordStores, if_pos ⟨by simpa using hblank, hroom⟩, hlen, List.forall_mem_cons, ih hroom]
        omega
      · rw [getwordStores, if_neg fun h => hroom h.2, hlen]
        simp
        omega

/-- A word that fits. -/
theorem getword_eq_self {s : Bytes} (hs : ∀ b ∈ s, isBlank b = false) (hlen : s.length ≤ 64) : getword s = s := by
  have hpos : ∀ b ∈ s, (!isBlank b) = true := fun b hb => by simp [hs b hb]
  rw [getword, List.takeWhile_eq_self_iff.mpr hpos, List.take_of_length_le hlen]

/-- A word that fits, a blank and what does not begin with another. -/
theorem word_blank {s t : Bytes} (hs : ∀ b ∈ s, isBlank b = false) (hlen : s.length ≤ 64)
    (ht : t.head?.any isBlank = false) : getword (s ++ 32 :: t) = s ∧ getTail (s ++ 32 :: t) = t := by
  have hpos : ∀ b ∈ s, (!isBlank b) = true := fun b hb => by simp [hs b hb]
  constructor
  · rw [getword, List.takeWhile_append_of_pos hpos, List.takeWhile_cons_of_neg (by decide), List.append_nil,
      List.take_of_length_le hlen]
  · rw [getTail, List.dropWhile_append_of_pos hpos, List.dropWhile_cons_of_neg (by decide),
      List.dropWhile_cons_of_pos (by decide)]
    cases t with
    | nil => rfl
    | cons b bs => exact List.dropWhile_cons_of_neg (by simpa using ht)

/-! ## §2 — words -/

/-- The words of a string: what stands between blanks and tabs. -/
def words (s : Bytes) : List Bytes := (s.splitOnP isBlank).filter (· ≠ [])

theorem words_nil : words [] = [] := rfl

/-- A blank belongs to no word. -/
theorem words_blank {b : UInt8} (hb : isBlank b) (s : Bytes) : words (b :: s) = words s := by
  simp [words, List.splitOnP_cons_eq_if_modifyHead, hb]

/-- Nor do the blanks in front. -/
theorem words_dropBlanks (s : Bytes) : words (s.dropWhile isBlank) = words s := by
  induction s with
  | nil => rfl
  | cons b bs ih =>
    by_cases hb : isBlank b
    · rw [List.dropWhile_cons_of_pos hb, ih, words_blank hb]
    · rw [List.dropWhile_cons_of_neg hb]

/-- A string is its first word and a rest that is empty or starts with a blank. -/
theorem firstWord_append (s : Bytes) : ∃ rest, s = firstWord s ++ rest ∧ (∀ b ∈ rest.head?, isBlank b) ∧
    getTail s = rest.dropWhile isBlank := by
  refine ⟨s.dropWhile fun b => !isBlank b, List.takeWhile_append_dropWhile.symm, fun b hb => ?_, rfl⟩
  have := List.head?_dropWhile_not (fun b => !isBlank b) s
  rw [Option.mem_def.mp hb] at this
  simpa using this

theorem firstWord_no_blank (s : Bytes) : ∀ b ∈ firstWord s, isBlank b = false := by
  intro b hb
  simpa using List.mem_takeWhile_imp hb

/-- The first word is the first of the words, if there is no blank in front of it. -/
theorem words_eq_cons {s : Bytes} (hne : firstWord s ≠ []) :
    words s = firstWord s :: words (getTail s) := by
  obtain ⟨rest, hs, hblank, htail⟩ := firstWord_append s
  have hfree := firstWord_no_blank s
  rw [htail, words_dropBlanks]
  conv_lhs => rw [hs]
  cases rest with
  | nil =>
    rw [List.append_nil]
    simp [words, List.splitOnP_eq_singleton hfree, hne]
  | cons b bs =>
    have hb : isBlank b := hblank b rfl
    rw [words_blank hb]
    simp [words, List.splitOnP_append_cons_of_forall_mem hfree b hb, hne]

/-! ## §3 — one word after the other -/

theorem getTail_length_lt {s : Bytes} (h : s ≠ []) : (getTail s).length < s.length := by
  cases s with
  | nil => exact absurd rfl h
  | cons b bs =>
    have hskip (p q : UInt8 → Bool) (t : Bytes) : ((t.dropWhile p).dropWhile q).length ≤ t.length :=
      ((List.dropWhile_sublist q).trans (List.dropWhile_sublist p)).length_le
    unfold getTail
    by_cases hb : isBlank b
    · rw [List.dropWhile_cons_of_neg (by simpa using hb), List.dropWhile_cons_of_pos hb]
      exact Nat.lt_succ_of_le (List.dropWhile_sublist _).length_le
    · rw [List.dropWhile_cons_of_pos (by simpa using hb)]
      exact Nat.lt_succ_of_le (hskip _ _ bs)

/-- What `getword` returns on the string, on its tail, and so on to the end. -/
def tokens (s : Bytes) : List Bytes :=
  if _ : s = [] then [] else getword s :: tokens (getTail s)
termination_by s.length
decreasing_by exact getTail_length_lt ‹_›

theorem tokens_cons {s : Bytes} (h : s ≠ []) : tokens s = getword s :: tokens (getTail s) := by
  rw [tokens, dif_neg h]

/-- Calling `get_tail` again and again comes to an end. -/
theorem getTail_ends (s : Bytes) : ∃ k, getTail^[k] s = [] := by
  induction hn : s.length using Nat.strongRecOn generalizing s with
  | ind n ih =>
    by_cases hs : s = []
    · exact ⟨0, hs⟩
    · obtain ⟨k, hk⟩ := ih _ (hn ▸ getTail_length_lt hs) (getTail s) rfl
      exact ⟨k + 1, hk⟩

/-- A string without a blank in front keeps that in its tails, and a word that is not the first comes up in
one of them. -/
theorem getTail_no_blank (s : Bytes) : (getTail s).head?.any isBlank = false := by
  have := List.head?_dropWhile_not isBlank (s.dropWhile fun b => !isBlank b)
  unfold getTail
  cases hh : ((s.dropWhile fun b => !isBlank b).dropWhile isBlank).head? with
  | none => rfl
  | some b =>
    rw [hh] at this
    simpa using this

theorem firstWord_ne_nil {s : Bytes} (hs : s ≠ []) (hhead : s.head?.any isBlank = false) :
    firstWord s ≠ [] := by
  cases s with
  | nil => exact absurd rfl hs
  | cons b bs =>
    have hb : isBlank b = false := by simpa using hhead
    simp [firstWord, hb]

/-- What the claim to tokenise faithfully comes to, for a string and all its tails. -/
structure Tokenises (s : Bytes) : Prop where
  /-- `getword` stores inside its buffer, the NUL included. -/
  inside : ∀ k, ∀ st ∈ getwordStores 0 (getTail^[k] s), st.1 < 64
  /-- It returns the longest prefix without a blank, cut to 63 characters. -/
  cut : ∀ k, getword (getTail^[k] s) = (firstWord (getTail^[k] s)).take 63
  /-- The tails come to an end. -/
  ends : ∃ k, getTail^[k] s = []
  /-- The words come out in order. -/
  tokens : tokens s = words s

/-- Every word of the string is shorter than the buffer. -/
def ShortWords (s : Bytes) : Prop := ∀ w ∈ words s, w.length < 64

theorem ShortWords.tail {s : Bytes} (h : ShortWords s) : ShortWords (getTail s) := by
  by_cases hne : firstWord s = []
  · obtain ⟨rest, hs, -, htail⟩ := firstWord_append s
    rw [hne, List.nil_append] at hs
    intro w hw
    rw [htail, words_dropBlanks, ← hs] at hw
    exact h w hw
  · intro w hw
    rw [ShortWords, words_eq_cons hne] at h
    exact h w (List.mem_cons_of_mem _ hw)

theorem ShortWords.first {s : Bytes} (h : ShortWords s) : (firstWord s).length < 64 := by
  by_cases hne : firstWord s = []
  · simp [hne]
  · rw [ShortWords, words_eq_cons hne] at h
    exact h _ List.mem_cons_self

theorem ShortWords.iterate {s : Bytes} (h : ShortWords s) (k : Nat) : ShortWords (getTail^[k] s) := by
  induction k generalizing s with
  | zero => exact h
  | succ k ih => exact ih h.tail

/-- Short words come out one by one. -/
theorem tokens_eq_words {s : Bytes} (h : ShortWords s) (hhead : s.head?.any isBlank = false) :
    tokens s = words s := by
  induction hn : s.length using Nat.strongRecOn generalizing s with
  | ind n ih =>
    by_cases hs : s = []
    · rw [hs, tokens, dif_pos rfl, words_nil]
    · rw [tokens_cons hs, words_eq_cons (firstWord_ne_nil hs hhead), getword_eq,
        List.take_of_length_le (by have := h.first; omega),
        ih _ (hn ▸ getTail_length_lt hs) h.tail (getTail_no_blank s) rfl]

/-- If no call of `getword` leaves its buffer, the words are short. -/
theorem shortWords_of_inside {s : Bytes} (h : ∀ k, (firstWord (getTail^[k] s)).length < 64) :
    ShortWords s := by
  induction hn : s.length using Nat.strongRecOn generalizing s with
  | ind n ih =>
    by_cases hs : s = []
    · rw [hs]
      exact nofun
    · have htail := ih _ (hn ▸ getTail_length_lt hs) (fun k => h (k + 1)) rfl
      by_cases hne : firstWord s = []
      · obtain ⟨rest, hs', -, hrest⟩ := firstWord_append s
        rw [hne, List.nil_append] at hs'
        rwa [ShortWords, hrest, words_dropBlanks, ← hs'] at htail
      · rw [ShortWords, words_eq_cons hne, List.forall_mem_cons]
        exact ⟨h 0, htail⟩

/-- **`getword` and `get_tail` tokenise** a string faithfully and in bounds if and only if it does not start
with a blank or tab and all its words are shorter than 64 bytes. -/
theorem tokenises_iff (s : Bytes) : Tokenises s ↔ s.head?.any isBlank = false ∧ ShortWords s := by
  constructor
  · intro h
    have hshort : ShortWords s := by
      refine shortWords_of_inside fun k => ?_
      simpa using (getwordStores_inside (Nat.zero_le 64) _).mp (h.inside k)
    refine ⟨?_, hshort⟩
    -- a blank in front makes an empty word, and there are none among the words
    cases s with
    | nil => rfl
    | cons b bs =>
      by_contra hblank
      have hb : isBlank b := by simpa using hblank
      have hempty : ([] : Bytes) ∈ words (b :: bs) := by
        rw [← h.tokens, tokens_cons (List.cons_ne_nil b bs)]
        simp [getword, hb]
      simp [words] at hempty
  · rintro ⟨hhead, hshort⟩
    have hlen (k : Nat) := (hshort.iterate k).first
    refine ⟨fun k => ?_, fun k => ?_, getTail_ends s, tokens_eq_words hshort hhead⟩
    · rw [getwordStores_inside (Nat.zero_le 64)]
      simpa using hlen k
    · have := hlen k
      rw [getword_eq, List.take_of_length_le (by omega), List.take_of_length_le (by omega)]

/-- A word of 64 characters: its NUL is stored behind the buffer. -/
theorem long_word_overflows : ¬ ∀ s : Bytes, Tokenises s := by
  intro h
  have hinside := (h (List.replicate 64 97)).inside 0 (64, 0) (by decide)
  exact absurd hinside (by decide)

/-- A blank in front of the only word: the first token is empty. -/
example : tokens (str " a") = [[], str "a"] := by
  rw [tokens_cons (by decide), tokens_cons (by decide)]
  simp [tokens, getTail, getword, str, isBlank]

end Icbd
