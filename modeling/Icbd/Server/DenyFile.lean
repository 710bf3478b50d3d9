/-
# Icbd.Server.DenyFile — the access file, read a character at a time.

A line of the file is a pattern and the reason for it. The scan of `loginmsg` does not know lines: every word
with white space behind it is matched against the address, and what follows the first that matches, up to the
end of the line, is the reason. So the words of a reason are patterns too.
-/
import Icbd.Server.Poll

namespace Icbd.Server

open Icbd.Lib

/-! ## §1 — lines and words -/

/-- The lines of a file. -/
def denyLines (c : Bytes) : List Bytes := c.splitOn 10

/-- The first word of a line. -/
def linePattern (l : Bytes) : Bytes := (l.dropWhile isspace).takeWhile fun b => !isspace b

/-- The rest of the line. -/
def lineReason (l : Bytes) : Bytes := ((l.dropWhile isspace).dropWhile fun b => !isspace b).tail

/-- A word of the file with white space behind it. -/
structure FileWord where
  word : Bytes
  /-- No word stands in front of it on its line. -/
  first : Bool
  gap : UInt8
  behind : Bytes
  deriving DecidableEq, Repr

/-- These words, in order; `cur` is what is read of the next. -/
def fileWords : Bool → Bytes → Bytes → List FileWord
  | _, _, [] => []
  | first, cur, b :: bs =>
      if isspace b then ⟨cur, first, b, bs⟩ :: fileWords (b = 10 ∨ first ∧ cur = []) [] bs
      else fileWords first (cur ++ [b]) bs

/-- What is kept of a string: a NUL is overwritten by what follows, and the arrays have 255 bytes. -/
def kept (s : Bytes) : Bytes := (s.filter (· ≠ 0)).take 254

/-- The word is taken for a pattern that matches. -/
def FileWord.hits (addr : Bytes) (t : FileWord) : Bool := wildmat addr (ucaseit (kept t.word))

/-- What is behind the word on its line. -/
def FileWord.text (t : FileWord) : Bytes := t.behind.takeWhile (· ≠ 10)

section
variable {addr word c s : Bytes} {first : Bool} {b : UInt8}

theorem kept_of_short (hlen : s.length ≤ 254) (hnul : (0 : UInt8) ∉ s) : kept s = s := by
  have hall : s.filter (· ≠ 0) = s := List.filter_eq_self.mpr fun b hb => by
    simpa using ne_of_mem_of_not_mem hb hnul
  rw [kept, hall, List.take_of_length_le hlen]

theorem kept_concat (s : Bytes) (b : UInt8) : kept (s ++ [b]) = if b = 0 then kept s else (kept s ++ [b]).take 254 := by
  unfold kept
  split
  next h0 => simp [h0]
  next h0 =>
    rw [List.filter_append, List.filter_cons_of_pos (by simpa using h0), List.filter_nil, List.take_append, List.take_append,
      List.take_take, List.length_take]
    congr 2
    omega

/-- **The scan**: the text behind the first word that matches. -/
theorem denyScan_eq (first : Bool) (c cur : Bytes) :
    denyScan addr (kept cur) c = ((fileWords first cur c).find? (·.hits addr)).map fun t => kept t.text := by
  induction c generalizing first cur with
  | nil => rfl
  | cons b bs ih =>
    unfold denyScan fileWords
    split
    next hspace =>
      rw [List.find?_cons]
      split
      next hhit =>
        have hhit : FileWord.hits addr ⟨cur, first, b, bs⟩ = true := hhit
        rw [hhit]
        rfl
      next hmiss =>
        have hmiss : FileWord.hits addr ⟨cur, first, b, bs⟩ = false := by simpa [FileWord.hits] using hmiss
        rw [hmiss]
        exact ih _ []
    next hword =>
      rw [← kept_concat, ih]

theorem denyLines_cons (b : UInt8) (bs : Bytes) :
    denyLines (b :: bs) = if b = 10 then [] :: denyLines bs else (denyLines bs).modifyHead (b :: ·) := by
  simp [denyLines, List.splitOn_cons_eq_if_modifyHead]

/-- The first line, and the others. -/
theorem denyLines_eq (c : Bytes) : denyLines c = c.takeWhile (· ≠ 10) :: (denyLines c).tail := by
  induction c with
  | nil => rfl
  | cons b bs ih =>
    rw [denyLines_cons]
    split
    next hnl => simp [hnl]
    next hnl => rw [ih, List.takeWhile_cons_of_pos (by simpa using hnl)]; rfl

theorem line_parts {sp cur t : Bytes} (hsp : ∀ b ∈ sp, isspace b = true) (hcur : ∀ b ∈ cur, isspace b = false)
    (hne : cur ≠ []) (hb : isspace b = true) :
    linePattern (sp ++ cur ++ b :: t) = cur ∧ lineReason (sp ++ cur ++ b :: t) = t := by
  have hdrop : (sp ++ cur ++ b :: t).dropWhile isspace = cur ++ b :: t := by
    obtain ⟨d, ds, rfl⟩ := List.exists_cons_of_ne_nil hne
    rw [List.append_assoc, List.dropWhile_append_of_pos hsp, List.cons_append,
      List.dropWhile_cons_of_neg (by simp [hcur d List.mem_cons_self])]
  have hpos : ∀ x ∈ cur, (!isspace x) = true := fun x hx => by simp [hcur x hx]
  unfold linePattern lineReason
  rw [hdrop, List.takeWhile_append_of_pos hpos, List.dropWhile_append_of_pos hpos,
    List.takeWhile_cons_of_neg (by simp [hb]), List.dropWhile_cons_of_neg (by simp [hb])]
  exact ⟨List.append_nil _, rfl⟩

/-- A word that begins its line, with something behind it there, is the first word of a line: of the line
that `sp` and `cur` are read of, or of another. -/
theorem fileWords_line {t : FileWord} (hfirst : t.first = true) (hne : t.word ≠ []) (hgap : t.gap ≠ 10) (sp cur : Bytes)
    (first : Bool) (hsp : first = true → ∀ b ∈ sp, isspace b = true) (hcur : ∀ b ∈ cur, isspace b = false)
    (ht : t ∈ fileWords first cur c) :
    ∃ l, (first = true ∧ l = sp ++ cur ++ c.takeWhile (· ≠ 10) ∨ l ∈ (denyLines c).tail) ∧
      linePattern l = t.word ∧ lineReason l = t.text := by
  induction c generalizing first sp cur with
  | nil => cases ht
  | cons b bs ih =>
    unfold fileWords at ht
    split at ht
    next hspace =>
      obtain rfl | ht := List.mem_cons.mp ht
      · refine ⟨_, .inl ⟨hfirst, rfl⟩, ?_⟩
        rw [List.takeWhile_cons_of_pos (by simpa using hgap)]
        exact line_parts (hsp hfirst) hcur hne hspace
      · by_cases hnl : b = 10
        · obtain ⟨l, hl, hparts⟩ := ih [] [] _ (fun _ _ h => nomatch h) (fun _ h => nomatch h) ht
          refine ⟨l, .inr ?_, hparts⟩
          rw [denyLines_cons, if_pos hnl, List.tail_cons, denyLines_eq]
          exact hl.elim (fun h => h.2 ▸ List.mem_cons_self) (List.mem_cons_of_mem _)
        · have hsp' : decide (b = 10 ∨ first = true ∧ cur = []) = true → ∀ x ∈ sp ++ [b], isspace x = true := by
            intro hstart x hx
            have hfirst' := ((decide_eq_true_iff.mp hstart).resolve_left hnl).1
            obtain hx | hx := List.mem_append.mp hx
            · exact hsp hfirst' x hx
            · rwa [List.mem_singleton.mp hx]
          obtain ⟨l, hl, hparts⟩ := ih (sp ++ [b]) [] _ hsp' (fun _ h => nomatch h) ht
          refine ⟨l, hl.imp (fun h => ?_) fun h => ?_, hparts⟩
          · obtain ⟨hfirst', hcur'⟩ := (decide_eq_true_iff.mp h.1).resolve_left hnl
            refine ⟨hfirst', ?_⟩
            rw [h.2, hcur', List.takeWhile_cons_of_pos (by simpa using hnl)]
            simp
          · rwa [denyLines_cons, if_neg hnl, List.tail_modifyHead]
    next hword =>
      have hnl : b ≠ 10 := by
        rintro rfl
        exact hword rfl
      have hcur' : ∀ x ∈ cur ++ [b], isspace x = false := by
        intro x hx
        obtain hx | hx := List.mem_append.mp hx
        · exact hcur x hx
        · rw [List.mem_singleton.mp hx]
          simpa using hword
      obtain ⟨l, hl, hparts⟩ := ih sp (cur ++ [b]) first hsp hcur' ht
      refine ⟨l, hl.imp (fun h => ⟨h.1, ?_⟩) fun h => ?_, hparts⟩
      · rw [h.2, List.takeWhile_cons_of_pos (by simpa using hnl)]
        simp
      · rwa [denyLines_cons, if_neg hnl, List.tail_modifyHead]

/-! ## §2 — what the file means -/

/-- The line is for this address. -/
def forAddr (addr l : Bytes) : Bool := wildmat addr (ucaseit (linePattern l))

/-- The deny file means what it says: an address is refused if and only if a line is for it, with the reason
of a line that is. -/
structure MeansWhatItSays (addr c : Bytes) (answer : Option Bytes) : Prop where
  refused : answer.isSome ↔ ∃ l ∈ denyLines c, forAddr addr l
  reason : ∀ r, answer = some r → ∃ l ∈ denyLines c, forAddr addr l ∧ lineReason l = r

/-- The word is the pattern of a line that the arrays have room for. -/
def FileWord.Fits (t : FileWord) : Prop :=
  t.first = true ∧ t.word ≠ [] ∧ t.gap ≠ 10 ∧ t.word.length ≤ 254 ∧ (0 : UInt8) ∉ t.word ∧ t.text.length ≤ 254 ∧
    (0 : UInt8) ∉ t.text

/-- The first word of the file that matches the address is the pattern of a line, or has the reason of a line
for the address behind it all the same; no word matches only if no line is for the address. -/
def WellPlaced (addr c : Bytes) : Prop :=
  match (fileWords true [] c).find? (·.hits addr) with
  | none => ∀ l ∈ denyLines c, ¬ forAddr addr l
  | some t => t.Fits ∨ ∃ l ∈ denyLines c, forAddr addr l ∧ lineReason l = kept t.text

/-- The access file holds `c`. -/
def World.withAccess (w : World) (c : Bytes) : World := { w with sys := { w.sys with access := some c } }

theorem denied_eq (w : World) (n : Int) (loginid c : Bytes) :
    denied (w.withAccess c) n loginid =
      ((fileWords true [] c).find? (·.hits (loginAddr w n loginid))).map fun t => kept t.text :=
  denyScan_eq true c []

end

section
attribute [local instance] smallEnv

/-- A pattern that begins with another letter. -/
theorem wildmat_letter {p t : UInt8} {ps ts : Bytes} (hp : p ≠ 42 ∧ p ≠ 63 ∧ p ≠ 92 ∧ p ≠ 91) (hne : t ≠ p) :
    wildmat (t :: ts) (p :: ps) = false := by
  obtain ⟨h₁, h₂, h₃, h₄⟩ := hp
  have hfail : doMatch ((p :: ps).length + 1) (t :: ts) (p :: ps) = .failed := by
    rw [doMatch.eq_def]
    simp only [List.length_cons, if_neg h₁, if_neg h₂, if_neg h₃, if_neg h₄, if_neg hne]
  rw [wildmat, hfail]
  simp [h₁]

/-- The line of the file that comes with the server, with an asterisk in its reason. -/
def starredFile : Bytes := str "root@localhost\tShouldn't happen * at all"

/-- Whoever is called otherwise is refused. -/
theorem starred_denied (w : World) (n : Int) :
    ¬ MeansWhatItSays (loginAddr w n (str "one")) starredFile (denied (w.withAccess starredFile) n (str "one")) := by
  obtain ⟨rest, haddr⟩ : ∃ rest, loginAddr w n (str "one") = 79 :: rest := ⟨_, rfl⟩
  rw [denied_eq, haddr]
  have hmiss (p : UInt8) (ps : Bytes) (hp : p ≠ 42 ∧ p ≠ 63 ∧ p ≠ 92 ∧ p ≠ 91 ∧ 79 ≠ p) :
      wildmat (79 :: rest) (p :: ps) = false := wildmat_letter ⟨hp.1, hp.2.1, hp.2.2.1, hp.2.2.2.1⟩ hp.2.2.2.2
  have hwords : ∃ t ∈ fileWords true [] starredFile, t.hits (79 :: rest) :=
    ⟨⟨str "*", false, 32, str "at all"⟩, by decide, rfl⟩
  intro hmeans
  obtain ⟨l, hl, hfor⟩ := hmeans.refused.mp (by simpa using hwords)
  have hlines : denyLines starredFile = [starredFile] := by decide
  rw [hlines, List.mem_singleton] at hl
  subst hl
  exact Bool.false_ne_true ((hmiss _ _ (by decide)).symm.trans hfor)

end

end Icbd.Server
