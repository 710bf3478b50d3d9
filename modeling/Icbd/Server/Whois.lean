/-
# Icbd.Server.Whois — the text of `/whois`, wrapped.

The loop breaks a line at a newline, at the last blank before the line is full, or in the middle of a word. It
copies what is left behind the last break into the buffer of the lines, and puts the prefix there first only if
there is something left. A text that ends at a break is followed by the line that is still in the buffer.
-/
import Icbd.Server.Poll

namespace Icbd.Server

open Icbd.Lib

/-! ## §1 — breaks -/

/-- How a line ends. -/
inductive TextBreak
  | newline | blank | hyphen
  deriving DecidableEq, Repr

/-- The bytes that are broken at. -/
def TextBreak.gap : TextBreak → Bytes
  | .newline => [10]
  | .blank => [32]
  | .hyphen => []

/-- What is put behind the line. -/
def TextBreak.ends : TextBreak → Bytes
  | .hyphen => str "-"
  | _ => []

/-- The breaks of the word-wrapping loop, one for each of its lines but the last. -/
def textBreaks (line : Bytes) : Nat → Nat → Nat → Nat → Nat → List TextBreak
  | 0, _, _, _, _ => []
  | fuel + 1, s, p, lastw, count =>
      if line.length ≤ p then []
      else if line.getD p 0 = 10 then .newline :: textBreaks line fuel (p + 1) (p + 1) (p + 1) 0
      else
        let lastw := if line.getD p 0 = 32 then p else lastw
        if count = maxTextLen - 1 then
          if p - lastw > 40 then .hyphen :: textBreaks line fuel (p - 1) (p - 1) (p - 1) 0
          else .blank :: textBreaks line fuel (lastw + 1) (lastw + 1) (lastw + 1) 0
        else textBreaks line fuel s (p + 1) lastw (count + 1)

/-- A line without its prefix. -/
def stem (l : Bytes) : Bytes := if str "Text: " <+: l then l.drop 6 else l

/-- The lines without their prefixes and the inserted hyphens, joined at the breaks. -/
def joined : List Bytes → List TextBreak → Bytes
  | l :: ls, .newline :: bs => stem l ++ 10 :: joined ls bs
  | l :: ls, .blank :: bs => stem l ++ 32 :: joined ls bs
  | l :: ls, .hyphen :: bs => (stem l).dropLast ++ joined ls bs
  | ls, [] => ls.flatMap stem
  | [], _ :: _ => []

theorem stem_text (c : Bytes) : stem (str "Text: " ++ c) = c := by
  rw [stem, if_pos (List.prefix_append _ _)]
  rfl

/-- A line that was broken, and the break behind it. -/
theorem joined_cons (c : Bytes) (b : TextBreak) (ls : List Bytes) (bs : List TextBreak) :
    joined ((str "Text: " ++ c ++ b.ends) :: ls) (b :: bs) = c ++ b.gap ++ joined ls bs := by
  rw [List.append_assoc]
  cases b with
  | newline => simp [joined, TextBreak.ends, TextBreak.gap, stem_text]
  | blank => simp [joined, TextBreak.ends, TextBreak.gap, stem_text]
  | hyphen =>
    rw [joined, stem_text, TextBreak.ends, show str "-" = [45] from rfl, List.dropLast_concat]
    simp [TextBreak.gap]

/-! ## §2 — one line -/

/-- The place of the last blank among the first `k` bytes, or 0. -/
def lastBlank (t : Bytes) : Nat → Nat
  | 0 => 0
  | k + 1 => if t.getD k 0 = 32 then k else lastBlank t k

/-- Where the first line of a text breaks, if it does. -/
def breakAfter (t : Bytes) : Option (Nat × TextBreak) :=
  if t.idxOf 10 < t.length ∧ t.idxOf 10 < maxTextLen then some (t.idxOf 10, .newline)
  else if t.length < maxTextLen then none
  else if maxTextLen - 1 - lastBlank t maxTextLen > 40 then some (maxTextLen - 2, .hyphen)
  else some (lastBlank t maxTextLen, .blank)

/-- What follows the line. -/
def restAfter (t : Bytes) (m : Nat) (b : TextBreak) : Bytes := t.drop (m + b.gap.length)

theorem lastBlank_spec (t : Bytes) (k : Nat) : lastBlank t k = 0 ∨ lastBlank t k < k ∧ t.getD (lastBlank t k) 0 = 32 := by
  induction k with
  | zero => exact .inl rfl
  | succ k ih =>
    unfold lastBlank
    split
    · exact .inr ⟨Nat.lt_succ_self k, ‹_›⟩
    · exact ih.imp_right fun h => ⟨h.1.trans (Nat.lt_succ_self k), h.2⟩

/-- A line, what it broke at and what follows make up the text. -/
theorem breakAfter_split {t : Bytes} {m : Nat} {b : TextBreak} (h : breakAfter t = some (m, b)) :
    m + b.gap.length ≤ t.length ∧ 0 < m + b.gap.length ∧ t = t.take m ++ b.gap ++ t.drop (m + b.gap.length) := by
  have hjoin {k : Nat} {c : UInt8} (hk : k < t.length) (hc : t.getD k 0 = c) :
      t = t.take k ++ [c] ++ t.drop (k + 1) := by
    have hget : t[k] = c := (List.getElem_eq_getD 0).trans hc
    rw [List.append_assoc, List.singleton_append, ← hget, List.getElem_cons_drop, List.take_append_drop]
  have hmax : maxTextLen = 63 := rfl
  unfold breakAfter at h
  split_ifs at h with hnl hshort hword
  · cases h
    refine ⟨hnl.1, Nat.succ_pos _, hjoin hnl.1 ?_⟩
    exact (List.getElem_eq_getD 0).symm.trans (List.getElem_idxOf hnl.1)
  · cases h
    refine ⟨?_, by decide, ?_⟩
    · show maxTextLen - 2 ≤ _
      omega
    · show t = t.take (maxTextLen - 2) ++ [] ++ t.drop (maxTextLen - 2)
      rw [List.append_nil, List.take_append_drop]
  · cases h
    obtain hzero | ⟨hlt, hblank⟩ := lastBlank_spec t maxTextLen
    · omega
    · exact ⟨by simp only [TextBreak.gap, List.length_singleton]; omega, Nat.succ_pos _, hjoin (by omega) hblank⟩

/-! ## §3 — the loop -/

section
variable {line t : Bytes} {s k : Nat}

/-- What the loop does with a line: the rest of its turns, and their breaks. -/
def Continues (line : Bytes) (s : Nat) (t temp : Bytes) (fuel : Nat) (ls : List Bytes) (bs : List TextBreak) : Prop :=
  match breakAfter t with
  | none => ls = [(if t = [] then temp else str "Text: ") ++ t] ∧ bs = []
  | some (m, b) =>
      let next := s + (m + b.gap.length)
      let l := str "Text: " ++ t.take m ++ b.ends
      ls = l :: textLines line fuel next next next 0 l ∧ bs = b :: textBreaks line fuel next next next 0

theorem between_take (line : Bytes) (s k : Nat) : between line s (s + k) = (line.drop s).take k := by
  rw [between, List.drop_take, Nat.add_sub_cancel_left]

/-- No newline among the first bytes. -/
theorem idxOf_ge (hno : ∀ i < k, t.getD i 0 ≠ 10) (hk : k ≤ t.length) : k ≤ t.idxOf 10 := by
  by_contra hlt
  have hlt := not_le.mp hlt
  refine hno _ hlt ((List.getElem_eq_getD 0).symm.trans (List.getElem_idxOf (hlt.trans_le hk)))

/-- From the middle of a line, whose first `k` bytes hold no newline, the loop goes on to its end. -/
theorem textLines_scan (temp : Bytes) (d : Nat) (hd : k + d = maxTextLen - 1) (hk : k ≤ t.length) (ht : line.drop s = t)
    (hs : s ≤ line.length) (hno : ∀ i < k, t.getD i 0 ≠ 10) :
    ∃ j ≤ d, ∀ fuel, Continues line s t temp fuel
      (textLines line (fuel + (j + 1)) s (s + k) (s + lastBlank t k) k temp)
      (textBreaks line (fuel + (j + 1)) s (s + k) (s + lastBlank t k) k) := by
  have hmax : maxTextLen = 63 := rfl
  have hlen : line.length - s = t.length := by rw [← ht, List.length_drop]
  have hbyte (i : Nat) : line.getD (s + i) 0 = t.getD i 0 := by simp [← ht]
  induction d using Nat.strongRecOn generalizing k with
  | ind d ih =>
    have hidx := idxOf_ge hno hk
    by_cases hend : t.length ≤ k
    · refine ⟨0, Nat.zero_le _, fun fuel => ?_⟩
      have hnone : breakAfter t = none := by
        rw [breakAfter, if_neg fun h => by omega, if_pos (by omega)]
      simp only [Continues, hnone, textLines, textBreaks, if_pos (show line.length ≤ s + k by omega), ht, and_true]
      by_cases hnil : t = []
      · simp [hnil, show ¬ 0 < k by simp [hnil] at hk; omega]
      · rw [if_neg hnil, if_pos (by have := List.length_pos_iff.mpr hnil; omega)]
    by_cases hnl : t.getD k 0 = 10
    · refine ⟨0, Nat.zero_le _, fun fuel => ?_⟩
      have hk' : k < t.length := not_le.mp hend
      have hfirst : t.idxOf 10 = k := by
        refine le_antisymm (not_lt.mp fun hlt => ?_) hidx
        have hother : (t[k] == 10) = false := List.not_of_lt_findIdx hlt
        exact absurd ((List.getElem_eq_getD 0).trans hnl) (beq_eq_false_iff_ne.mp hother)
      have hsome : breakAfter t = some (k, .newline) := by
        rw [breakAfter, hfirst, if_pos ⟨hk', by omega⟩]
      simp only [Continues, hsome, textLines, textBreaks, if_neg (show ¬ line.length ≤ s + k by omega), hbyte, if_pos hnl,
        between_take, ht, TextBreak.ends, TextBreak.gap, List.append_nil, List.length_singleton, ← Nat.add_assoc, and_self]
    have hno' : ∀ i < k + 1, t.getD i 0 ≠ 10 := fun i hi =>
      (Nat.lt_succ_iff_lt_or_eq.mp hi).elim (hno i) (· ▸ hnl)
    have hlast : (if t.getD k 0 = 32 then s + k else s + lastBlank t k) = s + lastBlank t (k + 1) := by
      rw [lastBlank, apply_ite (s + ·)]
    have hidx' := idxOf_ge hno' (not_le.mp hend)
    cases d with
    | zero =>
      have hfull : maxTextLen = k + 1 := by omega
      have hlong : ¬ t.length < k + 1 := by omega
      refine ⟨0, Nat.zero_le _, fun fuel => ?_⟩
      rw [textLines, textBreaks]
      simp only [if_neg (show ¬ line.length ≤ s + k by omega), hbyte, if_neg hnl, hlast, hfull, Nat.add_sub_cancel, if_true,
        Nat.add_sub_add_left]
      generalize hb : lastBlank t (k + 1) = b at *
      by_cases hword : k - b > 40
      · have hsome : breakAfter t = some (k - 1, .hyphen) := by
          rw [breakAfter, hfull, if_neg fun h => by omega, if_neg hlong, hb]
          exact if_pos hword
        simp only [Continues, hsome, if_pos hword, TextBreak.gap, TextBreak.ends, List.length_nil, Nat.add_zero,
          Nat.add_sub_assoc (show 1 ≤ k by omega), between_take, ht, and_self]
      · have hsome : breakAfter t = some (b, .blank) := by
          rw [breakAfter, hfull, if_neg fun h => by omega, if_neg hlong, hb]
          exact if_neg hword
        simp only [Continues, hsome, if_neg hword, TextBreak.gap, TextBreak.ends, List.length_singleton, List.append_nil,
          ← Nat.add_assoc, between_take, ht, and_self]
    | succ d =>
      obtain ⟨j, hj, hrun⟩ := ih d (Nat.lt_succ_self d) (k := k + 1) (by omega) (not_le.mp hend) hno'
      refine ⟨j + 1, Nat.succ_le_succ hj, fun fuel => ?_⟩
      rw [show fuel + (j + 1 + 1) = fuel + (j + 1) + 1 by omega, textLines, textBreaks]
      simp only [if_neg (show ¬ line.length ≤ s + k by omega), hbyte, if_neg hnl, hlast,
        if_neg (show k ≠ maxTextLen - 1 by omega)]
      exact hrun fuel

/-- From the start of a line. -/
theorem textLines_line (temp : Bytes) (ht : line.drop s = t) (hs : s ≤ line.length) :
    ∃ j < maxTextLen, ∀ fuel, Continues line s t temp fuel (textLines line (fuel + (j + 1)) s s s 0 temp)
      (textBreaks line (fuel + (j + 1)) s s s 0) := by
  obtain ⟨j, hj, hrun⟩ := textLines_scan temp (maxTextLen - 1) (Nat.zero_add _) (Nat.zero_le _) ht hs
    fun _ hi => absurd hi (Nat.not_lt_zero _)
  exact ⟨j, Nat.lt_of_le_pred (by decide) hj, hrun⟩

/-! ## §4 — all lines -/

/-- The text ends where a line breaks, and that line is not empty; `c` stands in the buffer before it. -/
inductive EndsAtBreak : Bytes → Bytes → Prop
  | done {c : Bytes} (hc : c ≠ []) : EndsAtBreak c []
  | line {c t : Bytes} {m : Nat} {b : TextBreak} (hbreak : breakAfter t = some (m, b))
      (hrest : EndsAtBreak (t.take m ++ b.ends) (t.drop (m + b.gap.length))) : EndsAtBreak c t

/-- Turns that are enough for a text. -/
def enough (t : Bytes) : Nat := 64 * (t.length + 1)

theorem endsAtBreak_none {c : Bytes} (h : breakAfter t = none) : EndsAtBreak c t ↔ c ≠ [] ∧ t = [] := by
  refine ⟨fun hends => ?_, fun hends => hends.2 ▸ .done hends.1⟩
  cases hends with
  | done hc => exact ⟨hc, rfl⟩
  | line hbreak _ => exact absurd (hbreak.symm.trans h) (Option.some_ne_none _)

theorem endsAtBreak_some {c : Bytes} {m : Nat} {b : TextBreak} (h : breakAfter t = some (m, b)) :
    EndsAtBreak c t ↔ EndsAtBreak (t.take m ++ b.ends) (t.drop (m + b.gap.length)) := by
  refine ⟨fun hends => ?_, .line h⟩
  cases hends with
  | done hc => cases h
  | line hbreak hrest =>
    cases hbreak.symm.trans h
    exact hrest

/-- **All lines of a text.** The loop ends, with one line more than breaks. Joined, the lines are the text,
and behind it what was in the buffer if the text ends at a break. The induction is on what is left of the
text. -/
theorem textLines_all (temp : Bytes) (ht : line.drop s = t) (hs : s ≤ line.length) :
    ∃ ls bs x, (∀ fuel, enough t ≤ fuel → textLines line fuel s s s 0 temp = ls ∧ textBreaks line fuel s s s 0 = bs) ∧
      ls.length = bs.length + 1 ∧ joined ls bs = t ++ x ∧ (x ≠ [] ↔ EndsAtBreak (stem temp) t) := by
  induction hlen : t.length using Nat.strongRecOn generalizing s t temp with
  | ind len ih =>
    obtain ⟨j, hj, hrun⟩ := textLines_line temp ht hs
    have hmax : maxTextLen = 63 := rfl
    cases hbreak : breakAfter t with
    | none =>
      simp only [Continues, hbreak] at hrun
      refine ⟨[(if t = [] then temp else str "Text: ") ++ t], [], if t = [] then stem temp else [], fun fuel hfuel => ?_, rfl,
        ?_, ?_⟩
      · unfold enough at hfuel
        have hlast := hrun (fuel - (j + 1))
        rwa [Nat.sub_add_cancel (by omega)] at hlast
      · by_cases hnil : t = []
        · simp [joined, hnil]
        · simp [joined, hnil, stem_text]
      · rw [endsAtBreak_none hbreak]
        by_cases hnil : t = [] <;> simp [hnil]
    | some r =>
      obtain ⟨m, b⟩ := r
      simp only [Continues, hbreak] at hrun
      obtain ⟨hle, hpos, hsplit⟩ := breakAfter_split hbreak
      have hlength : t.length = line.length - s := by rw [← ht, List.length_drop]
      have hrest : (t.drop (m + b.gap.length)).length = t.length - (m + b.gap.length) := List.length_drop
      obtain ⟨ls, bs, x, hrest', hcount, hjoined, hiff⟩ := ih _ (by omega) (str "Text: " ++ t.take m ++ b.ends)
        (show line.drop (s + (m + b.gap.length)) = t.drop (m + b.gap.length) by rw [← List.drop_drop, ht]) (by omega) rfl
      refine ⟨(str "Text: " ++ t.take m ++ b.ends) :: ls, b :: bs, x, fun fuel hfuel => ?_, congrArg (· + 1) hcount, ?_, ?_⟩
      · unfold enough at hfuel hrest'
        have hfirst := hrun (fuel - (j + 1))
        rw [Nat.sub_add_cancel (by omega)] at hfirst
        obtain ⟨hls, hbs⟩ := hrest' (fuel - (j + 1)) (by omega)
        rw [hfirst.1, hfirst.2, hls, hbs]
        exact ⟨rfl, rfl⟩
      · rw [joined_cons, hjoined, ← List.append_assoc, ← hsplit]
      · rw [hiff, endsAtBreak_some hbreak, List.append_assoc, stem_text]

end

/-- The text of a record is shown once: the loop ends and, joined at the breaks, its lines are the text. -/
structure ShownOnce (text temp : Bytes) : Prop where
  ends : ∀ fuel, enough text ≤ fuel →
    textLines text fuel 0 0 0 0 temp = textLines text (enough text) 0 0 0 0 temp ∧
      (textLines text fuel 0 0 0 0 temp).length = (textBreaks text fuel 0 0 0 0).length + 1
  once : joined (textLines text (enough text) 0 0 0 0 temp) (textBreaks text (enough text) 0 0 0 0) = text

theorem not_shownOnce {text temp : Bytes} (hends : EndsAtBreak (stem temp) text) : ¬ ShownOnce text temp := by
  intro h
  obtain ⟨ls, bs, x, hall, -, hjoined, hiff⟩ := textLines_all temp (List.drop_zero (l := text)) (Nat.zero_le _)
  obtain ⟨hls, hbs⟩ := hall (enough text) le_rfl
  have honce := h.once
  rw [hls, hbs, hjoined] at honce
  exact hiff.mpr hends (List.append_right_eq_self.mp honce)

/-- **`whois` shows the text once** if and only if it does not end where a line breaks. -/
theorem shownOnce_iff (text temp : Bytes) : ShownOnce text temp ↔ ¬ EndsAtBreak (stem temp) text := by
  refine ⟨fun h hends => not_shownOnce hends h, fun hends => ?_⟩
  obtain ⟨ls, bs, x, hall, hcount, hjoined, hiff⟩ := textLines_all temp (List.drop_zero (l := text)) (Nat.zero_le _)
  obtain ⟨hls, hbs⟩ := hall (enough text) le_rfl
  obtain rfl : x = [] := not_not.mp fun hx => hends (hiff.mp hx)
  refine ⟨fun fuel hfuel => ?_, by rw [hls, hbs, hjoined, List.append_nil]⟩
  obtain ⟨hls', hbs'⟩ := hall fuel hfuel
  rw [hls', hbs', hls]
  exact ⟨rfl, hcount⟩

section
attribute [local instance] smallEnv

/-- A text whose blank is in the last column. -/
def blankLast : String := String.ofList (List.replicate 62 'x' ++ [' '])

/-- It is stored for the client on slot 1. -/
def HasText (h : Host) : Prop := h.w.db (dbKey (str "first") "text") = some (str blankLast)

instance : DecidablePred HasText := fun _ => inferInstanceAs (Decidable (_ = _))

/-- Such a text is shown twice. -/
theorem shown_twice : ∃ h : Host, Reachable (fun _ _ _ => True) h ∧
    h.w.db (dbKey (str "first") "text") = some (str blankLast) ∧ (str blankLast).length ≤ 254 ∧
    ∀ temp, ¬ ShownOnce (str blankLast) temp := by
  have hrun : Host.leads (fun _ _ _ => True) {} HasText { w := startup {} fun _ => none }
      [.connect 1 false none, .packet 1 (loginPkt "one" "first" "1" ""), .packet 1 (cmdPkt "m" "server p secret"),
        .packet 1 (cmdPkt "m" ("server text " ++ blankLast))] := by
    decide +kernel
  obtain ⟨h, hr, htext⟩ := Reachable.leads (.start {} fun _ => none) hrun
  refine ⟨h, hr, htext, by decide, fun temp => not_shownOnce ?_⟩
  exact .line (m := 62) (b := .blank) (by decide) (.done (by decide))

end

end Icbd.Server
