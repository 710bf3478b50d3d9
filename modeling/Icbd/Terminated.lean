/-
# Icbd.Terminated — when the buffer behind `filtertext` ends in a NUL.

`filtertext` clears a buffer of `len` bytes and may fill all of it: its bound test lets the source pointer
get `len` bytes far, and a source byte can come out as one byte of output. The senders print such a buffer
with `%s`, which reads on to the first NUL. A text diminishes on its way when it holds a control character,
a sequence that breaks off behind its second byte, or one that is not finished; a text that does not
diminish and is at least as long as the buffer leaves no room for the NUL.
-/
import Icbd.Sanitise

namespace Icbd

/-! ## §1 — texts that come out as long as they are -/

/-- Every byte of the text has its byte of output: printable characters, bytes that begin no sequence, and
bytes that begin one which the next byte breaks off. -/
inductive Undiminished : Bytes → Prop
  | nil : Undiminished []
  | char {c : Char} {rest : Bytes} : 32 ≤ c.toNat → Undiminished rest → Undiminished (encode c ++ rest)
  | stray {b : UInt8} {rest : Bytes} : firstState b.toNat = 1 → Undiminished rest → Undiminished (b :: rest)
  | broken {b b' : UInt8} {rest : Bytes} : firstState b.toNat ≠ 0 → firstState b.toNat ≠ 1 →
      tailState (firstState b.toNat) b'.toNat = 1 → Undiminished (b' :: rest) → Undiminished (b :: b' :: rest)

/-- What is emitted from between two characters is no longer than what is read. -/
theorem Reader.start_read_length_le (s : Bytes) : (Reader.start.read s).1.length ≤ s.length := by
  have h := (Reader.Sound.start.read s).length
  simp only [Reader.start, List.length_nil, Nat.zero_add] at h ⊢
  omega

/-- A byte refused in the middle of a sequence: a question mark, and the text from that byte on. -/
theorem Reader.read_refused {d : Reader} (hd : Unfinished d.state d.codep (d.seq.map UInt8.toNat)) {b : UInt8}
    (h : tailState d.state b.toNat = 1) (bs : Bytes) :
    (d.read (b :: bs)).1 = 63 :: (Reader.start.read (b :: bs)).1 := by
  obtain ⟨h2, h9, -⟩ := hd.bounds
  have hbyte : d.byte b = (63 :: (Reader.start.once b).1, (Reader.start.once b).2) :=
    if_pos ⟨by omega, (decode_tail_state h2 h9 d.codep b).trans h⟩
  simp [Reader.read, hbyte, Reader.start_byte]

/-- What is held back and what is read all come out: the sequence is one byte long and broken off at once,
or a printable character is completed. -/
theorem Reader.read_full {d : Reader} (hd : Unfinished d.state d.codep (d.seq.map UInt8.toNat)) {r : Bytes}
    (h : (d.read r).1.length = d.seq.length + r.length) :
    (∃ b rest, r = b :: rest ∧ d.seq.length = 1 ∧ tailState d.state b.toNat = 1 ∧
      (Reader.start.read r).1.length = r.length) ∨
    ∃ c q rest, r = q ++ rest ∧ encode c = d.seq ++ q ∧ 32 ≤ c.toNat ∧
      (Reader.start.read rest).1.length = rest.length := by
  obtain ⟨h2, h9, -, hne⟩ := hd.bounds
  have hseq : 0 < d.seq.length := by simpa [List.length_pos_iff] using hne
  induction r generalizing d with
  | nil =>
    simp only [Reader.read, List.length_nil] at h
    omega
  | cons b bs ih =>
    by_cases hrefused : tailState d.state b.toNat = 1
    · left
      have hle := Reader.start_read_length_le (b :: bs)
      rw [Reader.read_refused hd hrefused] at h
      simp only [List.length_cons] at h hle ⊢
      exact ⟨b, bs, rfl, by omega, hrefused, by omega⟩
    · right
      have hstate := decode_tail_state h2 h9 d.codep b
      have honce := Reader.once_within hd b
      rw [Reader.read, Reader.byte_taken (by rwa [hstate])] at h
      generalize d.once b = p at honce h
      cases honce with
      | @char c hc hcp h0 =>
        have hlen : (encode c).length = d.seq.length + 1 := by simp [hc]
        have hle := Reader.start_read_length_le bs
        split_ifs at h with h32
        · simp only [List.length_append, List.length_cons] at h
          exact ⟨c, [b], bs, rfl, hc, h32, by omega⟩
        · simp only [List.nil_append, List.length_cons] at h
          omega
      | refused h1 => exact absurd (hstate.symm.trans h1) hrefused
      | more h0 h1 hmore =>
        simp only [List.nil_append, List.length_cons] at h
        have hgrown : (d.seq ++ [b]).length = d.seq.length + 1 := List.length_append
        generalize hd' : Reader.mk (decode d.state d.codep b).1 (decode d.state d.codep b).2
          (d.seq ++ [b]) = d' at h
        have hseq' : d'.seq = d.seq ++ [b] := by rw [← hd']
        have hmid : Unfinished d'.state d'.codep (d'.seq.map UInt8.toNat) := by rw [← hd']; exact hmore
        obtain ⟨h2', h9', -, hne'⟩ := hmid.bounds
        rcases ih hmid (by rw [hseq']; omega) h2' h9' hne' (by rw [hseq']; omega) with
          ⟨-, -, -, hone, -⟩ | ⟨c, q, rest, hbs, hc, h32, hrest⟩
        · rw [hseq'] at hone
          omega
        · exact ⟨c, b :: q, rest, by rw [hbs]; rfl, by rw [hc, hseq']; simp, h32, hrest⟩

/-- A text that comes out as long as it is does not diminish. -/
theorem undiminished_of_read {s : Bytes} (h : (Reader.start.read s).1.length = s.length) :
    Undiminished s := by
  induction hn : s.length using Nat.strongRecOn generalizing s with
  | ind n ih =>
    cases s with
    | nil => exact .nil
    | cons b bs =>
      have hstate : (decode Reader.start.state Reader.start.codep b).1 = firstState b.toNat :=
        decode_start_state 0 b
      have honce := Reader.once_start b
      rw [Reader.read, Reader.start_byte] at h
      generalize Reader.start.once b = p at honce h
      simp only [List.length_cons] at hn
      cases honce with
      | @char c hc hcp h0 =>
        have hc : encode c = [b] := hc
        have hle := Reader.start_read_length_le bs
        split_ifs at h with h32
        · rw [hc] at h
          simp only [List.length_append, List.length_cons, List.length_nil] at h
          have := Undiminished.char h32 (ih bs.length (by omega) (by omega) rfl)
          rwa [hc] at this
        · simp only [List.nil_append, List.length_cons] at h
          omega
      | refused h1 =>
        simp only [List.length_append, List.length_cons, List.length_nil] at h
        exact .stray (hstate.symm.trans h1) (ih bs.length (by omega) (by omega) rfl)
      | more h0 h1 hmore =>
        simp only [List.nil_append, List.length_cons] at h
        rw [hstate] at h0 h1
        have hheld : [b].length + bs.length = bs.length + 1 := Nat.add_comm 1 _
        generalize hd : Reader.mk (decode Reader.start.state Reader.start.codep b).1
          (decode Reader.start.state Reader.start.codep b).2 (Reader.start.seq ++ [b]) = d at h
        have hseq : d.seq = [b] := by rw [← hd]; rfl
        have hfirst : d.state = firstState b.toNat := by rw [← hd]; exact hstate
        have hmid : Unfinished d.state d.codep (d.seq.map UInt8.toNat) := by rw [← hd]; exact hmore
        have hfull := Reader.read_full hmid (h.trans (by rw [hseq, hheld]))
        rw [hfirst, hseq] at hfull
        rcases hfull with ⟨b', rest, rfl, -, hrefused, hrest⟩ | ⟨c, q, rest, rfl, hc, h32, hrest⟩
        · exact .broken h0 h1 hrefused (ih _ (by omega) hrest rfl)
        · have hlen : rest.length < n := by
            simp only [List.length_append] at hn
            omega
          have := Undiminished.char h32 (ih rest.length hlen hrest rfl)
          rwa [hc] at this

/-- **The output has the length of the text** if and only if the text does not diminish. -/
theorem read_length_iff (s : Bytes) : (Reader.start.read s).1.length = s.length ↔ Undiminished s := by
  refine ⟨undiminished_of_read, fun h => ?_⟩
  induction h with
  | nil => rfl
  | char h32 _ ih => rw [Reader.read_append, Reader.read_char, if_pos h32, List.length_append,
      List.length_append, ih]
  | @stray b rest h1 _ ih =>
    have hstate : (decode Reader.start.state Reader.start.codep b).1 = 1 :=
      (decode_start_state 0 b).trans h1
    have honce : Reader.start.once b = ([63], .start) := by simp [Reader.once, hstate]
    rw [Reader.read, Reader.start_byte, honce, List.length_append, ih, List.length_cons]
    exact Nat.add_comm 1 _
  | @broken b b' rest h0 h1 hrefused _ ih =>
    have hstate : (decode Reader.start.state Reader.start.codep b).1 = firstState b.toNat :=
      decode_start_state 0 b
    have honce := Reader.once_start b
    rw [Reader.read, Reader.start_byte]
    generalize Reader.start.once b = p at honce
    cases honce with
    | char hc hcp h0' => exact absurd (hstate.symm.trans h0') h0
    | refused h1' => exact absurd (hstate.symm.trans h1') h1
    | more h0' h1' hmore =>
      rw [← hstate] at hrefused
      rw [Reader.read_refused hmore hrefused, List.nil_append, List.length_cons, ih]
      rfl

/-! ## §2 — the buffer -/

/-- `dest` behind `filtertext(src, dest, len)`: the output in a buffer that was cleared first. -/
def filterBuffer (src : Bytes) (len : Nat) : Bytes :=
  filtertext src len ++ List.replicate (len - (filtertext src len).length) 0

/-- The output never outgrows the buffer. -/
theorem length_filterBuffer (src : Bytes) (len : Nat) : (filterBuffer src len).length = len := by
  have := (filtertext_sanitises src len).length
  simp only [filterBuffer, List.length_append, List.length_replicate]
  omega

/-- The buffer is a string, and `%s` reads only inside it: the characters before the first NUL and the NUL
itself. -/
structure Terminated (src : Bytes) (len : Nat) : Prop where
  nul : ∃ i < len, (filterBuffer src len)[i]? = some 0
  inside : ((filterBuffer src len).takeWhile (· ≠ 0)).length + 1 ≤ len

/-- The output itself has no NUL. -/
theorem filtertext_ne_zero (src : Bytes) (len : Nat) : ∀ b ∈ filtertext src len, b ≠ 0 := by
  rintro b hb rfl
  have := filtertext_printable hb
  exact absurd this (by decide)

/-- There is a NUL if and only if the output leaves room for it. -/
theorem terminated_iff_length (src : Bytes) (len : Nat) :
    Terminated src len ↔ (filtertext src len).length < len := by
  have hchars : ∀ b ∈ filtertext src len, (decide (b ≠ 0)) = true := by
    simpa using filtertext_ne_zero src len
  have hwhile : ((filterBuffer src len).takeWhile (· ≠ 0)).length = (filtertext src len).length := by
    rw [filterBuffer, List.takeWhile_append_of_pos hchars]
    simp
  constructor
  · rintro ⟨-, hinside⟩
    omega
  · intro h
    refine ⟨⟨(filtertext src len).length, h, ?_⟩, by omega⟩
    rw [filterBuffer, List.getElem?_append_right (Nat.le_refl _), Nat.sub_self, List.getElem?_replicate,
      if_pos (by omega)]

/-- **When the buffer is terminated.** For every text and every length, `filtertext` leaves a NUL in the
buffer if and only if the text is shorter than the buffer or its part that is looked at diminishes. -/
theorem filtertext_terminated_iff (src : Bytes) (len : Nat) :
    Terminated src len ↔ src.length < len ∨ ¬ Undiminished (src.take len) := by
  have hle := Reader.start_read_length_le (src.take len)
  have htake : (src.take len).length = min len src.length := List.length_take
  rw [terminated_iff_length, filtertext_eq, ← read_length_iff]
  omega

theorem undiminished_letters (k : Nat) : Undiminished (List.replicate k 97) := by
  induction k with
  | zero => exact .nil
  | succ k ih => exact .char (c := 'a') (by decide) ih

/-- The longest open message of plain letters fills the buffer of `sendopen`. -/
theorem full_buffer_unterminated : ¬ ∀ src len, 1 ≤ len → Terminated src len := by
  intro h
  have hterm := h (List.replicate 241 97) (maxPktData - maxNickLen - 1) (by decide)
  have hfull := (read_length_iff _).mpr (undiminished_letters 241)
  rw [terminated_iff_length, filtertext_eq, List.take_of_length_le (by rw [List.length_replicate]; decide),
    hfull, List.length_replicate] at hterm
  exact absurd hterm (by decide)

end Icbd
