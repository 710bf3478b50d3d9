/-
# Icbd.Dbm.Python — the reader of `support/icbdb.py` beside `load_file`.

Two readers of one file format. Both are compared with the records the file announces: the C reader takes
them when every one is whole and within the cap, and puts each in front of its chain, so that the last of
several records with one key is found, until the table grows and turns the chains around. The Python reader
takes records that are cut short, puts U+FFFD for what is not UTF-8, and lets the last record win.
-/
import Icbd.Dbm.File
import Icbd.Sanitise

namespace Icbd.Dbm

open Icbd.Lib (Buckets Entry)

/-! ## §1 — `decode("utf-8", errors="replace")` -/

/-- U+FFFD. -/
def replacementChar : Char := Char.ofNat 0xFFFD

/-- A byte looked at once: the characters it completes, and the state and the code point behind it. -/
def decodeOnce (p : Nat × Nat) (b : UInt8) : List Char × Nat × Nat :=
  let r := decode p.1 p.2 b
  if r.1 = 0 then ([Char.ofNat r.2], 0, 0)
  else if r.1 = 1 then ([replacementChar], 0, 0)
  else ([], r)

/-- A byte that breaks a sequence off ends it with one U+FFFD and is looked at again. -/
def decodeByte (p : Nat × Nat) (b : UInt8) : List Char × Nat × Nat :=
  if p.1 ≠ 0 ∧ (decode p.1 p.2 b).1 = 1 then
    (replacementChar :: (decodeOnce (0, 0) b).1, (decodeOnce (0, 0) b).2)
  else decodeOnce p b

/-- The characters of a text; a sequence the text ends in is one U+FFFD. -/
def decodeFrom : Nat × Nat → Bytes → List Char
  | p, [] => if p.1 = 0 then [] else [replacementChar]
  | p, b :: bs => (decodeByte p b).1 ++ decodeFrom (decodeByte p b).2 bs

/-- `decode("utf-8", errors="replace")`. -/
def decodeReplace (s : Bytes) : List Char := decodeFrom (0, 0) s

/-- What a text is once it has been decoded and encoded again. -/
def replaced (s : Bytes) : Bytes := encodeText (decodeReplace s)

/-- The filter and the decoder look at the bytes in the same states. -/
theorem decodeOnce_cases {d : Reader} {b : UInt8} {r : Bytes × Reader} (h : d.Once b r) :
    (∃ c, encode c = d.seq ++ [b] ∧ (decode d.state d.codep b).1 = 0 ∧
      decodeOnce (d.state, d.codep) b = ([c], 0, 0)) ∨
    (decode d.state d.codep b).1 = 1 ∨
    (decode d.state d.codep b).1 ≠ 0 ∧ (decode d.state d.codep b).1 ≠ 1 ∧
      Unfinished (decode d.state d.codep b).1 (decode d.state d.codep b).2
        ((d.seq ++ [b]).map UInt8.toNat) ∧
      decodeOnce (d.state, d.codep) b = ([], decode d.state d.codep b) := by
  cases h with
  | @char c hc hcp h0 =>
    refine .inl ⟨c, hc, h0, ?_⟩
    simp only [decodeOnce]
    rw [if_pos h0, hcp, Char.ofNat_toNat]
  | refused h1 => exact .inr (.inl h1)
  | more h0 h1 hmore =>
    refine .inr (.inr ⟨h0, h1, hmore, ?_⟩)
    simp only [decodeOnce]
    rw [if_neg h0, if_neg h1]

/-- A byte that is not refused is looked at once. -/
theorem decodeByte_taken {p : Nat × Nat} {b : UInt8} (h : (decode p.1 p.2 b).1 ≠ 1) :
    decodeByte p b = decodeOnce p b := if_neg fun hr => h hr.2

/-- The rest of a character is decoded. -/
theorem decodeFrom_within {d : Reader} (hd : Unfinished d.state d.codep (d.seq.map UInt8.toNat)) {c : Char}
    {r : Bytes} (t : Bytes) (hr : r ≠ []) (hc : encode c = d.seq ++ r) :
    decodeFrom (d.state, d.codep) (r ++ t) = c :: decodeFrom (0, 0) t := by
  induction r generalizing d with
  | nil => exact absurd rfl hr
  | cons b bs ih =>
    obtain ⟨h2, h9, -⟩ := hd.bounds
    have hstate := decode_tail_state h2 h9 d.codep b
    obtain ⟨h1, h0⟩ := hd.encode (b := b.toNat) (r := bs.map UInt8.toNat) (by rw [hc]; simp)
    rw [List.map_eq_nil_iff] at h0
    rw [← hstate] at h1 h0
    have hbyte : decodeByte (d.state, d.codep) b = decodeOnce (d.state, d.codep) b := decodeByte_taken h1
    rw [List.cons_append, decodeFrom, hbyte]
    rcases decodeOnce_cases (Reader.once_within hd b) with ⟨c', hc', hacc, honce⟩ | hrej | ⟨hacc, -, hmore, honce⟩
    · have hbs := h0.mp hacc
      have heq : c' = c := encode_injective (by rw [hc', hc, hbs])
      rw [honce, heq, hbs]
      rfl
    · exact absurd hrej h1
    · have := ih (d := ⟨_, _, d.seq ++ [b]⟩) hmore (mt h0.mpr hacc) (by simp [hc])
      rw [honce, List.nil_append, this]

theorem decodeFrom_char (c : Char) (t : Bytes) :
    decodeFrom (0, 0) (encode c ++ t) = c :: decodeFrom (0, 0) t := by
  obtain ⟨b, r, hc⟩ : ∃ b r, encode c = b :: r := List.exists_cons_of_ne_nil String.utf8EncodeChar_ne_nil
  obtain ⟨h1, h0⟩ := encode_first (c := c) (b := b.toNat) (r := r.map UInt8.toNat) (by rw [hc]; rfl)
  rw [List.map_eq_nil_iff] at h0
  rw [← decode_start_state 0 b] at h1 h0
  have htaken : decodeByte (0, 0) b = decodeOnce (0, 0) b := if_neg fun h => h.1 rfl
  rw [hc, List.cons_append, decodeFrom, htaken]
  have hcases := decodeOnce_cases (Reader.once_start b)
  simp only [Reader.start, List.nil_append] at hcases
  rcases hcases with ⟨c', hc', hacc, honce⟩ | hrej | ⟨hacc, -, hmore, honce⟩
  · have hr := h0.mp hacc
    have heq : c' = c := encode_injective (by rw [hc', hc, hr])
    rw [honce, heq, hr, List.nil_append, List.singleton_append]
  · exact absurd hrej h1
  · have := decodeFrom_within (d := ⟨_, _, [b]⟩) hmore t (mt h0.mpr hacc) hc
    rw [honce, List.nil_append, this]

/-- **Decoding undoes encoding.** -/
theorem decodeReplace_encodeText (cs : List Char) : decodeReplace (encodeText cs) = cs := by
  induction cs with
  | nil => rfl
  | cons c cs ih =>
    have hcons : encodeText (c :: cs) = encode c ++ encodeText cs := List.flatMap_cons
    rw [decodeReplace, hcons, decodeFrom_char]
    exact congrArg (c :: ·) ih

/-! ## §2 — `_load` -/

/-- `self._data`. -/
abbrev PyDict := Finmap fun _ : List Char => List Char

/-- The loop over the records; `f.read` hands over less than it is asked for only at the end of the file. -/
def pyLoadEntries : Nat → PyDict → Bytes → Option PyDict
  | 0, data, _ => some data
  | count + 1, data, f =>
      let recHdr := f.take 8
      if recHdr.length < 8 then none
      else
        let klen := get32 recHdr
        let vlen := get32 (recHdr.drop 4)
        let f := f.drop 8
        let key := decodeReplace (f.take klen)
        let f := f.drop klen
        let val := decodeReplace (f.take vlen)
        pyLoadEntries count (data.insert key val) (f.drop vlen)

/-- `_load`; `none` is a `ValueError`. -/
def pyLoad (disk : Option Bytes) : Option PyDict :=
  match disk with
  | none => some ∅
  | some content =>
      let hdr := content.take 8
      if hdr.length < 8 then none
      else if hdr.take 4 ≠ magic then none
      else pyLoadEntries (get32 (hdr.drop 4)) ∅ (content.drop 8)

/-! ## §3 — the records of a file -/

/-- A record: the lengths it announces, and the key and the value as far as they are there. -/
structure Record where
  klen : Nat
  vlen : Nat
  key : Bytes
  value : Bytes

/-- A whole record within the cap. -/
def Record.Sound (r : Record) : Prop :=
  r.klen ≤ maxRecsize ∧ r.vlen ≤ maxRecsize ∧ r.key.length = r.klen ∧ r.value.length = r.vlen

/-- The record a file goes on with, unless it stops inside the lengths. -/
def record (f : Bytes) : Option (Record × Bytes) :=
  if f.length < 8 then none
  else
    let klen := get32 f
    let vlen := get32 (f.drop 4)
    some (⟨klen, vlen, (f.drop 8).take klen, ((f.drop 8).drop klen).take vlen⟩,
      ((f.drop 8).drop klen).drop vlen)

/-- So many records. -/
def records : Nat → Bytes → Option (List Record)
  | 0, _ => some []
  | n + 1, f => (record f).bind fun r => (records n r.2).map (r.1 :: ·)

/-- What a header announces: the number of records, and what follows it. -/
def announced (content : Bytes) : Option (Nat × Bytes) :=
  if content.length < 8 ∨ content.take 4 ≠ magic then none
  else some (get32 (content.drop 4), content.drop 8)

/-- The Python reader takes the records one by one. -/
theorem pyLoadEntries_eq (n : Nat) (data : PyDict) (f : Bytes) :
    pyLoadEntries n data f = (records n f).map fun rs =>
      rs.foldl (fun data r => data.insert (decodeReplace r.key) (decodeReplace r.value)) data := by
  induction n generalizing data f with
  | zero => rfl
  | succ n ih =>
    unfold pyLoadEntries records record
    by_cases hf : f.length < 8
    · have hlen : (f.take 8).length < 8 := by
        rw [List.length_take]
        omega
      simp [hf]
    · have hlen : ¬ (f.take 8).length < 8 := by
        rw [List.length_take]
        omega
      have hk : get32 (f.take 8) = get32 f := by
        simp [get32]
      have hv : get32 ((f.take 8).drop 4) = get32 (f.drop 4) := by
        simp [get32]
      simp only [hlen, hf, if_false, hk, hv, ih, Option.bind_some, Option.map_map]
      rfl

/-! ## §4 — growing while loading -/

/-- The entries in front of which the table doubles. -/
def Doubles (i : Nat) : Prop := ∃ j, j < 24 ∧ i = 96 * 2 ^ j

instance : DecidablePred Doubles := fun i => inferInstanceAs (Decidable (∃ j, j < 24 ∧ i = 96 * 2 ^ j))

/-- The largest number of entries a table takes: before the next one the bucket count wraps around. -/
def maxEntries : Nat := 805306369

/-- The bucket count of a table that has been filled from empty, exactly. -/
def Grown (nbuckets nentries : Nat) : Prop :=
  ∃ j, nbuckets = initBuckets * 2 ^ j ∧ (j = 0 ∨ 96 * 2 ^ (j - 1) < nentries) ∧
    (j ≤ 23 ∧ nentries ≤ 96 * 2 ^ j ∨ j = 24 ∧ nentries = maxEntries)

theorem not_doubles {n j : Nat} (hlo : j = 0 ∨ 96 * 2 ^ (j - 1) < n) (hhi : n < 96 * 2 ^ j) : ¬ Doubles n := by
  rintro ⟨i, -, rfl⟩
  have hij : i < j := (Nat.pow_lt_pow_iff_right (by decide)).mp (Nat.lt_of_mul_lt_mul_left hhi)
  rcases hlo with rfl | hlo
  · omega
  · have := (Nat.pow_lt_pow_iff_right (a := 2) (by decide)).mp (Nat.lt_of_mul_lt_mul_left hlo)
    omega

/-- **The growth check while loading.** -/
theorem Grown.step {b n : Nat} (h : Grown b n) (hlt : n < maxEntries) :
    (Doubles n ∧ (n * 4) % 2 ^ 32 ≥ (b * 3) % 2 ^ 32 ∧ (b * 2) % 2 ^ 32 = b * 2 ∧ Grown (b * 2) (n + 1)) ∨
    (¬ Doubles n ∧ ¬ (n * 4) % 2 ^ 32 ≥ (b * 3) % 2 ^ 32 ∧ Grown b (n + 1)) := by
  obtain ⟨j, rfl, hlo, ⟨hj, hn⟩ | ⟨rfl, hn⟩⟩ := h
  · have hpow : 2 ^ j ≤ 2 ^ 23 := Nat.pow_le_pow_right (by decide) hj
    have hpos : 1 ≤ 2 ^ j := Nat.one_le_two_pow
    have hsucc : 2 ^ (j + 1) = 2 ^ j * 2 := Nat.pow_succ 2 j
    simp only [initBuckets, maxEntries] at *
    by_cases hfull : n = 96 * 2 ^ j
    · refine .inl ⟨⟨j, by omega, hfull⟩, by omega, by omega, j + 1, by simp only [initBuckets]; omega, ?_, ?_⟩
      · right
        rw [Nat.add_sub_cancel]
        omega
      · by_cases hlast : j = 23
        · subst hlast
          exact .inr ⟨rfl, by simp [hfull, maxEntries]⟩
        · exact .inl ⟨by omega, by omega⟩
    · refine .inr ⟨not_doubles hlo (by omega), by omega, j, rfl, ?_, .inl ⟨hj, by omega⟩⟩
      rcases hlo with h0 | hlo
      · exact .inl h0
      · exact .inr (by omega)
  · omega

/-- A full table does not grow any more. -/
theorem Grown.full {b : Nat} (h : Grown b maxEntries) :
    (maxEntries * 4) % 2 ^ 32 ≥ (b * 3) % 2 ^ 32 ∧ (b * 2) % 2 ^ 32 = 0 := by
  obtain ⟨j, rfl, -, ⟨hj, hn⟩ | ⟨rfl, -⟩⟩ := h
  · have hpow : 2 ^ j ≤ 2 ^ 23 := Nat.pow_le_pow_right (by decide) hj
    simp only [maxEntries] at hn
    omega
  · decide

/-- The values of a key from the front of its chain, behind `i` records that have left `vs`: a record goes to
the front, and doubling the table turns the chain around. -/
def stackFrom (k : Bytes) : Nat → List Bytes → List Record → List Bytes
  | _, vs, [] => vs
  | i, vs, r :: rs =>
      let vs := if Doubles i then vs.reverse else vs
      stackFrom k (i + 1) (if k = r.key then r.value :: vs else vs) rs

/-- The table behind `n` records. -/
structure Loaded (db : IcbDbm) (n : Nat) (held : Bytes → List Bytes) : Prop where
  housed : db.buckets.Housed hash
  count : db.nentries = n
  grown : Grown db.nbuckets n
  stack : ∀ k, db.buckets.stack hash k = held k

theorem loaded_empty : Loaded {} 0 fun _ => [] := by
  refine ⟨(Buckets.placed_replicate _ (by decide)).housed, rfl, ⟨0, ?_, .inl rfl, .inl ⟨by decide, by decide⟩⟩, ?_⟩
  · simp [IcbDbm.nbuckets, initBuckets]
  · exact Buckets.stack_replicate _

theorem Loaded.grow {db : IcbDbm} {n : Nat} {held : Bytes → List Bytes} (h : Loaded db n held)
    (hlt : n < maxEntries) (k v : Bytes) :
    ∃ db', growIfFull db = some db' ∧ Loaded (insertEntry db' k v) (n + 1) fun q =>
      let vs := if Doubles n then (held q).reverse else held q
      if q = k then v :: vs else vs := by
  have hcount : (n + 1) % 2 ^ 32 = n + 1 := by
    simp only [maxEntries] at hlt
    omega
  rcases h.grown.step hlt with ⟨hdbl, hcond, hwrap, hgrown⟩ | ⟨hdbl, hcond, hgrown⟩
  · have hpos : 0 < db.nbuckets * 2 := Nat.mul_pos h.housed.pos (by decide)
    obtain ⟨hhoused, hlen, hstack⟩ := h.housed.rehash hpos
    refine ⟨{ db with buckets := db.buckets.rehash hash (db.nbuckets * 2) }, ?_, hhoused.push _, ?_, ?_, ?_⟩
    · rw [growIfFull, if_pos (by rw [h.count]; exact hcond), hwrap, htResize,
        if_neg (Nat.pos_iff_ne_zero.mp hpos)]
    · simp only [insertEntry, h.count, hcount]
    · rw [insertEntry, IcbDbm.nbuckets, Buckets.length_push, hlen]
      exact hgrown
    · intro q
      rw [insertEntry, hhoused.stack_push, hstack, h.stack, if_pos hdbl]
  · refine ⟨db, ?_, h.housed.push _, ?_, ?_, ?_⟩
    · rw [growIfFull, h.count, if_neg hcond]
    · simp only [insertEntry, h.count, hcount]
    · simpa only [insertEntry, IcbDbm.nbuckets, Buckets.length_push] using hgrown
    · intro q
      rw [insertEntry, h.housed.stack_push, h.stack, if_neg hdbl]

theorem Loaded.full {db : IcbDbm} {held : Bytes → List Bytes} (h : Loaded db maxEntries held) :
    growIfFull db = none := by
  obtain ⟨hcond, hzero⟩ := h.grown.full
  rw [growIfFull, h.count, if_pos hcond, hzero, htResize, if_pos rfl]

/-! ## §5 — `load_file` on the records -/

/-- One record: `load_file` fails on one that is not whole or too large, and otherwise inserts it. -/
theorem loadEntry_record {f : RFile} (hq : quietScript f.script) (db : IcbDbm) :
    (record f.rest = none ∧ loadEntry db f = .error .failed) ∨
    ∃ r rest, record f.rest = some (r, rest) ∧
      (¬ r.Sound ∧ loadEntry db f = .error .failed ∨
      r.Sound ∧ (growIfFull db = none ∧ loadEntry db f = .error .crashed ∨
        ∃ db' f', growIfFull db = some db' ∧ loadEntry db f = .ok (insertEntry db' r.key r.value, f') ∧
          f'.rest = rest ∧ quietScript f'.script)) := by
  unfold loadEntry
  rcases xread_quiet hq 8 with ⟨hlen, hread⟩ | ⟨hlen, f₁, hread, hf₁, hq₁⟩
  · exact .inl ⟨if_pos hlen, by rw [hread]⟩
  have hklen : get32 (f.rest.take 8) = get32 f.rest := by simp [get32]
  have hvlen : get32 ((f.rest.take 8).drop 4) = get32 (f.rest.drop 4) := by simp [get32]
  have hrec : record f.rest = some (⟨get32 f.rest, get32 (f.rest.drop 4), f₁.rest.take (get32 f.rest),
      (f₁.rest.drop (get32 f.rest)).take (get32 (f.rest.drop 4))⟩,
      (f₁.rest.drop (get32 f.rest)).drop (get32 (f.rest.drop 4))) := by
    rw [record, if_neg (by omega), hf₁]
  refine .inr ⟨_, _, hrec, ?_⟩
  simp only [hread, hklen, hvlen, Record.Sound]
  generalize get32 f.rest = klen
  generalize get32 (f.rest.drop 4) = vlen
  by_cases hcap : klen > maxRecsize ∨ vlen > maxRecsize
  · exact .inl ⟨by omega, if_pos hcap⟩
  rw [if_neg hcap]
  rcases xread_quiet hq₁ klen with ⟨hk, hread₁⟩ | ⟨hk, f₂, hread₁, hf₂, hq₂⟩
  · refine .inl ⟨?_, by rw [hread₁]⟩
    rw [List.length_take]
    omega
  rcases xread_quiet hq₂ vlen with ⟨hv, hread₂⟩ | ⟨hv, f₃, hread₂, hf₃, hq₃⟩
  · rw [hf₂] at hv
    refine .inl ⟨?_, by simp only [hread₁, hread₂]⟩
    rw [List.length_take, List.length_take]
    omega
  rw [hf₂] at hv hread₂ hf₃
  have hsound : klen ≤ maxRecsize ∧ vlen ≤ maxRecsize ∧ (f₁.rest.take klen).length = klen ∧
      ((f₁.rest.drop klen).take vlen).length = vlen := by
    rw [List.length_take, List.length_take]
    omega
  refine .inr ⟨hsound, ?_⟩
  simp only [hread₁, hread₂]
  cases growIfFull db with
  | none => exact .inl ⟨rfl, rfl⟩
  | some db' => exact .inr ⟨db', f₃, rfl, rfl, hf₃, hq₃⟩

/-- **The records of a file that fits** are loaded, and every key's values are stacked in its chain. -/
theorem loadEntries_ok {n i : Nat} {db : IcbDbm} {held : Bytes → List Bytes} {f : RFile} {rs : List Record}
    (h : Loaded db i held) (hq : quietScript f.script) (hrs : records n f.rest = some rs)
    (hsound : ∀ r ∈ rs, r.Sound) (hroom : i + n ≤ maxEntries) :
    ∃ db', loadEntries n db f = .ok db' ∧ ∀ k, db'.buckets.stack hash k = stackFrom k i (held k) rs := by
  induction n generalizing i db held f rs with
  | zero =>
    obtain rfl : [] = rs := Option.some.inj hrs
    exact ⟨db, rfl, h.stack⟩
  | succ n ih =>
    simp only [records, Option.bind_eq_some_iff, Option.map_eq_some_iff] at hrs
    obtain ⟨⟨r, rest⟩, hr, rs', hrs', rfl⟩ := hrs
    obtain ⟨hr₁, hrest⟩ := List.forall_mem_cons.mp hsound
    obtain ⟨db₁, hg, hl⟩ := h.grow (by omega) r.key r.value
    rcases loadEntry_record hq db with ⟨hnone, -⟩ | ⟨r', rest', hr', hcase⟩
    · rw [hr] at hnone
      cases hnone
    obtain ⟨rfl, rfl⟩ := Prod.mk.inj (Option.some.inj (hr.symm.trans hr'))
    rcases hcase with ⟨hbad, -⟩ | ⟨-, ⟨hnone, -⟩ | ⟨db₂, f', hg', hload, hf', hq'⟩⟩
    · exact absurd hr₁ hbad
    · rw [hg] at hnone
      cases hnone
    obtain rfl := Option.some.inj (hg.symm.trans hg')
    obtain ⟨db', hdb', hstack⟩ := ih hl hq' (by rw [hf']; exact hrs') hrest (by omega)
    refine ⟨db', ?_, hstack⟩
    simp only [loadEntries, hload, hdb']

/-- Only a file that fits is loaded, and the server dies on one that has a record too many. -/
theorem loadEntries_cases {n i : Nat} {db : IcbDbm} {held : Bytes → List Bytes} {f : RFile}
    (h : Loaded db i held) (hq : quietScript f.script) (hi : i ≤ maxEntries) :
    (∃ db', loadEntries n db f = .ok db' ∧ i + n ≤ maxEntries ∧
      ∃ rs, records n f.rest = some rs ∧ ∀ r ∈ rs, r.Sound) ∨
    (loadEntries n db f = .error .crashed ∧ maxEntries < i + n ∧
      ∃ rs, records (maxEntries + 1 - i) f.rest = some rs ∧ ∀ r ∈ rs, r.Sound) ∨
    (loadEntries n db f = .error .failed ∧
      (∀ rs, records n f.rest = some rs → (∀ r ∈ rs, r.Sound) → False) ∧
      (maxEntries < i + n → ∀ rs, records (maxEntries + 1 - i) f.rest = some rs → (∀ r ∈ rs, r.Sound) → False)) := by
  induction n generalizing i db held f with
  | zero => exact .inl ⟨db, rfl, hi, [], rfl, by simp⟩
  | succ n ih =>
    obtain ⟨m, hm⟩ : ∃ m, maxEntries + 1 - i = m + 1 := ⟨maxEntries - i, by omega⟩
    -- the two searches for records begin with the same one
    have hcons : ∀ {p : Record × Bytes} {j : Nat} {rs : List Record}, record f.rest = some p →
        records (j + 1) f.rest = some rs → ∃ rs', records j p.2 = some rs' ∧ rs = p.1 :: rs' := by
      intro p j rs hp hrs
      simp only [records, hp, Option.bind_some, Option.map_eq_some_iff] at hrs
      obtain ⟨rs', hrs', rfl⟩ := hrs
      exact ⟨rs', hrs', rfl⟩
    have hback : ∀ {p : Record × Bytes} {j : Nat} {rs : List Record}, record f.rest = some p →
        records j p.2 = some rs → records (j + 1) f.rest = some (p.1 :: rs) := by
      intro p j rs hp hrs
      simp only [records, hp, Option.bind_some, hrs, Option.map_some]
    rcases loadEntry_record hq db with ⟨hnone, hload⟩ | ⟨r, rest, hr, ⟨hbad, hload⟩ | ⟨hr₁, hcase⟩⟩
    · refine .inr (.inr ⟨by simp only [loadEntries, hload], ?_, ?_⟩)
      · intro rs hrs
        simp [records, hnone] at hrs
      · intro _ rs hrs
        rw [hm] at hrs
        simp [records, hnone] at hrs
    · refine .inr (.inr ⟨by simp only [loadEntries, hload], ?_, ?_⟩)
      · intro rs hrs hall
        obtain ⟨rs', -, rfl⟩ := hcons hr hrs
        exact hbad (hall r List.mem_cons_self)
      · intro _ rs hrs hall
        rw [hm] at hrs
        obtain ⟨rs', -, rfl⟩ := hcons hr hrs
        exact hbad (hall r List.mem_cons_self)
    rcases Nat.lt_or_ge i maxEntries with hlt | hge
    · obtain ⟨db₁, hg, hl⟩ := h.grow hlt r.key r.value
      rcases hcase with ⟨hnone, -⟩ | ⟨db₂, f', hg', hload, hf', hq'⟩
      · rw [hg] at hnone
        cases hnone
      obtain rfl := Option.some.inj (hg.symm.trans hg')
      have hstep : loadEntries (n + 1) db f = loadEntries n (insertEntry db₁ r.key r.value) f' := by
        simp only [loadEntries, hload]
      have hm' : maxEntries + 1 - (i + 1) = m := by omega
      have hsum : i + 1 + n = i + (n + 1) := by omega
      have hih := ih hl hq' (by omega)
      rw [hstep, hm]
      rw [hf', hm', hsum] at hih
      rcases hih with ⟨db', hdb', hroom, rs, hrs, hall⟩ | ⟨hcrash, hmore, rs, hrs, hall⟩ | ⟨hfail, hno, hno'⟩
      · exact .inl ⟨db', hdb', hroom, _, hback hr hrs, List.forall_mem_cons.mpr ⟨hr₁, hall⟩⟩
      · exact .inr (.inl ⟨hcrash, hmore, _, hback hr hrs, List.forall_mem_cons.mpr ⟨hr₁, hall⟩⟩)
      · refine .inr (.inr ⟨hfail, ?_, ?_⟩)
        · intro rs hrs hall
          obtain ⟨rs', hrs', rfl⟩ := hcons hr hrs
          exact hno rs' hrs' (List.forall_mem_cons.mp hall).2
        · intro hmore rs hrs hall
          obtain ⟨rs', hrs', rfl⟩ := hcons hr hrs
          exact hno' hmore rs' hrs' (List.forall_mem_cons.mp hall).2
    · obtain rfl : i = maxEntries := by omega
      obtain rfl : m = 0 := by omega
      rcases hcase with ⟨-, hload⟩ | ⟨db₂, f', hg', -⟩
      · refine .inr (.inl ⟨by simp only [loadEntries, hload], by omega, [r], ?_, by simpa using hr₁⟩)
        rw [hm]
        exact @hback _ 0 [] hr rfl
      · rw [h.full] at hg'
        cases hg'

/-! ## §6 — agreement -/

/-- The two maps are one, as byte strings. -/
def SameMap (db : IcbDbm) (data : PyDict) : Prop :=
  ∀ q v : Bytes, htFind db q = some v ↔ ∃ k w, data.lookup k = some w ∧ encodeText k = q ∧ encodeText w = v

/-- **The readers agree on a file**: both reject it, or both accept it and then stand for the same map. -/
def ReadersAgree (content : Bytes) (script : List (Option Nat)) : Prop :=
  match loadFile (some content) script, pyLoad (some content) with
  | .error .failed, none => True
  | .ok db, some data => SameMap db data
  | _, _ => False

/-- The value in the last record for a key. -/
def lastValue (k : Bytes) (rs : List Record) : Option Bytes :=
  (rs.reverse.find? fun r => r.key = k).map (·.value)

/-- What the records must be like for the map of the Python reader to be that of the C reader: every key is
UTF-8, and the record found first in the chain of a key holds the value of the last record of that key, with
U+FFFD for what is not UTF-8 in it. -/
def SameRecords (rs : List Record) : Prop :=
  ∀ r ∈ rs, WellFormed r.key ∧ (stackFrom r.key 0 [] rs).head? = (lastValue r.key rs).map replaced

/-- **When the readers agree.** Either the file stops in its header, in the lengths of a record, or has the
wrong magic number, which both refuse, unless more records than a table can take come before that; or all
the records it announces are whole, within the cap, not too many, and make one map. -/
def Agreeable (content : Bytes) : Prop :=
  match announced content with
  | none => True
  | some (n, body) =>
      match records n body with
      | none => maxEntries < n → ∀ rs, records (maxEntries + 1) body = some rs → (∀ r ∈ rs, r.Sound) → False
      | some rs => n ≤ maxEntries ∧ (∀ r ∈ rs, r.Sound) ∧ SameRecords rs

theorem mem_stackFrom (k v : Bytes) (i : Nat) (vs : List Bytes) (rs : List Record) :
    v ∈ stackFrom k i vs rs ↔ v ∈ vs ∨ ∃ r ∈ rs, r.key = k ∧ r.value = v := by
  induction rs generalizing i vs with
  | nil => simp [stackFrom]
  | cons r rs ih =>
    have hturn : v ∈ (if Doubles i then vs.reverse else vs) ↔ v ∈ vs := by
      split <;> simp
    rw [stackFrom, ih]
    by_cases hk : k = r.key
    · simp only [hk, if_true, List.mem_cons, hturn]
      constructor
      · rintro ((rfl | h) | ⟨r', hr', h⟩)
        · exact .inr ⟨r, .inl rfl, rfl, rfl⟩
        · exact .inl h
        · exact .inr ⟨r', .inr hr', h⟩
      · rintro (h | ⟨r', rfl | hr', h⟩)
        · exact .inl (.inr h)
        · exact .inl (.inl h.2.symm)
        · exact .inr ⟨r', hr', h⟩
    · rw [if_neg hk, hturn]
      simp [Ne.symm hk]

theorem lookup_foldl_decode (rs : List Record) (k : List Char) :
    (rs.foldl (fun data r => data.insert (decodeReplace r.key) (decodeReplace r.value)) (∅ : PyDict)).lookup k =
      (rs.reverse.find? fun r => decodeReplace r.key = k).map fun r => decodeReplace r.value := by
  induction rs using List.reverseRecOn with
  | nil => rfl
  | append_singleton rs r ih =>
    rw [List.foldl_append, List.foldl_cons, List.foldl_nil, List.reverse_append, List.reverse_singleton,
      List.singleton_append, List.find?_cons]
    by_cases hk : decodeReplace r.key = k
    · subst hk
      rw [Finmap.lookup_insert, decide_eq_true rfl]
      rfl
    · rw [Finmap.lookup_insert_of_ne _ (Ne.symm hk), decide_eq_false hk]
      exact ih

/-- Among UTF-8 keys the one a text stands for is found like the text. -/
theorem find?_decode {rs : List Record} (hkeys : ∀ r ∈ rs, WellFormed r.key) (k : List Char) :
    (rs.find? fun r => decodeReplace r.key = k) = rs.find? fun r => r.key = encodeText k := by
  induction rs with
  | nil => rfl
  | cons r rs ih =>
    obtain ⟨⟨cs, hcs⟩, hrest⟩ := List.forall_mem_cons.mp hkeys
    have hkey : decodeReplace r.key = k ↔ r.key = encodeText k := by
      rw [← hcs, decodeReplace_encodeText]
      refine ⟨fun h => by rw [h], fun h => ?_⟩
      have := congrArg decodeReplace h
      rwa [decodeReplace_encodeText, decodeReplace_encodeText] at this
    rw [List.find?_cons, List.find?_cons, ih hrest, decide_eq_decide.mpr hkey]

/-- The dictionary, for a key that is UTF-8 like all the others. -/
theorem lookup_encodeText {rs : List Record} (hkeys : ∀ r ∈ rs, WellFormed r.key) (k : List Char) :
    (rs.foldl (fun data r => data.insert (decodeReplace r.key) (decodeReplace r.value)) (∅ : PyDict)).lookup k =
      (lastValue (encodeText k) rs).map decodeReplace := by
  rw [lookup_foldl_decode, find?_decode (fun r hr => hkeys r (List.mem_reverse.mp hr)), lastValue, Option.map_map]
  rfl

theorem lastValue_mem {k v : Bytes} {rs : List Record} (h : lastValue k rs = some v) : ∃ r ∈ rs, r.key = k := by
  obtain ⟨r, hr, -⟩ := Option.map_eq_some_iff.mp h
  have hkey := List.find?_some hr
  exact ⟨r, List.mem_reverse.mp (List.mem_of_find?_eq_some hr), of_decide_eq_true hkey⟩

/-- **The two maps** are one just when the records say so. -/
theorem sameMap_iff {db : IcbDbm} {rs : List Record}
    (hstack : ∀ k, db.buckets.stack hash k = stackFrom k 0 [] rs) :
    SameMap db (rs.foldl (fun data r => data.insert (decodeReplace r.key) (decodeReplace r.value)) ∅) ↔
      SameRecords rs := by
  have hfind : ∀ k, htFind db k = (stackFrom k 0 [] rs).head? := by
    intro k
    rw [htFind, Buckets.find_eq_head?, hstack]
  constructor
  · intro h
    -- every key of the file is found in the table, so it is the encoding of a key of the dictionary
    have hfound : ∀ r ∈ rs, ∃ v, htFind db r.key = some v := by
      intro r hr
      have hmem := (mem_stackFrom r.key r.value 0 [] rs).mpr (.inr ⟨r, hr, rfl, rfl⟩)
      rw [hfind]
      exact Option.isSome_iff_exists.mp (List.isSome_head?.mpr (List.ne_nil_of_mem hmem))
    have hkeys : ∀ r ∈ rs, WellFormed r.key := by
      intro r hr
      obtain ⟨v, hv⟩ := hfound r hr
      obtain ⟨k, -, -, hk, -⟩ := (h r.key v).mp hv
      exact ⟨k, hk⟩
    intro r hr
    obtain ⟨v, hv⟩ := hfound r hr
    obtain ⟨k, w, hlookup, hk, rfl⟩ := (h r.key v).mp hv
    refine ⟨⟨k, hk⟩, ?_⟩
    rw [lookup_encodeText hkeys, hk] at hlookup
    obtain ⟨u, hu, rfl⟩ := Option.map_eq_some_iff.mp hlookup
    rw [← hfind, hv, hu]
    rfl
  · intro h q v
    have hkeys : ∀ r ∈ rs, WellFormed r.key := fun r hr => (h r hr).1
    constructor
    · intro hv
      rw [hfind] at hv
      have hmem := List.mem_of_head? hv
      obtain ⟨r, hr, rfl, -⟩ := ((mem_stackFrom q v 0 [] rs).mp hmem).resolve_left List.not_mem_nil
      obtain ⟨⟨k, hk⟩, hhead⟩ := h r hr
      obtain ⟨u, hu, hrep⟩ := Option.map_eq_some_iff.mp (hhead.symm.trans hv)
      refine ⟨k, decodeReplace u, ?_, hk, hrep⟩
      rw [lookup_encodeText hkeys, hk, hu]
      rfl
    · rintro ⟨k, w, hlookup, rfl, rfl⟩
      rw [lookup_encodeText hkeys] at hlookup
      obtain ⟨u, hu, rfl⟩ := Option.map_eq_some_iff.mp hlookup
      obtain ⟨r, hr, hkey⟩ := lastValue_mem hu
      have hhead := (h r hr).2
      rw [hkey, hu] at hhead
      rw [hfind, hhead]
      rfl

/-- **The two readers.** For every content of the file, and however its reads are split, `load_file` and
`_load` agree just when the content is `Agreeable`. -/
theorem readersAgree_iff {content : Bytes} {script : List (Option Nat)} (hq : quietScript script) :
    ReadersAgree content script ↔ Agreeable content := by
  have hmagic : (content.take 8).take 4 = content.take 4 := by rw [List.take_take]; rfl
  have hcount : get32 ((content.take 8).drop 4) = get32 (content.drop 4) := by simp [get32]
  unfold ReadersAgree Agreeable announced loadFile pyLoad
  rcases xread_quiet (f := { rest := content, script := script }) hq 8 with
    ⟨hlen, hread⟩ | ⟨hlen, f, hread, hf, hqf⟩
  · have hshort : (content.take 8).length < 8 := by
      rw [List.length_take]
      exact Nat.lt_of_le_of_lt (Nat.min_le_right _ _) hlen
    simp only [hread, hshort, if_true, show content.length < 8 from hlen, true_or]
  have hlong : ¬ (content.take 8).length < 8 := by
    rw [List.length_take]
    simp only at hlen
    omega
  simp only [hread, hlong, if_false, hmagic, hcount, show ¬ content.length < 8 from Nat.not_lt.mpr hlen, false_or]
  by_cases hm : content.take 4 ≠ magic
  · simp only [hm, if_true, ne_eq, not_false_eq_true]
  simp only [hm, if_false, pyLoadEntries_eq]
  rw [show content.drop 8 = f.rest from hf.symm]
  generalize get32 (content.drop 4) = n
  rcases loadEntries_cases (n := n) loaded_empty hqf (Nat.zero_le _) with
    ⟨db, hload, hroom, rs, hrs, hall⟩ | ⟨hload, hmore, rs, hrs, hall⟩ | ⟨hload, hno, hno'⟩
  · obtain ⟨db', hload', hstack⟩ := loadEntries_ok loaded_empty hqf hrs hall hroom
    obtain rfl : db' = db := Except.ok.inj (hload'.symm.trans hload)
    rw [hload, hrs]
    simp only [Option.map_some, sameMap_iff hstack]
    exact ⟨fun h => ⟨by omega, hall, h⟩, fun h => h.2.2⟩
  · rw [hload]
    cases hn : records n f.rest with
    | none =>
      rw [false_iff]
      exact fun h => h (by omega) rs (by simpa using hrs) hall
    | some rs' =>
      rw [false_iff]
      intro h
      omega
  · rw [hload]
    cases hn : records n f.rest with
    | none =>
      simp only [Option.map_none, true_iff]
      exact fun hmore rs hrs hall => hno' (by omega) rs (by simpa using hrs) hall
    | some rs =>
      simp only [Option.map_some, false_iff]
      exact fun h => hno rs hn h.2.1

/-- A file of one whole record, and the same file without its last byte. -/
def oneRecord : Bytes := magic ++ [1, 0, 0, 0, 1, 0, 0, 0, 2, 0, 0, 0, 110, 104, 105]

theorem readersAgree_oneRecord : ReadersAgree oneRecord [some 0, some 6] := by
  have hq : quietScript [some 0, some 6] := by simp [quietScript]
  rw [readersAgree_iff hq]
  have hrep : replaced [104, 105] = [104, 105] := by decide +kernel
  have hkey : encodeText ['n'] = [110] := by decide +kernel
  have hann : announced oneRecord = some (1, oneRecord.drop 8) := by decide +kernel
  have hrs : records 1 (oneRecord.drop 8) = some [⟨1, 2, [110], [104, 105]⟩] := rfl
  have hstack : stackFrom [110] 0 [] [⟨1, 2, [110], [104, 105]⟩] = [[104, 105]] := by decide +kernel
  simp only [Agreeable, hann, hrs]
  refine ⟨by simp [maxEntries], ?_, ?_⟩
  · rintro r (_ | ⟨_, ⟨⟩⟩)
    simp [Record.Sound, maxRecsize]
  · rintro r (_ | ⟨_, ⟨⟩⟩)
    refine ⟨⟨['n'], hkey⟩, ?_⟩
    rw [hstack]
    simp [lastValue, hrep]

/-- **A value that is cut short.** `load_file` rejects the file, and `_load` takes what is there. -/
theorem cut_value_accepted : ¬ ReadersAgree oneRecord.dropLast [] := by
  have hc : loadFile (some oneRecord.dropLast) [] = .error .failed := by decide +kernel
  have hpy : (pyLoad (some oneRecord.dropLast)).isSome = true := by decide +kernel
  obtain ⟨data, hdata⟩ := Option.isSome_iff_exists.mp hpy
  rw [ReadersAgree, hc, hdata]
  exact id

end Icbd.Dbm
