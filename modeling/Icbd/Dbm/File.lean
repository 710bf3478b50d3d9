/-
# Icbd.Dbm.File — the database file: `load_file` and `flush_file`.

A read script says how many bytes each `read` hands over at most, or that it fails; a write script
does the same for `write`, and a flush can also fail to open, to sync or to rename. The file on disk
is a byte string or absent. The encoder walks the chains of one table; the decoder inserts into
another, growing one. What they agree on is the list of entries.
-/
import Icbd.Dbm.Table

namespace Icbd.Dbm

open Icbd.Lib (Buckets Entry)

/-! ## §1 — numbers -/

/-- `put32`, little-endian. -/
def put32 (v : Nat) : Bytes :=
  [UInt8.ofNat v, UInt8.ofNat (v >>> 8), UInt8.ofNat (v >>> 16), UInt8.ofNat (v >>> 24)]

/-- `get32` of the first four bytes. -/
def get32 (b : Bytes) : Nat :=
  let byte (i : Nat) : Nat := (b.getD i 0).toNat
  byte 0 ||| byte 1 <<< 8 ||| byte 2 <<< 16 ||| byte 3 <<< 24

@[simp] theorem length_put32 (v : Nat) : (put32 v).length = 4 := rfl

theorem get32_put32_append {v : Nat} (hv : v < 2 ^ 32) (t : Bytes) :
    get32 (put32 v ++ t) = v := by
  have h0 : (UInt8.ofNat v).toNat = v % 2 ^ 8 := by simp
  have h1 : (UInt8.ofNat (v >>> 8)).toNat = v / 2 ^ 8 % 2 ^ 8 := by
    simp [Nat.shiftRight_eq_div_pow]
  have h2 : (UInt8.ofNat (v >>> 16)).toNat = v / 2 ^ 16 % 2 ^ 8 := by
    simp [Nat.shiftRight_eq_div_pow]
  have h3 : (UInt8.ofNat (v >>> 24)).toNat = v / 2 ^ 24 % 2 ^ 8 := by
    simp [Nat.shiftRight_eq_div_pow]
  have hval : get32 (put32 v ++ t) = v % 2 ^ 8 ||| (v / 2 ^ 8 % 2 ^ 8) <<< 8 |||
      (v / 2 ^ 16 % 2 ^ 8) <<< 16 ||| (v / 2 ^ 24 % 2 ^ 8) <<< 24 := by
    simp only [get32, put32, List.cons_append, List.getD_cons_zero, List.getD_cons_succ, h0, h1, h2,
      h3]
  have e1 : v % 2 ^ 8 ||| (v / 2 ^ 8 % 2 ^ 8) <<< 8 = v % 2 ^ 16 := by
    rw [Nat.or_comm, ← Nat.shiftLeft_add_eq_or_of_lt (by omega), Nat.shiftLeft_eq]
    omega
  have e2 : v % 2 ^ 16 ||| (v / 2 ^ 16 % 2 ^ 8) <<< 16 = v % 2 ^ 24 := by
    rw [Nat.or_comm, ← Nat.shiftLeft_add_eq_or_of_lt (by omega), Nat.shiftLeft_eq]
    omega
  have e3 : v % 2 ^ 24 ||| (v / 2 ^ 24 % 2 ^ 8) <<< 24 = v := by
    rw [Nat.or_comm, ← Nat.shiftLeft_add_eq_or_of_lt (by omega), Nat.shiftLeft_eq]
    omega
  rw [hval, e1, e2, e3]

/-! ## §2 — reading -/

/-- An open file: the bytes not read yet and what the next calls of `read` do. `some k` hands over
at most `k + 1` bytes, `none` fails; a script that has run out hands over all that is asked for. -/
structure RFile where
  rest : Bytes
  script : List (Option Nat) := []

/-- `read`; no bytes at end of file. -/
def RFile.read (f : RFile) (n : Nat) : Option (Bytes × RFile) :=
  match f.script with
  | [] => some (f.rest.take n, { f with rest := f.rest.drop n })
  | none :: _ => none
  | some k :: s =>
      some (f.rest.take (min n (k + 1)), { rest := f.rest.drop (min n (k + 1)), script := s })

/-- The loop of `xread`; every iteration that goes on has read a byte, so `n` of them are enough. -/
def xreadLoop : Nat → RFile → Nat → Option (Bytes × RFile)
  | fuel, f, n =>
      if n = 0 then some ([], f)
      else
        match fuel with
        | 0 => none
        | fuel + 1 =>
            match f.read n with
            | none => none
            | some (b, f) =>
                if b = [] then none
                else (xreadLoop fuel f (n - b.length)).map fun r => (b ++ r.1, r.2)

/-- `xread`: exactly `n` bytes, or failure. -/
def xread (f : RFile) (n : Nat) : Option (Bytes × RFile) := xreadLoop n f n

/-! ## §3 — `load_file` -/

/-- `ICB_DBM_MAGIC`. -/
def magic : Bytes := [73, 68, 66, 1]

/-- `ICB_DBM_MAX_RECSIZE`. -/
def maxRecsize : Nat := 2 ^ 20

/-- How loading ends badly: `-1`, or a division by zero after the bucket count wrapped around. -/
inductive LoadError
  | failed
  | crashed
  deriving DecidableEq, Repr

/-- One record of the file. -/
def loadEntry (db : IcbDbm) (f : RFile) : Except LoadError (IcbDbm × RFile) :=
  match xread f 8 with
  | none => .error .failed
  | some (rh, f) =>
      let klen := get32 rh
      let vlen := get32 (rh.drop 4)
      if klen > maxRecsize ∨ vlen > maxRecsize then .error .failed
      else
        match xread f klen with
        | none => .error .failed
        | some (k, f) =>
            match xread f vlen with
            | none => .error .failed
            | some (v, f) =>
                match growIfFull db with
                | none => .error .crashed
                | some db => .ok (insertEntry db k v, f)

/-- The loop over the records. -/
def loadEntries : Nat → IcbDbm → RFile → Except LoadError IcbDbm
  | 0, db, _ => .ok db
  | n + 1, db, f =>
      match loadEntry db f with
      | .error e => .error e
      | .ok (db, f) => loadEntries n db f

/-- `load_file` on a freshly allocated table. A missing file is an empty database. -/
def loadFile (disk : Option Bytes) (script : List (Option Nat)) : Except LoadError IcbDbm :=
  match disk with
  | none => .ok {}
  | some content =>
      match xread { rest := content, script := script } 8 with
      | none => .error .failed
      | some (hdr, f) =>
          if hdr.take 4 ≠ magic then .error .failed
          else loadEntries (get32 (hdr.drop 4)) {} f

/-! ## §4 — `flush_file` -/

/-- The record written for an entry. -/
def encodeEntry (e : Entry Bytes Bytes) : Bytes :=
  put32 e.1.length ++ put32 e.2.length ++ e.1 ++ e.2

/-- The buffers handed to `xwrite` in turn: the header, then three for each entry (the last two only
when they are not empty). -/
def flushBuffers (db : IcbDbm) : List Bytes :=
  (magic ++ put32 db.nentries) ::
    db.buckets.flatten.flatMap fun e =>
      [put32 e.1.length ++ put32 e.2.length] ++ (if e.1.length > 0 then [e.1] else []) ++
        (if e.2.length > 0 then [e.2] else [])

/-- The complete new content of the file. -/
def fileBytes (db : IcbDbm) : Bytes :=
  magic ++ put32 db.nentries ++ db.buckets.flatten.flatMap encodeEntry

/-- How the system calls of one flush turn out: `some k` is a `write` of at most `k + 1` bytes,
`none` one that fails, and a write script that has run out takes everything. -/
structure FlushScript where
  opens : Bool := true
  writes : List (Option Nat) := []
  fsyncs : Bool := true
  renames : Bool := true

/-- The loop of `xwrite`: what the file holds so far and the script left, or failure. -/
def xwriteLoop : Nat → Bytes → List (Option Nat) → Bytes → Option (Bytes × List (Option Nat))
  | fuel, written, script, b =>
      if b = [] then some (written, script)
      else
        match fuel with
        | 0 => none
        | fuel + 1 =>
            match script with
            | [] => some (written ++ b, [])
            | none :: _ => none
            | some k :: s => xwriteLoop fuel (written ++ b.take (k + 1)) s (b.drop (k + 1))

/-- `xwrite`: every iteration writes a byte, so as many as there are bytes are enough. -/
def xwrite (written : Bytes) (script : List (Option Nat)) (b : Bytes) :
    Option (Bytes × List (Option Nat)) :=
  xwriteLoop b.length written script b

/-- The buffers one after the other. -/
def xwriteAll (written : Bytes) (script : List (Option Nat)) : List Bytes → Option Bytes
  | [] => some written
  | b :: bs => (xwrite written script b).bind fun r => xwriteAll r.1 r.2 bs

/-- `flush_file`: return code, table and file. The new content is built under another name and takes
the place of the old one only by the final rename. -/
def flushFile (s : FlushScript) (db : IcbDbm) (disk : Option Bytes) : Int × IcbDbm × Option Bytes :=
  if ¬ db.dirty then (0, db, disk)
  else if ¬ s.opens then (-1, db, disk)
  else
    match xwriteAll [] s.writes (flushBuffers db) with
    | none => (-1, db, disk)
    | some content =>
        if ¬ s.fsyncs then (-1, db, disk)
        else if ¬ s.renames then (-1, db, disk)
        else (0, { db with dirty := false }, some content)

/-! ## §5 — what is written -/

theorem xwriteLoop_spec {fuel : Nat} {written b w : Bytes} {script rest : List (Option Nat)}
    (h : xwriteLoop fuel written script b = some (w, rest)) : w = written ++ b := by
  induction fuel generalizing written script b with
  | zero =>
      unfold xwriteLoop at h
      by_cases hb : b = []
      · simp only [hb, if_true, Option.some.injEq, Prod.mk.injEq] at h
        rw [hb, List.append_nil, h.1]
      · simp [hb] at h
  | succ fuel ih =>
      unfold xwriteLoop at h
      by_cases hb : b = []
      · simp only [hb, if_true, Option.some.injEq, Prod.mk.injEq] at h
        rw [hb, List.append_nil, h.1]
      · simp only [hb, if_false] at h
        match script with
        | [] => exact (Prod.mk.inj (Option.some.inj h)).1.symm
        | none :: _ => cases h
        | some k :: s =>
            have := ih h
            rw [this, List.append_assoc, List.take_append_drop]

theorem xwriteAll_spec {written w : Bytes} {script : List (Option Nat)} {bs : List Bytes}
    (h : xwriteAll written script bs = some w) : w = written ++ bs.flatten := by
  induction bs generalizing written script with
  | nil =>
      obtain rfl := Option.some.inj h
      rw [List.flatten_nil, List.append_nil]
  | cons b bs ih =>
      simp only [xwriteAll, Option.bind_eq_some_iff, Prod.exists] at h
      obtain ⟨w₁, s₁, hb, hrest⟩ := h
      rw [ih hrest, xwriteLoop_spec hb, List.flatten_cons, List.append_assoc]

theorem flatten_flushBuffers (db : IcbDbm) : (flushBuffers db).flatten = fileBytes db := by
  have hentry : ∀ e : Entry Bytes Bytes,
      ([put32 e.1.length ++ put32 e.2.length] ++ (if e.1.length > 0 then [e.1] else []) ++
        (if e.2.length > 0 then [e.2] else [])).flatten = encodeEntry e := by
    rintro ⟨k, v⟩
    cases k <;> cases v <;> simp [encodeEntry]
  have hall : ∀ es : List (Entry Bytes Bytes),
      (es.flatMap fun e => [put32 e.1.length ++ put32 e.2.length] ++
        (if e.1.length > 0 then [e.1] else []) ++ (if e.2.length > 0 then [e.2] else [])).flatten =
      es.flatMap encodeEntry := by
    intro es
    induction es with
    | nil => rfl
    | cons e es ih => rw [List.flatMap_cons, List.flatten_append, hentry, ih, List.flatMap_cons]
  rw [flushBuffers, List.flatten_cons, hall, fileBytes]

/-- **A flush that succeeds** on a changed table leaves the complete encoding of the table. -/
theorem flushFile_writes {s : FlushScript} {db db' : IcbDbm} {disk disk' : Option Bytes}
    (hd : db.dirty = true) (h : flushFile s db disk = (0, db', disk')) :
    disk' = some (fileBytes db) := by
  unfold flushFile at h
  simp only [hd, not_true_eq_false, if_false] at h
  split at h
  · simp at h
  · split at h
    · simp at h
    · rename_i content hw
      split at h
      · simp at h
      · split at h
        · simp at h
        · obtain ⟨_, _, rfl⟩ := h
          rw [xwriteAll_spec hw, List.nil_append, flatten_flushBuffers]

/-! ## §6 — what is read -/

/-- No read fails. -/
def quietScript (s : List (Option Nat)) : Prop := none ∉ s

theorem RFile.read_spec {f : RFile} (hq : quietScript f.script) {n : Nat} (hn : 0 < n) :
    ∃ d f', f.read n = some (f.rest.take d, f') ∧ 0 < d ∧ d ≤ n ∧ f'.rest = f.rest.drop d ∧
      quietScript f'.script := by
  match hs : f.script with
  | [] =>
      refine ⟨n, { f with rest := f.rest.drop n }, ?_, hn, Nat.le_refl n, rfl, ?_⟩
      · simp only [RFile.read, hs]
      · exact hq
  | none :: _ =>
      exact absurd (by rw [hs]; exact List.mem_cons_self) hq
  | some k :: s =>
      refine ⟨min n (k + 1), { rest := f.rest.drop (min n (k + 1)), script := s }, ?_, by omega,
        by omega, rfl, ?_⟩
      · simp only [RFile.read, hs]
      · intro hmem
        exact hq (by rw [hs]; exact List.mem_cons_of_mem _ hmem)

/-- **Short reads do not matter.** -/
theorem xreadLoop_spec {fuel n : Nat} {f : RFile} (hq : quietScript f.script) (hfuel : n ≤ fuel)
    (hlen : n ≤ f.rest.length) :
    ∃ f', xreadLoop fuel f n = some (f.rest.take n, f') ∧ f'.rest = f.rest.drop n ∧
      quietScript f'.script := by
  induction fuel generalizing f n with
  | zero =>
      obtain rfl : n = 0 := by omega
      exact ⟨f, by simp [xreadLoop], rfl, hq⟩
  | succ fuel ih =>
      by_cases hn : n = 0
      · subst hn
        exact ⟨f, by simp [xreadLoop], rfl, hq⟩
      · obtain ⟨d, f₁, hread, hd, hdn, hrest, hq₁⟩ := RFile.read_spec hq (Nat.pos_of_ne_zero hn)
        have hlen₁ : (f.rest.take d).length = d := by
          rw [List.length_take]
          omega
        have hne : f.rest.take d ≠ [] := by
          intro hnil
          rw [hnil] at hlen₁
          simp at hlen₁
          omega
        obtain ⟨f₂, hloop, hrest₂, hq₂⟩ := ih (n := n - d) hq₁ (by omega)
          (by rw [hrest, List.length_drop]; omega)
        refine ⟨f₂, ?_, ?_, hq₂⟩
        · unfold xreadLoop
          simp only [hn, if_false, hread, hne, hlen₁, hloop, Option.map_some]
          rw [hrest, ← List.take_add, Nat.add_sub_cancel' hdn]
        · rw [hrest₂, hrest, List.drop_drop, Nat.add_sub_cancel' hdn]

theorem xread_append {f : RFile} {b t : Bytes} (hq : quietScript f.script) (hf : f.rest = b ++ t) :
    ∃ f', xread f b.length = some (b, f') ∧ f'.rest = t ∧ quietScript f'.script := by
  obtain ⟨f', h, hrest, hq'⟩ := xreadLoop_spec (n := b.length) hq (Nat.le_refl _)
    (by rw [hf, List.length_append]; omega)
  refine ⟨f', ?_, ?_, hq'⟩
  · rw [xread, h, hf, List.take_left]
  · rw [hrest, hf, List.drop_left]

/-- A file that ends early. -/
theorem xreadLoop_short {fuel n : Nat} {f : RFile} (hlen : f.rest.length < n) : xreadLoop fuel f n = none := by
  induction fuel generalizing f n with
  | zero =>
      unfold xreadLoop
      rw [if_neg (by omega)]
  | succ fuel ih =>
      unfold xreadLoop
      rw [if_neg (by omega)]
      cases hread : f.read n with
      | none => rfl
      | some r =>
          obtain ⟨b, f'⟩ := r
          have htotal : b.length + f'.rest.length = f.rest.length := by
            unfold RFile.read at hread
            split at hread
            · obtain ⟨rfl, rfl⟩ := hread
              simp only [List.length_take, List.length_drop]
              omega
            · cases hread
            · obtain ⟨rfl, rfl⟩ := hread
              simp only [List.length_take, List.length_drop]
              omega
          by_cases hb : b = []
          · simp [hb]
          · simp only [hb, if_false, ih (f := f') (n := n - b.length) (by omega), Option.map_none]

theorem xread_short {n : Nat} {f : RFile} (hlen : f.rest.length < n) : xread f n = none :=
  xreadLoop_short hlen

/-- What `xread` does with a file whose reads do not fail. -/
theorem xread_quiet {f : RFile} (hq : quietScript f.script) (n : Nat) :
    f.rest.length < n ∧ xread f n = none ∨
    n ≤ f.rest.length ∧ ∃ f', xread f n = some (f.rest.take n, f') ∧ f'.rest = f.rest.drop n ∧
      quietScript f'.script := by
  rcases Nat.lt_or_ge f.rest.length n with hlen | hlen
  · exact .inl ⟨hlen, xread_short hlen⟩
  · exact .inr ⟨hlen, xreadLoop_spec hq (Nat.le_refl n) hlen⟩

/-- The table as the decoder fills it: it never has more buckets than the entries so far asked for,
so it can wrap around only after the largest number of entries a table can hold. -/
def LoadSized (nbuckets nentries : Nat) : Prop :=
  ∃ j, nbuckets = initBuckets * 2 ^ j ∧
    ((j ≤ 23 ∧ nentries * 4 ≤ nbuckets * 3) ∨ (j = 24 ∧ nentries = 805306369))

theorem LoadSized.grow {b e : Nat} (h : LoadSized b e) (hlt : e < 805306369) :
    (¬ (e * 4) % 2 ^ 32 ≥ (b * 3) % 2 ^ 32 ∧ LoadSized b (e + 1)) ∨
    ((e * 4) % 2 ^ 32 ≥ (b * 3) % 2 ^ 32 ∧ (b * 2) % 2 ^ 32 = b * 2 ∧
      LoadSized (b * 2) (e + 1)) := by
  obtain ⟨j, rfl, ⟨hj, he⟩ | ⟨rfl, he⟩⟩ := h
  · have hpow : 2 ^ j ≤ 2 ^ 23 := Nat.pow_le_pow_right (by decide) hj
    have hpos : 1 ≤ 2 ^ j := Nat.one_le_two_pow
    have hsucc : initBuckets * 2 ^ j * 2 = initBuckets * 2 ^ (j + 1) := by
      rw [Nat.pow_succ, Nat.mul_assoc]
    simp only [initBuckets] at *
    by_cases hfull : e * 4 ≥ 128 * 2 ^ j * 3
    · refine Or.inr ⟨by omega, by omega, j + 1, hsucc, ?_⟩
      by_cases hlast : j = 23
      · subst hlast
        exact Or.inr ⟨rfl, by omega⟩
      · exact Or.inl ⟨by omega, by omega⟩
    · exact Or.inl ⟨by omega, j, rfl, Or.inl ⟨hj, by omega⟩⟩
  · omega

theorem growIfFull_loadSized {db : IcbDbm} {m : DbMap} (h : Represents db m)
    (hs : LoadSized db.nbuckets db.nentries) (hlt : db.nentries < 805306369) :
    ∃ db', growIfFull db = some db' ∧ LoadSized db'.nbuckets (db'.nentries + 1) := by
  unfold growIfFull
  rcases hs.grow hlt with ⟨hno, hs'⟩ | ⟨hyes, hwrap, hs'⟩
  · exact ⟨db, if_neg hno, hs'⟩
  · have hpos : 0 < db.nbuckets * 2 := Nat.mul_pos h.placed.pos (by decide)
    refine ⟨{ db with buckets := db.buckets.rehash hash (db.nbuckets * 2) }, ?_, ?_⟩
    · rw [if_pos hyes, hwrap, htResize, if_neg (Nat.pos_iff_ne_zero.mp hpos)]
    · rw [IcbDbm.nbuckets, (h.placed.rehash hpos).2.1]
      exact hs'

/-- A record within the size cap. -/
def SmallEntry (e : Entry Bytes Bytes) : Prop := e.1.length ≤ maxRecsize ∧ e.2.length ≤ maxRecsize

/-- **One record**: the decoder reads back the entry the encoder wrote and inserts it. -/
theorem loadEntry_encode {db db' : IcbDbm} {f : RFile} {e : Entry Bytes Bytes} {t : Bytes}
    (hq : quietScript f.script) (he : SmallEntry e) (hf : f.rest = encodeEntry e ++ t)
    (hg : growIfFull db = some db') :
    ∃ f', loadEntry db f = .ok (insertEntry db' e.1 e.2, f') ∧ f'.rest = t ∧
      quietScript f'.script := by
  obtain ⟨k, v⟩ := e
  obtain ⟨hk, hv⟩ := he
  simp only [maxRecsize] at hk hv
  obtain ⟨f₁, hrh, hf₁, hq₁⟩ := xread_append (b := put32 k.length ++ put32 v.length) (t := k ++ (v ++ t))
    hq (by rw [hf]; simp [encodeEntry])
  obtain ⟨f₂, hkey, hf₂, hq₂⟩ := xread_append (b := k) (t := v ++ t) hq₁ hf₁
  obtain ⟨f₃, hval, hf₃, hq₃⟩ := xread_append (b := v) (t := t) hq₂ hf₂
  have hklen : get32 (put32 k.length ++ put32 v.length) = k.length :=
    get32_put32_append (by omega) _
  have hvlen : get32 ((put32 k.length ++ put32 v.length).drop 4) = v.length := by
    have h := get32_put32_append (v := v.length) (by omega) []
    rwa [List.append_nil] at h
  have hcap : ¬ (k.length > maxRecsize ∨ v.length > maxRecsize) := by
    simp only [maxRecsize]
    omega
  refine ⟨f₃, ?_, hf₃, hq₃⟩
  have hrh' : xread f 8 = some (put32 k.length ++ put32 v.length, f₁) := hrh
  simp only [loadEntry, hrh', hklen, hvlen, hcap, if_false, hkey, hval, hg]

/-- **The records**, by induction on the entries still to come: the table represents the map of the
entries loaded so far. -/
theorem loadEntries_encode {db : IcbDbm} {m : DbMap} {f : RFile} (es : List (Entry Bytes Bytes))
    (h : Represents db m) (hs : LoadSized db.nbuckets db.nentries)
    (hq : quietScript f.script) (hsmall : ∀ e ∈ es, SmallEntry e)
    (hf : f.rest = es.flatMap encodeEntry) (hnd : es.NodupKeys) (hnew : ∀ e ∈ es, e.1 ∉ m)
    (hcap : db.nentries + es.length ≤ 805306369) :
    ∃ db', loadEntries es.length db f = .ok db' ∧
      Represents db' (es.foldl (fun m e => m.insert e.1 e.2) m) ∧
      db'.nentries = db.nentries + es.length := by
  induction es generalizing db m f with
  | nil => exact ⟨db, rfl, h, rfl⟩
  | cons e es ih =>
      simp only [List.length_cons] at hcap
      obtain ⟨db₁, hg, hs₁⟩ := growIfFull_loadSized h hs (by omega)
      obtain ⟨hp, hm, hc, hn, hroom⟩ := growIfFull_repr h hg
      obtain ⟨f₁, hload, hf₁, hq₁⟩ := loadEntry_encode (e := e) (t := es.flatMap encodeEntry) hq
        (hsmall e List.mem_cons_self) (by rw [hf, List.flatMap_cons]) hg
      have hr := insertEntry_repr e.2 hp hm hc hroom
        (Finmap.lookup_eq_none.mpr (hnew e List.mem_cons_self))
      have hcount : (insertEntry db₁ e.1 e.2).nentries = db.nentries + 1 := by
        have := hroom.nentries_lt
        simp only [insertEntry, hn]
        omega
      have hs₂ : LoadSized (insertEntry db₁ e.1 e.2).nbuckets (insertEntry db₁ e.1 e.2).nentries := by
        rw [hcount, ← hn]
        simpa only [insertEntry, IcbDbm.nbuckets, Buckets.length_push] using hs₁
      have hhead := List.notMem_keys_of_nodupKeys_cons hnd
      obtain ⟨db', hrest, hr', hn'⟩ := ih hr hs₂ hq₁
        (fun x hx => hsmall x (List.mem_cons_of_mem _ hx)) hf₁
        (List.nodupKeys_of_nodupKeys_cons hnd)
        (by
          intro x hx hmem
          rcases Finmap.mem_insert.mp hmem with heq | hold
          · exact hhead (heq ▸ List.mem_keys_of_mem hx)
          · exact hnew x (List.mem_cons_of_mem _ hx) hold)
        (by rw [hcount]; omega)
      refine ⟨db', ?_, hr', ?_⟩
      · simp only [List.length_cons, loadEntries, hload, hrest]
      · rw [hn', hcount, List.length_cons]
        omega

theorem lookup_foldl_insert (es : List (Entry Bytes Bytes)) (m : DbMap) (hnd : es.NodupKeys)
    (k : Bytes) : (es.foldl (fun m e => m.insert e.1 e.2) m).lookup k =
      (es.dlookup k).or (m.lookup k) := by
  induction es generalizing m with
  | nil => rfl
  | cons e es ih =>
      obtain ⟨x, v⟩ := e
      rw [List.foldl_cons, ih _ (List.nodupKeys_of_nodupKeys_cons hnd)]
      by_cases hk : k = x
      · subst hk
        have hnone : es.dlookup k = none :=
          List.dlookup_eq_none.mpr (List.notMem_keys_of_nodupKeys_cons hnd)
        rw [List.dlookup_cons_eq, Finmap.lookup_insert, hnone]
        rfl
      · rw [List.dlookup_cons_ne _ _ hk, Finmap.lookup_insert_of_ne _ hk]

/-- **A file of records.** The encoding of records with different keys and within the cap loads, for every way the
reads are split, to a table for the map they make. -/
theorem loadFile_encode {es : List (Entry Bytes Bytes)} {script : List (Option Nat)} (hnd : es.NodupKeys)
    (hsmall : ∀ e ∈ es, SmallEntry e) (hcap : es.length ≤ 805306369) (hq : quietScript script) :
    ∃ db, loadFile (some (magic ++ put32 es.length ++ es.flatMap encodeEntry)) script = .ok db ∧
      Represents db (es.foldl (fun m e => m.insert e.1 e.2) ∅) ∧ db.nentries = es.length := by
  obtain ⟨f, hread, hrest, hq'⟩ := xread_append (b := magic ++ put32 es.length)
    (f := { rest := magic ++ put32 es.length ++ es.flatMap encodeEntry, script := script }) hq rfl
  have hhdr : xread { rest := magic ++ put32 es.length ++ es.flatMap encodeEntry, script := script } 8 =
      some (magic ++ put32 es.length, f) := hread
  have hmagic : (magic ++ put32 es.length).take 4 = magic := rfl
  have hn : get32 ((magic ++ put32 es.length).drop 4) = es.length := by
    have h32 := get32_put32_append (v := es.length) (by omega) []
    rw [List.append_nil] at h32
    exact h32
  have hfresh : LoadSized ({} : IcbDbm).nbuckets ({} : IcbDbm).nentries := by
    refine ⟨0, ?_, Or.inl ⟨by decide, by simp⟩⟩
    simp [IcbDbm.nbuckets, initBuckets]
  obtain ⟨db, hload, hr, hcount⟩ := loadEntries_encode es represents_empty hfresh hq' hsmall hrest hnd
    (fun e _ => Finmap.notMem_empty) (by simpa only [Nat.zero_add] using hcap)
  refine ⟨db, ?_, hr, by rw [hcount, Nat.zero_add]⟩
  simp only [loadFile, hhdr, hmagic, ne_eq, not_true_eq_false, if_false, hn, hload]

/-- **The whole file.** The encoding of a table whose records are within the cap loads, for every
way the reads are split, to a table for the same map. -/
theorem loadFile_fileBytes {db : IcbDbm} {m : DbMap} {script : List (Option Nat)}
    (h : Represents db m) (hsmall : ∀ e ∈ db.buckets.flatten, SmallEntry e)
    (hq : quietScript script) :
    ∃ db', loadFile (some (fileBytes db)) script = .ok db' ∧ Represents db' m ∧
      db'.nentries = db.nentries := by
  have hcap : db.nentries ≤ 805306369 := by
    obtain ⟨j, hb, ⟨hj, he⟩ | ⟨_, he⟩⟩ := h.sized
    · have : 2 ^ j ≤ 2 ^ 23 := Nat.pow_le_pow_right (by decide) hj
      simp only [hb, initBuckets] at he
      omega
    · exact he
  obtain ⟨db', hload, hr, hcount⟩ := loadFile_encode h.placed.nodup hsmall (h.count ▸ hcap) hq
  refine ⟨db', ?_, ?_, by rw [hcount, h.count]⟩
  · rw [fileBytes, h.count]
    exact hload
  · have hsame : db.buckets.flatten.foldl (fun m e => m.insert e.1 e.2) (∅ : DbMap) = m := by
      refine Finmap.ext_lookup fun k => ?_
      rw [lookup_foldl_insert _ _ h.placed.nodup, Finmap.lookup_empty, Option.or_none, ← h.find k,
        ← h.placed.find_eq_dlookup]
      rfl
    rwa [hsame] at hr

/-! ## §7 — close, then open -/

/-- A store within the size cap. -/
def DbOp.Small : DbOp → Prop
  | .store k v _ => k.length ≤ maxRecsize ∧ v.length ≤ maxRecsize
  | _ => True

/-- Every record of a map is within the size cap. -/
def SmallMap (m : DbMap) : Prop := ∀ k v, m.lookup k = some v → SmallEntry ⟨k, v⟩

theorem DbOp.spec_small {op : DbOp} {m : DbMap} (hop : op.Small) (hm : SmallMap m) :
    SmallMap (op.spec m).2 := by
  cases op with
  | store k v flag =>
      simp only [DbOp.spec]
      split
      · exact hm
      · intro x w hx
        by_cases hk : x = k
        · subst hk
          rw [Finmap.lookup_insert] at hx
          exact Option.some.inj hx ▸ hop
        · rw [Finmap.lookup_insert_of_ne _ hk] at hx
          exact hm x w hx
  | delete k =>
      simp only [DbOp.spec]
      split
      · intro x w hx
        by_cases hk : x = k
        · subst hk
          rw [Finmap.lookup_erase] at hx
          cases hx
        · rw [Finmap.lookup_erase_ne hk] at hx
          exact hm x w hx
      · exact hm
  | fetch k => exact hm

theorem specAll_small {ops : List DbOp} {m : DbMap} (hops : ∀ op ∈ ops, op.Small)
    (hm : SmallMap m) : SmallMap (specAll m ops).2 := by
  induction ops generalizing m with
  | nil => exact hm
  | cons op ops ih =>
      exact ih (fun x hx => hops x (List.mem_cons_of_mem _ hx))
        (DbOp.spec_small (hops op List.mem_cons_self) hm)

theorem Represents.small {db : IcbDbm} {m : DbMap} (h : Represents db m) (hm : SmallMap m) :
    ∀ e ∈ db.buckets.flatten, SmallEntry e := by
  rintro ⟨k, v⟩ he
  refine hm k v ?_
  rw [← h.find k, htFind, h.placed.find_eq_dlookup]
  exact List.mem_dlookup h.placed.nodup he

/-- **Close then open is the identity.** For every table reached by any sequence of stores within
the size cap and deletes, whatever the file held before, a flush that succeeds leaves a file that
loads, however its reads are split, to a table with the same map and the same count. -/
theorem flush_load_identity {ops : List DbOp} {as : List DbAns} {db db₁ : IcbDbm}
    {disk disk' : Option Bytes} {s : FlushScript} {script : List (Option Nat)}
    (hsmall : ∀ op ∈ ops, op.Small) (hrun : execAll {} ops = some (as, db))
    (hdirty : db.dirty = true) (hflush : flushFile s db disk = (0, db₁, disk'))
    (hq : quietScript script) :
    ∃ db', loadFile disk' script = .ok db' ∧ db'.buckets.toMap = db.buckets.toMap ∧
      (∀ k, dbmFetch db' k = dbmFetch db k) ∧ db'.nentries = db.nentries := by
  obtain ⟨_, hr⟩ := execAll_repr ops represents_empty hrun
  have hempty : SmallMap ∅ := by
    intro k v hk
    rw [Finmap.lookup_empty] at hk
    cases hk
  obtain ⟨db', hload, hr', hcount⟩ := loadFile_fileBytes hr
    (hr.small (specAll_small hsmall hempty)) hq
  rw [flushFile_writes hdirty hflush]
  refine ⟨db', hload, hr'.map.trans hr.map.symm, ?_, hcount⟩
  intro k
  exact (hr'.find k).trans (hr.find k).symm

/-- The table after one store of an empty value. -/
def sampleDb : IcbDbm := { insertEntry {} [97, 0] [] with dirty := true }

theorem flush_load_identity_sample :
    ∃ db', loadFile (some (fileBytes sampleDb)) [some 0, some 6, some 1] = .ok db' ∧
      db'.buckets.toMap = sampleDb.buckets.toMap ∧
      (∀ k, dbmFetch db' k = dbmFetch sampleDb k) ∧ db'.nentries = sampleDb.nentries := by
  have hrun : execAll {} [.store [97, 0] [] .insert] = some ([.code 0], sampleDb) := by
    decide +kernel
  have hflush : flushFile {} sampleDb none =
      (0, { sampleDb with dirty := false }, some (fileBytes sampleDb)) := by
    decide +kernel
  have hsmall : ∀ op ∈ [DbOp.store [97, 0] [] .insert], op.Small := by simp [DbOp.Small, maxRecsize]
  exact flush_load_identity hsmall hrun rfl hflush (by simp [quietScript])

end Icbd.Dbm
