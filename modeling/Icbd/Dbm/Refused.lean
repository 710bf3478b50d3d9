/-
# Icbd.Dbm.Refused — what the layers of the database refuse: files cut short, records too large.

`load_file` has length checks at every read and a cap on the size of a record; `dbm_store` has none,
and `icbdb_get` copies whatever it fetched into one block. Here the reads may also fail: a read that
succeeds has delivered exactly the bytes asked for, whatever the script.
-/
import Icbd.Dbm.Python
import Icbd.Dbm.IcbDb

namespace Icbd.Dbm

open Icbd.Lib (Buckets Entry)

/-! ## §1 — a read that succeeds -/

theorem RFile.read_exact {f f' : RFile} {n : Nat} {b : Bytes} (h : f.read n = some (b, f')) :
    ∃ d, d ≤ n ∧ b = f.rest.take d ∧ f'.rest = f.rest.drop d := by
  unfold RFile.read at h
  split at h
  · obtain ⟨rfl, rfl⟩ := Prod.mk.inj (Option.some.inj h)
    exact ⟨n, Nat.le_refl n, rfl, rfl⟩
  · cases h
  · rename_i k s _
    obtain ⟨rfl, rfl⟩ := Prod.mk.inj (Option.some.inj h)
    exact ⟨min n (k + 1), Nat.min_le_left n _, rfl, rfl⟩

theorem xreadLoop_exact {fuel n : Nat} {f f' : RFile} {b : Bytes}
    (h : xreadLoop fuel f n = some (b, f')) :
    n ≤ f.rest.length ∧ b = f.rest.take n ∧ f'.rest = f.rest.drop n := by
  induction fuel generalizing f n b with
  | zero =>
      unfold xreadLoop at h
      by_cases hn : n = 0
      · simp only [hn, if_true, Option.some.injEq, Prod.mk.injEq] at h
        obtain ⟨rfl, rfl⟩ := h
        simp [hn]
      · simp [hn] at h
  | succ fuel ih =>
      unfold xreadLoop at h
      by_cases hn : n = 0
      · simp only [hn, if_true, Option.some.injEq, Prod.mk.injEq] at h
        obtain ⟨rfl, rfl⟩ := h
        simp [hn]
      · simp only [hn, if_false] at h
        cases hread : f.read n with
        | none =>
            rw [hread] at h
            cases h
        | some r =>
            obtain ⟨b₁, f₁⟩ := r
            obtain ⟨d, hd, rfl, hrest⟩ := RFile.read_exact hread
            rw [hread] at h
            simp only at h
            split at h
            · cases h
            · simp only [Option.map_eq_some_iff, Prod.mk.injEq, Prod.exists] at h
              obtain ⟨b₂, f₂, hloop, rfl, rfl⟩ := h
              obtain ⟨hlen, rfl, hrest₂⟩ := ih hloop
              -- a read at the end of the file is shorter than asked for
              rw [hrest, List.length_drop, List.length_take] at hlen
              have hmin : min d f.rest.length = d := by omega
              refine ⟨by omega, ?_, ?_⟩
              · rw [hrest, List.length_take, hmin, ← List.take_add, Nat.add_sub_cancel' hd]
              · rw [hrest₂, hrest, List.drop_drop, List.length_take, hmin, Nat.add_sub_cancel' hd]

/-- **A read that succeeds** has delivered the next `n` bytes, and there were as many. -/
theorem xread_exact {n : Nat} {f f' : RFile} {b : Bytes} (h : xread f n = some (b, f')) :
    n ≤ f.rest.length ∧ b = f.rest.take n ∧ f'.rest = f.rest.drop n :=
  xreadLoop_exact h

/-! ## §2 — one record -/

/-- The lengths of an entry are `int`s. -/
def IntSized (e : Entry Bytes Bytes) : Prop := e.1.length < 2 ^ 31 ∧ e.2.length < 2 ^ 31

theorem length_encodeEntry (e : Entry Bytes Bytes) :
    (encodeEntry e).length = 8 + e.1.length + e.2.length := by
  simp only [encodeEntry, List.length_append, length_put32]

/-- The lengths in front of a record. -/
theorem lengths_encodeEntry {e : Entry Bytes Bytes} (he : IntSized e) {f t : Bytes} (hf : f <+: encodeEntry e ++ t)
    (hlen : 8 ≤ f.length) :
    get32 (f.take 8) = e.1.length ∧ get32 ((f.take 8).drop 4) = e.2.length ∧
      f.drop 8 <+: e.1 ++ (e.2 ++ t) := by
  obtain ⟨u, hu⟩ := hf
  have hhead : f.take 8 = put32 e.1.length ++ put32 e.2.length := by
    have : (f ++ u).take 8 = f.take 8 := List.take_append_of_le_length hlen
    rw [← this, hu]
    simp only [encodeEntry, List.append_assoc]
    rfl
  have hklen : get32 (put32 e.1.length ++ put32 e.2.length) = e.1.length :=
    get32_put32_append (by have := he.1; omega) _
  have hvlen : get32 ((put32 e.1.length ++ put32 e.2.length).drop 4) = e.2.length := by
    have := get32_put32_append (v := e.2.length) (by have := he.2; omega) []
    rwa [List.append_nil] at this
  rw [hhead]
  refine ⟨hklen, hvlen, u, ?_⟩
  have : (f ++ u).drop 8 = f.drop 8 ++ u := List.drop_append_of_le_length hlen
  rw [← this, hu]
  simp only [encodeEntry, List.append_assoc]
  rfl

/-- A record that is there in whole: it is refused when it is too large or a read fails, and loaded
otherwise. -/
theorem loadEntry_whole {db db' : IcbDbm} {f : RFile} {e : Entry Bytes Bytes} {t : Bytes}
    (he : IntSized e) (hf : f.rest = encodeEntry e ++ t) (hg : growIfFull db = some db') :
    loadEntry db f = .error .failed ∨
      SmallEntry e ∧ ∃ f', loadEntry db f = .ok (insertEntry db' e.1 e.2, f') ∧ f'.rest = t := by
  have hlen : 8 ≤ f.rest.length := by
    rw [hf, List.length_append, length_encodeEntry]
    omega
  obtain ⟨hklen, hvlen, -⟩ := lengths_encodeEntry he (t := t) (by rw [hf]) hlen
  unfold loadEntry
  cases hrh : xread f 8 with
  | none => exact Or.inl rfl
  | some r =>
      obtain ⟨rh, f₁⟩ := r
      obtain ⟨-, rfl, hf₁⟩ := xread_exact hrh
      have hrest₁ : f₁.rest = e.1 ++ (e.2 ++ t) := by
        rw [hf₁, hf]
        simp only [encodeEntry, List.append_assoc]
        rfl
      simp only [hklen, hvlen]
      by_cases hcap : e.1.length > maxRecsize ∨ e.2.length > maxRecsize
      · exact Or.inl (if_pos hcap)
      rw [if_neg hcap]
      cases hk : xread f₁ e.1.length with
      | none => exact Or.inl rfl
      | some r =>
          obtain ⟨k, f₂⟩ := r
          obtain ⟨-, rfl, hf₂⟩ := xread_exact hk
          rw [hrest₁, List.drop_left] at hf₂
          simp only
          cases hv : xread f₂ e.2.length with
          | none => exact Or.inl rfl
          | some r =>
              obtain ⟨v, f₃⟩ := r
              obtain ⟨-, rfl, hf₃⟩ := xread_exact hv
              rw [hf₂, List.drop_left] at hf₃
              refine Or.inr ⟨⟨by omega, by omega⟩, f₃, ?_, hf₃⟩
              simp only [hg, hrest₁, hf₂, List.take_left]

/-- **A record that is cut** is refused: in its lengths, in its key or in its value. -/
theorem loadEntry_cut {db : IcbDbm} {f : RFile} {e : Entry Bytes Bytes} (he : IntSized e)
    (hf : f.rest <+: encodeEntry e) (hcut : f.rest.length < (encodeEntry e).length) :
    loadEntry db f = .error .failed := by
  rw [length_encodeEntry] at hcut
  unfold loadEntry
  cases hrh : xread f 8 with
  | none => rfl
  | some r =>
      obtain ⟨rh, f₁⟩ := r
      obtain ⟨hlen, rfl, hf₁⟩ := xread_exact hrh
      obtain ⟨hklen, hvlen, -⟩ := lengths_encodeEntry he (t := []) (by rwa [List.append_nil]) hlen
      simp only [hklen, hvlen]
      by_cases hcap : e.1.length > maxRecsize ∨ e.2.length > maxRecsize
      · exact if_pos hcap
      rw [if_neg hcap]
      cases hk : xread f₁ e.1.length with
      | none => rfl
      | some r =>
          obtain ⟨k, f₂⟩ := r
          obtain ⟨hlen₁, rfl, hf₂⟩ := xread_exact hk
          -- the value is what is missing
          have hshort : f₂.rest.length < e.2.length := by
            rw [hf₁, List.length_drop] at hlen₁
            rw [hf₂, hf₁, List.length_drop, List.length_drop]
            omega
          simp only [xread_short hshort]

/-! ## §3 — the whole file -/

/-- The two reasons for which a file made of these records is refused: it is cut, or a record is
over the cap. -/
def Refusable (f : Bytes) (es : List (Entry Bytes Bytes)) : Prop :=
  f ≠ es.flatMap encodeEntry ∨ ∃ e ∈ es, ¬ SmallEntry e

/-- **The records**, by induction on those still to come: a whole and small one leaves the reason
for refusal in what follows it. -/
theorem loadEntries_refused {db : IcbDbm} {n : Nat} {held : Bytes → List Bytes} {f : RFile}
    (es : List (Entry Bytes Bytes)) (h : Loaded db n held) (hroom : n + es.length ≤ maxEntries)
    (hints : ∀ e ∈ es, IntSized e) (hf : f.rest <+: es.flatMap encodeEntry)
    (hbad : Refusable f.rest es) : loadEntries es.length db f = .error .failed := by
  induction es generalizing db n held f with
  | nil =>
      -- nothing can be missing from nothing
      rw [List.flatMap_nil, List.prefix_nil] at hf
      rcases hbad with hne | ⟨e, he, -⟩
      · exact absurd hf hne
      · cases he
  | cons e es ih =>
      rw [List.length_cons] at hroom
      rw [List.flatMap_cons] at hf
      have he : IntSized e := hints e List.mem_cons_self
      rcases Nat.lt_or_ge f.rest.length (encodeEntry e).length with hcut | hwhole
      · have hone : f.rest <+: encodeEntry e :=
          List.prefix_of_prefix_length_le hf (List.prefix_append _ _) (Nat.le_of_lt hcut)
        simp only [List.length_cons, loadEntries, loadEntry_cut he hone hcut]
      · obtain ⟨t, ht⟩ := List.prefix_of_prefix_length_le (List.prefix_append _ _) hf hwhole
        have hrest : t <+: es.flatMap encodeEntry := by
          rw [← ht] at hf
          exact (List.prefix_append_right_inj _).mp hf
        obtain ⟨db₁, hg, hl⟩ := h.grow (by omega) e.1 e.2
        rcases loadEntry_whole he ht.symm hg with hfail | ⟨hsmall, f', hload, hf'⟩
        · simp only [List.length_cons, loadEntries, hfail]
        · have hbad' : Refusable f'.rest es := by
            rcases hbad with hne | ⟨x, hx, hbig⟩
            · left
              intro heq
              apply hne
              rw [← ht, ← hf', heq, List.flatMap_cons]
            · right
              rcases List.mem_cons.mp hx with rfl | hx
              · exact absurd hsmall hbig
              · exact ⟨x, hx, hbig⟩
          have := ih hl (by omega) (fun x hx => hints x (List.mem_cons_of_mem _ hx))
            (by rw [hf']; exact hrest) hbad'
          simp only [List.length_cons, loadEntries, hload, this]

/-- What the types and the counter of a table promise: an exact counter that has not wrapped around,
and lengths that are `int`s. -/
structure Storable (db : IcbDbm) : Prop where
  count : db.nentries = db.buckets.flatten.length
  few : db.nentries ≤ maxEntries
  ints : ∀ e ∈ db.buckets.flatten, IntSized e

theorem Represents.storable {db : IcbDbm} {m : DbMap} (h : Represents db m)
    (hints : ∀ e ∈ db.buckets.flatten, IntSized e) : Storable db := by
  refine ⟨h.count, ?_, hints⟩
  obtain ⟨j, hb, ⟨hj, he⟩ | ⟨-, he⟩⟩ := h.sized
  · have : 2 ^ j ≤ 2 ^ 23 := Nat.pow_le_pow_right (by decide) hj
    simp only [hb, initBuckets] at he
    simp only [maxEntries]
    omega
  · exact he

/-- A file that begins as the file of a table does, but is cut or has a record over the cap. -/
theorem loadFile_refused {db : IcbDbm} (h : Storable db) {p : Bytes} (hp : p <+: fileBytes db)
    (hbad : p ≠ fileBytes db ∨ ∃ e ∈ db.buckets.flatten, ¬ SmallEntry e)
    (script : List (Option Nat)) : loadFile (some p) script = .error .failed := by
  cases hread : xread { rest := p, script := script } 8 with
  | none => simp only [loadFile, hread]
  | some r =>
      obtain ⟨hdr, f⟩ := r
      obtain ⟨hlen, rfl, hrest⟩ := xread_exact hread
      simp only at hlen hrest
      -- the header is whole
      obtain ⟨t, ht⟩ : magic ++ put32 db.nentries <+: p :=
        List.prefix_of_prefix_length_le (List.prefix_append _ _) hp hlen
      have hhdr : p.take 8 = magic ++ put32 db.nentries := by
        rw [← ht]
        exact List.take_left' rfl
      have hf : f.rest = t := by
        rw [hrest, ← ht]
        exact List.drop_left' rfl
      have hmagic : (magic ++ put32 db.nentries).take 4 = magic := rfl
      have hn : get32 ((magic ++ put32 db.nentries).drop 4) = db.buckets.flatten.length := by
        have hlt : db.nentries < 2 ^ 32 := Nat.lt_of_le_of_lt h.few (by decide)
        have h32 := get32_put32_append hlt []
        rw [List.append_nil] at h32
        rw [← h.count]
        exact h32
      simp only [loadFile, hread, hhdr, hmagic, ne_eq, not_true_eq_false, if_false, hn]
      have htail : t <+: db.buckets.flatten.flatMap encodeEntry := by
        rw [← ht, fileBytes] at hp
        exact (List.prefix_append_right_inj _).mp hp
      apply loadEntries_refused _ loaded_empty
      · have := h.few
        rw [h.count] at this
        omega
      · exact h.ints
      · rw [hf]
        exact htail
      · rcases hbad with hne | hbig
        · left
          intro heq
          apply hne
          rw [← ht, fileBytes, ← heq, hf]
        · exact Or.inr hbig

/-- **A truncated database is rejected.** Cut the file of any table anywhere, in the header, in the
lengths of a record, in a key or a value or between two records: however the reads are split, and
whether or not some of them fail, `load_file` returns `-1` and no partial map. -/
theorem truncated_is_rejected {db : IcbDbm} (h : Storable db) {p : Bytes} (hp : p <+: fileBytes db)
    (hcut : p ≠ fileBytes db) (script : List (Option Nat)) :
    loadFile (some p) script = .error .failed :=
  loadFile_refused h hp (Or.inl hcut) script

theorem truncated_is_rejected_sample :
    loadFile (some (fileBytes sampleDb).dropLast) [some 0, some 6] = .error .failed := by
  have h : Storable sampleDb := by
    refine ⟨by decide +kernel, by decide +kernel, ?_⟩
    have hentries : sampleDb.buckets.flatten = [⟨[97, 0], []⟩] := by decide +kernel
    rw [hentries]
    simp [IntSized]
  apply truncated_is_rejected h
  · exact List.dropLast_prefix _
  · decide +kernel

/-! ## §4 — three limits for one record -/

theorem xwriteAll_quiet (w : Bytes) (bs : List Bytes) :
    xwriteAll w [] bs = some (w ++ bs.flatten) := by
  induction bs generalizing w with
  | nil => rw [xwriteAll, List.flatten_nil, List.append_nil]
  | cons b bs ih =>
      have hone : xwrite w [] b = some (w ++ b, []) := by
        cases b with
        | nil => simp [xwrite, xwriteLoop]
        | cons c b => simp [xwrite, xwriteLoop]
      rw [xwriteAll, hone, Option.bind_some, ih, List.flatten_cons, List.append_assoc]

/-- A flush in which nothing fails. -/
theorem flushFile_quiet {db : IcbDbm} (hd : db.dirty = true) (disk : Option Bytes) :
    flushFile {} db disk = (0, { db with dirty := false }, some (fileBytes db)) := by
  simp [flushFile, hd, xwriteAll_quiet, flatten_flushBuffers]

/-- A store that is accepted changes the table. -/
theorem dbmStore_dirty {db db' : IcbDbm} {k v : Bytes} {flag : StoreFlag}
    (h : dbmStore db k v flag = some (0, db')) : db'.dirty = true := by
  unfold dbmStore at h
  split at h
  · cases flag with
    | insert => simp at h
    | replace =>
        obtain ⟨-, rfl⟩ := Prod.mk.inj (Option.some.inj h)
        rfl
  · simp only [Option.map_eq_some_iff, Prod.mk.injEq, true_and] at h
    obtain ⟨db₁, -, rfl⟩ := h
    rfl

/-- What is found in the table is in the map, and nothing else. -/
theorem Represents.mem_iff {db : IcbDbm} {m : DbMap} (h : Represents db m) (e : Entry Bytes Bytes) :
    e ∈ db.buckets.flatten ↔ m.lookup e.1 = some e.2 := by
  rw [← h.find e.1, htFind, h.placed.find_eq_dlookup]
  constructor
  · intro he
    exact List.mem_dlookup h.placed.nodup he
  · intro he
    exact List.of_mem_dlookup he

/-- The map after a store that is accepted. -/
theorem dbmStore_accepted {db db' : IcbDbm} {m : DbMap} {k v : Bytes} {flag : StoreFlag}
    (h : Represents db m) (hs : dbmStore db k v flag = some (0, db')) :
    Represents db' (m.insert k v) := by
  obtain ⟨hans, hr⟩ := dbmStore_repr h hs
  simp only [DbOp.spec] at hans hr
  split at hans
  · simp at hans
  · rename_i hnew
    rwa [if_neg hnew] at hr

/-- A property of all entries of a table after a store. -/
theorem forall_stored {db' : IcbDbm} {m : DbMap} {k v : Bytes} (h : Represents db' (m.insert k v))
    (p : Entry Bytes Bytes → Prop) :
    (∀ e ∈ db'.buckets.flatten, p e) ↔
      p ⟨k, v⟩ ∧ ∀ k' v', k' ≠ k → m.lookup k' = some v' → p ⟨k', v'⟩ := by
  constructor
  · intro hall
    constructor
    · exact hall _ ((h.mem_iff ⟨k, v⟩).mpr (Finmap.lookup_insert m))
    · intro k' v' hne hold
      apply hall
      rw [h.mem_iff, Finmap.lookup_insert_of_ne _ hne]
      exact hold
  · rintro ⟨hnew, hold⟩ ⟨k', v'⟩ he
    rw [h.mem_iff] at he
    by_cases hk : k' = k
    · subst hk
      rw [Finmap.lookup_insert] at he
      obtain rfl : v = v' := Option.some.inj he
      exact hnew
    · rw [Finmap.lookup_insert_of_ne _ hk] at he
      exact hold k' v' hk he

/-- The offsets of `databuf` that `icbdb_get` writes when it is given somewhere to put the value: the
bytes found and the `'\0'` behind them. -/
def getWrites (db : IcbDbm) (category : Option Bytes) (attr : Bytes) : List Nat :=
  match dbmFetch db (icbdbMakeKey category attr) with
  | none => []
  | some data => List.range (data.length + 1)

/-- The file flushed after a store that was accepted loads again exactly when all its records are
within the loader's cap. -/
theorem stored_loads_iff {db db₁ db₂ : IcbDbm} {m : DbMap} {k v : Bytes} {flag : StoreFlag}
    {s : FlushScript} {disk disk' : Option Bytes} {script : List (Option Nat)}
    (h : Represents db m) (hints : ∀ e ∈ db.buckets.flatten, IntSized e) (hkv : IntSized ⟨k, v⟩)
    (hstore : dbmStore db k v flag = some (0, db₁)) (hflush : flushFile s db₁ disk = (0, db₂, disk'))
    (hq : quietScript script) :
    (∃ db', loadFile disk' script = .ok db') ↔
      SmallEntry ⟨k, v⟩ ∧ ∀ k' v', k' ≠ k → m.lookup k' = some v' → SmallEntry ⟨k', v'⟩ := by
  have hr := dbmStore_accepted h hstore
  have hints₁ : ∀ e ∈ db₁.buckets.flatten, IntSized e := by
    rw [forall_stored hr]
    refine ⟨hkv, ?_⟩
    intro k' v' _ hold
    exact hints _ ((h.mem_iff ⟨k', v'⟩).mpr hold)
  rw [flushFile_writes (dbmStore_dirty hstore) hflush, ← forall_stored hr]
  constructor
  · rintro ⟨db', hload⟩
    -- a record over the cap would have been refused
    by_contra hbig
    push Not at hbig
    rw [loadFile_refused (hr.storable hints₁) (List.prefix_refl _) (Or.inr hbig)] at hload
    cases hload
  · intro hsmall
    obtain ⟨db', hload, -⟩ := loadFile_fileBytes hr hsmall hq
    exact ⟨db', hload⟩

/-- `icbdb_get` stays inside the block exactly when the value is shorter. -/
theorem getWrites_inside_iff (db : IcbDbm) (category : Option Bytes) (attr : Bytes) :
    (∀ off ∈ getWrites db category attr, off < dblksiz) ↔
      ∀ v, dbmFetch db (icbdbMakeKey category attr) = some v → v.length < dblksiz := by
  unfold getWrites
  cases hf : dbmFetch db (icbdbMakeKey category attr) with
  | none => simp
  | some data =>
      simp only [List.mem_range, Option.some.injEq, forall_eq']
      constructor
      · intro hin
        exact hin data.length (Nat.lt_succ_self _)
      · intro hshort off hoff
        omega

/-- **When the limits agree.** The file flushed after a store that was accepted is accepted by
`load_file` exactly when the new record and all others in the table are within the loader's cap; and
`icbdb_get` on a table loaded from a file stays inside `databuf` exactly when the value it looks up,
if there is one, is shorter than the block. -/
theorem record_limits (k v : Bytes) (category : Option Bytes) (attr : Bytes) :
    (∀ {db db₁ db₂ : IcbDbm} {m : DbMap} {flag : StoreFlag} {s : FlushScript}
        {disk disk' : Option Bytes} {script : List (Option Nat)},
      Represents db m → (∀ e ∈ db.buckets.flatten, IntSized e) → IntSized ⟨k, v⟩ →
      dbmStore db k v flag = some (0, db₁) → flushFile s db₁ disk = (0, db₂, disk') →
      quietScript script →
      ((∃ db', loadFile disk' script = .ok db') ↔
        SmallEntry ⟨k, v⟩ ∧ ∀ k' v', k' ≠ k → m.lookup k' = some v' → SmallEntry ⟨k', v'⟩)) ∧
    (∀ {content : Bytes} {script : List (Option Nat)} {db : IcbDbm},
      loadFile (some content) script = .ok db →
      ((∀ off ∈ getWrites db category attr, off < dblksiz) ↔
        ∀ v, dbmFetch db (icbdbMakeKey category attr) = some v → v.length < dblksiz)) := by
  constructor
  · intro db db₁ db₂ m flag s disk disk' script h hints hkv hstore hflush hq
    exact stored_loads_iff h hints hkv hstore hflush hq
  · intro content script db _
    exact getWrites_inside_iff db category attr

/-- A table with one record. -/
def oneRecordDb (k v : Bytes) : IcbDbm := { insertEntry {} k v with dirty := true }

theorem dbmStore_empty (k v : Bytes) (flag : StoreFlag) :
    dbmStore {} k v flag = some (0, oneRecordDb k v) := by
  have hfind : htFind {} k = none := by rw [represents_empty.find, Finmap.lookup_empty]
  have hgrow : growIfFull {} = some {} := by decide +kernel
  simp only [dbmStore, hfind, hgrow, Option.map_some, oneRecordDb]

theorem oneRecordDb_repr (k v : Bytes) : Represents (oneRecordDb k v) (Finmap.insert k v ∅) :=
  dbmStore_accepted represents_empty (dbmStore_empty k v .replace)

theorem forall_oneRecord (k v : Bytes) (p : Entry Bytes Bytes → Prop) :
    (∀ e ∈ (oneRecordDb k v).buckets.flatten, p e) ↔ p ⟨k, v⟩ := by
  rw [forall_stored (oneRecordDb_repr k v)]
  constructor
  · intro h
    exact h.1
  · intro h
    refine ⟨h, ?_⟩
    intro k' v' _ hold
    rw [Finmap.lookup_empty] at hold
    cases hold

/-- **The limits do not agree.** A value one byte over the cap is accepted by `dbm_store`, flushed, and
makes the whole file unreadable; and a value of one block is accepted by `load_file`, and `icbdb_get`
writes its terminator behind the end of `databuf`. -/
theorem record_limits_disagree :
    (∃ db disk, dbmStore {} (str "n.text") (List.replicate (2 ^ 20 + 1) 120) .replace = some (0, db) ∧
      flushFile {} db none = (0, { db with dirty := false }, disk) ∧
      loadFile disk [] = .error .failed) ∧
    (∃ content db, loadFile (some content) [] = .ok db ∧
      dbmFetch db (str "n.text") = some (List.replicate 4096 120) ∧
      dblksiz ∈ getWrites db (some (str "n")) (str "text")) := by
  have hkey : (str "n.text").length = 6 := by decide
  constructor
  · have hlen : (List.replicate (2 ^ 20 + 1) (120 : UInt8)).length = 2 ^ 20 + 1 :=
      List.length_replicate
    generalize List.replicate (2 ^ 20 + 1) (120 : UInt8) = big at hlen
    refine ⟨_, _, dbmStore_empty _ _ _, flushFile_quiet rfl none, ?_⟩
    have hints : ∀ e ∈ (oneRecordDb (str "n.text") big).buckets.flatten, IntSized e := by
      rw [forall_oneRecord]
      constructor <;> simp only [hkey, hlen] <;> decide
    apply loadFile_refused ((oneRecordDb_repr _ _).storable hints) (List.prefix_refl _)
    right
    by_contra hall
    push Not at hall
    rw [forall_oneRecord] at hall
    have hcap := hall.2
    simp only [hlen, maxRecsize] at hcap
    omega
  · have hlen : (List.replicate 4096 (120 : UInt8)).length = 4096 := List.length_replicate
    generalize List.replicate 4096 (120 : UInt8) = block at hlen
    have hsmall : ∀ e ∈ (oneRecordDb (str "n.text") block).buckets.flatten, SmallEntry e := by
      rw [forall_oneRecord]
      constructor <;> simp only [hkey, hlen] <;> decide
    obtain ⟨db', hload, hr', -⟩ := loadFile_fileBytes (oneRecordDb_repr (str "n.text") block) hsmall
      (show quietScript [] by simp [quietScript])
    have hfetch : dbmFetch db' (str "n.text") = some block := by
      rw [dbmFetch, hr'.find, Finmap.lookup_insert]
    have hmake : icbdbMakeKey (some (str "n")) (str "text") = str "n.text" := by decide
    refine ⟨_, db', hload, hfetch, ?_⟩
    simp only [getWrites, hmake, hfetch, List.mem_range, hlen]
    decide

end Icbd.Dbm
