/-
# Icbd.Dbm.Edits — one file, two programs that write it.

The C library and the class of `icbdb.py` open and save the database by turns, the server while it runs and the
programs of `support/` between two runs of it. `sessions_saved` says what is in the file after any such sessions:
what each of them changed, in their order, and U+FFFD in a value that was not UTF-8 once the class has written it.
`edit_reads_iff` says when the server takes a file the class has written.
-/
import Icbd.Dbm.Export
import Mathlib.Data.Set.Card

namespace Icbd.Dbm

open Icbd.Lib (OrderedDict Entry)

/-! ## §1 — changes -/

/-- `__delitem__`; `none` is a `KeyError`. -/
def PyDb.delitem (db : PyDb) (key : PyStr) : Option PyDb :=
  if (db.data.get? key).isSome then some ⟨db.data.erase key, true⟩ else none

/-- A change of an open database: `db[key] = val`, and `if key in db: del db[key]`. -/
inductive Edit
  | set (key val : PyStr)
  | del (key : PyStr)
  deriving DecidableEq, Repr

/-- A change is made. -/
def Edit.on (db : PyDb) : Edit → PyDb
  | .set key val => db.setitem key val
  | .del key => (db.delitem key).getD db

/-- `with IcbDb(path) as db:` and changes: the file that is left; `none` is an exception. -/
def edit (disk : Option Bytes) (es : List Edit) : Option (Option Bytes) := do
  let db ← pyOpen disk
  (es.foldl Edit.on db).flush disk

/-- `setdb.py`, without what it prints. -/
def setdb (disk : Option Bytes) (var val : PyStr) : Option (Option Bytes) := edit disk [.set var val]

/-! ## §2 — files -/

/-- What is in a database: the value of a key. -/
abbrev Contents := Bytes → Option Bytes

/-- A file of records. -/
def encodeFile (es : List (Entry Bytes Bytes)) : Bytes := magic ++ put32 es.length ++ es.flatMap encodeEntry

/-- A file with these contents: none, or different keys in UTF-8, and lengths that fit their four bytes. -/
inductive Saved : Option Bytes → Contents → Prop
  | absent : Saved none fun _ => none
  | file {es : List (Entry Bytes Bytes)} (hnd : es.NodupKeys) (hlen : es.length < 2 ^ 32)
      (hlens : ∀ e ∈ es, e.1.length < 2 ^ 32 ∧ e.2.length < 2 ^ 32) (hkeys : ∀ e ∈ es, replaced e.1 = e.1) :
      Saved (some (encodeFile es)) fun q => es.dlookup q

/-- What the server takes: records within the cap, and no more of them than a table can take. -/
structure Fits (f : Contents) : Prop where
  small : ∀ k v, f k = some v → SmallEntry ⟨k, v⟩
  few : {k | (f k).isSome}.encard ≤ maxEntries

theorem Fits.mono {f g : Contents} (h : Fits f) (hsub : ∀ k v, g k = some v → f k = some v) : Fits g where
  small k v hk := h.small k v (hsub k v hk)
  few := by
    refine le_trans (Set.encard_le_encard fun k hk => ?_) h.few
    obtain ⟨v, hv⟩ := Option.isSome_iff_exists.mp hk
    exact Option.isSome_iff_exists.mpr ⟨v, hsub k v hv⟩

/-- The server opens the file and has these contents. -/
def Reads (disk : Option Bytes) (f : Contents) : Prop := ∃ m, LoadsTo disk m ∧ ∀ q, m.lookup q = f q

section
variable {es : List (Entry Bytes Bytes)} {f g : Contents} {disk disk' : Option Bytes}

/-- The records of a file are those that were written. -/
theorem records_encode (hlens : ∀ e ∈ es, e.1.length < 2 ^ 32 ∧ e.2.length < 2 ^ 32) :
    records es.length (es.flatMap encodeEntry) = some (es.map fun e => ⟨e.1.length, e.2.length, e.1, e.2⟩) := by
  induction es with
  | nil => rfl
  | cons e es ih =>
    obtain ⟨⟨hk, hv⟩, hes⟩ := List.forall_mem_cons.mp hlens
    have hrest : (encodeEntry e ++ es.flatMap encodeEntry).drop 8 = e.1 ++ (e.2 ++ es.flatMap encodeEntry) := by
      rw [encodeEntry, List.append_assoc, List.append_assoc]
      exact List.drop_left' rfl
    have hklen : get32 (encodeEntry e ++ es.flatMap encodeEntry) = e.1.length := by
      simp only [encodeEntry, List.append_assoc]
      exact get32_put32_append hk _
    have hvlen : get32 ((encodeEntry e ++ es.flatMap encodeEntry).drop 4) = e.2.length := by
      have hdrop : (encodeEntry e ++ es.flatMap encodeEntry).drop 4 =
          put32 e.2.length ++ (e.1 ++ (e.2 ++ es.flatMap encodeEntry)) := by
        simp only [encodeEntry, List.append_assoc]
        exact List.drop_left' rfl
      rw [hdrop]
      exact get32_put32_append hv _
    have hlong : ¬ (encodeEntry e ++ es.flatMap encodeEntry).length < 8 := by
      simp [encodeEntry]
      omega
    rw [List.flatMap_cons, List.length_cons, records, record, if_neg hlong]
    simp only [hrest, hklen, hvlen, List.drop_left, List.take_left, Option.bind_some, ih hes, Option.map_some,
      List.map_cons]

/-- **When a file loads.** -/
theorem loadFile_encode_iff (hlen : es.length < 2 ^ 32)
    (hlens : ∀ e ∈ es, e.1.length < 2 ^ 32 ∧ e.2.length < 2 ^ 32) (hnd : es.NodupKeys) {script : List (Option Nat)}
    (hq : quietScript script) :
    (∃ db, loadFile (some (encodeFile es)) script = .ok db) ↔ (∀ e ∈ es, SmallEntry e) ∧ es.length ≤ maxEntries := by
  constructor
  · rintro ⟨db, hload⟩
    obtain ⟨f, hread, hrest, hq'⟩ := xread_append (b := magic ++ put32 es.length)
      (f := { rest := encodeFile es, script := script }) hq rfl
    have hhdr : xread { rest := encodeFile es, script := script } 8 = some (magic ++ put32 es.length, f) := hread
    have hmagic : (magic ++ put32 es.length).take 4 = magic := rfl
    have hn : get32 ((magic ++ put32 es.length).drop 4) = es.length := by
      have h32 := get32_put32_append hlen []
      rwa [List.append_nil] at h32
    simp only [loadFile, hhdr, hmagic, ne_eq, not_true_eq_false, if_false, hn] at hload
    rcases loadEntries_cases (n := es.length) loaded_empty hq' (Nat.zero_le _) with
      ⟨db', -, hroom, rs, hrs, hall⟩ | ⟨hcrash, -⟩ | ⟨hfail, -⟩
    · rw [hrest, records_encode hlens] at hrs
      obtain rfl := Option.some.inj hrs
      refine ⟨fun e he => ?_, by omega⟩
      obtain ⟨hk, hv, -⟩ := hall _ (List.mem_map_of_mem he)
      exact ⟨hk, hv⟩
    · rw [hload] at hcrash
      cases hcrash
    · rw [hload] at hfail
      cases hfail
  · rintro ⟨hsmall, hfew⟩
    obtain ⟨db, hload, -⟩ := loadFile_encode hnd hsmall hfew hq
    exact ⟨db, hload⟩

/-- The keys of a file. -/
theorem encard_keys (hnd : es.NodupKeys) : {k | (es.dlookup k).isSome}.encard = es.length := by
  have hkeys : {k | (es.dlookup k).isSome} = (es.keys.toFinset : Set Bytes) := by
    ext k
    simp [List.dlookup_isSome]
  rw [hkeys, Set.encard_coe_eq_coe_finsetCard, List.toFinset_card_of_nodup hnd, List.keys, List.length_map]

/-- **When the server takes a file.** -/
theorem Saved.reads_iff (h : Saved disk f) : Reads disk g ↔ g = f ∧ Fits f := by
  cases h with
  | absent =>
    constructor
    · rintro ⟨m, hm, hg⟩
      obtain rfl := hm.unique loadsTo_none
      refine ⟨funext fun q => ((hg q).symm.trans (Finmap.lookup_empty q)), ?_, ?_⟩
      · intro k v hk
        cases hk
      · simp
    · rintro ⟨rfl, -⟩
      exact ⟨∅, loadsTo_none, fun q => Finmap.lookup_empty q⟩
  | @file es hnd hlen hlens hkeys =>
    have hfits : Fits (fun q => es.dlookup q) ↔ (∀ e ∈ es, SmallEntry e) ∧ es.length ≤ maxEntries := by
      constructor
      · intro h
        refine ⟨fun e he => h.small _ _ (List.mem_dlookup hnd he), ?_⟩
        have := h.few
        rw [encard_keys hnd] at this
        exact_mod_cast this
      · rintro ⟨hsmall, hfew⟩
        refine ⟨fun k v hk => hsmall ⟨k, v⟩ (List.of_mem_dlookup hk), ?_⟩
        rw [encard_keys hnd]
        exact_mod_cast hfew
    have hloads (hsmall : ∀ e ∈ es, SmallEntry e) (hfew : es.length ≤ maxEntries) :
        LoadsTo (some (encodeFile es)) (es.foldl (fun m e => m.insert e.1 e.2) ∅) := by
      intro script hq
      obtain ⟨db, hload, hr, -⟩ := loadFile_encode hnd hsmall hfew hq
      exact ⟨db, hload, hr⟩
    have hlookup (q : Bytes) :
        (es.foldl (fun m e => m.insert e.1 e.2) (∅ : DbMap)).lookup q = es.dlookup q := by
      rw [lookup_foldl_insert _ _ hnd, Finmap.lookup_empty, Option.or_none]
    rw [hfits]
    constructor
    · rintro ⟨m, hm, hg⟩
      obtain ⟨db, hload, -⟩ := hm [] List.not_mem_nil
      have hok := (loadFile_encode_iff hlen hlens hnd List.not_mem_nil).mp ⟨db, hload⟩
      obtain rfl := hm.unique (hloads hok.1 hok.2)
      exact ⟨funext fun q => (hg q).symm.trans (hlookup q), hok⟩
    · rintro ⟨rfl, hsmall, hfew⟩
      exact ⟨_, hloads hsmall hfew, hlookup⟩

/-! ## §3 — what changes do -/

/-- A change, in a database of bytes. -/
def Edit.change (f : Contents) : Edit → Contents
  | .set key val => Function.update f (encodeText key) (some (encodeText val))
  | .del key => Function.update f (encodeText key) none

/-- Is anything changed? What is not there is not deleted. -/
def touches (f : Contents) : List Edit → Bool
  | [] => false
  | .set _ _ :: _ => true
  | .del key :: es => (f (encodeText key)).isSome || touches f es

/-- What changes leave. A file that is written again has U+FFFD for what is not UTF-8 in its values. -/
def edited (f : Contents) (es : List Edit) : Contents :=
  if touches f es then es.foldl Edit.change fun q => (f q).map replaced else f

/-- The items stand for the contents. -/
def Stands (data : OrderedDict PyStr PyStr) (f : Contents) : Prop :=
  ∀ q v, f q = some v ↔ ∃ k w, data.get? k = some w ∧ encodeText k = q ∧ encodeText w = v

theorem encodeText_injective : Function.Injective encodeText := fun k k' h => by
  rw [← decodeReplace_encodeText k, h, decodeReplace_encodeText]

theorem update_encodeText (key k : PyStr) (v : Option Bytes) :
    Function.update f (encodeText key) v (encodeText k) = if k = key then v else f (encodeText k) := by
  by_cases heq : k = key
  · rw [heq, if_pos rfl, Function.update_self]
  · rw [if_neg heq, Function.update_of_ne (encodeText_injective.ne heq)]

variable {data : OrderedDict PyStr PyStr}

theorem Stands.get (h : Stands data f) (k : PyStr) : f (encodeText k) = (data.get? k).map encodeText := by
  apply Option.ext
  intro v
  rw [h, Option.map_eq_some_iff]
  constructor
  · rintro ⟨k', w, hget, hk, hw⟩
    obtain rfl := encodeText_injective hk
    exact ⟨w, hget, hw⟩
  · rintro ⟨w, hget, hw⟩
    exact ⟨k, w, hget, rfl, hw⟩

/-- What is not UTF-8 is no key. -/
theorem Stands.foreign (h : Stands data f) {q : Bytes} (hq : ∀ k, encodeText k ≠ q) : f q = none := by
  by_contra hne
  obtain ⟨v, hv⟩ := Option.ne_none_iff_exists'.mp hne
  obtain ⟨k, -, -, hk, -⟩ := (h q v).mp hv
  exact hq k hk

/-- Contents are known from what the keys that are texts have. -/
theorem stands_of_get (hget : ∀ k, f (encodeText k) = (data.get? k).map encodeText)
    (hnone : ∀ q, (∀ k, encodeText k ≠ q) → f q = none) : Stands data f := by
  intro q v
  by_cases hq : ∃ k, encodeText k = q
  · obtain ⟨k, rfl⟩ := hq
    rw [hget, Option.map_eq_some_iff]
    constructor
    · rintro ⟨w, hw, hv⟩
      exact ⟨k, w, hw, rfl, hv⟩
    · rintro ⟨k', w, hw, hk, hv⟩
      obtain rfl := encodeText_injective hk
      exact ⟨w, hw, hv⟩
  · rw [not_exists] at hq
    rw [hnone q hq]
    constructor
    · intro h
      cases h
    · rintro ⟨k, -, -, hk, -⟩
      exact absurd hk (hq k)

/-- **One change.** -/
theorem Stands.on {db : PyDb} (h : Stands db.data f) (e : Edit) : Stands (e.on db).data (e.change f) := by
  cases e with
  | set key val =>
    refine stands_of_get (fun k => ?_) fun q hq => ?_
    · show Function.update f (encodeText key) (some (encodeText val)) (encodeText k) =
        ((db.data.set key val).get? k).map encodeText
      rw [OrderedDict.get?_set, update_encodeText, h.get]
      split <;> rfl
    · exact (Function.update_of_ne (Ne.symm (hq key)) _ _).trans (h.foreign hq)
  | del key =>
    refine stands_of_get (fun k => ?_) fun q hq => ?_
    · show Function.update f (encodeText key) none (encodeText k) = _
      rw [update_encodeText, h.get, Edit.on, PyDb.delitem]
      by_cases hkey : (db.data.get? key).isSome
      · rw [if_pos hkey, Option.getD_some, OrderedDict.get?_erase]
        split <;> rfl
      · -- there is nothing to delete
        rw [if_neg hkey, Option.getD_none]
        split
        next heq => rw [heq, Option.not_isSome_iff_eq_none.mp hkey, Option.map_none]
        next => rfl
    · exact (Function.update_of_ne (Ne.symm (hq key)) _ _).trans (h.foreign hq)

/-- Changes one after the other. -/
theorem Stands.foldl {db : PyDb} (h : Stands db.data f) (es : List Edit) :
    Stands (es.foldl Edit.on db).data (es.foldl Edit.change f) := by
  induction es generalizing db f with
  | nil => exact h
  | cons e es ih => exact ih (h.on e)

/-- What has been changed stays so. -/
theorem dirty_foldl {db : PyDb} (h : db.dirty = true) (es : List Edit) : (es.foldl Edit.on db).dirty = true := by
  induction es generalizing db with
  | nil => exact h
  | cons e es ih =>
    apply ih
    cases e with
    | set key val => rfl
    | del key =>
      rw [Edit.on, PyDb.delitem]
      split
      · rfl
      · exact h

/-- **When anything has been changed.** -/
theorem dirty_foldl_eq {db : PyDb} (hclean : db.dirty = false)
    (h : ∀ k, (f (encodeText k)).isSome = (db.data.get? k).isSome) (es : List Edit) :
    (es.foldl Edit.on db).dirty = touches f es := by
  induction es with
  | nil => exact hclean
  | cons e es ih =>
    cases e with
    | set key val => exact dirty_foldl rfl es
    | del key =>
      rw [List.foldl_cons, Edit.on, PyDb.delitem, touches, h key]
      cases hkey : (db.data.get? key).isSome
      · simpa using ih
      · rw [if_pos rfl, Option.getD_some, Bool.true_or]
        exact dirty_foldl rfl es

/-! ## §4 — the file that is left -/

/-- The file is opened: its items are the contents, in characters. -/
theorem Saved.opens (h : Saved disk f) :
    ∃ data, pyOpen disk = some ⟨data, false⟩ ∧ Stands data fun q => (f q).map replaced := by
  cases h with
  | absent =>
    refine ⟨.empty, rfl, fun q v => ⟨fun h => ?_, ?_⟩⟩
    · cases h
    · rintro ⟨k, w, hget, -⟩
      cases hget
  | @file es hnd hlen hlens hkeys =>
    obtain ⟨data, hopen, hitems⟩ := pyOpen_records hnd hlen hlens hkeys
    refine ⟨data, hopen, fun q v => ?_⟩
    rw [Option.map_eq_some_iff]
    constructor
    · rintro ⟨u, hu, rfl⟩
      have hmem := List.of_mem_dlookup hu
      refine ⟨decodeReplace q, decodeReplace u, ?_, hkeys _ hmem, rfl⟩
      rw [OrderedDict.get?_eq_some_iff, hitems]
      exact List.mem_map_of_mem hmem
    · rintro ⟨k, w, hget, rfl, rfl⟩
      rw [OrderedDict.get?_eq_some_iff, hitems] at hget
      obtain ⟨e, he, heq⟩ := List.mem_map.mp hget
      obtain ⟨rfl, rfl⟩ := Prod.mk.inj heq
      have hkey : encodeText (decodeReplace e.1) = e.1 := hkeys e he
      rw [hkey]
      exact ⟨e.2, List.mem_dlookup hnd he, rfl⟩

/-- The items as records. -/
theorem Stands.records (h : Stands data f) :
    (data.items.map encodeItem).NodupKeys ∧ f = fun q => (data.items.map encodeItem).dlookup q := by
  have hnd : (data.items.map encodeItem).NodupKeys := by
    have hkeys : (data.items.map encodeItem).keys = (data.items.map Prod.fst).map encodeText := by
      rw [List.keys, List.map_map, List.map_map]
      rfl
    rw [List.NodupKeys, hkeys]
    exact data.nodup.map encodeText_injective
  refine ⟨hnd, funext fun q => Option.ext fun v => ?_⟩
  rw [h, ← Option.mem_def, List.mem_dlookup_iff hnd, List.mem_map]
  constructor
  · rintro ⟨k, w, hget, rfl, rfl⟩
    exact ⟨(k, w), OrderedDict.get?_eq_some_iff.mp hget, rfl⟩
  · rintro ⟨i, hi, heq⟩
    cases heq
    exact ⟨i.1, i.2, OrderedDict.get?_eq_some_iff.mpr hi, rfl, rfl⟩

/-- Items are written to a file. -/
theorem saved_items (hstands : Stands data f) (hpacks : Packs data) :
    Saved (some (encodeFile (data.items.map encodeItem))) f := by
  obtain ⟨hnd, hsame⟩ := hstands.records
  rw [hsame]
  refine .file hnd (by rw [List.length_map]; exact hpacks.1) ?_ ?_
  · intro e he
    obtain ⟨i, hi, rfl⟩ := List.mem_map.mp he
    exact hpacks.2 i hi
  · intro e he
    obtain ⟨i, -, rfl⟩ := List.mem_map.mp he
    show encodeText (decodeReplace (encodeText i.1)) = encodeText i.1
    rw [decodeReplace_encodeText]

/-- Items within the limits can be written. -/
theorem Stands.packs (hstands : Stands data f) (hfits : Fits f) : Packs data := by
  obtain ⟨hnd, rfl⟩ := hstands.records
  have hmax : maxRecsize = 2 ^ 20 := rfl
  have hfew : data.items.length ≤ maxEntries := by
    have := hfits.few
    rw [encard_keys hnd, List.length_map] at this
    exact_mod_cast this
  rw [maxEntries] at hfew
  refine ⟨by omega, fun i hi => ?_⟩
  have hsmall : SmallEntry (encodeItem i) := hfits.small _ _ (List.mem_dlookup hnd (List.mem_map_of_mem hi))
  have hk : (encodeItem i).1.length ≤ maxRecsize := hsmall.1
  have hv : (encodeItem i).2.length ≤ maxRecsize := hsmall.2
  exact ⟨by omega, by omega⟩

/-- The file is opened and changed. -/
theorem Saved.dirty (h : Saved disk f) (es : List Edit) :
    ∃ data, pyOpen disk = some ⟨data, false⟩ ∧ (es.foldl Edit.on ⟨data, false⟩).dirty = touches f es ∧
      Stands (es.foldl Edit.on ⟨data, false⟩).data (es.foldl Edit.change fun q => (f q).map replaced) := by
  obtain ⟨data, hopen, hstands⟩ := h.opens
  have hsome (k : PyStr) : (f (encodeText k)).isSome = (data.get? k).isSome := by
    have hget := congrArg Option.isSome (hstands.get k)
    rwa [Option.isSome_map, Option.isSome_map] at hget
  exact ⟨data, hopen, dirty_foldl_eq rfl hsome es, Stands.foldl hstands es⟩

/-- **A session of the class.** -/
theorem Saved.edit (h : Saved disk f) {es : List Edit} (hrun : edit disk es = some disk') :
    Saved disk' (edited f es) := by
  obtain ⟨data, hopen, hdirty, hstands⟩ := h.dirty es
  rw [Dbm.edit, hopen, Option.bind_eq_bind, Option.bind_some, PyDb.flush, hdirty] at hrun
  rw [edited]
  cases htouch : touches f es with
  | false =>
    rw [htouch, if_pos rfl] at hrun
    obtain rfl := Option.some.inj hrun
    exact h
  | true =>
    rw [htouch, if_neg (by decide)] at hrun
    split at hrun
    next hpacks =>
      obtain rfl := Option.some.inj hrun
      have hfile := saved_items hstands hpacks
      rw [encodeFile, List.length_map, List.flatMap_map] at hfile
      exact hfile
    next => cases hrun

/-- A file is left when it can be within the limits. -/
theorem edit_isSome (h : Saved disk f) {es : List Edit} (hfits : Fits (edited f es)) :
    ∃ disk', edit disk es = some disk' := by
  obtain ⟨data, hopen, hdirty, hstands⟩ := h.dirty es
  rw [edit, hopen, Option.bind_eq_bind, Option.bind_some, PyDb.flush, hdirty]
  cases htouch : touches f es with
  | false => exact ⟨disk, if_pos rfl⟩
  | true =>
    rw [edited, if_pos htouch] at hfits
    rw [if_neg (by decide), if_pos (hstands.packs hfits)]
    exact ⟨_, rfl⟩

/-! ## §5 — sessions -/

/-- No system call of a flush fails. -/
def FlushScript.Quiet (s : FlushScript) : Prop := s.opens ∧ quietScript s.writes ∧ s.fsyncs ∧ s.renames

/-- The database is opened, changed and saved: by the C library or by the class. -/
inductive Session
  | dbm (script : List (Option Nat)) (ops : List DbOp) (flush : FlushScript)
  | icbdb (es : List Edit)

/-- The file a session leaves, unless the session breaks off. -/
def Session.run (disk : Option Bytes) : Session → Option (Option Bytes)
  | .dbm script ops flush =>
      match loadFile disk script with
      | .error _ => none
      | .ok db => (execAll db ops).map fun r => dbmClose flush r.2 disk
  | .icbdb es => edit disk es

/-- Sessions one after the other. -/
def runSessions (disk : Option Bytes) : List Session → Option (Option Bytes)
  | [] => some disk
  | s :: ss => (s.run disk).bind fun disk => runSessions disk ss

/-- A key and its value that a file can hold for both. -/
structure Writable (k v : Bytes) : Prop where
  key : replaced k = k
  klen : k.length < 2 ^ 32
  vlen : v.length < 2 ^ 32

/-- What the library stores is writable, and its reads do not fail. -/
def Session.Sound : Session → Prop
  | .dbm script ops _ => quietScript script ∧ ∀ op ∈ ops, ∀ k v flag, op = .store k v flag → Writable k v
  | .icbdb _ => True

/-- A call of the library, in a database of bytes. -/
def DbOp.change (f : Contents) : DbOp → Contents
  | .store k v flag => if (f k).isSome ∧ flag = .insert then f else Function.update f k (some v)
  | .delete k => Function.update f k none
  | .fetch _ => f

/-- What a session does to the contents: all of its changes, or none when a system call of its flush fails. -/
inductive Session.Does : Session → Contents → Contents → Prop
  | saves (script : List (Option Nat)) (ops : List DbOp) (flush : FlushScript) (f : Contents) :
      Does (.dbm script ops flush) f (ops.foldl DbOp.change f)
  | fails (script : List (Option Nat)) (ops : List DbOp) {flush : FlushScript} (f : Contents) (h : ¬ flush.Quiet) :
      Does (.dbm script ops flush) f f
  | edits (es : List Edit) (f : Contents) : Does (.icbdb es) f (edited f es)

/-- What sessions do. -/
inductive Do : List Session → Contents → Contents → Prop
  | nil (f : Contents) : Do [] f f
  | cons {s : Session} {ss : List Session} {f g g' : Contents} (hs : s.Does f g) (hss : Do ss g g') :
      Do (s :: ss) f g'

theorem xwriteLoop_isSome {fuel : Nat} {written b : Bytes} {script : List (Option Nat)} (hq : quietScript script)
    (hfuel : b.length ≤ fuel) :
    ∃ w rest, xwriteLoop fuel written script b = some (w, rest) ∧ quietScript rest := by
  induction fuel generalizing written script b with
  | zero =>
    obtain rfl := List.length_eq_zero_iff.mp (Nat.le_zero.mp hfuel)
    exact ⟨written, script, rfl, hq⟩
  | succ fuel ih =>
    unfold xwriteLoop
    split
    · exact ⟨written, script, rfl, hq⟩
    cases script with
    | nil => exact ⟨_, _, rfl, hq⟩
    | cons a s =>
      cases a with
      | none => exact absurd List.mem_cons_self hq
      | some k =>
        refine ih (fun hmem => hq (List.mem_cons_of_mem _ hmem)) ?_
        rw [List.length_drop]
        omega

theorem xwriteAll_isSome {written : Bytes} {script : List (Option Nat)} {bs : List Bytes} (hq : quietScript script) :
    (xwriteAll written script bs).isSome := by
  induction bs generalizing written script with
  | nil => rfl
  | cons b bs ih =>
    obtain ⟨w, rest, hw, hrest⟩ : ∃ w rest, xwriteLoop b.length written script b = some (w, rest) ∧
        quietScript rest := xwriteLoop_isSome hq (Nat.le_refl _)
    rw [xwriteAll, xwrite, hw, Option.bind_some]
    exact ih hrest

/-- The file after `dbm_close`. -/
theorem dbmClose_cases (flush : FlushScript) {db : IcbDbm} (hdirty : db.dirty = true) (disk : Option Bytes) :
    dbmClose flush db disk = some (fileBytes db) ∨ dbmClose flush db disk = disk ∧ ¬ flush.Quiet := by
  simp only [dbmClose, flushFile, hdirty, not_true_eq_false, if_false]
  split
  next h => exact .inr ⟨rfl, fun hq => h hq.1⟩
  cases hw : xwriteAll [] flush.writes (flushBuffers db) with
  | none =>
    refine .inr ⟨rfl, fun hq => ?_⟩
    have hsome : (xwriteAll [] flush.writes (flushBuffers db)).isSome := xwriteAll_isSome hq.2.1
    rw [hw] at hsome
    cases hsome
  | some content =>
    rw [xwriteAll_spec hw, List.nil_append, flatten_flushBuffers]
    dsimp only
    split
    next h => exact .inr ⟨rfl, fun hq => h hq.2.2.1⟩
    split
    next h => exact .inr ⟨rfl, fun hq => h hq.2.2.2⟩
    exact .inl rfl

/-- A table that is not dirty has not been changed. -/
theorem DbOp.exec_clean {op : DbOp} {db db' : IcbDbm} {a : DbAns} (h : op.exec db = some (a, db'))
    (hclean : db'.dirty = false) : db' = db := by
  cases op with
  | store k v flag =>
    simp only [DbOp.exec, dbmStore, Option.map_eq_some_iff, Prod.mk.injEq, Prod.exists] at h
    obtain ⟨r, db₁, hs, -, rfl⟩ := h
    split at hs
    · cases flag with
      | insert => exact (Prod.mk.inj (Option.some.inj hs)).2.symm
      | replace =>
        obtain ⟨-, rfl⟩ := Prod.mk.inj (Option.some.inj hs)
        cases hclean
    · simp only [Option.map_eq_some_iff, Prod.mk.injEq] at hs
      obtain ⟨db₂, -, -, rfl⟩ := hs
      cases hclean
  | delete k =>
    simp only [DbOp.exec, dbmDelete, Option.some.injEq, Prod.mk.injEq] at h
    obtain ⟨-, rfl⟩ := h
    split at hclean
    · rfl
    · cases hclean
  | fetch k => exact (Prod.mk.inj (Option.some.inj h)).2.symm

theorem execAll_clean {ops : List DbOp} {db db' : IcbDbm} {as : List DbAns} (h : execAll db ops = some (as, db'))
    (hclean : db'.dirty = false) : db' = db := by
  induction ops generalizing db as with
  | nil => exact (Prod.mk.inj (Option.some.inj h)).2.symm
  | cons op ops ih =>
    simp only [execAll, Option.bind_eq_some_iff, Option.map_eq_some_iff, Prod.mk.injEq, Prod.exists] at h
    obtain ⟨a, db₁, hop, as₁, db₂, hrest, -, rfl⟩ := h
    obtain rfl := ih hrest
    exact DbOp.exec_clean hop hclean

/-- The abstract calls, on contents. -/
theorem lookup_specAll_eq (ops : List DbOp) (m : DbMap) :
    (specAll m ops).2.lookup = ops.foldl DbOp.change m.lookup := by
  induction ops generalizing m with
  | nil => rfl
  | cons op ops ih =>
    have hone : (op.spec m).2.lookup = op.change m.lookup := by
      funext q
      cases op with
      | store k v flag =>
        simp only [DbOp.spec, DbOp.change, Finmap.lookup_isSome]
        split
        · rfl
        · by_cases hq : q = k
          · rw [hq, Finmap.lookup_insert, Function.update_self]
          · rw [Finmap.lookup_insert_of_ne _ hq, Function.update_of_ne hq]
      | delete k =>
        simp only [DbOp.spec, DbOp.change]
        split
        · by_cases hq : q = k
          · rw [hq, Finmap.lookup_erase, Function.update_self]
          · rw [Finmap.lookup_erase_ne hq, Function.update_of_ne hq]
        next hk =>
          rw [← Finmap.lookup_eq_none.mpr hk, Function.update_eq_self]
      | fetch k => rfl
    rw [specAll, ih, hone, List.foldl_cons]

/-- What is stored is writable when every store is. -/
theorem writable_foldl {ops : List DbOp} (hops : ∀ op ∈ ops, ∀ k v flag, op = .store k v flag → Writable k v)
    (hf : ∀ k v, f k = some v → Writable k v) : ∀ k v, ops.foldl DbOp.change f k = some v → Writable k v := by
  induction ops generalizing f with
  | nil => exact hf
  | cons op ops ih =>
    obtain ⟨hop, hops⟩ := List.forall_mem_cons.mp hops
    apply ih hops
    intro k v hk
    cases op with
    | store k' v' flag =>
      rw [DbOp.change] at hk
      split at hk
      · exact hf k v hk
      · rw [Function.update_apply] at hk
        split at hk
        next heq =>
          obtain rfl := Option.some.inj hk
          exact heq ▸ hop k' v' flag rfl
        next => exact hf k v hk
    | delete k' =>
      rw [DbOp.change, Function.update_apply] at hk
      split at hk
      · cases hk
      · exact hf k v hk
    | fetch k' => exact hf k v hk

theorem Saved.writable (h : Saved disk f) : ∀ k v, f k = some v → Writable k v := by
  intro k v hk
  cases h with
  | absent => cases hk
  | @file es hnd hlen hlens hkeys =>
    have hmem := List.of_mem_dlookup hk
    exact ⟨hkeys _ hmem, (hlens _ hmem).1, (hlens _ hmem).2⟩

/-- The file of a table whose contents are writable. -/
theorem saved_fileBytes {db : IcbDbm} {m : DbMap} (h : Represents db m)
    (hw : ∀ k v, m.lookup k = some v → Writable k v) : Saved (some (fileBytes db)) m.lookup := by
  have hlookup : m.lookup = fun q => db.buckets.flatten.dlookup q := by
    funext q
    rw [← h.find q, htFind, h.placed.find_eq_dlookup]
  have hmem (e : Entry Bytes Bytes) (he : e ∈ db.buckets.flatten) : Writable e.1 e.2 := by
    exact hw _ _ ((congrFun hlookup e.1).trans (List.mem_dlookup h.placed.nodup he))
  have hfew : db.buckets.flatten.length < 2 ^ 30 := h.count ▸ h.sized.nentries_lt
  rw [fileBytes, h.count, hlookup]
  exact .file h.placed.nodup (by omega) (fun e he => ⟨(hmem e he).klen, (hmem e he).vlen⟩)
    fun e he => (hmem e he).key

/-- **A session of the library.** -/
theorem Saved.dbm (h : Saved disk f) {script : List (Option Nat)} {ops : List DbOp} {flush : FlushScript}
    (hs : (Session.dbm script ops flush).Sound) (hrun : (Session.dbm script ops flush).run disk = some disk') :
    ∃ g, (Session.dbm script ops flush).Does f g ∧ Saved disk' g := by
  obtain ⟨hq, hops⟩ := hs
  cases hload : loadFile disk script with
  | error e =>
    rw [Session.run, hload] at hrun
    cases hrun
  | ok db =>
    obtain ⟨m, hr, rfl⟩ : ∃ m, Represents db m ∧ m.lookup = f := by
      cases h with
      | absent =>
        obtain rfl := Except.ok.inj hload
        exact ⟨∅, represents_empty, funext fun q => Finmap.lookup_empty q⟩
      | @file es hnd hlen hlens hkeys =>
        obtain ⟨hsmall, hfew⟩ := (loadFile_encode_iff hlen hlens hnd hq).mp ⟨db, hload⟩
        obtain ⟨db', hload', hr, -⟩ := loadFile_encode hnd hsmall hfew hq
        obtain rfl : db = db' := Except.ok.inj (hload.symm.trans hload')
        refine ⟨_, hr, funext fun q => ?_⟩
        rw [lookup_foldl_insert _ _ hnd, Finmap.lookup_empty, Option.or_none]
    rw [Session.run, hload] at hrun
    simp only [Option.map_eq_some_iff, Prod.exists] at hrun
    obtain ⟨as, db', hexec, rfl⟩ := hrun
    obtain ⟨-, hr'⟩ := execAll_repr ops hr hexec
    have hspec := lookup_specAll_eq ops m
    cases hdirty : db'.dirty with
    | false =>
      -- nothing was changed, and nothing is written
      obtain rfl := execAll_clean hexec hdirty
      have hsame : ops.foldl DbOp.change m.lookup = m.lookup := by rw [← hspec, hr'.unique hr]
      have hclose : dbmClose flush db' disk = disk := by simp [dbmClose, flushFile, hdirty]
      have hdoes : (Session.dbm script ops flush).Does m.lookup (ops.foldl DbOp.change m.lookup) := .saves ..
      rw [hsame] at hdoes
      rw [hclose]
      exact ⟨_, hdoes, h⟩
    | true =>
      rcases dbmClose_cases flush hdirty disk with hnew | ⟨hold, hfailed⟩
      · refine ⟨_, .saves .., ?_⟩
        rw [hnew, ← hspec]
        apply saved_fileBytes hr'
        intro k v hk
        exact writable_foldl hops h.writable k v ((congrFun hspec k).symm.trans hk)
      · rw [hold]
        exact ⟨_, .fails _ _ _ hfailed, h⟩

/-- **Whatever the sessions were**, the file has what they did, in their order. -/
theorem sessions_saved {ss : List Session} (h : Saved disk f) (hss : ∀ s ∈ ss, s.Sound)
    (hrun : runSessions disk ss = some disk') : ∃ g, Do ss f g ∧ Saved disk' g := by
  induction ss generalizing disk f with
  | nil =>
    obtain rfl := Option.some.inj hrun
    exact ⟨f, .nil f, h⟩
  | cons s ss ih =>
    obtain ⟨hs, hss⟩ := List.forall_mem_cons.mp hss
    rw [runSessions, Option.bind_eq_some_iff] at hrun
    obtain ⟨disk₁, hone, hrest⟩ := hrun
    have hstep : ∃ g, s.Does f g ∧ Saved disk₁ g := by
      cases s with
      | dbm script ops flush => exact h.dbm hs hone
      | icbdb es => exact ⟨_, .edits .., h.edit hone⟩
    obtain ⟨g, hdoes, hg⟩ := hstep
    obtain ⟨g', hdo, hg'⟩ := ih hg hss hrest
    exact ⟨g', .cons hdoes hdo, hg'⟩

end

/-- The server registers `al`; then his text is set and his password deleted. -/
def twoSessions : List Session :=
  [.dbm [some 2] [.store (str "al.nick") (str "al") .replace, .store (str "al.password") (str "pw") .replace]
      { writes := [some 0, some 6] },
    .icbdb [.set ['a', 'l', '.', 't', 'e', 'x', 't'] ['h', 'i'],
      .del ['a', 'l', '.', 'p', 'a', 's', 's', 'w', 'o', 'r', 'd']]]

end Icbd.Dbm
