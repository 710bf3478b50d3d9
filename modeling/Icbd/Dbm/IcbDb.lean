/-
# Icbd.Dbm.IcbDb — the attribute layer of `icbdb.c` and what is left on disk.

`icbdb_open` loads the file once; `icbdb_close` counts references and closes only in multi-user mode,
so in the default mode the table lives in memory until the process ends. Neither `icbexit` nor the
`exec` of `s_restart` closes it, and `dbm_close` is the only caller of `flush_file`: the file keeps
the content it had when the process started.
-/
import Icbd.Dbm.File
import Icbd.Text

namespace Icbd.Dbm

/-! ## §1 — keys -/

/-- `DBLKSIZ`. -/
def dblksiz : Nat := 4096

/-- `icbdb_make_key`: `category.attribute`, cut to the buffer, in lower case. -/
def icbdbMakeKey (category : Option Bytes) (attr : Bytes) : Bytes :=
  match category with
  | none => lcaseit (snprintf dblksiz attr)
  | some category => lcaseit (snprintf dblksiz (category ++ str "." ++ attr))

/-! ## §2 — the open database -/

/-- The static variables of `icbdb.c`, and the file behind them. -/
structure IcbDb where
  db : Option IcbDbm := none
  openCount : Int := 0
  multiuser : Bool := false
  disk : Option Bytes := none

/-- `icbdb_open`: whether the database is open. -/
def icbdbOpen (script : List (Option Nat)) (s : IcbDb) : Bool × IcbDb :=
  let s := { s with openCount := s.openCount + 1 }
  match s.db with
  | some _ => (true, s)
  | none =>
      match loadFile s.disk script with
      | .ok db => (true, { s with db := some db })
      | .error _ => (false, s)

/-- `dbm_close`: a flush whose result is ignored. -/
def dbmClose (flush : FlushScript) (db : IcbDbm) (disk : Option Bytes) : Option Bytes :=
  (flushFile flush db disk).2.2

/-- `icbdb_close`. -/
def icbdbClose (flush : FlushScript) (s : IcbDb) : IcbDb :=
  let s := { s with openCount := s.openCount - 1 }
  if s.openCount > 0 ∨ ¬ s.multiuser then s
  else
    match s.db with
    | none => s
    | some db => { s with db := none, disk := dbmClose flush db s.disk }

/-- A call of the layer. -/
inductive IcbDbOp
  | get (category : Option Bytes) (attr : Bytes)
  | set (category : Option Bytes) (attr value : Bytes)
  | delete (category : Option Bytes) (attr : Bytes)
  deriving DecidableEq, Repr

/-- The call it makes on the table. -/
def IcbDbOp.toDbOp : IcbDbOp → DbOp
  | .get c a => .fetch (icbdbMakeKey c a)
  | .set c a v => .store (icbdbMakeKey c a) v .replace
  | .delete c a => .delete (icbdbMakeKey c a)

/-- `icbdb_get`, `icbdb_set`, `icbdb_delete`: open, call, close. No answer when the open fails, no
result when the table's bucket count wraps around. -/
def IcbDbOp.run (script : List (Option Nat)) (flush : FlushScript) (s : IcbDb) (op : IcbDbOp) :
    Option (Option DbAns × IcbDb) :=
  match icbdbOpen script s with
  | (false, s) => some (none, s)
  | (true, s) =>
      match s.db with
      | none => some (none, s)
      | some db =>
          (op.toDbOp.exec db).map fun r => (some r.1, icbdbClose flush { s with db := some r.2 })

/-- A sequence of calls. -/
def runAll (script : List (Option Nat)) (flush : FlushScript) (s : IcbDb) :
    List IcbDbOp → Option IcbDb
  | [] => some s
  | op :: ops => (op.run script flush s).bind fun r => runAll script flush r.2 ops

/-- The ways a server process ends. -/
inductive Ending
  | icbexit
  | restart
  deriving DecidableEq, Repr

/-- The file a process leaves: both endings drop the memory as it is. -/
def Ending.disk (s : IcbDb) : Ending → Option Bytes
  | .icbexit => s.disk
  | .restart => s.disk

/-! ## §3 — the map in memory -/

/-- The file loads, however its reads are split, to a table for the map `m`. -/
def LoadsTo (disk : Option Bytes) (m : DbMap) : Prop :=
  ∀ script, quietScript script → ∃ db, loadFile disk script = .ok db ∧ Represents db m

theorem Represents.unique {db : IcbDbm} {m m' : DbMap} (h : Represents db m)
    (h' : Represents db m') : m = m' :=
  h.map.symm.trans h'.map

theorem LoadsTo.unique {disk : Option Bytes} {m m' : DbMap} (h : LoadsTo disk m)
    (h' : LoadsTo disk m') : m = m' := by
  obtain ⟨db, hl, hr⟩ := h [] List.not_mem_nil
  obtain ⟨db', hl', hr'⟩ := h' [] List.not_mem_nil
  obtain rfl : db = db' := Except.ok.inj (hl.symm.trans hl')
  exact hr.unique hr'

/-- No file, an empty database. -/
theorem loadsTo_none : LoadsTo none ∅ := fun _ _ => ⟨{}, rfl, represents_empty⟩

/-- A file `flush_file` wrote. -/
theorem loadsTo_fileBytes {db : IcbDbm} {m : DbMap} (h : Represents db m)
    (hsmall : ∀ e ∈ db.buckets.flatten, SmallEntry e) : LoadsTo (some (fileBytes db)) m := by
  intro script hq
  obtain ⟨db', hload, hr, _⟩ := loadFile_fileBytes h hsmall hq
  exact ⟨db', hload, hr⟩

/-- What the layer holds in single-user mode: the start-up file untouched, and in memory the map the
calls so far have made of it (nothing yet before the first call). -/
structure Holds (s : IcbDb) (disk : Option Bytes) (m₀ m : DbMap) : Prop where
  single : s.multiuser = false
  disk : s.disk = disk
  memory : (s.db = none ∧ m = m₀) ∨ ∃ db, s.db = some db ∧ Represents db m

/-- The database is open after `icbdb_open`, with the same content. -/
theorem Holds.open_db {script : List (Option Nat)} {s : IcbDb} {disk : Option Bytes} {m₀ m : DbMap}
    (hload : LoadsTo disk m₀) (hq : quietScript script) (h : Holds s disk m₀ m) :
    ∃ db, icbdbOpen script s = (true, { s with openCount := s.openCount + 1, db := some db }) ∧
      Represents db m := by
  rcases h.memory with ⟨hnone, rfl⟩ | ⟨db, hdb, hr⟩
  · obtain ⟨db, hl, hr⟩ := hload script hq
    exact ⟨db, by simp [icbdbOpen, hnone, h.disk, hl], hr⟩
  · exact ⟨db, by simp [icbdbOpen, hdb], hr⟩

/-- In single-user mode `icbdb_close` only counts. -/
theorem Holds.close_db {flush : FlushScript} {s : IcbDb} {disk : Option Bytes} {m₀ m : DbMap}
    (h : Holds s disk m₀ m) : icbdbClose flush s = { s with openCount := s.openCount - 1 } := by
  simp [icbdbClose, h.single]

/-- One call. -/
theorem IcbDbOp.run_holds {script : List (Option Nat)} {flush : FlushScript} {s s' : IcbDb}
    {disk : Option Bytes} {m₀ m : DbMap} {a : Option DbAns} (op : IcbDbOp)
    (hload : LoadsTo disk m₀) (hq : quietScript script) (h : Holds s disk m₀ m)
    (hrun : op.run script flush s = some (a, s')) :
    a = some (op.toDbOp.spec m).1 ∧ s'.db.isSome ∧ Holds s' disk m₀ (op.toDbOp.spec m).2 := by
  obtain ⟨db, hopen, hr⟩ := h.open_db hload hq
  simp only [IcbDbOp.run, hopen, Option.map_eq_some_iff, Prod.mk.injEq, Prod.exists] at hrun
  obtain ⟨ans, db', hexec, rfl, rfl⟩ := hrun
  obtain ⟨hans, hr'⟩ := op.toDbOp.exec_repr hr hexec
  have hopened : Holds { s with openCount := s.openCount + 1, db := some db' } disk m₀
      (op.toDbOp.spec m).2 := ⟨h.single, h.disk, Or.inr ⟨db', rfl, hr'⟩⟩
  rw [hopened.close_db, hans]
  exact ⟨rfl, rfl, ⟨h.single, h.disk, Or.inr ⟨db', rfl, hr'⟩⟩⟩

/-- A call has a result when the table has one. -/
theorem IcbDbOp.run_isSome {script : List (Option Nat)} {s : IcbDb}
    {disk : Option Bytes} {m₀ m : DbMap} (flush : FlushScript) (op : IcbDbOp) (hload : LoadsTo disk m₀)
    (hq : quietScript script) (h : Holds s disk m₀ m)
    (hexec : ∀ db, Represents db m → (op.toDbOp.exec db).isSome) :
    (op.run script flush s).isSome := by
  obtain ⟨db, hopen, hr⟩ := h.open_db hload hq
  simpa only [IcbDbOp.run, hopen, Option.isSome_map] using hexec db hr

/-- A run of calls, by induction on them. -/
theorem runAll_holds {script : List (Option Nat)} {flush : FlushScript} {s s' : IcbDb}
    {disk : Option Bytes} {m₀ m : DbMap} (ops : List IcbDbOp) (hload : LoadsTo disk m₀)
    (hq : quietScript script) (h : Holds s disk m₀ m) (hrun : runAll script flush s ops = some s') :
    Holds s' disk m₀ (specAll m (ops.map IcbDbOp.toDbOp)).2 := by
  induction ops generalizing s m with
  | nil =>
      obtain rfl := Option.some.inj hrun
      exact h
  | cons op ops ih =>
      simp only [runAll, Option.bind_eq_some_iff, Prod.exists] at hrun
      obtain ⟨a, s₁, hop, hrest⟩ := hrun
      exact ih (op.run_holds hload hq h hop).2.2 hrest

/-! ## §4 — durability -/

/-- What a call leaves under a key, if it writes it. -/
def IcbDbOp.writes (k : Bytes) : IcbDbOp → Option (Option Bytes)
  | .get _ _ => none
  | .set c a v => if k = icbdbMakeKey c a then some (some v) else none
  | .delete c a => if k = icbdbMakeKey c a then some none else none

/-- What the last set or delete of a key in a run leaves, if there is one. -/
def lastWrite (k : Bytes) : List IcbDbOp → Option (Option Bytes)
  | [] => none
  | op :: ops => (lastWrite k ops).or (op.writes k)

theorem IcbDbOp.lookup_spec (op : IcbDbOp) (m : DbMap) (k : Bytes) :
    (op.toDbOp.spec m).2.lookup k = (op.writes k).getD (m.lookup k) := by
  cases op with
  | get c a => rfl
  | set c a v =>
      simp only [IcbDbOp.toDbOp, DbOp.spec, reduceCtorEq, and_false, if_false, IcbDbOp.writes]
      by_cases hk : k = icbdbMakeKey c a
      · rw [if_pos hk, hk, Finmap.lookup_insert, Option.getD_some]
      · rw [if_neg hk, Finmap.lookup_insert_of_ne _ hk, Option.getD_none]
  | delete c a =>
      simp only [IcbDbOp.toDbOp, DbOp.spec, IcbDbOp.writes]
      by_cases hk : k = icbdbMakeKey c a
      · rw [if_pos hk, hk, Option.getD_some]
        split
        · exact Finmap.lookup_erase _ _
        · exact Finmap.lookup_eq_none.mpr ‹_›
      · rw [if_neg hk, Option.getD_none]
        split
        · exact Finmap.lookup_erase_ne hk
        · rfl

/-- The value of a key after a run: what the last write left, or what it was. -/
theorem lookup_specAll (k : Bytes) (ops : List IcbDbOp) (m : DbMap) :
    (specAll m (ops.map IcbDbOp.toDbOp)).2.lookup k = (lastWrite k ops).getD (m.lookup k) := by
  induction ops generalizing m with
  | nil => rfl
  | cons op ops ih =>
      rw [List.map_cons, specAll, ih, op.lookup_spec, lastWrite]
      cases lastWrite k ops <;> rfl

/-- The file left behind loads to exactly the map held in memory. -/
def Durable (s : IcbDb) (e : Ending) : Prop :=
  ∀ db, s.db = some db → ∃ m, Represents db m ∧ LoadsTo (e.disk s) m

/-- **When the database survives.** A server that starts on a file that loads to `m₀`, makes any
calls that all have results, and ends in either way leaves the map it holds on disk exactly when
the last set or delete of every key it wrote left that key as the start-up file has it. -/
theorem ending_durable_iff {script : List (Option Nat)} {flush : FlushScript} {s : IcbDb}
    {disk : Option Bytes} {m₀ : DbMap} (ops : List IcbDbOp) (e : Ending) (hload : LoadsTo disk m₀)
    (hq : quietScript script) (hrun : runAll script flush { disk := disk } ops = some s) :
    Durable s e ↔ ∀ k w, lastWrite k ops = some w → m₀.lookup k = w := by
  have hstart : Holds { disk := disk } disk m₀ m₀ := ⟨rfl, rfl, Or.inl ⟨rfl, rfl⟩⟩
  have hs := runAll_holds ops hload hq hstart hrun
  have hdisk : LoadsTo (e.disk s) m₀ := by
    have hend : e.disk s = disk := by
      cases e <;> exact hs.disk
    rw [hend]
    exact hload
  have hsame : (specAll m₀ (ops.map IcbDbOp.toDbOp)).2 = m₀ ↔
      ∀ k w, lastWrite k ops = some w → m₀.lookup k = w := by
    constructor
    · intro heq k w hk
      have h := lookup_specAll k ops m₀
      rw [heq, hk] at h
      exact h
    · intro hall
      refine Finmap.ext_lookup fun k => ?_
      rw [lookup_specAll]
      cases hk : lastWrite k ops with
      | none => rfl
      | some w => exact (hall k w hk).symm
  rw [← hsame]
  rcases hs.memory with ⟨hnone, hm⟩ | ⟨db, hdb, hr⟩
  · refine ⟨fun _ => hm, fun _ db hdb => ?_⟩
    rw [hnone] at hdb
    cases hdb
  · constructor
    · intro h
      obtain ⟨m, hrm, hlm⟩ := h db hdb
      exact (hr.unique hrm).trans (hlm.unique hdisk)
    · intro heq db' hdb'
      obtain rfl : db = db' := Option.some.inj (hdb.symm.trans hdb')
      exact ⟨m₀, heq ▸ hr, hdisk⟩

/-- A new user's password is set, and the server exits: the next start does not have it. -/
theorem ending_loses_password :
    ¬ ∀ (script : List (Option Nat)) (flush : FlushScript) (disk : Option Bytes) (m₀ : DbMap)
        (ops : List IcbDbOp) (s : IcbDb) (e : Ending), LoadsTo disk m₀ → quietScript script →
        runAll script flush { disk := disk } ops = some s → Durable s e := by
  intro h
  let ops : List IcbDbOp := [.set (some (str "alice")) (str "password") (str "secret")]
  have hrun : (runAll [] {} { disk := none } ops).isSome := by decide +kernel
  obtain ⟨s, hs⟩ := Option.isSome_iff_exists.mp hrun
  have hd := h [] {} none ∅ ops s .icbexit loadsTo_none List.not_mem_nil hs
  have hw := (ending_durable_iff ops .icbexit loadsTo_none List.not_mem_nil hs).mp hd
    (icbdbMakeKey (some (str "alice")) (str "password")) (some (str "secret")) (by decide)
  rw [Finmap.lookup_empty] at hw
  cases hw

/-- A key set and deleted again: nothing to lose. -/
theorem ending_durable_iff_undone :
    ∃ s, runAll [] {} {} [.set none (str "k") (str "v"), .delete none (str "K")] = some s ∧
      Durable s .restart := by
  have hrun : (runAll [] {} {} [.set none (str "k") (str "v"), .delete none (str "K")]).isSome := by
    decide +kernel
  obtain ⟨s, hs⟩ := Option.isSome_iff_exists.mp hrun
  refine ⟨s, hs, ?_⟩
  refine (ending_durable_iff _ .restart loadsTo_none List.not_mem_nil hs).mpr ?_
  intro k w hk
  have hkey : icbdbMakeKey none (str "K") = icbdbMakeKey none (str "k") := by decide
  rw [Finmap.lookup_empty]
  simp only [lastWrite, IcbDbOp.writes, hkey, Option.none_or] at hk
  split at hk
  · exact Option.some.inj hk
  · cases hk

end Icbd.Dbm
