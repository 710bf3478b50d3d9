/-
# Icbd.Dbm.Table — the in-memory hash table of `icb_dbm.c`.

`dbm_fetch`, `dbm_store` and `dbm_delete` over a chained table, with the counters as the 32-bit
unsigned numbers they are. Allocations succeed. The one thing that can go wrong is the bucket count:
doubling `2^31` buckets gives zero, and the next `% nbuckets` kills the process; such a call has no
result here (`none`). The abstract database is a finite map; `Represents` connects the two.
-/
import Icbd.Config
import Icbd.Lib.ChainedTable

namespace Icbd.Dbm

open Icbd.Lib (Buckets Entry)

/-! ## §1 — the table -/

/-- `fnv1a`. -/
def fnv1a (k : Bytes) : UInt32 :=
  k.foldl (fun h b => (h ^^^ b.toUInt32) * 16777619) 2166136261

/-- The hash as an index before reduction. -/
def hash (k : Bytes) : Nat := (fnv1a k).toNat

/-- `ICB_DBM_INIT_BUCKETS`. -/
def initBuckets : Nat := 128

/-- `struct icb_dbm`: the chains, the entry counter and the dirty flag. `nbuckets` is the number of
chains. -/
structure IcbDbm where
  buckets : Buckets Bytes Bytes := List.replicate initBuckets []
  nentries : Nat := 0
  dirty : Bool := false
  deriving DecidableEq

/-- `nbuckets`. -/
def IcbDbm.nbuckets (db : IcbDbm) : Nat := db.buckets.length

/-- `ht_find`: the value of the entry found. -/
def htFind (db : IcbDbm) (k : Bytes) : Option Bytes := db.buckets.find hash k

/-- `ht_resize`; no result when the new size has wrapped around to zero. -/
def htResize (db : IcbDbm) (newN : Nat) : Option IcbDbm :=
  if newN = 0 then none else some { db with buckets := db.buckets.rehash hash newN }

/-- The growth check in front of every insertion, `nentries * 4 >= nbuckets * 3` in 32 bits. -/
def growIfFull (db : IcbDbm) : Option IcbDbm :=
  if (db.nentries * 4) % 2 ^ 32 ≥ (db.nbuckets * 3) % 2 ^ 32 then
    htResize db ((db.nbuckets * 2) % 2 ^ 32)
  else some db

/-- The insertion of an entry for a new key, at the front of its chain. -/
def insertEntry (db : IcbDbm) (k v : Bytes) : IcbDbm :=
  { db with buckets := db.buckets.push hash ⟨k, v⟩, nentries := (db.nentries + 1) % 2 ^ 32 }

/-- `DBM_INSERT` and `DBM_REPLACE`. -/
inductive StoreFlag
  | insert
  | replace
  deriving DecidableEq, Repr

/-- `dbm_fetch`. -/
def dbmFetch (db : IcbDbm) (k : Bytes) : Option Bytes := htFind db k

/-- `dbm_store`: return code and table. -/
def dbmStore (db : IcbDbm) (k v : Bytes) (flag : StoreFlag) : Option (Int × IcbDbm) :=
  match htFind db k with
  | some _ =>
      match flag with
      | .insert => some (1, db)
      | .replace => some (0, { db with buckets := db.buckets.replace hash k v, dirty := true })
  | none => (growIfFull db).map fun db => (0, { insertEntry db k v with dirty := true })

/-- `dbm_delete`: return code and table. -/
def dbmDelete (db : IcbDbm) (k : Bytes) : Int × IcbDbm :=
  match htFind db k with
  | none => (-1, db)
  | some _ =>
      (0, { buckets := db.buckets.unlink hash k
            nentries := (db.nentries + 2 ^ 32 - 1) % 2 ^ 32
            dirty := true })

/-! ## §2 — the abstract database -/

/-- The abstract database: a finite map from keys to values. -/
abbrev DbMap := Finmap fun _ : Bytes => Bytes

/-- A call of the interface. -/
inductive DbOp
  | store (k v : Bytes) (flag : StoreFlag)
  | delete (k : Bytes)
  | fetch (k : Bytes)
  deriving DecidableEq, Repr

/-- What a call answers. -/
inductive DbAns
  | code (r : Int)
  | datum (v : Option Bytes)
  deriving DecidableEq, Repr

/-- A call on the table. -/
def DbOp.exec (db : IcbDbm) : DbOp → Option (DbAns × IcbDbm)
  | .store k v flag => (dbmStore db k v flag).map fun r => (.code r.1, r.2)
  | .delete k => some (.code (dbmDelete db k).1, (dbmDelete db k).2)
  | .fetch k => some (.datum (dbmFetch db k), db)

/-- The same call on the abstract database. -/
def DbOp.spec (m : DbMap) : DbOp → DbAns × DbMap
  | .store k v flag =>
      if k ∈ m ∧ flag = .insert then (.code 1, m) else (.code 0, m.insert k v)
  | .delete k => if k ∈ m then (.code 0, m.erase k) else (.code (-1), m)
  | .fetch k => (.datum (m.lookup k), m)

/-- A sequence of calls on the table, with the answers. -/
def execAll (db : IcbDbm) : List DbOp → Option (List DbAns × IcbDbm)
  | [] => some ([], db)
  | op :: ops =>
      (op.exec db).bind fun r => (execAll r.2 ops).map fun rs => (r.1 :: rs.1, rs.2)

/-- A sequence of calls on the abstract database, with the answers. -/
def specAll (m : DbMap) : List DbOp → List DbAns × DbMap
  | [] => ([], m)
  | op :: ops => ((op.spec m).1 :: (specAll (op.spec m).2 ops).1, (specAll (op.spec m).2 ops).2)

/-! ## §3 — the representation -/

/-- The bucket count is a power of two and the load is at most three quarters, up to `2^30` buckets.
At `2^31` the check compares wrapped numbers; the table then holds at most one entry more than the
three quarters of `2^30` that made it grow. -/
def Sized (nbuckets nentries : Nat) : Prop :=
  ∃ j, nbuckets = initBuckets * 2 ^ j ∧
    ((j ≤ 23 ∧ nentries * 4 ≤ nbuckets * 3) ∨ (j = 24 ∧ nentries ≤ 805306369))

/-- **Representation.** The table holds the map `m`, with exact counters. -/
structure Represents (db : IcbDbm) (m : DbMap) : Prop where
  placed : db.buckets.Placed hash
  map : db.buckets.toMap = m
  count : db.nentries = db.buckets.flatten.length
  sized : Sized db.nbuckets db.nentries

theorem represents_empty : Represents {} ∅ := by
  refine ⟨Buckets.placed_replicate _ (by decide), ?_, ?_, 0, ?_, Or.inl ⟨by decide, by simp⟩⟩
  · simp [Buckets.toMap]
  · simp
  · simp [IcbDbm.nbuckets, initBuckets]

theorem Represents.find {db : IcbDbm} {m : DbMap} (h : Represents db m) (k : Bytes) :
    htFind db k = m.lookup k := by
  rw [← h.map]
  exact h.placed.find_eq_lookup k

/-- The entry counter is the number of keys. -/
theorem Represents.nentries_eq {db : IcbDbm} {m : DbMap} (h : Represents db m) : db.nentries = m.keys.card := by
  rw [h.count, ← h.placed.card_keys, h.map]

theorem Sized.nentries_lt {b e : Nat} (h : Sized b e) : e < 2 ^ 30 := by
  obtain ⟨j, rfl, ⟨hj, he⟩ | ⟨_, he⟩⟩ := h
  · have : 2 ^ j ≤ 2 ^ 23 := Nat.pow_le_pow_right (by decide) hj
    simp only [initBuckets] at he
    omega
  · omega

/-- Fewer entries are within bounds too. -/
theorem Sized.mono {b e e' : Nat} (h : Sized b e) (hle : e' ≤ e) : Sized b e' := by
  obtain ⟨j, hb, ⟨hj, he⟩ | ⟨hj, he⟩⟩ := h
  · exact ⟨j, hb, Or.inl ⟨hj, by omega⟩⟩
  · exact ⟨j, hb, Or.inr ⟨hj, by omega⟩⟩

/-- **The growth check.** Before an insertion it leaves room for one more entry, unless the bucket
count wraps around to zero. -/
theorem Sized.grow {b e : Nat} (h : Sized b e) :
    (¬ (e * 4) % 2 ^ 32 ≥ (b * 3) % 2 ^ 32 ∧ Sized b (e + 1)) ∨
    ((e * 4) % 2 ^ 32 ≥ (b * 3) % 2 ^ 32 ∧ (b * 2) % 2 ^ 32 = b * 2 ∧ Sized (b * 2) (e + 1)) ∨
    ((e * 4) % 2 ^ 32 ≥ (b * 3) % 2 ^ 32 ∧ (b * 2) % 2 ^ 32 = 0 ∧ 2 ^ 29 ≤ e) := by
  obtain ⟨j, rfl, ⟨hj, he⟩ | ⟨rfl, he⟩⟩ := h
  · have hpow : 2 ^ j ≤ 2 ^ 23 := Nat.pow_le_pow_right (by decide) hj
    have hpos : 1 ≤ 2 ^ j := Nat.one_le_two_pow
    have hsucc : initBuckets * 2 ^ j * 2 = initBuckets * 2 ^ (j + 1) := by
      rw [Nat.pow_succ, Nat.mul_assoc]
    simp only [initBuckets] at *
    by_cases hfull : e * 4 ≥ 128 * 2 ^ j * 3
    · refine Or.inr (Or.inl ⟨?_, ?_, j + 1, hsucc, ?_⟩)
      · omega
      · omega
      · by_cases hlast : j = 23
        · subst hlast
          exact Or.inr ⟨rfl, by omega⟩
        · exact Or.inl ⟨by omega, by omega⟩
    · exact Or.inl ⟨by omega, j, rfl, Or.inl ⟨hj, by omega⟩⟩
  · simp only [initBuckets]
    by_cases hfull : (e * 4) % 2 ^ 32 ≥ (128 * 2 ^ 24 * 3) % 2 ^ 32
    · exact Or.inr (Or.inr ⟨hfull, by decide, by omega⟩)
    · exact Or.inl ⟨hfull, 24, rfl, Or.inr ⟨rfl, by omega⟩⟩

theorem growIfFull_repr {db db' : IcbDbm} {m : DbMap} (h : Represents db m)
    (hg : growIfFull db = some db') :
    db'.buckets.Placed hash ∧ db'.buckets.toMap = m ∧ db'.nentries = db'.buckets.flatten.length ∧
      db'.nentries = db.nentries ∧ Sized db'.nbuckets (db'.nentries + 1) := by
  unfold growIfFull at hg
  rcases h.sized.grow with ⟨hno, hs⟩ | ⟨hyes, hwrap, hs⟩ | ⟨hyes, hzero, _⟩
  · rw [if_neg hno] at hg
    obtain rfl := Option.some.inj hg
    exact ⟨h.placed, h.map, h.count, rfl, hs⟩
  · have hpos : 0 < db.nbuckets * 2 := Nat.mul_pos h.placed.pos (by decide)
    rw [if_pos hyes, hwrap, htResize, if_neg (Nat.pos_iff_ne_zero.mp hpos)] at hg
    obtain rfl := Option.some.inj hg
    obtain ⟨hplaced, hlen, hperm⟩ := h.placed.rehash hpos
    refine ⟨hplaced, ?_, ?_, rfl, ?_⟩
    · exact (Buckets.toMap_eq_of_perm h.placed.nodup hperm).trans h.map
    · exact h.count.trans hperm.length_eq.symm
    · rw [IcbDbm.nbuckets, hlen]
      exact hs
  · rw [if_pos hyes, hzero, htResize, if_pos rfl] at hg
    cases hg

theorem growIfFull_isSome {db : IcbDbm} {m : DbMap} (h : Represents db m) (hlt : db.nentries < 2 ^ 29) :
    (growIfFull db).isSome := by
  unfold growIfFull
  rcases h.sized.grow with ⟨hno, _⟩ | ⟨hyes, hwrap, _⟩ | ⟨_, _, hge⟩
  · rw [if_neg hno]
    rfl
  · have hpos : 0 < db.nbuckets * 2 := Nat.mul_pos h.placed.pos (by decide)
    rw [if_pos hyes, hwrap, htResize, if_neg (Nat.pos_iff_ne_zero.mp hpos)]
    rfl
  · omega

/-- The insertion of a new key into a table with room for it. -/
theorem insertEntry_repr {db : IcbDbm} {m : DbMap} {k : Bytes} (v : Bytes)
    (hp : db.buckets.Placed hash) (hm : db.buckets.toMap = m)
    (hc : db.nentries = db.buckets.flatten.length) (hs : Sized db.nbuckets (db.nentries + 1))
    (hk : m.lookup k = none) : Represents (insertEntry db k v) (m.insert k v) := by
  have hfind : db.buckets.find hash k = none := by rw [hp.find_eq_lookup, hm, hk]
  obtain ⟨hp', hm', hlen⟩ := hp.toMap_push v hfind
  have hwrap : (db.nentries + 1) % 2 ^ 32 = db.nentries + 1 := by
    have := hs.nentries_lt
    omega
  refine ⟨hp', hm'.trans (by rw [hm]), ?_, ?_⟩
  · simp only [insertEntry, hwrap, hlen]
    rw [hc]
  · simp only [insertEntry, hwrap, IcbDbm.nbuckets, Buckets.length_push]
    exact hs

/-! ## §4 — one call -/

theorem dbmStore_repr {db db' : IcbDbm} {m : DbMap} {k v : Bytes} {flag : StoreFlag} {r : Int}
    (h : Represents db m) (hs : dbmStore db k v flag = some (r, db')) :
    (DbOp.store k v flag).spec m = (.code r, ((DbOp.store k v flag).spec m).2) ∧
      Represents db' ((DbOp.store k v flag).spec m).2 := by
  have hfind := h.find k
  unfold dbmStore at hs
  cases hf : htFind db k with
  | some old =>
      have hmem : k ∈ m := by
        rw [← Finmap.lookup_isSome, ← hfind, hf]
        rfl
      simp only [hf] at hs
      cases flag with
      | insert =>
          obtain ⟨rfl, rfl⟩ := Prod.mk.inj (Option.some.inj hs)
          simp only [DbOp.spec, hmem, and_self, if_true]
          exact ⟨trivial, h⟩
      | replace =>
          obtain ⟨rfl, rfl⟩ := Prod.mk.inj (Option.some.inj hs)
          have hsome : (db.buckets.find hash k).isSome := by
            rw [show db.buckets.find hash k = some old from hf]
            rfl
          obtain ⟨hp, hm, hlen⟩ := h.placed.toMap_replace v hsome
          simp only [DbOp.spec, reduceCtorEq, and_false, if_false]
          refine ⟨trivial, hp, by rw [hm, h.map], ?_, ?_⟩
          · exact h.count.trans hlen.symm
          · simpa only [IcbDbm.nbuckets, Buckets.length_replace] using h.sized
  | none =>
      have hnot : ¬ k ∈ m := by
        rw [← Finmap.lookup_eq_none, ← hfind, hf]
      simp only [hf, Option.map_eq_some_iff, Prod.mk.injEq] at hs
      obtain ⟨db₁, hg, rfl, rfl⟩ := hs
      obtain ⟨hp, hm, hc, _, hroom⟩ := growIfFull_repr h hg
      have hr := insertEntry_repr v hp hm hc hroom (hfind.symm.trans hf)
      simp only [DbOp.spec, hnot, false_and, if_false]
      exact ⟨trivial, hr.placed, hr.map, hr.count, hr.sized⟩

theorem dbmStore_isSome {db : IcbDbm} {m : DbMap} (h : Represents db m) (hlt : m.keys.card < 2 ^ 28)
    (k v : Bytes) (flag : StoreFlag) : (dbmStore db k v flag).isSome := by
  have hroom : db.nentries < 2 ^ 29 := by
    rw [h.nentries_eq]
    omega
  unfold dbmStore
  split
  · cases flag <;> rfl
  · simpa using growIfFull_isSome h hroom

theorem dbmDelete_repr {db : IcbDbm} {m : DbMap} (h : Represents db m) (k : Bytes) :
    ((DbOp.delete k).spec m).1 = .code (dbmDelete db k).1 ∧
      Represents (dbmDelete db k).2 ((DbOp.delete k).spec m).2 := by
  have hfind := h.find k
  unfold dbmDelete
  cases hf : htFind db k with
  | none =>
      have hnot : ¬ k ∈ m := by
        rw [← Finmap.lookup_eq_none, ← hfind, hf]
      simp only [DbOp.spec, hnot, if_false]
      exact ⟨trivial, h⟩
  | some old =>
      have hmem : k ∈ m := by
        rw [← Finmap.lookup_isSome, ← hfind, hf]
        rfl
      have hsome : (db.buckets.find hash k).isSome := by
        rw [show db.buckets.find hash k = some old from hf]
        rfl
      obtain ⟨hp, hm, hlen⟩ := h.placed.toMap_unlink hsome
      have hwrap : (db.nentries + 2 ^ 32 - 1) % 2 ^ 32 = db.nentries - 1 := by
        have := h.sized.nentries_lt
        have := h.count
        omega
      simp only [DbOp.spec, hmem, if_true]
      refine ⟨trivial, hp, by rw [hm, h.map], ?_, ?_⟩
      · have := h.count
        simp only [hwrap]
        omega
      · simp only [hwrap, IcbDbm.nbuckets, Buckets.length_unlink]
        exact h.sized.mono (Nat.sub_le _ _)

/-- A call that has a result answers as the abstract database does and represents it afterwards. -/
theorem DbOp.exec_repr {db db' : IcbDbm} {m : DbMap} {a : DbAns} (op : DbOp) (h : Represents db m)
    (he : op.exec db = some (a, db')) : (op.spec m).1 = a ∧ Represents db' (op.spec m).2 := by
  cases op with
  | store k v flag =>
      simp only [DbOp.exec, Option.map_eq_some_iff, Prod.mk.injEq, Prod.exists] at he
      obtain ⟨r, db₁, hs, rfl, rfl⟩ := he
      obtain ⟨hans, hr⟩ := dbmStore_repr h hs
      exact ⟨by rw [hans], hr⟩
  | delete k =>
      obtain ⟨rfl, rfl⟩ := Prod.mk.inj (Option.some.inj he)
      exact dbmDelete_repr h k
  | fetch k =>
      obtain ⟨rfl, rfl⟩ := Prod.mk.inj (Option.some.inj he)
      exact ⟨by simp only [DbOp.spec, dbmFetch, h.find k], h⟩

/-- Below `2^28` entries every call has a result. -/
theorem DbOp.exec_isSome {db : IcbDbm} {m : DbMap} (op : DbOp) (h : Represents db m)
    (hlt : m.keys.card < 2 ^ 28) : (op.exec db).isSome := by
  cases op with
  | store k v flag => simpa [DbOp.exec] using dbmStore_isSome h hlt k v flag
  | delete k => rfl
  | fetch k => rfl

/-! ## §5 — whole runs -/

/-- What a run of calls that all have results does, by induction on the calls. -/
theorem execAll_repr {db db' : IcbDbm} {m : DbMap} {as : List DbAns} (ops : List DbOp)
    (h : Represents db m) (he : execAll db ops = some (as, db')) :
    (specAll m ops).1 = as ∧ Represents db' (specAll m ops).2 := by
  induction ops generalizing db m as with
  | nil =>
      obtain ⟨rfl, rfl⟩ := Prod.mk.inj (Option.some.inj he)
      exact ⟨rfl, h⟩
  | cons op ops ih =>
      simp only [execAll, Option.bind_eq_some_iff, Option.map_eq_some_iff, Prod.mk.injEq,
        Prod.exists] at he
      obtain ⟨a, db₁, hop, as₁, db₂, hrest, rfl, rfl⟩ := he
      obtain ⟨ha, hr⟩ := op.exec_repr h hop
      obtain ⟨has, hr'⟩ := ih hr hrest
      exact ⟨by rw [specAll, ha, has], hr'⟩

/-- The bound holds at every point of the run on the abstract side. -/
def Bounded (m : DbMap) (ops : List DbOp) : Prop :=
  ∀ pre, pre <+: ops → (specAll m pre).2.keys.card < 2 ^ 28

theorem execAll_isSome {db : IcbDbm} {m : DbMap} (ops : List DbOp) (h : Represents db m)
    (hb : Bounded m ops) : (execAll db ops).isSome := by
  induction ops generalizing db m with
  | nil => rfl
  | cons op ops ih =>
      obtain ⟨⟨a, db₁⟩, hop⟩ :=
        Option.isSome_iff_exists.mp (op.exec_isSome h (hb [] List.nil_prefix))
      obtain ⟨_, hr⟩ := op.exec_repr h hop
      have hrest := ih hr fun pre hpre => hb (op :: pre) (List.cons_prefix_cons.mpr ⟨rfl, hpre⟩)
      simp only [execAll, hop, Option.bind_some, Option.isSome_map]
      exact hrest

/-- **`icb_dbm` is a finite map.** From an empty table, any sequence of calls during which there are
fewer than `2^28` entries runs to its end, answers exactly as the abstract map does, and leaves the
table representing that map, with `nentries` the number of its keys. -/
theorem dbm_refines_map (ops : List DbOp) (hb : Bounded ∅ ops) :
    ∃ db, execAll {} ops = some ((specAll ∅ ops).1, db) ∧
      (∀ k, dbmFetch db k = (specAll ∅ ops).2.lookup k) ∧
      db.nentries = (specAll ∅ ops).2.keys.card := by
  obtain ⟨⟨as, db⟩, he⟩ := Option.isSome_iff_exists.mp (execAll_isSome ops represents_empty hb)
  obtain ⟨has, hr⟩ := execAll_repr ops represents_empty he
  exact ⟨db, by rw [he, has], hr.find, hr.nentries_eq⟩

/-- A call adds at most one key. -/
theorem DbOp.card_spec_le (op : DbOp) (m : DbMap) : (op.spec m).2.keys.card ≤ m.keys.card + 1 := by
  have hinsert : ∀ k v, (m.insert k v).keys.card ≤ m.keys.card + 1 := by
    intro k v
    have hsub : (m.insert k v).keys ⊆ Insert.insert k m.keys := by
      intro x hx
      rw [Finmap.mem_keys, Finmap.mem_insert] at hx
      rw [Finset.mem_insert, Finmap.mem_keys]
      exact hx
    exact (Finset.card_le_card hsub).trans (Finset.card_insert_le _ _)
  cases op with
  | store k v flag =>
      simp only [DbOp.spec]
      split
      · exact Nat.le_succ _
      · exact hinsert k v
  | delete k =>
      simp only [DbOp.spec]
      split
      · rw [Finmap.keys_erase]
        exact (Finset.card_erase_le).trans (Nat.le_succ _)
      · exact Nat.le_succ _
  | fetch k => exact Nat.le_succ _

theorem card_specAll_le (ops : List DbOp) (m : DbMap) :
    (specAll m ops).2.keys.card ≤ m.keys.card + ops.length := by
  induction ops generalizing m with
  | nil => exact Nat.le_refl _
  | cons op ops ih =>
      have h₁ := op.card_spec_le m
      have h₂ := ih (op.spec m).2
      simp only [specAll, List.length_cons]
      omega

/-- So a run of fewer than `2^28` calls is within the bound. -/
theorem bounded_of_length {ops : List DbOp} (h : ops.length < 2 ^ 28) : Bounded ∅ ops := by
  intro pre hpre
  have hcard := card_specAll_le pre ∅
  have hlen := hpre.length_le
  have hzero : (∅ : DbMap).keys.card = 0 := by rw [Finmap.keys_empty, Finset.card_empty]
  omega

/-- A run with a refused insertion, an embedded NUL, an empty value and a failed deletion. -/
def sampleOps : List DbOp :=
  [.store [97, 0, 98] [1] .insert, .store [97, 0, 98] [2] .insert, .store [97, 0, 98] [] .replace,
    .fetch [97, 0, 98], .delete [97], .delete [97, 0, 98]]

theorem dbm_refines_map_sample :
    ∃ db, execAll {} sampleOps = some ((specAll ∅ sampleOps).1, db) ∧
      (∀ k, dbmFetch db k = (specAll ∅ sampleOps).2.lookup k) ∧
      db.nentries = (specAll ∅ sampleOps).2.keys.card :=
  dbm_refines_map sampleOps (bounded_of_length (by decide))

end Icbd.Dbm
