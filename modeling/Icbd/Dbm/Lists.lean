/-
# Icbd.Dbm.Lists — the lists of `icbdb.c`.

A list is kept under one attribute: `attr.max` holds the highest index and `attr.0`, `attr.1`, ... the
elements, with holes where elements were deleted. `icbdb_list_find` walks the indices and reports on the way
which hole an addition may use and which element lies last before the one it found.

An addition that meets a hole always goes to index 0, since `icbdb_list_find` sets `*first_empty = 0` where
the hole is at `*index`. The list is a set in every run that never adds while there is a hole and index 0 is
taken.
-/
import Icbd.Dbm.IcbDb
import Icbd.Decimal

namespace Icbd.Dbm

/-! ## §1 — the calls -/

/-- A call of the layer; it has no result when the process dies in it. -/
abbrev Call := StateT IcbDb Option

/-- A list of the database: its category and its attribute. -/
structure ListName where
  category : Option Bytes
  attr : Bytes

/-- The attribute of the element at an index. -/
def ListName.slotAttr (l : ListName) (i : Int) : Bytes := snprintf dblksiz (l.attr ++ str "." ++ decimal i)

/-- The attribute of the highest index. -/
def ListName.maxAttr (l : ListName) : Bytes := snprintf dblksiz (l.attr ++ str ".max")

/-- What `icbdb_list_find` reports. -/
structure Found where
  found : Bool
  index : Int
  maxIndex : Int
  firstEmpty : Int
  lastValid : Int
  deriving DecidableEq, Repr

section calls

variable (script : List (Option Nat)) (flush : FlushScript)

/-- `icbdb_open`. -/
def openCall : Call Bool := fun s => some (icbdbOpen script s)

/-- `icbdb_close`. -/
def closeCall : Call Unit := fun s => some ((), icbdbClose flush s)

/-- `icbdb_get` of a string. The value is copied into `databuf`; one that does not fit is written past
its end. -/
def icbdbGet (category : Option Bytes) (attr : Bytes) : Call (Option Bytes) := fun s =>
  match IcbDbOp.run script flush s (.get category attr) with
  | none => none
  | some (some (.datum (some v)), s) => if v.length < dblksiz then some (some v, s) else none
  | some (_, s) => some (none, s)

/-- `icbdb_set` of a string. -/
def icbdbSet (category : Option Bytes) (attr value : Bytes) : Call Unit := fun s =>
  (IcbDbOp.run script flush s (.set category attr value)).map fun r => ((), r.2)

/-- `icbdb_delete`. -/
def icbdbDelete (category : Option Bytes) (attr : Bytes) : Call Unit := fun s =>
  (IcbDbOp.run script flush s (.delete category attr)).map fun r => ((), r.2)

/-- The loop of `icbdb_list_find` over the indices up to the highest. A hole makes `first_empty` 0 if it
was not set. -/
def listFindLoop (l : ListName) (value : Bytes) (maxIndex : Int) :
    Nat → Int → Int → Int → Call Found
  | 0, index, firstEmpty, lastValid => pure ⟨false, index, maxIndex, firstEmpty, lastValid⟩
  | fuel + 1, index, firstEmpty, lastValid => do
      if index ≤ maxIndex then
        match ← icbdbGet script flush l.category (l.slotAttr index) with
        | none =>
            listFindLoop l value maxIndex fuel (index + 1) (if firstEmpty = -1 then 0 else firstEmpty)
              lastValid
        | some compare =>
            if compare = value then pure ⟨true, index, maxIndex, firstEmpty, lastValid⟩
            else listFindLoop l value maxIndex fuel (index + 1) firstEmpty index
      else pure ⟨false, index, maxIndex, firstEmpty, lastValid⟩

/-- `icbdb_list_find` for strings. -/
def icbdbListFind (l : ListName) (value : Bytes) : Call Found := do
  if ← openCall script then
    let stored ← icbdbGet script flush l.category l.maxAttr
    let maxIndex := (stored.map atoi).getD (-1)
    let r ← listFindLoop script flush l value maxIndex (maxIndex + 1).toNat 0 (-1) (-1)
    closeCall flush
    pure { r with firstEmpty := if r.firstEmpty = -1 then maxIndex + 1 else r.firstEmpty }
  else pure ⟨false, -1, -1, -1, -1⟩

/-- `icbdb_list_add` for strings. -/
def icbdbListAdd (l : ListName) (value : Bytes) : Call Unit := do
  if ← openCall script then
    let r ← icbdbListFind script flush l value
    if r.found then closeCall flush
    else
      icbdbSet script flush l.category (l.slotAttr r.firstEmpty) value
      if r.firstEmpty > r.maxIndex then
        icbdbSet script flush l.category l.maxAttr (decimal r.firstEmpty)
      closeCall flush
  else pure ()

/-- `icbdb_list_delete` for strings. -/
def icbdbListDelete (l : ListName) (value : Bytes) : Call Unit := do
  if ← openCall script then
    let r ← icbdbListFind script flush l value
    if r.found then
      icbdbDelete script flush l.category (l.slotAttr r.index)
      if r.index = r.maxIndex then
        if r.lastValid = -1 then icbdbDelete script flush l.category l.maxAttr
        else icbdbSet script flush l.category l.maxAttr (decimal r.lastValid)
      closeCall flush
    else closeCall flush
  else pure ()

end calls

/-! ## §2 — calls on the map -/

/-- From a state that holds `m` the call returns, with a value and in a state that holds a map that meet
the postcondition. -/
def Does {α : Type} (disk : Option Bytes) (m₀ m : DbMap) (f : Call α) (post : α → DbMap → Prop) : Prop :=
  ∀ s, Holds s disk m₀ m → ∃ a s' m', f s = some (a, s') ∧ Holds s' disk m₀ m' ∧ post a m'

section triples

variable {script : List (Option Nat)} {flush : FlushScript} {disk : Option Bytes} {m₀ m : DbMap}

theorem Does.pure {α : Type} {post : α → DbMap → Prop} {a : α} (h : post a m) :
    Does disk m₀ m (Pure.pure a : Call α) post :=
  fun s hs => ⟨a, s, m, rfl, hs, h⟩

theorem Does.bind {α β : Type} {f : Call α} {g : α → Call β} {mid : α → DbMap → Prop}
    {post : β → DbMap → Prop} (hf : Does disk m₀ m f mid)
    (hg : ∀ a m', mid a m' → Does disk m₀ m' (g a) post) : Does disk m₀ m (f >>= g) post := by
  intro s hs
  obtain ⟨a, s₁, m₁, hrun, hs₁, ha⟩ := hf s hs
  obtain ⟨b, s₂, m₂, hrun', hs₂, hb⟩ := hg a m₁ ha s₁ hs₁
  refine ⟨b, s₂, m₂, ?_, hs₂, hb⟩
  change (f s).bind (fun r => g r.1 r.2) = _
  rw [hrun]
  exact hrun'

theorem Does.mono {α : Type} {f : Call α} {mid post : α → DbMap → Prop} (hf : Does disk m₀ m f mid)
    (h : ∀ a m', mid a m' → post a m') : Does disk m₀ m f post := by
  intro s hs
  obtain ⟨a, s₁, m₁, hrun, hs₁, ha⟩ := hf s hs
  exact ⟨a, s₁, m₁, hrun, hs₁, h a m₁ ha⟩

variable (hload : LoadsTo disk m₀) (hq : quietScript script)

include hload hq in
theorem does_open : Does disk m₀ m (openCall script) fun b m' => b = true ∧ m' = m := by
  intro s hs
  obtain ⟨db, hopen, hr⟩ := hs.open_db hload hq
  exact ⟨true, _, m, congrArg some hopen, ⟨hs.single, hs.disk, Or.inr ⟨db, rfl, hr⟩⟩, rfl, rfl⟩

theorem does_close : Does disk m₀ m (closeCall flush) fun _ m' => m' = m := by
  intro s hs
  refine ⟨(), _, m, congrArg (fun s' => some ((), s')) hs.close_db, ?_, rfl⟩
  exact ⟨hs.single, hs.disk, hs.memory⟩

include hload hq in
/-- A value that fits the buffer is read as it is. -/
theorem does_get {category : Option Bytes} {attr : Bytes}
    (hshort : ∀ v, m.lookup (icbdbMakeKey category attr) = some v → v.length < dblksiz) :
    Does disk m₀ m (icbdbGet script flush category attr) fun r m' =>
      r = m.lookup (icbdbMakeKey category attr) ∧ m' = m := by
  intro s hs
  have hsome := IcbDbOp.run_isSome flush (.get category attr) hload hq hs fun _ _ => rfl
  obtain ⟨⟨a, s'⟩, hrun⟩ := Option.isSome_iff_exists.mp hsome
  obtain ⟨ha, -, hs'⟩ := IcbDbOp.run_holds _ hload hq hs hrun
  refine ⟨_, s', m, ?_, hs', rfl, rfl⟩
  simp only [icbdbGet, hrun, ha, IcbDbOp.toDbOp, DbOp.spec]
  cases hv : m.lookup (icbdbMakeKey category attr) with
  | none => rfl
  | some v => exact if_pos (hshort v hv)

include hload hq in
/-- A value is stored when its key is there already or the table has room. -/
theorem does_set {category : Option Bytes} {attr : Bytes} (value : Bytes)
    (hroom : icbdbMakeKey category attr ∈ m ∨ m.keys.card < 2 ^ 28) :
    Does disk m₀ m (icbdbSet script flush category attr value) fun _ m' =>
      m' = m.insert (icbdbMakeKey category attr) value := by
  intro s hs
  have hexec : ∀ db, Represents db m →
      ((IcbDbOp.set category attr value).toDbOp.exec db).isSome := by
    intro db hr
    rcases hroom with hmem | hroom
    · obtain ⟨v, hv⟩ := Option.isSome_iff_exists.mp (Finmap.lookup_isSome.mpr hmem)
      simp [IcbDbOp.toDbOp, DbOp.exec, dbmStore, hr.find, hv]
    · exact DbOp.exec_isSome _ hr hroom
  have hsome := IcbDbOp.run_isSome flush (.set category attr value) hload hq hs hexec
  obtain ⟨⟨a, s'⟩, hrun⟩ := Option.isSome_iff_exists.mp hsome
  obtain ⟨-, -, hs'⟩ := IcbDbOp.run_holds _ hload hq hs hrun
  refine ⟨(), s', _, ?_, hs', ?_⟩
  · simp only [icbdbSet, hrun, Option.map_some]
  · simp [IcbDbOp.toDbOp, DbOp.spec]

include hload hq in
theorem does_delete {category : Option Bytes} {attr : Bytes} :
    Does disk m₀ m (icbdbDelete script flush category attr) fun _ m' =>
      (∀ k, m'.lookup k = if k = icbdbMakeKey category attr then none else m.lookup k) ∧
      m'.keys.card ≤ m.keys.card := by
  intro s hs
  have hsome := IcbDbOp.run_isSome flush (.delete category attr) hload hq hs fun _ _ => rfl
  obtain ⟨⟨a, s'⟩, hrun⟩ := Option.isSome_iff_exists.mp hsome
  obtain ⟨-, -, hs'⟩ := IcbDbOp.run_holds _ hload hq hs hrun
  refine ⟨(), s', _, ?_, hs', fun k => ?_, ?_⟩
  · simp only [icbdbDelete, hrun, Option.map_some]
  · rw [IcbDbOp.lookup_spec]
    simp only [IcbDbOp.writes]
    split <;> rfl
  · simp only [IcbDbOp.toDbOp, DbOp.spec]
    split
    · rw [Finmap.keys_erase]
      exact Finset.card_erase_le
    · exact Nat.le_refl _

end triples

/-! ## §3 — the keys of a list -/

/-- Category and attribute, as they stand in a key. -/
def ListName.full (l : ListName) : Bytes :=
  match l.category with
  | none => l.attr
  | some category => category ++ str "." ++ l.attr

/-- The key of the element at an index. -/
def ListName.key (l : ListName) (i : Nat) : Bytes := icbdbMakeKey l.category (l.slotAttr i)

/-- The key of the highest index. -/
def ListName.maxKey (l : ListName) : Bytes := icbdbMakeKey l.category l.maxAttr

/-- The key with this ending fits the buffers it is put together in. -/
def ListName.Fits (l : ListName) (ending : Bytes) : Prop :=
  (l.full ++ str "." ++ ending).length < dblksiz

instance (l : ListName) (ending : Bytes) : Decidable (l.Fits ending) := Nat.decLt _ _

theorem ListName.makeKey_eq {l : ListName} {ending : Bytes} (h : l.Fits ending) :
    icbdbMakeKey l.category (snprintf dblksiz (l.attr ++ str "." ++ ending)) =
      lcaseit (l.full ++ str "." ++ ending) := by
  obtain ⟨category, attr⟩ := l
  unfold ListName.Fits at h
  cases category with
  | none =>
    simp only [ListName.full] at h ⊢
    simp only [icbdbMakeKey, snprintf]
    rw [List.take_take, Nat.min_self, List.take_of_length_le (by omega)]
  | some category =>
    simp only [ListName.full] at h ⊢
    simp only [icbdbMakeKey, snprintf]
    have hin : (attr ++ str "." ++ ending).length ≤ dblksiz - 1 := by
      simp only [List.length_append] at h ⊢
      omega
    rw [List.take_of_length_le hin, List.take_of_length_le (by simp only [List.length_append] at h ⊢; omega)]
    simp only [List.append_assoc]

/-- Digits are in lower case. -/
theorem lcaseit_digits (n : Nat) : lcaseit (digits n) = digits n := by
  have hlower : ∀ b ∈ digits n, lower b = id b := by
    intro b hb
    have hd := isDigit_digits n b hb
    simp only [isDigit, Bool.and_eq_true, decide_eq_true_eq, UInt8.le_iff_toNat_le,
      UInt8.reduceToNat] at hd
    refine if_neg fun h => ?_
    simp only [UInt8.le_iff_toNat_le, UInt8.reduceToNat] at h
    omega
  rw [lcaseit, List.map_congr_left hlower, List.map_id]

theorem ListName.key_eq {l : ListName} {i : Nat} (h : l.Fits (digits i)) :
    l.key i = lcaseit (l.full ++ str ".") ++ digits i := by
  rw [ListName.key, ListName.slotAttr, decimal_natCast, ListName.makeKey_eq h, lcaseit, List.map_append]
  exact congrArg _ (lcaseit_digits i)

theorem ListName.maxKey_eq {l : ListName} (h : l.Fits (str "max")) :
    l.maxKey = lcaseit (l.full ++ str ".") ++ str "max" := by
  have hattr : l.maxAttr = snprintf dblksiz (l.attr ++ str "." ++ str "max") := by
    rw [ListName.maxAttr, List.append_assoc]
    rfl
  rw [ListName.maxKey, hattr, ListName.makeKey_eq h, lcaseit, List.map_append]
  rfl

/-- Keys that fit are told apart. -/
theorem ListName.key_injective {l : ListName} {i j : Nat} (hi : l.Fits (digits i))
    (hj : l.Fits (digits j)) (h : l.key i = l.key j) : i = j := by
  rw [ListName.key_eq hi, ListName.key_eq hj] at h
  exact digits_injective (List.append_cancel_left h)

theorem ListName.key_ne_maxKey {l : ListName} {i : Nat} (hi : l.Fits (digits i))
    (hm : l.Fits (str "max")) : l.key i ≠ l.maxKey := by
  rw [ListName.key_eq hi, ListName.maxKey_eq hm]
  intro h
  have hd : (109 : UInt8) ∈ digits i := by
    rw [List.append_cancel_left h]
    decide
  exact absurd (isDigit_digits i _ hd) (by decide)

/-! ## §4 — a list in the map -/

/-- The element at an index. -/
def ListName.at (l : ListName) (m : DbMap) (i : Nat) : Option Bytes := m.lookup (l.key i)

/-- The map holds a list with indices below `n` whose elements are the set `vals`. -/
structure IsList (l : ListName) (m : DbMap) (n : Nat) (vals : Set Bytes) : Prop where
  top : m.lookup l.maxKey = if n = 0 then none else some (digits (n - 1))
  fits : ∀ i < n, l.Fits (digits i)
  fitsMax : n ≠ 0 → l.Fits (str "max")
  beyond : ∀ i, n ≤ i → l.Fits (digits i) → l.at m i = none
  small : n ≤ 2 ^ 28
  member : ∀ v, v ∈ vals ↔ ∃ i < n, l.at m i = some v
  distinct : ∀ i < n, ∀ j < n, ∀ v, l.at m i = some v → l.at m j = some v → i = j
  short : ∀ i < n, ∀ v, l.at m i = some v → v.length < dblksiz

/-- No list: neither a highest index nor an element. -/
def NoList (l : ListName) (m : DbMap) : Prop := m.lookup l.maxKey = none ∧ ∀ i, l.at m i = none

theorem NoList.isList {l : ListName} {m : DbMap} (h : NoList l m) : IsList l m 0 ∅ := by
  refine ⟨h.1, fun i hi => absurd hi (Nat.not_lt_zero i), fun h => absurd rfl h, fun i _ _ => h.2 i,
    Nat.zero_le _, fun v => ?_, fun i hi => absurd hi (Nat.not_lt_zero i),
    fun i hi => absurd hi (Nat.not_lt_zero i)⟩
  simp

/-- Whether there is a hole below an index. -/
def HoleBelow (l : ListName) (m : DbMap) (i : Nat) : Prop := ∃ j < i, l.at m j = none

instance (l : ListName) (m : DbMap) (i : Nat) : Decidable (HoleBelow l m i) :=
  inferInstanceAs (Decidable (∃ j < i, l.at m j = none))

/-- The last element below an index lies at `k`, -1 if there is none. -/
def LastBelow (l : ListName) (m : DbMap) (i : Nat) (k : Int) : Prop :=
  k = -1 ∧ (∀ j < i, l.at m j = none) ∨
  ∃ j < i, k = j ∧ (l.at m j).isSome ∧ ∀ j', j < j' → j' < i → l.at m j' = none

theorem holeBelow_succ {l : ListName} {m : DbMap} {i : Nat} :
    HoleBelow l m (i + 1) ↔ HoleBelow l m i ∨ l.at m i = none := by
  constructor
  · rintro ⟨j, hj, hnone⟩
    rcases Nat.lt_succ_iff_lt_or_eq.mp hj with hj | rfl
    · exact .inl ⟨j, hj, hnone⟩
    · exact .inr hnone
  · rintro (⟨j, hj, hnone⟩ | hnone)
    · exact ⟨j, Nat.lt_succ_of_lt hj, hnone⟩
    · exact ⟨i, Nat.lt_succ_self i, hnone⟩

theorem LastBelow.succ_hole {l : ListName} {m : DbMap} {i : Nat} {k : Int} (h : LastBelow l m i k)
    (hnone : l.at m i = none) : LastBelow l m (i + 1) k := by
  rcases h with ⟨hk, hall⟩ | ⟨j, hj, hk, hsome, hgap⟩
  · refine .inl ⟨hk, fun j hj => ?_⟩
    rcases Nat.lt_succ_iff_lt_or_eq.mp hj with hj | rfl
    · exact hall j hj
    · exact hnone
  · refine .inr ⟨j, Nat.lt_succ_of_lt hj, hk, hsome, fun j' h₁ h₂ => ?_⟩
    rcases Nat.lt_succ_iff_lt_or_eq.mp h₂ with h₂ | rfl
    · exact hgap j' h₁ h₂
    · exact hnone

theorem lastBelow_succ {l : ListName} {m : DbMap} {i : Nat} (h : (l.at m i).isSome) :
    LastBelow l m (i + 1) i :=
  .inr ⟨i, Nat.lt_succ_self i, rfl, h, fun j h₁ h₂ => absurd h₂ (by omega)⟩

/-- What `icbdb_list_find` reports about a list: where the value is and which element lies last before it,
or that it is nowhere, with index 0 as the place for it as soon as there is a hole and `fresh` otherwise. -/
def Reports (l : ListName) (m : DbMap) (n : Nat) (value : Bytes) (fresh : Int) (r : Found) : Prop :=
  r.maxIndex = (n : Int) - 1 ∧
  (r.found = true ∧ (∃ i < n, r.index = i ∧ l.at m i = some value ∧ LastBelow l m i r.lastValid) ∨
    r.found = false ∧ (∀ i < n, l.at m i ≠ some value) ∧
      r.firstEmpty = if HoleBelow l m n then 0 else fresh)

section find

variable {script : List (Option Nat)} {flush : FlushScript} {disk : Option Bytes} {m₀ m : DbMap}
variable (hload : LoadsTo disk m₀) (hq : quietScript script)

include hload hq in
/-- The loop from index `i` on, when the value is at none of the indices before. -/
theorem does_listFindLoop {l : ListName} {n : Nat} {vals : Set Bytes} (hlist : IsList l m n vals)
    (value : Bytes) (fuel i : Nat) (firstEmpty lastValid : Int) (hi : i ≤ n) (hfuel : n = i + fuel)
    (hnot : ∀ j < i, l.at m j ≠ some value)
    (hempty : firstEmpty = if HoleBelow l m i then 0 else -1) (hlast : LastBelow l m i lastValid) :
    Does disk m₀ m (listFindLoop script flush l value ((n : Int) - 1) fuel i firstEmpty lastValid)
      fun r m' => m' = m ∧ Reports l m n value (-1) r := by
  induction fuel generalizing i firstEmpty lastValid with
  | zero =>
    obtain rfl : n = i := hfuel
    exact Does.pure ⟨rfl, rfl, .inr ⟨rfl, hnot, hempty⟩⟩
  | succ fuel ih =>
    have hlt : i < n := by omega
    have hle : (i : Int) ≤ (n : Int) - 1 := by omega
    simp only [listFindLoop, if_pos hle]
    refine (does_get hload hq (hlist.short i hlt)).bind ?_
    rintro r m' ⟨rfl, rfl⟩
    have hcast : ((i + 1 : Nat) : Int) = (i : Int) + 1 := by omega
    cases hat : l.at m' i with
    | none =>
      rw [show m'.lookup (icbdbMakeKey l.category (l.slotAttr i)) = none from hat]
      have hhole : HoleBelow l m' (i + 1) := holeBelow_succ.mpr (.inr hat)
      have hnext := ih (i + 1) 0 lastValid hlt (by omega) ?_ (by rw [if_pos hhole]) (hlast.succ_hole hat)
      · have hset : (if firstEmpty = -1 then 0 else firstEmpty) = 0 := by
          rw [hempty]
          split_ifs <;> simp_all
        rw [hcast] at hnext
        simpa only [hset] using hnext
      · intro j hj
        rcases Nat.lt_succ_iff_lt_or_eq.mp hj with hj | rfl
        · exact hnot j hj
        · simp [hat]
    | some compare =>
      rw [show m'.lookup (icbdbMakeKey l.category (l.slotAttr i)) = some compare from hat]
      by_cases hv : compare = value
      · simp only [if_pos hv]
        exact Does.pure ⟨rfl, rfl, .inl ⟨rfl, i, hlt, rfl, by rw [hat, hv], hlast⟩⟩
      · simp only [if_neg hv]
        have hnext := ih (i + 1) firstEmpty i hlt (by omega) ?_ ?_ (lastBelow_succ (by rw [hat]; rfl))
        · rw [hcast] at hnext
          exact hnext
        · intro j hj
          rcases Nat.lt_succ_iff_lt_or_eq.mp hj with hj | rfl
          · exact hnot j hj
          · rw [hat]
            exact fun h => hv (Option.some.inj h)
        · rw [hempty]
          refine if_congr ?_ rfl rfl
          rw [holeBelow_succ, hat]
          simp

include hload hq in
theorem does_listFind {l : ListName} {n : Nat} {vals : Set Bytes} (hlist : IsList l m n vals)
    (value : Bytes) :
    Does disk m₀ m (icbdbListFind script flush l value) fun r m' => m' = m ∧ Reports l m n value n r := by
  refine (does_open hload hq).bind ?_
  rintro b m' ⟨rfl, rfl⟩
  simp only [if_true]
  have hshort : ∀ v, m'.lookup l.maxKey = some v → v.length < dblksiz := by
    intro v hv
    have hsmall := hlist.small
    rw [hlist.top] at hv
    split at hv
    · cases hv
    · obtain rfl := Option.some.inj hv
      exact Nat.lt_of_le_of_lt (digits_length_le (k := 10) (by decide) (by omega)) (by decide)
  refine (does_get hload hq hshort).bind ?_
  rintro stored m₁ ⟨rfl, rfl⟩
  have hmax : ((m₁.lookup l.maxKey).map atoi).getD (-1) = (n : Int) - 1 := by
    rw [hlist.top]
    split
    · subst n
      rfl
    · have := hlist.small
      rw [Option.map_some, Option.getD_some, ← decimal_natCast, atoi_decimal (by omega) (by omega)]
      omega
  simp only [ListName.maxKey] at hmax
  rw [hmax, show ((n : Int) - 1 + 1).toNat = n by omega]
  refine (does_listFindLoop hload hq hlist value n 0 (-1) (-1) (Nat.zero_le n) (by omega)
    (fun j hj => absurd hj (Nat.not_lt_zero j)) ?_
    (.inl ⟨rfl, fun j hj => absurd hj (Nat.not_lt_zero j)⟩)).bind ?_
  · rw [if_neg]
    rintro ⟨j, hj, -⟩
    exact absurd hj (Nat.not_lt_zero j)
  rintro r m₂ ⟨rfl, htop, hcase⟩
  refine does_close.bind ?_
  rintro _ m₃ rfl
  refine Does.pure ⟨rfl, htop, ?_⟩
  rcases hcase with hfound | ⟨hno, hnot, hempty⟩
  · exact .inl hfound
  · refine .inr ⟨hno, hnot, ?_⟩
    by_cases hhole : HoleBelow l m₃ n
    · simp [hempty, hhole]
    · simp [hempty, hhole]

end find

/-! ## §5 — how a list changes -/

/-- A value that is not in the list is put into an empty index, or behind the last one. -/
theorem IsList.put {l : ListName} {m m' : DbMap} {n k : Nat} {vals : Set Bytes} {value : Bytes}
    (h : IsList l m n vals) (hk : k ≤ n) (hfits : l.Fits (digits k)) (hmax : l.Fits (str "max"))
    (hempty : l.at m k = none) (hnew : ∀ i < n, l.at m i ≠ some value)
    (hshort : value.length < dblksiz) (hsmall : max n (k + 1) ≤ 2 ^ 28)
    (hat : ∀ i, l.Fits (digits i) → l.at m' i = if i = k then some value else l.at m i)
    (htop : m'.lookup l.maxKey = some (digits (max n (k + 1) - 1))) :
    IsList l m' (max n (k + 1)) (insert value vals) := by
  have hfits' : ∀ i < max n (k + 1), l.Fits (digits i) := by
    intro i hi
    by_cases hik : i = k
    · rw [hik]
      exact hfits
    · exact h.fits i (by omega)
  have hself : l.at m' k = some value := by rw [hat k hfits, if_pos rfl]
  have hold : ∀ i < max n (k + 1), i ≠ k → l.at m' i = l.at m i := fun i hi hik => by
    rw [hat i (hfits' i hi), if_neg hik]
  refine ⟨?_, hfits', fun _ => hmax, fun i hi hf => ?_, hsmall, fun v => ?_, fun i hi j hj v hvi hvj => ?_,
    fun i hi v hv => ?_⟩
  · rw [htop, if_neg (by omega)]
  · rw [hat i hf, if_neg (by omega)]
    exact h.beyond i (by omega) hf
  · rw [Set.mem_insert_iff, h.member v]
    constructor
    · rintro (rfl | ⟨i, hi, hv⟩)
      · exact ⟨k, by omega, hself⟩
      · have hik : i ≠ k := by
          rintro rfl
          rw [hempty] at hv
          cases hv
        exact ⟨i, by omega, (hold i (by omega) hik).trans hv⟩
    · rintro ⟨i, hi, hv⟩
      by_cases hik : i = k
      · rw [hik, hself] at hv
        exact .inl (Option.some.inj hv).symm
      · exact .inr ⟨i, by omega, (hold i hi hik).symm.trans hv⟩
  · by_cases hik : i = k <;> by_cases hjk : j = k
    · rw [hik, hjk]
    · rw [hik, hself] at hvi
      rw [hold j hj hjk] at hvj
      exact absurd (hvj.trans hvi.symm) (hnew j (by omega))
    · rw [hjk, hself] at hvj
      rw [hold i hi hik] at hvi
      exact absurd (hvi.trans hvj.symm) (hnew i (by omega))
    · rw [hold i hi hik] at hvi
      rw [hold j hj hjk] at hvj
      exact h.distinct i (by omega) j (by omega) v hvi hvj
  · by_cases hik : i = k
    · rw [hik, hself] at hv
      obtain rfl := Option.some.inj hv
      exact hshort
    · rw [hold i hi hik] at hv
      exact h.short i (by omega) v hv

/-- The value at an index is taken out, and the list is cut behind an index if only holes are there. -/
theorem IsList.remove {l : ListName} {m m' : DbMap} {n n' k : Nat} {vals : Set Bytes} {value : Bytes}
    (h : IsList l m n vals) (hk : k < n) (hval : l.at m k = some value) (hn' : n' ≤ n)
    (hat : ∀ i, l.Fits (digits i) → l.at m' i = if i = k then none else l.at m i)
    (hcut : ∀ i, n' ≤ i → i < n → l.at m' i = none)
    (htop : m'.lookup l.maxKey = if n' = 0 then none else some (digits (n' - 1))) :
    IsList l m' n' (vals \ {value}) := by
  have hkeep {i : Nat} (hi : i < n) {v : Bytes} (hv : l.at m' i = some v) : i ≠ k ∧ l.at m i = some v := by
    rw [hat i (h.fits i hi)] at hv
    split at hv
    · cases hv
    · exact ⟨‹_›, hv⟩
  refine ⟨htop, fun i hi => h.fits i (by omega), fun _ => h.fitsMax (by omega), fun i hi hf => ?_,
    Nat.le_trans hn' h.small, fun v => ?_, fun i hi j hj v hvi hvj => ?_, fun i hi v hv => ?_⟩
  · rcases Nat.lt_or_ge i n with hlt | hge
    · exact hcut i hi hlt
    · rw [hat i hf, if_neg (by omega)]
      exact h.beyond i hge hf
  · rw [Set.mem_sdiff, Set.mem_singleton_iff, h.member v]
    constructor
    · rintro ⟨⟨i, hi, hv⟩, hne⟩
      have hik : i ≠ k := by
        rintro rfl
        exact hne (Option.some.inj (hv.symm.trans hval))
      have hv' : l.at m' i = some v := by rw [hat i (h.fits i hi), if_neg hik, hv]
      refine ⟨i, ?_, hv'⟩
      by_contra hge
      rw [hcut i (by omega) hi] at hv'
      cases hv'
    · rintro ⟨i, hi, hv⟩
      obtain ⟨hik, hv⟩ := hkeep (by omega) hv
      refine ⟨⟨i, by omega, hv⟩, ?_⟩
      rintro rfl
      exact hik (h.distinct i (by omega) k hk v hv hval)
  · exact h.distinct i (by omega) j (by omega) v (hkeep (by omega) hvi).2 (hkeep (by omega) hvj).2
  · exact h.short i (by omega) v (hkeep (by omega) hv).2

/-! ## §6 — the set -/

/-- A call on a list. -/
inductive ListOp
  | add (value : Bytes)
  | delete (value : Bytes)

/-- The code of a call. -/
def ListOp.call (script : List (Option Nat)) (flush : FlushScript) (l : ListName) : ListOp → Call Unit
  | .add value => icbdbListAdd script flush l value
  | .delete value => icbdbListDelete script flush l value

/-- What a call means for the set of the values that were added and not deleted since. -/
def ListOp.onSet (vals : Set Bytes) : ListOp → Set Bytes
  | .add value => insert value vals
  | .delete value => vals \ {value}

/-- How many indices the stored maximum spans. -/
def ListName.size (l : ListName) (m : DbMap) : Nat :=
  match m.lookup l.maxKey with
  | none => 0
  | some top => (atoi top + 1).toNat

/-- What an addition needs: a value that fits the buffer it is read into, room in the table, and for a value
that is not in the list either no hole and keys that fit, or index 0 for the hole. -/
def ListOp.Meets (l : ListName) (m : DbMap) : ListOp → Prop
  | .add value =>
      value.length < dblksiz ∧ m.keys.card + 1 < 2 ^ 28 ∧
      ((∃ i < l.size m, l.at m i = some value) ∨
        (¬ HoleBelow l m (l.size m) ∧ l.Fits (digits (l.size m)) ∧ l.Fits (str "max")) ∨
        (0 < l.size m ∧ l.at m 0 = none))
  | .delete _ => True

theorem IsList.size_eq {l : ListName} {m : DbMap} {n : Nat} {vals : Set Bytes} (h : IsList l m n vals) :
    l.size m = n := by
  have hsmall := h.small
  unfold ListName.size
  rw [h.top]
  by_cases hn : n = 0
  · rw [if_pos hn, hn]
  · rw [if_neg hn]
    simp only
    rw [← decimal_natCast, atoi_decimal (by omega) (by omega)]
    omega

/-- A list without holes has as many keys in the map. -/
theorem IsList.le_card {l : ListName} {m : DbMap} {n : Nat} {vals : Set Bytes} (h : IsList l m n vals)
    (hfull : ¬ HoleBelow l m n) : n ≤ m.keys.card := by
  have hmaps : ∀ i ∈ Finset.range n, l.key i ∈ m.keys := by
    intro i hi
    rw [Finmap.mem_keys]
    by_contra hout
    exact hfull ⟨i, Finset.mem_range.mp hi, Finmap.lookup_eq_none.mpr hout⟩
  have hinj : Set.InjOn l.key (Finset.range n : Set Nat) := by
    intro i hi j hj heq
    rw [Finset.coe_range, Set.mem_Iio] at hi hj
    exact ListName.key_injective (h.fits i hi) (h.fits j hj) heq
  calc n = (Finset.range n).card := (Finset.card_range n).symm
    _ ≤ m.keys.card := Finset.card_le_card_of_injOn l.key hmaps hinj

section calls

variable {script : List (Option Nat)} {flush : FlushScript} {disk : Option Bytes} {m₀ m : DbMap}
variable (hload : LoadsTo disk m₀) (hq : quietScript script)

include hload hq in
theorem does_listAdd {l : ListName} {n : Nat} {vals : Set Bytes} {value : Bytes}
    (hlist : IsList l m n vals) (hmeets : (ListOp.add value).Meets l m) :
    Does disk m₀ m (icbdbListAdd script flush l value) fun _ m' =>
      ∃ n', IsList l m' n' (insert value vals) := by
  obtain ⟨hshort, hroom, hcase⟩ := hmeets
  rw [hlist.size_eq] at hcase
  refine (does_open hload hq).bind ?_
  rintro b m' ⟨rfl, rfl⟩
  simp only [if_true]
  refine (does_listFind hload hq hlist value).bind ?_
  rintro r m₁ ⟨rfl, htop, ⟨hfound, i, hi, -, hv, -⟩ | ⟨hno, hnot, hempty⟩⟩
  · rw [if_pos hfound]
    refine does_close.mono ?_
    rintro _ m₂ rfl
    refine ⟨n, ?_⟩
    rwa [Set.insert_eq_of_mem ((hlist.member value).mpr ⟨i, hi, hv⟩)]
  rw [if_neg (by simp [hno])]
  -- where the value goes: behind the last element, or to index 0
  obtain ⟨k, hk, hfits, hmax, hnone, hsmall⟩ : ∃ k : Nat, r.firstEmpty = k ∧ l.Fits (digits k) ∧
      l.Fits (str "max") ∧ l.at m₁ k = none ∧ (k = n ∧ n + 1 ≤ 2 ^ 28 ∨ k < n) := by
    rcases hcase with ⟨i, hi, hv⟩ | ⟨hfull, hfits, hmax⟩ | ⟨hpos, hzero⟩
    · exact absurd hv (hnot i hi)
    · have hcard := hlist.le_card hfull
      exact ⟨n, by rw [hempty, if_neg hfull], hfits, hmax, hlist.beyond n (Nat.le_refl n) hfits,
        .inl ⟨rfl, by omega⟩⟩
    · exact ⟨0, by rw [hempty, if_pos ⟨0, hpos, hzero⟩]; rfl, hlist.fits 0 hpos, hlist.fitsMax (by omega),
        hzero, .inr hpos⟩
  rw [hk, htop]
  have hkey {i : Nat} (hf : l.Fits (digits i)) (hik : i ≠ k) : l.key i ≠ l.key k :=
    fun heq => hik (ListName.key_injective hf hfits heq)
  have hsmall' := hlist.small
  refine (does_set hload hq value (.inr (by omega))).bind ?_
  rintro _ m₂ rfl
  have hat (m' : DbMap) (hm' : ∀ i, l.Fits (digits i) →
      l.at m' i = l.at (m₁.insert (l.key k) value) i) :
      ∀ i, l.Fits (digits i) → l.at m' i = if i = k then some value else l.at m₁ i := by
    intro i hf
    rw [hm' i hf]
    split
    · subst i
      exact Finmap.lookup_insert m₁
    · exact Finmap.lookup_insert_of_ne m₁ (hkey hf ‹_›)
  rcases hsmall with ⟨rfl, hlast⟩ | hlt
  · rw [if_pos (by omega)]
    have hcard : (m₁.insert (l.key k) value).keys.card < 2 ^ 28 := by
      have := (DbOp.store (l.key k) value .replace).card_spec_le m₁
      simp only [DbOp.spec, reduceCtorEq, and_false, if_false] at this
      omega
    refine (does_set hload hq (decimal k) (.inr hcard)).bind ?_
    rintro _ m₃ rfl
    refine does_close.mono ?_
    rintro _ m₄ rfl
    refine ⟨_, hlist.put (Nat.le_refl k) hfits hmax hnone hnot hshort (by omega)
      (hat _ fun i hf => ?_) ?_⟩
    · exact Finmap.lookup_insert_of_ne _ (ListName.key_ne_maxKey hf hmax)
    · rw [show max k (k + 1) - 1 = k by omega, ← decimal_natCast]
      exact Finmap.lookup_insert _
  · rw [if_neg (by omega)]
    refine does_close.mono ?_
    rintro _ m₃ rfl
    refine ⟨_, hlist.put (Nat.le_of_lt hlt) hfits hmax hnone hnot hshort (by omega)
      (hat _ fun i hf => rfl) ?_⟩
    rw [show max n (k + 1) - 1 = n - 1 by omega]
    have hother : l.maxKey ≠ l.key k := (ListName.key_ne_maxKey hfits hmax).symm
    rw [show m₁.insert (icbdbMakeKey l.category (l.slotAttr k)) value = m₁.insert (l.key k) value from rfl,
      Finmap.lookup_insert_of_ne m₁ hother, hlist.top, if_neg (by omega)]

include hload hq in
theorem does_listDelete {l : ListName} {n : Nat} {vals : Set Bytes} {value : Bytes}
    (hlist : IsList l m n vals) :
    Does disk m₀ m (icbdbListDelete script flush l value) fun _ m' =>
      ∃ n', IsList l m' n' (vals \ {value}) := by
  refine (does_open hload hq).bind ?_
  rintro b m' ⟨rfl, rfl⟩
  simp only [if_true]
  refine (does_listFind hload hq hlist value).bind ?_
  rintro r m₁ ⟨rfl, htop, ⟨hfound, k, hk, hindex, hv, hlast⟩ | ⟨hno, hnot, -⟩⟩
  · rw [if_pos hfound, hindex, htop]
    refine (does_delete hload hq).bind ?_
    rintro _ m₂ ⟨hlook, -⟩
    have hfits := hlist.fits k hk
    have hmax := hlist.fitsMax (by omega)
    have hat : ∀ i, l.Fits (digits i) → l.at m₂ i = if i = k then none else l.at m₁ i := by
      intro i hf
      by_cases hik : i = k
      · subst hik
        rw [if_pos rfl]
        exact (hlook _).trans (if_pos rfl)
      · rw [if_neg hik]
        exact (hlook _).trans (if_neg fun heq => hik (ListName.key_injective hf hfits heq))
    have hold : m₂.lookup l.maxKey = some (digits (n - 1)) := by
      refine (hlook _).trans ((if_neg (ListName.key_ne_maxKey hfits hmax).symm).trans ?_)
      rw [hlist.top, if_neg (by omega)]
    by_cases hlastIndex : (k : Int) = (n : Int) - 1
    · rw [if_pos hlastIndex]
      rcases hlast with ⟨hnone, hall⟩ | ⟨j, hj, hvalid, -, hgap⟩
      · -- no element is left: the list is deleted
        rw [if_pos hnone]
        refine (does_delete hload hq).bind ?_
        rintro _ m₃ ⟨hlook', -⟩
        refine does_close.mono ?_
        rintro _ m₄ rfl
        have hat' : ∀ i, l.Fits (digits i) → l.at m₄ i = l.at m₂ i := fun i hf =>
          (hlook' _).trans (if_neg (ListName.key_ne_maxKey hf hmax))
        refine ⟨0, hlist.remove hk hv (Nat.zero_le n) (fun i hf => (hat' i hf).trans (hat i hf))
          (fun i _ hi => ?_) ((hlook' _).trans (if_pos rfl))⟩
        rw [hat' i (hlist.fits i hi), hat i (hlist.fits i hi)]
        split
        · rfl
        · exact hall i (by omega)
      · -- the last element before it becomes the highest
        rw [if_neg (by omega), hvalid]
        have hmem : l.maxKey ∈ m₂ := Finmap.mem_of_lookup_eq_some hold
        refine (does_set hload hq (decimal j) (.inl hmem)).bind ?_
        rintro _ m₃ rfl
        refine does_close.mono ?_
        rintro _ m₄ rfl
        have hat' : ∀ i, l.Fits (digits i) →
            l.at (m₂.insert l.maxKey (decimal j)) i = l.at m₂ i := fun i hf =>
          Finmap.lookup_insert_of_ne _ (ListName.key_ne_maxKey hf hmax)
        refine ⟨j + 1, hlist.remove hk hv (by omega) (fun i hf => (hat' i hf).trans (hat i hf))
          (fun i h₁ h₂ => ?_) ?_⟩
        · refine (hat' i (hlist.fits i h₂)).trans ?_
          rw [hat i (hlist.fits i h₂)]
          split
          · rfl
          · exact hgap i (by omega) (by omega)
        · rw [if_neg (by omega), ← decimal_natCast]
          exact Finmap.lookup_insert _
    · rw [if_neg hlastIndex]
      refine does_close.mono ?_
      rintro _ m₃ rfl
      refine ⟨n, hlist.remove hk hv (Nat.le_refl n) hat (fun i h₁ h₂ => absurd h₂ (by omega)) ?_⟩
      rw [hold, if_neg (by omega)]
  · rw [if_neg (by simp [hno])]
    refine does_close.mono ?_
    rintro _ m₂ rfl
    refine ⟨n, ?_⟩
    have hout : value ∉ vals := by
      rw [hlist.member]
      rintro ⟨i, hi, hv⟩
      exact hnot i hi hv
    rwa [Set.sdiff_singleton_eq_self hout]

include hload hq in
/-- **One call.** -/
theorem ListOp.does {l : ListName} {n : Nat} {vals : Set Bytes} (op : ListOp)
    (hlist : IsList l m n vals) (hmeets : op.Meets l m) :
    Does disk m₀ m (op.call script flush l) fun _ m' => ∃ n', IsList l m' n' (op.onSet vals) := by
  cases op with
  | add value => exact does_listAdd hload hq hlist hmeets
  | delete value => exact does_listDelete hload hq hlist

end calls

/-- A run of calls on a list. -/
def runList (script : List (Option Nat)) (flush : FlushScript) (l : ListName) : List ListOp → Call Unit
  | [] => pure ()
  | op :: ops => do
      op.call script flush l
      runList script flush l ops

/-- Every call of a run finds in its state what it needs. -/
def MeetsAll (script : List (Option Nat)) (flush : FlushScript) (disk : Option Bytes) (m₀ : DbMap)
    (l : ListName) (s : IcbDb) : List ListOp → Prop
  | [] => True
  | op :: ops => (∀ m, Holds s disk m₀ m → op.Meets l m) ∧
      ∀ s', op.call script flush l s = some ((), s') → MeetsAll script flush disk m₀ l s' ops

/-- Every call of a run returns, and leaves the list that stands for the set. -/
theorem runList_isList {script : List (Option Nat)} {flush : FlushScript} {disk : Option Bytes}
    {m₀ m : DbMap} {l : ListName} {s : IcbDb} {n : Nat} {vals : Set Bytes} (ops : List ListOp)
    (hload : LoadsTo disk m₀) (hq : quietScript script) (hs : Holds s disk m₀ m)
    (hlist : IsList l m n vals) (hmeets : MeetsAll script flush disk m₀ l s ops) :
    ∃ s' m' n', runList script flush l ops s = some ((), s') ∧ Holds s' disk m₀ m' ∧
      IsList l m' n' (ops.foldl ListOp.onSet vals) := by
  induction ops generalizing s m n vals with
  | nil => exact ⟨s, m, n, rfl, hs, hlist⟩
  | cons op ops ih =>
    obtain ⟨hop, hrest⟩ := hmeets
    obtain ⟨⟨⟩, s₁, m₁, hrun, hs₁, n₁, hlist₁⟩ := op.does hload hq hlist (hop m hs) s hs
    obtain ⟨s', m', n', hrun', hs', hlist'⟩ := ih hs₁ hlist₁ (hrest s₁ hrun)
    refine ⟨s', m', n', ?_, hs', hlist'⟩
    change (op.call script flush l s).bind (fun r => runList script flush l ops r.2) = _
    rw [hrun]
    exact hrun'

/-- **When a list is a set.** From no list, a run of additions and deletions whose additions never meet a
hole while index 0 is taken returns, and `icbdb_list_find` then finds exactly the values that were added and
not deleted since. -/
theorem list_refines_set {script : List (Option Nat)} {flush : FlushScript} {disk : Option Bytes}
    {m₀ m : DbMap} {l : ListName} {s : IcbDb} (ops : List ListOp) (hload : LoadsTo disk m₀)
    (hq : quietScript script) (hs : Holds s disk m₀ m) (hnone : NoList l m)
    (hmeets : MeetsAll script flush disk m₀ l s ops) :
    ∃ s', runList script flush l ops s = some ((), s') ∧
      ∀ value, ∃ r s'', icbdbListFind script flush l value s' = some (r, s'') ∧
        (r.found = true ↔ value ∈ ops.foldl ListOp.onSet ∅) := by
  obtain ⟨s', m', n', hrun, hs', hlist⟩ := runList_isList ops hload hq hs hnone.isList hmeets
  refine ⟨s', hrun, fun value => ?_⟩
  have hdoes : Does disk m₀ m' (icbdbListFind script flush l value) fun r m'' =>
      m'' = m' ∧ Reports l m' n' value n' r := does_listFind hload hq hlist value
  obtain ⟨r, s'', m'', hfind, -, -, -, hreport⟩ := hdoes s' hs'
  refine ⟨r, s'', hfind, ?_⟩
  rw [hlist.member]
  rcases hreport with ⟨hfound, i, hi, -, hv, -⟩ | ⟨hno, hnot, -⟩
  · exact ⟨fun _ => ⟨i, hi, hv⟩, fun _ => hfound⟩
  · rw [hno]
    refine ⟨fun h => absurd h (by decide), ?_⟩
    rintro ⟨i, hi, hv⟩
    exact absurd hv (hnot i hi)

/-- The list of the tests below. -/
def friends : ListName := ⟨some (str "al"), str "friends"⟩

/-- Three values are added, the second is deleted, a fourth is added: it lands on the first, which is then
not found. -/
theorem add_overwrites_first :
    ¬ ∀ (disk : Option Bytes) (m₀ : DbMap) (l : ListName) (ops : List ListOp), LoadsTo disk m₀ →
      NoList l m₀ → ∃ s', runList [] {} l ops { disk := disk } = some ((), s') ∧
        ∀ value, ∃ r s'', icbdbListFind [] {} l value s' = some (r, s'') ∧
          (r.found = true ↔ value ∈ ops.foldl ListOp.onSet ∅) := by
  intro h
  let ops : List ListOp := [.add (str "a"), .add (str "b"), .add (str "c"), .delete (str "b"), .add (str "d")]
  obtain ⟨s', hrun, hall⟩ := h none ∅ friends ops loadsTo_none ⟨rfl, fun _ => rfl⟩
  obtain ⟨r, s'', hfind, hiff⟩ := hall (str "a")
  have hrun' : ((runList [] {} friends ops { disk := none }).bind fun r =>
      (icbdbListFind [] {} friends (str "a") r.2).map fun r => r.1.found) = some false := by
    decide +kernel
  rw [hrun] at hrun'
  simp only [Option.bind_some, hfind, Option.map_some, Option.some.injEq] at hrun'
  have hin : str "a" ∈ ops.foldl ListOp.onSet ∅ := by
    refine .inr ⟨.inr (.inr (.inl rfl)), ?_⟩
    decide
  rw [hiff.mpr hin] at hrun'
  cases hrun'

/-- One value added to an empty database and deleted again. -/
theorem list_refines_set_undone :
    ∃ s', runList [] {} friends [.add (str "a"), .delete (str "a")] {} = some ((), s') ∧
      ∀ value, ∃ r s'', icbdbListFind [] {} friends value s' = some (r, s'') ∧
        (r.found = true ↔ value ∈ [ListOp.add (str "a"), .delete (str "a")].foldl ListOp.onSet ∅) := by
  have hstart : Holds {} none ∅ ∅ := ⟨rfl, rfl, Or.inl ⟨rfl, rfl⟩⟩
  refine list_refines_set _ loadsTo_none List.not_mem_nil hstart ⟨rfl, fun _ => rfl⟩ ⟨fun m hm => ?_, ?_⟩
  · obtain rfl : m = ∅ := by
      rcases hm.memory with ⟨-, h⟩ | ⟨db, h, -⟩
      · exact h
      · cases h
    refine ⟨by decide, by simp, .inr (.inl ⟨?_, by decide, by decide⟩)⟩
    rintro ⟨j, hj, -⟩
    exact absurd hj (Nat.not_lt_zero j)
  · intro s' _
    exact ⟨fun _ _ => trivial, fun _ _ => trivial⟩

end Icbd.Dbm
