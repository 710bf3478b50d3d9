/-
# Icbd.Dbm.NameLists — name lists in the database: `icbdb_list_load`, `_save` and `_clear`.

Clearing takes away the stored maximum and every index up to it. Saving goes round the name list and adds
what it finds; into a cleared list every name goes behind the last one, so the elements are dense. Loading
puts them on a name list in the order of their indices, which turns that order around. What can go wrong is
in the keys: they are cut to the buffers they are put together in, and two that are cut may be one.
-/
import Icbd.Dbm.Lists
import Icbd.NameList

namespace Icbd.Dbm

/-! ## §1 — the calls -/

section calls

variable (script : List (Option Nat)) (flush : FlushScript)

/-- How often `for (index = 0; index <= max_index; index++)` goes round. The index cannot get past the
largest `int`. -/
def rounds (maxIndex : Int) : Call Nat := fun s =>
  if maxIndex < 2 ^ 31 - 1 then some ((maxIndex + 1).toNat, s) else none

/-- The loop of `icbdb_list_load`. -/
def listLoadLoop (l : ListName) : Nat → Nat → NamList → Call NamList
  | 0, _, nl => pure nl
  | n + 1, index, nl => do
      match ← icbdbGet script flush l.category (l.slotAttr index) with
      | some value => listLoadLoop l n (index + 1) (nlput nl value)
      | none => listLoadLoop l n (index + 1) nl

/-- `icbdb_list_load`. -/
def icbdbListLoad (l : ListName) (nl : NamList) : Call NamList := do
  if ← openCall script then
    let stored ← icbdbGet script flush l.category l.maxAttr
    let maxIndex := (stored.map atoi).getD (-1)
    let n ← rounds maxIndex
    let nl ← listLoadLoop script flush l n 0 nl
    closeCall flush
    pure nl
  else pure nl

/-- The loop of `icbdb_list_save`: as often as there are names. -/
def listSaveLoop (l : ListName) : Nat → NamList → Call NamList
  | 0, nl => pure nl
  | n + 1, nl => do
      let cp := (nlget nl).1
      if cp ≠ [] then icbdbListAdd script flush l cp
      listSaveLoop l n (nlget nl).2

/-- `icbdb_list_save`: it moves the cursor of the list. -/
def icbdbListSave (l : ListName) (nl : NamList) : Call NamList := do
  if ← openCall script then
    let nl ← listSaveLoop script flush l nl.count nl
    closeCall flush
    pure nl
  else pure nl

/-- The loop of `icbdb_list_clear`. -/
def listClearLoop (l : ListName) : Nat → Nat → Call Unit
  | 0, _ => pure ()
  | n + 1, index => do
      icbdbDelete script flush l.category (l.slotAttr index)
      listClearLoop l n (index + 1)

/-- `icbdb_list_clear`. -/
def icbdbListClear (l : ListName) : Call Unit := do
  if ← openCall script then
    let stored ← icbdbGet script flush l.category l.maxAttr
    let maxIndex := (stored.map atoi).getD (-1)
    icbdbDelete script flush l.category l.maxAttr
    let n ← rounds maxIndex
    listClearLoop script flush l n 0
    closeCall flush
  else pure ()

/-- A name list cleared in the database, saved there, and loaded into an empty list of its capacity. -/
def roundTrip (l : ListName) (nl : NamList) : Call NamList := do
  icbdbListClear script flush l
  let _ ← icbdbListSave script flush l nl
  icbdbListLoad script flush l (nlinit nl.max)

end calls

/-! ## §2 — dense lists -/

/-- The list keys up to an index are told apart in the buffers they are cut to. -/
structure ListName.Apart (l : ListName) (n : Nat) : Prop where
  slots : ∀ i < n, ∀ j < n, l.key i = l.key j → i = j
  top : ∀ i < n, l.key i ≠ l.maxKey

/-- The elements are these, at the indices from 0 on, without a hole. -/
structure Dense (l : ListName) (m : DbMap) (vs : List Bytes) : Prop where
  top : m.lookup l.maxKey = if vs = [] then none else some (digits (vs.length - 1))
  slots : ∀ i v, vs[i]? = some v → l.at m i = some v

/-- What stands under the key of the highest index: nothing, or the text of a number that fits the buffer,
below the number that the loops of the source cannot get past. -/
def StoredMax (l : ListName) (m : DbMap) : Prop :=
  ∀ v, m.lookup l.maxKey = some v → v.length < dblksiz ∧ atoi v < 2 ^ 31 - 1

/-- Nothing but the keys of the list has changed. -/
def SameElsewhere (l : ListName) (m m' : DbMap) : Prop :=
  ∀ k, k ≠ l.maxKey → (∀ i, k ≠ l.key i) → m'.lookup k = m.lookup k

theorem StoredMax.lt {l : ListName} {m : DbMap} (h : StoredMax l m) :
    ((m.lookup l.maxKey).map atoi).getD (-1) < 2 ^ 31 - 1 := by
  cases hv : m.lookup l.maxKey with
  | none => decide
  | some v => exact (h v hv).2

theorem SameElsewhere.trans {l : ListName} {m m₁ m₂ : DbMap} (h : SameElsewhere l m m₁)
    (h' : SameElsewhere l m₁ m₂) : SameElsewhere l m m₂ := by
  intro k hk hki
  rw [h' k hk hki, h k hk hki]

/-- The stored maximum of a dense list. -/
theorem Dense.maxIndex {l : ListName} {m : DbMap} {vs : List Bytes} (h : Dense l m vs)
    (hsmall : vs.length ≤ 2 ^ 28) :
    ((m.lookup l.maxKey).map atoi).getD (-1) = (vs.length : Int) - 1 := by
  rw [h.top]
  by_cases hnil : vs = []
  · rw [if_pos hnil, hnil]
    rfl
  · have hpos : 0 < vs.length := List.length_pos_iff.mpr hnil
    rw [if_neg hnil, Option.map_some, Option.getD_some, ← decimal_natCast,
      atoi_decimal (by omega) (by omega)]
    omega

/-- The text of the stored maximum fits. -/
theorem Dense.top_short {l : ListName} {m : DbMap} {vs : List Bytes} (h : Dense l m vs)
    (hsmall : vs.length ≤ 2 ^ 28) {v : Bytes} (hv : m.lookup l.maxKey = some v) :
    v.length < dblksiz := by
  rw [h.top] at hv
  split at hv
  · cases hv
  · obtain rfl := Option.some.inj hv
    have hlen : (digits (vs.length - 1)).length ≤ 10 := digits_length_le (by decide) (by omega)
    exact Nat.lt_of_le_of_lt hlen (by decide)

/-- **One more element.** -/
theorem Dense.snoc {l : ListName} {m : DbMap} {vs : List Bytes} {value : Bytes}
    (h : Dense l m vs) (hapart : l.Apart (vs.length + 1)) :
    Dense l ((m.insert (l.key vs.length) value).insert l.maxKey (digits vs.length))
      (vs ++ [value]) := by
  constructor
  · rw [Finmap.lookup_insert, if_neg (by simp), List.length_append, List.length_singleton,
      Nat.add_sub_cancel]
  · intro i v hv
    have hi : i < vs.length + 1 := by
      have := (List.getElem?_eq_some_iff.mp hv).1
      simpa using this
    rw [ListName.at, Finmap.lookup_insert_of_ne _ (hapart.top i hi)]
    by_cases hlast : i = vs.length
    · subst hlast
      rw [List.getElem?_concat_length] at hv
      rw [Finmap.lookup_insert, Option.some.inj hv]
    · rw [List.getElem?_append_left (by omega)] at hv
      have hne : l.key i ≠ l.key vs.length := fun heq =>
        hlast (hapart.slots i hi _ (Nat.lt_succ_self _) heq)
      rw [Finmap.lookup_insert_of_ne _ hne]
      exact h.slots i v hv

theorem ListName.Apart.mono {l : ListName} {n k : Nat} (h : l.Apart n) (hle : k ≤ n) : l.Apart k :=
  ⟨fun i hi j hj => h.slots i (by omega) j (by omega), fun i hi => h.top i (by omega)⟩

/-! ## §3 — the three calls on the map -/

section calls

variable {script : List (Option Nat)} {flush : FlushScript} {disk : Option Bytes} {m₀ m : DbMap}
variable {l : ListName} {vs : List Bytes}
variable (hload : LoadsTo disk m₀) (hq : quietScript script)

theorem does_rounds {maxIndex : Int} (h : maxIndex < 2 ^ 31 - 1) :
    Does disk m₀ m (rounds maxIndex) fun n m' => n = (maxIndex + 1).toNat ∧ m' = m := by
  intro s hs
  exact ⟨_, s, m, if_pos h, hs, rfl, rfl⟩

include hload hq in
/-- The indices from one on are deleted. -/
theorem does_listClearLoop (n index : Nat) :
    Does disk m₀ m (listClearLoop script flush l n index) fun _ m' =>
      SameElsewhere l m m' ∧ (m.lookup l.maxKey = none → m'.lookup l.maxKey = none) ∧
        m'.keys.card ≤ m.keys.card := by
  induction n generalizing m index with
  | zero =>
      apply Does.pure
      exact ⟨fun k _ _ => rfl, id, Nat.le_refl _⟩
  | succ n ih =>
      apply (does_delete hload hq).bind
      rintro _ m₁ ⟨hlook, hcard⟩
      apply (ih (index + 1)).mono
      rintro _ m₂ ⟨hsame, htop, hcard'⟩
      refine ⟨?_, ?_, by omega⟩
      · intro k hk hki
        rw [hsame k hk hki, hlook]
        exact if_neg (hki index)
      · intro hnone
        apply htop
        rw [hlook]
        split
        · rfl
        · exact hnone

include hload hq in
/-- **`icbdb_list_clear`**: the stored maximum is gone. -/
theorem does_listClear (hstored : StoredMax l m) :
    Does disk m₀ m (icbdbListClear script flush l) fun _ m' =>
      SameElsewhere l m m' ∧ m'.lookup l.maxKey = none ∧ m'.keys.card ≤ m.keys.card := by
  apply (does_open hload hq).bind
  rintro b m' ⟨rfl, rfl⟩
  simp only [if_true]
  apply (does_get hload hq fun v hv => (hstored v hv).1).bind
  rintro stored m₁ ⟨rfl, rfl⟩
  apply (does_delete hload hq).bind
  rintro _ m₂ ⟨hlook, hcard⟩
  apply (does_rounds hstored.lt).bind
  rintro n m₅ ⟨rfl, rfl⟩
  apply (does_listClearLoop hload hq _ 0).bind
  rintro _ m₃ ⟨hsame, htop, hcard'⟩
  apply does_close.mono
  rintro _ m₄ rfl
  refine ⟨?_, htop ((hlook _).trans (if_pos rfl)), by omega⟩
  intro k hk hki
  rw [hsame k hk hki, hlook]
  exact if_neg hk

include hload hq in
/-- The search for a value that is not among the elements goes through all of them. -/
theorem does_listFindLoop_dense (h : Dense l m vs) (hshort : ∀ v ∈ vs, v.length < dblksiz)
    {value : Bytes} (hnew : value ∉ vs) (n index : Nat) (hn : index + n = vs.length) (last : Int) :
    Does disk m₀ m (listFindLoop script flush l value ((vs.length : Int) - 1) n index (-1) last)
      fun r m' => m' = m ∧ r.found = false ∧ r.maxIndex = (vs.length : Int) - 1 ∧
        r.firstEmpty = -1 := by
  induction n generalizing index last with
  | zero => exact Does.pure ⟨rfl, rfl, rfl, rfl⟩
  | succ n ih =>
      have hat := h.slots index vs[index] (List.getElem?_eq_getElem (by omega))
      have hmem : vs[index] ∈ vs := List.getElem_mem _
      have hfits : ∀ v, m.lookup (icbdbMakeKey l.category (l.slotAttr index)) = some v →
          v.length < dblksiz := by
        intro v hv
        obtain rfl : vs[index] = v := Option.some.inj (hat.symm.trans hv)
        exact hshort _ hmem
      rw [listFindLoop, if_pos (by omega)]
      apply (does_get hload hq hfits).bind
      rintro got m₁ ⟨rfl, rfl⟩
      rw [show m₁.lookup (icbdbMakeKey l.category (l.slotAttr index)) = _ from hat]
      simp only
      have hne : vs[index] ≠ value := by
        rintro rfl
        exact hnew hmem
      rw [if_neg hne]
      exact ih (index + 1) (by omega) index

include hload hq in
/-- **`icbdb_list_find`** of a value that is not among the elements: it may go behind them. -/
theorem does_listFind_dense (h : Dense l m vs) (hshort : ∀ v ∈ vs, v.length < dblksiz)
    {value : Bytes} (hnew : value ∉ vs) (hsmall : vs.length ≤ 2 ^ 28) :
    Does disk m₀ m (icbdbListFind script flush l value) fun r m' => m' = m ∧ r.found = false ∧
      r.maxIndex = (vs.length : Int) - 1 ∧ r.firstEmpty = vs.length := by
  apply (does_open hload hq).bind
  rintro b m' ⟨rfl, rfl⟩
  simp only [if_true]
  apply (does_get hload hq fun v hv => h.top_short hsmall hv).bind
  rintro stored m₁ ⟨rfl, rfl⟩
  have hmax := h.maxIndex hsmall
  simp only [ListName.maxKey] at hmax
  rw [hmax, show ((vs.length : Int) - 1 + 1).toNat = vs.length by omega]
  apply (does_listFindLoop_dense hload hq h hshort hnew vs.length 0 (Nat.zero_add _) (-1)).bind
  rintro r m₂ ⟨rfl, hno, htop, hempty⟩
  apply does_close.bind
  rintro _ m₃ rfl
  apply Does.pure
  refine ⟨rfl, hno, htop, ?_⟩
  show (if r.firstEmpty = -1 then (vs.length : Int) - 1 + 1 else r.firstEmpty) = _
  rw [if_pos hempty]
  omega

include hload hq in
/-- **`icbdb_list_add`** of a new value stores it and its index. -/
theorem does_listAdd_new (h : Dense l m vs) (hshort : ∀ v ∈ vs, v.length < dblksiz)
    {value : Bytes} (hnew : value ∉ vs) (hsmall : vs.length < 2 ^ 28)
    (hroom : m.keys.card + 1 < 2 ^ 28) :
    Does disk m₀ m (icbdbListAdd script flush l value) fun _ m' =>
      m' = (m.insert (l.key vs.length) value).insert l.maxKey (digits vs.length) := by
  apply (does_open hload hq).bind
  rintro b m' ⟨rfl, rfl⟩
  simp only [if_true]
  apply (does_listFind_dense hload hq h hshort hnew (Nat.le_of_lt hsmall)).bind
  rintro r m₁ ⟨rfl, hno, htop, hempty⟩
  rw [if_neg (by simp [hno]), hempty, htop]
  apply (does_set hload hq value (.inr (by omega))).bind
  rintro _ m₂ rfl
  have hcard := (DbOp.store (l.key vs.length) value .replace).card_spec_le m₁
  simp only [DbOp.spec, reduceCtorEq, and_false, if_false] at hcard
  rw [if_pos (by omega), decimal_natCast]
  apply (does_set hload hq _ (.inr (Nat.lt_of_le_of_lt hcard hroom))).bind
  rintro _ m₃ rfl
  apply does_close.mono
  rintro _ m₄ rfl
  rfl

/-- Storing behind a list that is not empty brings one key. -/
theorem Dense.card_snoc (h : Dense l m vs) (value : Bytes) :
    ((m.insert (l.key vs.length) value).insert l.maxKey (digits vs.length)).keys.card ≤
      m.keys.card + (if vs = [] then 2 else 1) := by
  have hslot := (DbOp.store (l.key vs.length) value .replace).card_spec_le m
  have hmax := (DbOp.store l.maxKey (digits vs.length) .replace).card_spec_le
    (m.insert (l.key vs.length) value)
  simp only [DbOp.spec, reduceCtorEq, and_false, if_false] at hslot hmax
  by_cases hnil : vs = []
  · rw [if_pos hnil]
    exact Nat.le_trans hmax (Nat.add_le_add_right hslot 1)
  · -- the stored maximum was there already
    rw [if_neg hnil]
    have hmem : l.maxKey ∈ m.insert (l.key vs.length) value := by
      rw [Finmap.mem_insert]
      right
      apply Finmap.mem_of_lookup_eq_some
      rw [h.top, if_neg hnil]
    have hkeys : ((m.insert (l.key vs.length) value).insert l.maxKey (digits vs.length)).keys ⊆
        (m.insert (l.key vs.length) value).keys := by
      intro k hk
      rw [Finmap.mem_keys, Finmap.mem_insert] at hk
      rw [Finmap.mem_keys]
      rcases hk with rfl | hk
      · exact hmem
      · exact hk
    exact Nat.le_trans (Finset.card_le_card hkeys) hslot

include hload hq in
/-- **`icbdb_list_add`** of a new value puts it behind the others. -/
theorem does_listAdd_dense (h : Dense l m vs) (hshort : ∀ v ∈ vs, v.length < dblksiz)
    {value : Bytes} (hnew : value ∉ vs) (hapart : l.Apart (vs.length + 1))
    (hsmall : vs.length < 2 ^ 28) (hroom : m.keys.card + 1 < 2 ^ 28) :
    Does disk m₀ m (icbdbListAdd script flush l value) fun _ m' =>
      Dense l m' (vs ++ [value]) ∧ SameElsewhere l m m' ∧
        m'.keys.card ≤ m.keys.card + (if vs = [] then 2 else 1) := by
  apply (does_listAdd_new hload hq h hshort hnew hsmall hroom).mono
  rintro _ m' rfl
  refine ⟨h.snoc hapart, ?_, h.card_snoc value⟩
  intro k hk hki
  exact (Finmap.lookup_insert_of_ne _ hk).trans (Finmap.lookup_insert_of_ne _ (hki vs.length))

include hload hq in
/-- The names from the cursor round, one after the other. -/
theorem does_listSaveLoop {nl : NamList} (h : Dense l m vs) (hlive : nl.Live) (n : Nat)
    (hn : n ≤ nl.count) (hnd : (vs ++ (nlgetAll nl).take n).Nodup)
    (hshort : ∀ v ∈ vs ++ nl.names, v.length < dblksiz) (hapart : l.Apart (vs.length + n))
    (hsmall : vs.length + n < 2 ^ 28)
    (hroom : m.keys.card + n + (if vs = [] then 1 else 0) < 2 ^ 28) :
    Does disk m₀ m (listSaveLoop script flush l n nl) fun _ m' =>
      Dense l m' (vs ++ (nlgetAll nl).take n) ∧ SameElsewhere l m m' := by
  induction n generalizing m vs nl with
  | zero =>
      apply Does.pure
      rw [List.take_zero, List.append_nil]
      exact ⟨h, fun k _ _ => rfl⟩
  | succ n ih =>
      have hne : nl.names ≠ [] := by
        intro hnil
        rw [NamList.count, hnil] at hn
        exact absurd hn (Nat.not_succ_le_zero n)
      obtain ⟨rest, hall, hnext⟩ := nlgetAll_step (hlive.cursor.resolve_left hne)
      obtain ⟨hnames, hlive', hmem⟩ := hlive.nlget
      have hlen : rest.length + 1 = nl.names.length := by
        rw [← (nlgetAll_perm nl).length_eq, hall, List.length_cons]
      have hcount : nl.count = nl.names.length := rfl
      have hnamed : (nlget nl).1 ≠ [] := fun hnil => hlive.named (hnil ▸ hmem hne)
      rw [hall, List.take_succ_cons] at hnd ⊢
      have hsnoc : vs ++ (nlget nl).1 :: rest.take n = (vs ++ [(nlget nl).1]) ++ rest.take n := by
        rw [List.append_assoc, List.singleton_append]
      have hnew : (nlget nl).1 ∉ vs := by
        have hdisj := (List.nodup_append'.mp hnd).2.2
        exact fun hv => hdisj hv List.mem_cons_self
      have hrest : (nlgetAll (nlget nl).2).take n = rest.take n := by
        rw [hnext, List.take_append_of_le_length (by omega)]
      rw [listSaveLoop, if_pos hnamed]
      apply (does_listAdd_dense hload hq h (fun v hv => hshort v (List.mem_append_left _ hv)) hnew
        (hapart.mono (by omega)) (by omega) (by omega)).bind
      rintro _ m₁ ⟨hdense, hsame, hcard⟩
      have hroom₁ : m₁.keys.card + n + (if vs ++ [(nlget nl).1] = [] then 1 else 0) < 2 ^ 28 := by
        rw [if_neg (by simp)]
        split at hroom
        · rw [if_pos ‹_›] at hcard
          omega
        · rw [if_neg ‹_›] at hcard
          omega
      have hloop := ih hdense hlive' (by rw [NamList.count, hnames]; omega)
        (by rw [hrest, ← hsnoc]; exact hnd)
        (by
          intro v hv
          rw [hnames, List.append_assoc, List.singleton_append] at hv
          rcases List.mem_append.mp hv with hv | hv
          · exact hshort v (List.mem_append_left _ hv)
          · rcases List.mem_cons.mp hv with rfl | hv
            · exact hshort _ (List.mem_append_right _ (hmem hne))
            · exact hshort v (List.mem_append_right _ hv))
        (by
          rw [List.length_append, List.length_singleton]
          exact hapart.mono (by omega))
        (by
          rw [List.length_append, List.length_singleton]
          omega)
        hroom₁
      apply hloop.mono
      rintro _ m₂ ⟨hdense', hsame'⟩
      rw [hrest, ← hsnoc] at hdense'
      exact ⟨hdense', hsame.trans hsame'⟩

include hload hq in
/-- **`icbdb_list_save`** into a cleared list. -/
theorem does_listSave {nl : NamList} (hnone : m.lookup l.maxKey = none) (hlive : nl.Live)
    (hnd : nl.names.Nodup) (hshort : ∀ v ∈ nl.names, v.length < dblksiz)
    (hapart : l.Apart nl.count) (hroom : m.keys.card + nl.count + 1 < 2 ^ 28) :
    Does disk m₀ m (icbdbListSave script flush l nl) fun _ m' =>
      Dense l m' (nlgetAll nl) ∧ SameElsewhere l m m' := by
  have hempty : Dense l m [] := ⟨hnone, fun i v hv => by cases hv⟩
  have hall : (nlgetAll nl).take nl.count = nlgetAll nl := by
    apply List.take_of_length_le
    rw [(nlgetAll_perm nl).length_eq]
    exact Nat.le_refl _
  apply (does_open hload hq).bind
  rintro b m' ⟨rfl, rfl⟩
  simp only [if_true]
  apply (does_listSaveLoop hload hq hempty hlive nl.count (Nat.le_refl _)
    (by rw [hall, List.nil_append]; exact (nlgetAll_perm nl).nodup_iff.mpr hnd)
    (by rwa [List.nil_append]) (by rwa [List.length_nil, Nat.zero_add])
    (by rw [List.length_nil]; omega) (by rw [if_pos rfl]; omega)).bind
  rintro _ m₁ ⟨hdense, hsame⟩
  apply does_close.bind
  rintro _ m₂ rfl
  rw [hall, List.nil_append] at hdense
  exact Does.pure ⟨hdense, hsame⟩

include hload hq in
/-- The elements from an index on go on the list. -/
theorem does_listLoadLoop (h : Dense l m vs) (hshort : ∀ v ∈ vs, v.length < dblksiz)
    (n index : Nat) (hn : index + n = vs.length) (nl : NamList) :
    Does disk m₀ m (listLoadLoop script flush l n index nl) fun nl' m' =>
      nl' = (vs.drop index).foldl nlput nl ∧ m' = m := by
  induction n generalizing index nl with
  | zero =>
      apply Does.pure
      rw [List.drop_eq_nil_of_le (by omega)]
      exact ⟨rfl, rfl⟩
  | succ n ih =>
      have hlt : index < vs.length := by omega
      have hat := h.slots index vs[index] (List.getElem?_eq_getElem hlt)
      have hfits : ∀ v, m.lookup (icbdbMakeKey l.category (l.slotAttr index)) = some v →
          v.length < dblksiz := by
        intro v hv
        obtain rfl : vs[index] = v := Option.some.inj (hat.symm.trans hv)
        exact hshort _ (List.getElem_mem _)
      rw [listLoadLoop]
      apply (does_get hload hq hfits).bind
      rintro got m₁ ⟨rfl, rfl⟩
      rw [show m₁.lookup (icbdbMakeKey l.category (l.slotAttr index)) = _ from hat]
      apply (ih (index + 1) (by omega) _).mono
      rintro nl' m₂ ⟨rfl, rfl⟩
      rw [List.drop_eq_getElem_cons hlt, List.foldl_cons]
      exact ⟨rfl, rfl⟩

include hload hq in
/-- **`icbdb_list_load`** of dense elements. -/
theorem does_listLoad (h : Dense l m vs) (hshort : ∀ v ∈ vs, v.length < dblksiz)
    (hsmall : vs.length ≤ 2 ^ 28) (nl : NamList) :
    Does disk m₀ m (icbdbListLoad script flush l nl) fun nl' m' =>
      nl' = vs.foldl nlput nl ∧ m' = m := by
  apply (does_open hload hq).bind
  rintro b m' ⟨rfl, rfl⟩
  simp only [if_true]
  apply (does_get hload hq fun v hv => h.top_short hsmall hv).bind
  rintro stored m₁ ⟨rfl, rfl⟩
  have hmax := h.maxIndex hsmall
  simp only [ListName.maxKey] at hmax
  rw [hmax]
  apply (does_rounds (by omega)).bind
  rintro n m₂ ⟨rfl, rfl⟩
  rw [show ((vs.length : Int) - 1 + 1).toNat = vs.length by omega]
  apply (does_listLoadLoop hload hq h hshort vs.length 0 (Nat.zero_add _) nl).bind
  rintro nl' m₃ ⟨rfl, rfl⟩
  apply does_close.bind
  rintro _ m₄ rfl
  exact Does.pure ⟨by rw [List.drop_zero], rfl⟩

end calls

/-! ## §4 — round -/

/-- Names that are all new, and fit, end up in front of the others, the last one first. -/
theorem names_foldl_nlput (vs : List Bytes) (nl : NamList)
    (hnew : (vs.map lcaseit ++ nl.keys).Nodup) (hfits : nl.count + vs.length ≤ nl.max) :
    (vs.foldl nlput nl).names = vs.reverse ++ nl.names := by
  induction vs generalizing nl with
  | nil => rfl
  | cons v vs ih =>
    rw [List.map_cons, List.cons_append, List.nodup_cons, List.mem_append, not_or] at hnew
    obtain ⟨⟨hvs, hnl⟩, hnodup⟩ := hnew
    rw [List.length_cons] at hfits
    have hput : nlput nl v = { nl with names := v :: nl.names, cursor := 0 } := by
      rw [nlput, find_strcaseEq_none.mpr hnl]
      exact if_pos (by omega)
    have hkeys : (vs.map lcaseit ++ (nlput nl v).keys).Nodup := by
      have hcons : (nlput nl v).keys = lcaseit v :: nl.keys := by
        rw [hput]
        rfl
      rw [hcons]
      apply List.perm_middle.nodup_iff.mpr
      apply List.nodup_cons.mpr
      exact ⟨fun h => (List.mem_append.mp h).elim hvs hnl, hnodup⟩
    rw [List.foldl_cons, ih _ hkeys]
    · rw [hput, List.reverse_cons, List.append_assoc]
      rfl
    · rw [hput]
      show nl.names.length + 1 + vs.length ≤ nl.max
      have hcount : nl.count = nl.names.length := rfl
      omega

/-- **Name lists go round through the database.** A list whose keys are told apart, cleared over whatever
was stored under it, saved, and loaded into an empty list of the same capacity, has the entries that were
saved, each once, and no other key of the database has changed. -/
theorem name_list_round_trip {script : List (Option Nat)} {flush : FlushScript} {disk : Option Bytes}
    {m₀ m : DbMap} {l : ListName} {s : IcbDb} {nl : NamList} {k : Nat} (hload : LoadsTo disk m₀)
    (hq : quietScript script) (hs : Holds s disk m₀ m) (hsound : nl.Sound k) (hlive : nl.Live)
    (hshort : ∀ v ∈ nl.names, v.length < dblksiz) (hstored : StoredMax l m) (hapart : l.Apart nl.count)
    (hroom : m.keys.card + nl.count + 1 < 2 ^ 28) :
    ∃ nl' s' m', roundTrip script flush l nl s = some (nl', s') ∧ Holds s' disk m₀ m' ∧
      nl'.names.Nodup ∧ nl'.names.Perm nl.names ∧ SameElsewhere l m m' := by
  have hnodup : nl.names.Nodup := hsound.nodup.of_map
  have hperm : (nlgetAll nl).Perm nl.names := nlgetAll_perm nl
  have hlen : (nlgetAll nl).length = nl.count := hperm.length_eq
  -- the three calls, one after the other
  have hdoes : Does disk m₀ m (roundTrip script flush l nl) fun nl' m' =>
      nl' = (nlgetAll nl).foldl nlput (nlinit nl.max) ∧ SameElsewhere l m m' := by
    apply (does_listClear hload hq hstored).bind
    rintro _ m₁ ⟨hsame₁, hnone, hcard⟩
    apply (does_listSave hload hq hnone hlive hnodup hshort hapart (by omega)).bind
    rintro _ m₂ ⟨hdense, hsame₂⟩
    have hshort' : ∀ v ∈ nlgetAll nl, v.length < dblksiz := fun v hv => hshort v (hperm.mem_iff.mp hv)
    apply (does_listLoad hload hq hdense hshort' (by omega) _).mono
    rintro nl' m₃ ⟨rfl, rfl⟩
    exact ⟨rfl, hsame₁.trans hsame₂⟩
  obtain ⟨nl', s', m', hrun, hs', rfl, hsame⟩ := hdoes s hs
  -- loading turns the order around
  have hnames : ((nlgetAll nl).foldl nlput (nlinit nl.max)).names = (nlgetAll nl).reverse := by
    rw [names_foldl_nlput, show (nlinit nl.max).names = [] from rfl, List.append_nil]
    · rw [show (nlinit nl.max).keys = [] from rfl, List.append_nil]
      exact (hperm.map lcaseit).nodup_iff.mpr hsound.nodup
    · rw [show (nlinit nl.max).count = 0 from rfl, Nat.zero_add, hlen]
      exact hsound.max_eq ▸ hsound.fits
  have hback : ((nlgetAll nl).foldl nlput (nlinit nl.max)).names.Perm nl.names := by
    rw [hnames]
    exact (List.reverse_perm _).trans hperm
  exact ⟨_, s', m', hrun, hs', hback.nodup_iff.mpr hnodup, hback, hsame⟩

/-- Keys that fit their buffers are told apart. -/
theorem ListName.apart_of_fits {l : ListName} {n : Nat} (hmax : l.Fits (str "max"))
    (hfits : ∀ i < n, l.Fits (digits i)) : l.Apart n :=
  ⟨fun i hi j hj h => l.key_injective (hfits i hi) (hfits j hj) h,
    fun i hi => l.key_ne_maxKey (hfits i hi) hmax⟩

/-- Two friends, the second of them under the cursor, in an empty database. -/
theorem name_list_round_trip_friends :
    ∃ nl' s' m', roundTrip [] {} friends ⟨[str "bo", str "cy"], 3, 1⟩ {} = some (nl', s') ∧
      Holds s' none ∅ m' ∧ nl'.names.Nodup ∧ nl'.names.Perm [str "bo", str "cy"] ∧
      SameElsewhere friends ∅ m' := by
  have hstart : Holds {} none ∅ ∅ := ⟨rfl, rfl, Or.inl ⟨rfl, rfl⟩⟩
  have hapart : friends.Apart 2 := ListName.apart_of_fits (by decide) (by decide)
  exact name_list_round_trip (k := 3) loadsTo_none List.not_mem_nil hstart
    ⟨by decide, rfl, by decide⟩ ⟨by decide, .inr (by decide)⟩ (by decide) (fun v hv => by cases hv)
    hapart (by decide)

section blind

variable {script : List (Option Nat)} {flush : FlushScript} {disk : Option Bytes} {m₀ m : DbMap}
variable {l : ListName} (hload : LoadsTo disk m₀) (hq : quietScript script)

include hload hq in
/-- A single name is saved: its index is written last. -/
theorem does_listSave_one (hnone : m.lookup l.maxKey = none)
    (hroom : m.keys.card + 1 < 2 ^ 28) {name : Bytes} (hname : name ≠ []) :
    Does disk m₀ m (icbdbListSave script flush l ⟨[name], 1, 0⟩) fun _ m' =>
      m'.lookup l.maxKey = some (str "0") := by
  have hempty : Dense l m [] := ⟨hnone, fun i v hv => by cases hv⟩
  apply (does_open hload hq).bind
  rintro b m' ⟨rfl, rfl⟩
  simp only [if_true]
  have hloop : Does disk m₀ m' (listSaveLoop script flush l 1 ⟨[name], 1, 0⟩) fun _ m'' =>
      m''.lookup l.maxKey = some (str "0") := by
    have hget : (nlget ⟨[name], 1, 0⟩).1 ≠ [] := hname
    rw [listSaveLoop, if_pos hget]
    apply (does_listAdd_new hload hq hempty (by simp) (by simp) (by simp) hroom).bind
    rintro _ m₁ rfl
    apply Does.pure
    exact Finmap.lookup_insert _
  apply hloop.bind
  rintro _ m₁ htop
  apply does_close.bind
  rintro _ m₂ rfl
  exact Does.pure htop

include hload hq in
/-- Where the first element has the key of the highest index, the index is loaded as if it were the name. -/
theorem does_listLoad_blind (hblind : l.key 0 = l.maxKey) (htop : m.lookup l.maxKey = some (str "0")) :
    Does disk m₀ m (icbdbListLoad script flush l (nlinit 1)) fun nl' _ => nl'.names = [str "0"] := by
  have hfits : ∀ v, m.lookup l.maxKey = some v → v.length < dblksiz := by
    intro v hv
    obtain rfl : str "0" = v := Option.some.inj (htop.symm.trans hv)
    decide
  apply (does_open hload hq).bind
  rintro b m' ⟨rfl, rfl⟩
  simp only [if_true]
  apply (does_get hload hq hfits).bind
  rintro stored m₁ ⟨rfl, rfl⟩
  rw [show m₁.lookup (icbdbMakeKey l.category l.maxAttr) = _ from htop]
  apply (does_rounds (by decide)).bind
  rintro n m₂ ⟨rfl, rfl⟩
  have hloop : Does disk m₀ m₂ (listLoadLoop script flush l 1 0 (nlinit 1)) fun nl' _ =>
      nl'.names = [str "0"] := by
    have hkey : icbdbMakeKey l.category (l.slotAttr (0 : Nat)) = l.maxKey := hblind
    apply (does_get hload hq (by rwa [hkey])).bind
    rintro value m₃ ⟨rfl, rfl⟩
    rw [hkey, htop]
    exact Does.pure rfl
  apply hloop.bind
  rintro nl' m₃ hnames
  apply does_close.bind
  rintro _ m₄ rfl
  exact Does.pure hnames

end blind

/-- An attribute that leaves the keys of its list no room behind the dot. -/
def longest : ListName := ⟨none, List.replicate 4094 97⟩

theorem longest_blind : longest.key 0 = longest.maxKey := by
  have hcut : ∀ ending : Bytes, snprintf dblksiz (longest.attr ++ str "." ++ ending) =
      longest.attr ++ str "." := by
    intro ending
    exact List.take_left' (by rw [List.length_append, longest, List.length_replicate]; rfl)
  rw [ListName.key, ListName.maxKey]
  apply congrArg (icbdbMakeKey longest.category)
  rw [ListName.slotAttr, hcut]
  have hmax : longest.maxAttr = snprintf dblksiz (longest.attr ++ str "." ++ str "max") := by
    rw [ListName.maxAttr, List.append_assoc]
    rfl
  rw [hmax, hcut]

/-- A list of one name under that attribute comes back as the list of the name `0`. -/
theorem long_attribute_loses_name :
    ¬ ∀ (disk : Option Bytes) (m₀ : DbMap) (l : ListName) (nl : NamList) (k : Nat), LoadsTo disk m₀ →
      nl.Sound k → nl.Live → (∀ v ∈ nl.names, v.length < dblksiz) →
      ∃ nl' s' m', roundTrip [] {} l nl { disk := disk } = some (nl', s') ∧ Holds s' disk m₀ m' ∧
        nl'.names.Nodup ∧ nl'.names.Perm nl.names ∧ SameElsewhere l m₀ m' := by
  intro h
  obtain ⟨nl', s', m', hrun, -, -, hperm, -⟩ := h none ∅ longest ⟨[str "bo"], 1, 0⟩ 1 loadsTo_none
    ⟨by decide, rfl, by decide⟩ ⟨by decide, .inr (by decide)⟩ (by decide)
  have hstart : Holds {} none ∅ ∅ := ⟨rfl, rfl, Or.inl ⟨rfl, rfl⟩⟩
  have hlost : Does none ∅ ∅ (roundTrip [] {} longest ⟨[str "bo"], 1, 0⟩) fun nl' _ =>
      nl'.names = [str "0"] := by
    apply (does_listClear loadsTo_none List.not_mem_nil fun v hv => by cases hv).bind
    rintro _ m₁ ⟨-, hnone, hcard⟩
    have hroom : m₁.keys.card + 1 < 2 ^ 28 := by
      have hzero : (∅ : DbMap).keys.card = 0 := rfl
      omega
    apply (does_listSave_one loadsTo_none List.not_mem_nil hnone hroom (by decide)).bind
    rintro _ m₂ htop
    exact does_listLoad_blind loadsTo_none List.not_mem_nil longest_blind htop
  obtain ⟨nl'', s'', m'', hrun', -, hnames⟩ := hlost {} hstart
  obtain ⟨rfl, -⟩ := Prod.mk.inj (Option.some.inj (hrun.symm.trans hrun'))
  rw [hnames] at hperm
  exact absurd hperm (by decide)

end Icbd.Dbm
