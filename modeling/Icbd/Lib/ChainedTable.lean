/-
# Icbd.Lib.ChainedTable — hash tables with chaining, as finite maps.

A table is a list of chains of entries; a key's home is the chain its hash selects. `Placed` is the
representation invariant: every entry is at home and no key occurs twice. Under it a search in the
home chain is the lookup of the finite map `toMap`, and pushing, replacing in place, unlinking and
rehashing are its insertion, update, erasure and identity. Keys, values and the hash function are
arbitrary.
-/
import Mathlib.Data.Finmap

namespace Icbd.Lib

/-- An entry of a table. -/
abbrev Entry (κ ν : Type*) := (_ : κ) × ν

/-- The chains of a table, by bucket number. -/
abbrev Buckets (κ ν : Type*) := List (List (Entry κ ν))

namespace Buckets

variable {κ ν : Type*}

/-! ## §1 — operations -/

/-- The bucket number of a key. -/
def home (hash : κ → Nat) (b : Buckets κ ν) (k : κ) : Nat := hash k % b.length

/-- A new entry goes to the front of its home chain. -/
def push (hash : κ → Nat) (b : Buckets κ ν) (e : Entry κ ν) : Buckets κ ν :=
  b.modify (home hash b e.1) (e :: ·)

/-- Push every entry, chain by chain from its front, into `n` empty chains. -/
def rehash (hash : κ → Nat) (n : Nat) (b : Buckets κ ν) : Buckets κ ν :=
  b.flatten.foldl (push hash) (List.replicate n [])

/-- **The representation invariant.** -/
structure Placed (hash : κ → Nat) (b : Buckets κ ν) : Prop where
  pos : 0 < b.length
  atHome : ∀ i (h : i < b.length), ∀ e ∈ b[i], home hash b e.1 = i
  nodup : b.flatten.NodupKeys

variable {hash : κ → Nat} {b : Buckets κ ν}

@[simp] theorem length_push (e : Entry κ ν) : (push hash b e).length = b.length := by
  simp [push]

/-! ## §2 — one chain changes -/

theorem Placed.home_lt (hb : Placed hash b) (k : κ) : home hash b k < b.length :=
  Nat.mod_lt _ hb.pos

theorem flatten_eq_split (i : Nat) (h : i < b.length) :
    b.flatten = (b.take i).flatten ++ (b[i] ++ (b.drop (i + 1)).flatten) := by
  conv_lhs => rw [← List.take_append_drop i b, List.drop_eq_getElem_cons h]
  rw [List.flatten_append, List.flatten_cons]

theorem flatten_modify (f : List (Entry κ ν) → List (Entry κ ν)) (i : Nat) (h : i < b.length) :
    (b.modify i f).flatten = (b.take i).flatten ++ (f b[i] ++ (b.drop (i + 1)).flatten) := by
  rw [List.modify_eq_take_cons_drop h, List.flatten_append, List.flatten_cons]

/-- A key is only ever found in its home chain. -/
theorem Placed.notMem_keys_of_ne (hb : Placed hash b) {k : κ} {i : Nat} (h : i < b.length)
    (hne : i ≠ home hash b k) : k ∉ b[i].keys := by
  intro hmem
  obtain ⟨v, hv⟩ := List.exists_of_mem_keys hmem
  exact hne (hb.atHome i h _ hv).symm

/-- A change of one chain keeps the invariant when it brings in only keys that belong there and
leaves no key twice. -/
theorem Placed.modify (hb : Placed hash b) {i : Nat} {f : List (Entry κ ν) → List (Entry κ ν)}
    (hf : ∀ h : i < b.length, ∀ e ∈ f b[i], home hash b e.1 = i)
    (hnd : (b.modify i f).flatten.NodupKeys) : Placed hash (b.modify i f) := by
  refine ⟨by simpa using hb.pos, ?_, hnd⟩
  intro j hj e he
  have hj' : j < b.length := by simpa using hj
  have hhome : home hash (b.modify i f) e.1 = home hash b e.1 := by simp [home]
  rw [List.getElem_modify] at he
  rw [hhome]
  split at he
  · subst i
    exact hf hj' e he
  · exact hb.atHome j hj' e he

theorem Placed.push_perm (hb : Placed hash b) (e : Entry κ ν) :
    (push hash b e).flatten.Perm (e :: b.flatten) := by
  have hlt := hb.home_lt e.1
  rw [push, flatten_modify _ _ hlt, flatten_eq_split _ hlt, List.cons_append]
  exact List.perm_middle

theorem Placed.push (hb : Placed hash b) {e : Entry κ ν} (he : e.1 ∉ b.flatten.keys) :
    Placed hash (push hash b e) := by
  refine hb.modify ?_ ?_
  · intro h x hx
    rcases List.mem_cons.mp hx with rfl | hx
    · rfl
    · exact hb.atHome _ h x hx
  · refine (List.perm_nodupKeys (hb.push_perm e)).mpr ?_
    rw [List.nodupKeys_cons]
    exact ⟨he, hb.nodup⟩

theorem placed_replicate (n : Nat) (hn : 0 < n) :
    Placed hash (List.replicate n [] : Buckets κ ν) := by
  refine ⟨by simpa using hn, ?_, ?_⟩
  · intro i h e he
    simp at he
  · simp

/-- Pushing a list of entries with new keys, one after the other. -/
theorem Placed.foldl_push (hb : Placed hash b) (l : List (Entry κ ν))
    (hl : (b.flatten ++ l).NodupKeys) :
    Placed hash (l.foldl (Buckets.push hash) b) ∧
      (l.foldl (Buckets.push hash) b).length = b.length ∧
      (l.foldl (Buckets.push hash) b).flatten.Perm (b.flatten ++ l) := by
  induction l generalizing b with
  | nil => exact ⟨hb, rfl, by simp⟩
  | cons e l ih =>
      have hmid : (b.flatten ++ e :: l).Perm (e :: (b.flatten ++ l)) := List.perm_middle
      have hnd := (List.perm_nodupKeys hmid).mp hl
      have he : e.1 ∉ b.flatten.keys := by
        have := List.notMem_keys_of_nodupKeys_cons hnd
        rw [List.keys_append] at this
        exact fun h => this (List.mem_append_left _ h)
      have hp := hb.push_perm e
      have hnd' : ((Buckets.push hash b e).flatten ++ l).NodupKeys :=
        (List.perm_nodupKeys (hp.append_right l)).mpr hnd
      obtain ⟨hplaced, hlen, hperm⟩ := ih (hb.push he) hnd'
      refine ⟨hplaced, hlen.trans (length_push e), hperm.trans ?_⟩
      exact (hp.append_right l).trans (List.perm_middle.symm)

/-- **Rehashing** keeps the entries. -/
theorem Placed.rehash (hb : Placed hash b) {n : Nat} (hn : 0 < n) :
    Placed hash (rehash hash n b) ∧ (rehash hash n b).length = n ∧
      (rehash hash n b).flatten.Perm b.flatten := by
  have hempty : (List.replicate n [] : Buckets κ ν).flatten = [] := by simp
  have hplaced : Placed hash (List.replicate n [] : Buckets κ ν) := placed_replicate n hn
  have h := hplaced.foldl_push b.flatten (by rw [hempty]; exact hb.nodup)
  rw [hempty, List.nil_append, List.length_replicate] at h
  exact h

/-! ## §3 — the map a table stands for -/

section Map

variable [DecidableEq κ]

/-- Search the key's home chain. -/
def find (hash : κ → Nat) (b : Buckets κ ν) (k : κ) : Option ν :=
  (b.getD (home hash b k) []).dlookup k

/-- Overwrite the value of the key's entry in place. -/
def replace (hash : κ → Nat) (b : Buckets κ ν) (k : κ) (v : ν) : Buckets κ ν :=
  b.modify (home hash b k) (List.kreplace k v)

/-- Take the key's entry out of its chain. -/
def unlink (hash : κ → Nat) (b : Buckets κ ν) (k : κ) : Buckets κ ν :=
  b.modify (home hash b k) (List.kerase k)

/-- The finite map a table stands for. -/
def toMap (b : Buckets κ ν) : Finmap fun _ : κ => ν := b.flatten.toFinmap

@[simp] theorem length_replace (k : κ) (v : ν) : (replace hash b k v).length = b.length := by
  simp [replace]

@[simp] theorem length_unlink (k : κ) : (unlink hash b k).length = b.length := by
  simp [unlink]

theorem Placed.find_eq_dlookup (hb : Placed hash b) (k : κ) :
    find hash b k = b.flatten.dlookup k := by
  have hlt := hb.home_lt k
  have hbefore : (b.take (home hash b k)).flatten.dlookup k = none := by
    rw [List.dlookup_eq_none]
    intro hmem
    obtain ⟨v, hv⟩ := List.exists_of_mem_keys hmem
    obtain ⟨c, hc, hvc⟩ := List.mem_flatten.mp hv
    obtain ⟨i, hi, rfl⟩ := List.mem_take_iff_getElem.mp hc
    exact hb.notMem_keys_of_ne (k := k) (by omega) (by omega) (List.mem_keys_of_mem hvc)
  have hafter : (b.drop (home hash b k + 1)).flatten.dlookup k = none := by
    rw [List.dlookup_eq_none]
    intro hmem
    obtain ⟨v, hv⟩ := List.exists_of_mem_keys hmem
    obtain ⟨c, hc, hvc⟩ := List.mem_flatten.mp hv
    obtain ⟨i, hi, rfl⟩ := List.mem_drop_iff_getElem.mp hc
    exact hb.notMem_keys_of_ne (k := k) (by omega) (by omega) (List.mem_keys_of_mem hvc)
  rw [flatten_eq_split (home hash b k) hlt, List.dlookup_append, List.dlookup_append, hbefore,
    hafter]
  simp [find, List.getD, hlt]

/-- **Search is lookup.** -/
theorem Placed.find_eq_lookup (hb : Placed hash b) (k : κ) : find hash b k = b.toMap.lookup k := by
  rw [hb.find_eq_dlookup, toMap, Finmap.dlookup_list_toFinmap]

theorem toMap_eq_of_perm {b' : Buckets κ ν} (hb : b.flatten.NodupKeys)
    (h : b'.flatten.Perm b.flatten) : b'.toMap = b.toMap := by
  refine Finmap.ext_lookup fun k => ?_
  rw [toMap, toMap, Finmap.dlookup_list_toFinmap, Finmap.dlookup_list_toFinmap]
  exact List.perm_dlookup k ((List.perm_nodupKeys h).mpr hb) h

/-- The number of entries is the number of keys. -/
theorem Placed.card_keys (hb : Placed hash b) : b.toMap.keys.card = b.flatten.length := by
  have hset : b.toMap.keys = b.flatten.keys.toFinset := by
    ext k
    rw [Finmap.mem_keys, ← Finmap.lookup_isSome, toMap, Finmap.dlookup_list_toFinmap,
      List.dlookup_isSome, List.mem_toFinset]
  rw [hset, List.toFinset_card_of_nodup hb.nodup, List.keys, List.length_map]

theorem Placed.toMap_push (hb : Placed hash b) {k : κ} (v : ν) (hk : find hash b k = none) :
    Placed hash (Buckets.push hash b ⟨k, v⟩) ∧
      (Buckets.push hash b ⟨k, v⟩).toMap = b.toMap.insert k v ∧
      (Buckets.push hash b ⟨k, v⟩).flatten.length = b.flatten.length + 1 := by
  have hnot : k ∉ b.flatten.keys := by rwa [← List.dlookup_eq_none, ← hb.find_eq_dlookup]
  have hp := hb.push_perm ⟨k, v⟩
  refine ⟨hb.push hnot, ?_, by rw [hp.length_eq, List.length_cons]⟩
  refine Finmap.ext_lookup fun k' => ?_
  have hnd : ((⟨k, v⟩ : Entry κ ν) :: b.flatten).NodupKeys := by
    rw [List.nodupKeys_cons]
    exact ⟨hnot, hb.nodup⟩
  rw [toMap, Finmap.dlookup_list_toFinmap,
    List.perm_dlookup k' ((List.perm_nodupKeys hp).mpr hnd) hp]
  by_cases h : k' = k
  · subst h
    rw [List.dlookup_cons_eq, Finmap.lookup_insert]
  · rw [List.dlookup_cons_ne _ _ h, Finmap.lookup_insert_of_ne _ h, toMap,
      Finmap.dlookup_list_toFinmap]

theorem kreplace_cons_eq (k : κ) (v v' : ν) (l : List (Entry κ ν)) :
    List.kreplace k v (⟨k, v'⟩ :: l) = ⟨k, v⟩ :: l :=
  List.lookmap_cons_some _ _ (by simp)

theorem kreplace_cons_ne {k x : κ} (v v' : ν) (l : List (Entry κ ν)) (h : k ≠ x) :
    List.kreplace k v (⟨x, v'⟩ :: l) = ⟨x, v'⟩ :: List.kreplace k v l :=
  List.lookmap_cons_none _ _ (by simp [h])

theorem dlookup_kreplace {k : κ} (v : ν) {l : List (Entry κ ν)} (h : k ∈ l.keys) :
    (l.kreplace k v).dlookup k = some v := by
  induction l with
  | nil => simp at h
  | cons e l ih =>
      obtain ⟨x, v'⟩ := e
      by_cases hk : k = x
      · subst hk
        rw [kreplace_cons_eq, List.dlookup_cons_eq]
      · have hmem : k ∈ l.keys := by simpa [hk] using h
        rw [kreplace_cons_ne v v' l hk, List.dlookup_cons_ne _ _ hk, ih hmem]

theorem dlookup_kreplace_ne {k k' : κ} (v : ν) (l : List (Entry κ ν)) (h : k' ≠ k) :
    (l.kreplace k v).dlookup k' = l.dlookup k' := by
  induction l with
  | nil => rfl
  | cons e l ih =>
      obtain ⟨x, v'⟩ := e
      by_cases hk : k = x
      · subst hk
        rw [kreplace_cons_eq, List.dlookup_cons_ne _ _ h, List.dlookup_cons_ne _ _ h]
      · rw [kreplace_cons_ne v v' l hk]
        by_cases hx : k' = x
        · subst hx
          rw [List.dlookup_cons_eq, List.dlookup_cons_eq]
        · rw [List.dlookup_cons_ne _ _ hx, List.dlookup_cons_ne _ _ hx, ih]

/-- What a search finds after one chain changed. -/
theorem find_modify (hb : Placed hash b) (k k' : κ) (f : List (Entry κ ν) → List (Entry κ ν)) :
    find hash (b.modify (home hash b k) f) k' =
      if home hash b k = home hash b k'
      then (f (b.getD (home hash b k') [])).dlookup k' else find hash b k' := by
  have hlt := hb.home_lt k'
  have hhome : home hash (b.modify (home hash b k) f) k' = home hash b k' := by simp [home]
  rw [find, hhome, List.getD, List.getElem?_modify]
  simp only [find, List.getD, List.getElem?_eq_getElem hlt]
  split <;> simp

theorem Placed.toMap_replace (hb : Placed hash b) {k : κ} (v : ν) (hk : (find hash b k).isSome) :
    Placed hash (replace hash b k v) ∧ (replace hash b k v).toMap = b.toMap.insert k v ∧
      (replace hash b k v).flatten.length = b.flatten.length := by
  have hlt := hb.home_lt k
  have hkeys : (replace hash b k v).flatten.keys = b.flatten.keys := by
    rw [replace, flatten_modify _ _ hlt, flatten_eq_split _ hlt]
    simp only [List.keys_append, List.keys_kreplace]
  have hplaced : Placed hash (replace hash b k v) := by
    refine hb.modify ?_ ?_
    · intro h e he
      have hmem := List.mem_keys_of_mem he
      rw [List.keys_kreplace] at hmem
      obtain ⟨v', hv'⟩ := List.exists_of_mem_keys hmem
      exact hb.atHome _ h ⟨e.1, v'⟩ hv'
    · have := hb.nodup
      rw [List.NodupKeys, ← hkeys] at this
      exact this
  refine ⟨hplaced, ?_, ?_⟩
  · refine Finmap.ext_lookup fun k' => ?_
    rw [← hplaced.find_eq_lookup, replace, find_modify hb]
    by_cases h : k' = k
    · subst h
      rw [if_pos rfl, Finmap.lookup_insert]
      exact dlookup_kreplace v (List.dlookup_isSome.mp hk)
    · rw [Finmap.lookup_insert_of_ne _ h, ← hb.find_eq_lookup]
      split
      · rw [dlookup_kreplace_ne v _ h, find]
      · rfl
  · have := congrArg List.length hkeys
    simpa only [List.keys, List.length_map] using this

theorem Placed.toMap_unlink (hb : Placed hash b) {k : κ} (hk : (find hash b k).isSome) :
    Placed hash (unlink hash b k) ∧ (unlink hash b k).toMap = b.toMap.erase k ∧
      (unlink hash b k).flatten.length + 1 = b.flatten.length := by
  have hlt := hb.home_lt k
  have hchain : b[home hash b k].NodupKeys := by
    refine List.NodupKeys.sublist ?_ hb.nodup
    exact List.sublist_flatten_of_mem (List.getElem_mem hlt)
  have hget : b.getD (home hash b k) [] = b[home hash b k] := by simp [List.getD, hlt]
  have hplaced : Placed hash (unlink hash b k) := by
    refine hb.modify ?_ ?_
    · intro h e he
      exact hb.atHome _ h e ((List.kerase_sublist k _).subset he)
    · refine List.NodupKeys.sublist ?_ hb.nodup
      rw [flatten_modify _ _ hlt, flatten_eq_split _ hlt]
      exact ((List.kerase_sublist k _).append_right _).append_left _
  refine ⟨hplaced, ?_, ?_⟩
  · refine Finmap.ext_lookup fun k' => ?_
    rw [← hplaced.find_eq_lookup, unlink, find_modify hb]
    by_cases h : k' = k
    · subst h
      rw [if_pos rfl, Finmap.lookup_erase, hget]
      exact List.dlookup_kerase k' hchain
    · rw [Finmap.lookup_erase_ne h, ← hb.find_eq_lookup]
      split
      · rw [List.dlookup_kerase_ne h, find]
      · rfl
  · have hmem : k ∈ b[home hash b k].keys := by
      rw [find, hget] at hk
      exact List.dlookup_isSome.mp hk
    have hlen : (b[home hash b k].kerase k).length + 1 = b[home hash b k].length := by
      have h := congrArg List.length (List.keys_kerase (a := k) (l := b[home hash b k]))
      have hpos := List.length_pos_of_mem hmem
      rw [List.length_erase_of_mem hmem] at h
      simp only [List.keys, List.length_map] at h hpos
      omega
    rw [unlink, flatten_modify _ _ hlt, flatten_eq_split _ hlt]
    simp only [List.length_append]
    omega

end Map

/-! ## §4 — chains that may hold a key more than once -/

/-- Every entry is at home; a key may have several. -/
structure Housed (hash : κ → Nat) (b : Buckets κ ν) : Prop where
  pos : 0 < b.length
  atHome : ∀ i (h : i < b.length), ∀ e ∈ b[i], home hash b e.1 = i

theorem Housed.home_lt (hb : Housed hash b) (k : κ) : home hash b k < b.length :=
  Nat.mod_lt _ hb.pos

theorem Placed.housed (hb : Placed hash b) : Housed hash b := ⟨hb.pos, hb.atHome⟩

theorem Housed.push (hb : Housed hash b) (e : Entry κ ν) : Housed hash (push hash b e) := by
  refine ⟨by simpa using hb.pos, ?_⟩
  intro i hi x hx
  have hi' : i < b.length := by simpa using hi
  have hhome : home hash (Buckets.push hash b e) x.1 = home hash b x.1 := by simp [home]
  simp only [Buckets.push] at hx
  rw [List.getElem_modify] at hx
  rw [hhome]
  split at hx
  · rename_i heq
    rcases List.mem_cons.mp hx with rfl | hx
    · exact heq
    · exact hb.atHome i hi' x hx
  · exact hb.atHome i hi' x hx

section Stacks

variable [DecidableEq κ]

/-- The values of a key, from the front of its chain. -/
def stack (hash : κ → Nat) (b : Buckets κ ν) (k : κ) : List ν :=
  (b.getD (home hash b k) []).lookupAll k

/-- A search ends at the front. -/
theorem find_eq_head? (k : κ) : find hash b k = (stack hash b k).head? :=
  (List.head?_lookupAll k _).symm

theorem stack_replicate (n : Nat) (k : κ) :
    stack hash (List.replicate n [] : Buckets κ ν) k = [] := by
  have hchain : ∀ i, (List.replicate n [] : Buckets κ ν).getD i [] = [] := by
    intro i
    rw [List.getD, List.getElem?_replicate]
    split <;> rfl
  rw [stack, hchain, List.lookupAll_nil]

theorem lookupAll_append (k : κ) (l l' : List (Entry κ ν)) :
    (l ++ l').lookupAll k = l.lookupAll k ++ l'.lookupAll k := by
  induction l with
  | nil => rfl
  | cons e l ih =>
    obtain ⟨x, v⟩ := e
    by_cases hx : k = x
    · subst hx
      rw [List.cons_append, List.lookupAll_cons_eq, List.lookupAll_cons_eq, ih, List.cons_append]
    · rw [List.cons_append, List.lookupAll_cons_ne _ _ hx, List.lookupAll_cons_ne _ _ hx, ih]

/-- All entries of a key are in its home chain. -/
theorem Housed.stack_eq (hb : Housed hash b) (k : κ) : stack hash b k = b.flatten.lookupAll k := by
  have helse : ∀ l : List (Entry κ ν), (∀ e ∈ l, e.1 ≠ k) → l.lookupAll k = [] := by
    intro l hl
    rw [List.lookupAll_eq_nil]
    intro v hv
    exact hl _ hv rfl
  have hlt := hb.home_lt k
  rw [flatten_eq_split (home hash b k) hlt, lookupAll_append, lookupAll_append, helse (b.take _).flatten,
    helse (b.drop _).flatten]
  · simp [stack, List.getD, hlt]
  · intro e he hk
    obtain ⟨c, hc, hec⟩ := List.mem_flatten.mp he
    obtain ⟨i, hi, rfl⟩ := List.mem_drop_iff_getElem.mp hc
    have := hb.atHome _ _ e hec
    rw [hk] at this
    omega
  · intro e he hk
    obtain ⟨c, hc, hec⟩ := List.mem_flatten.mp he
    obtain ⟨i, hi, rfl⟩ := List.mem_take_iff_getElem.mp hc
    have := hb.atHome _ _ e hec
    rw [hk] at this
    omega

theorem Housed.stack_push (hb : Housed hash b) (x k : κ) (v : ν) :
    stack hash (Buckets.push hash b ⟨x, v⟩) k =
      if k = x then v :: stack hash b k else stack hash b k := by
  have hlt := hb.home_lt k
  have hhome : home hash (Buckets.push hash b ⟨x, v⟩) k = home hash b k := by simp [home]
  simp only [stack, hhome]
  rw [Buckets.push, List.getD, List.getElem?_modify]
  simp only [List.getD, List.getElem?_eq_getElem hlt]
  by_cases hk : k = x
  · subst hk
    simp
  · by_cases hsame : home hash b x = home hash b k
    · simp [hk, hsame]
    · simp [hk, hsame]

/-- Pushing entries one after the other turns their order around. -/
theorem Housed.foldl_push (hb : Housed hash b) (l : List (Entry κ ν)) :
    Housed hash (l.foldl (Buckets.push hash) b) ∧ (l.foldl (Buckets.push hash) b).length = b.length ∧
      ∀ k, stack hash (l.foldl (Buckets.push hash) b) k = (l.lookupAll k).reverse ++ stack hash b k := by
  induction l generalizing b with
  | nil => exact ⟨hb, rfl, fun k => rfl⟩
  | cons e l ih =>
    obtain ⟨x, v⟩ := e
    obtain ⟨hhoused, hlen, hstack⟩ := ih (hb.push ⟨x, v⟩)
    refine ⟨hhoused, hlen.trans (length_push _), fun k => ?_⟩
    rw [List.foldl_cons, hstack, hb.stack_push]
    by_cases hk : k = x
    · subst hk
      simp
    · simp [hk]

/-- **Rehashing** turns the values of every key around. -/
theorem Housed.rehash (hb : Housed hash b) {n : Nat} (hn : 0 < n) :
    Housed hash (Buckets.rehash hash n b) ∧ (Buckets.rehash hash n b).length = n ∧
      ∀ k, stack hash (Buckets.rehash hash n b) k = (stack hash b k).reverse := by
  have hempty : Placed hash (List.replicate n [] : Buckets κ ν) := placed_replicate n hn
  obtain ⟨hhoused, hlen, hstack⟩ := hempty.housed.foldl_push b.flatten
  refine ⟨hhoused, hlen.trans List.length_replicate, fun k => ?_⟩
  rw [Buckets.rehash, hstack, stack_replicate, List.append_nil, hb.stack_eq]

end Stacks

end Buckets

end Icbd.Lib
