/-
# Icbd.Lib.OrderedDict — dictionaries that keep the order of their keys.

A key that is set again keeps its place, a new one goes behind the others. The items are a list in which no
key stands twice; two dictionaries hold the same when every key finds the same.
-/
import Mathlib.Data.Finmap
import Mathlib.Data.List.Nodup

namespace Icbd.Lib

universe u v

variable {α : Type u} {β : Type v}

/-- The items, in the order in which their keys were first set. -/
structure OrderedDict (α : Type u) (β : Type v) where
  items : List (α × β)
  nodup : (items.map Prod.fst).Nodup

namespace OrderedDict

@[ext]
theorem ext {d d' : OrderedDict α β} (h : d.items = d'.items) : d = d' := by
  cases d with
  | mk items _ =>
    cases d' with
    | mk items' _ =>
      cases h
      rfl

/-- No items. -/
def empty : OrderedDict α β := ⟨[], List.nodup_nil⟩

variable [DecidableEq α]

/-! ## §1 — setting and getting -/

/-- The value of a key. -/
def get? (d : OrderedDict α β) (k : α) : Option β := (d.items.find? fun i => i.1 = k).map Prod.snd

/-- A key is set. -/
def set (d : OrderedDict α β) (k : α) (v : β) : OrderedDict α β :=
  if h : k ∈ d.items.map Prod.fst then
    { items := d.items.map fun i => if i.1 = k then (k, v) else i
      nodup := by
        have hkeys : (d.items.map fun i => if i.1 = k then (k, v) else i).map Prod.fst =
            d.items.map Prod.fst := by
          rw [List.map_map]
          apply List.map_congr_left
          intro i _
          show (if i.1 = k then (k, v) else i).1 = i.1
          split
          · exact (‹i.1 = k›).symm
          · rfl
        rw [hkeys]
        exact d.nodup }
  else
    { items := d.items ++ [(k, v)]
      nodup := by
        rw [List.map_append]
        exact List.Nodup.append d.nodup (List.nodup_singleton k) (by simpa using h) }

variable {d d' : OrderedDict α β} {k k' : α} {v : β}

@[simp] theorem get?_empty : (empty : OrderedDict α β).get? k = none := rfl

/-- A key finds the one item it is in. -/
theorem get?_eq_some_iff : d.get? k = some v ↔ (k, v) ∈ d.items := by
  constructor
  · intro h
    obtain ⟨i, hi, rfl⟩ := Option.map_eq_some_iff.mp h
    obtain rfl : i.1 = k := by simpa using List.find?_some hi
    exact List.mem_of_find?_eq_some hi
  · intro h
    cases hfind : d.items.find? fun i => i.1 = k with
    | none => exact absurd (decide_eq_true rfl) (List.find?_eq_none.mp hfind _ h)
    | some i =>
      have hi : i.1 = k := by simpa using List.find?_some hfind
      have hsame : i = (k, v) := List.inj_on_of_nodup_map d.nodup (List.mem_of_find?_eq_some hfind) h hi
      rw [get?, hfind, Option.map_some, hsame]

theorem set_new (h : k ∉ d.items.map Prod.fst) : (d.set k v).items = d.items ++ [(k, v)] := by
  rw [set, dif_neg h]

/-- **Setting and getting.** -/
theorem get?_set : (d.set k v).get? k' = if k' = k then some v else d.get? k' := by
  by_cases hk : k ∈ d.items.map Prod.fst
  · have hitems : (d.set k v).items = d.items.map fun i => if i.1 = k then (k, v) else i := by
      rw [set, dif_pos hk]
    by_cases heq : k' = k
    · subst heq
      rw [if_pos rfl, get?_eq_some_iff, hitems, List.mem_map]
      obtain ⟨i, hi, hik⟩ := List.mem_map.mp hk
      exact ⟨i, hi, if_pos hik⟩
    · rw [if_neg heq]
      apply Option.ext
      intro x
      rw [get?_eq_some_iff, get?_eq_some_iff, hitems, List.mem_map]
      constructor
      · rintro ⟨i, hi, hix⟩
        split at hix
        · exact absurd (congrArg Prod.fst hix).symm heq
        · rwa [← hix]
      · intro hx
        exact ⟨(k', x), hx, if_neg heq⟩
  · by_cases heq : k' = k
    · subst heq
      rw [if_pos rfl, get?_eq_some_iff, set_new hk]
      exact List.mem_append_right _ List.mem_cons_self
    · rw [if_neg heq]
      apply Option.ext
      intro x
      rw [get?_eq_some_iff, get?_eq_some_iff, set_new hk, List.mem_append, List.mem_singleton]
      constructor
      · rintro (hx | hx)
        · exact hx
        · exact absurd (congrArg Prod.fst hx) heq
      · exact .inl

/-- A key is deleted. -/
def erase (d : OrderedDict α β) (k : α) : OrderedDict α β where
  items := d.items.filter fun i => i.1 ≠ k
  nodup := d.nodup.sublist (List.filter_sublist.map Prod.fst)

/-- **Deleting and getting.** -/
theorem get?_erase : (d.erase k).get? k' = if k' = k then none else d.get? k' := by
  apply Option.ext
  intro x
  rw [get?_eq_some_iff, erase, List.mem_filter]
  by_cases heq : k' = k
  · simp [heq]
  · rw [if_neg heq, get?_eq_some_iff]
    simp [heq]

/-! ## §2 — many items -/

/-- Items are set one after the other. -/
def setAll (d : OrderedDict α β) (items : List (α × β)) : OrderedDict α β :=
  items.foldl (fun d i => d.set i.1 i.2) d

/-- New items with different keys go behind the others. -/
theorem items_setAll {items : List (α × β)} (h : ((d.items ++ items).map Prod.fst).Nodup) :
    (d.setAll items).items = d.items ++ items := by
  induction items generalizing d with
  | nil => exact (List.append_nil _).symm
  | cons i items ih =>
    have hnew : i.1 ∉ d.items.map Prod.fst := by
      rw [List.map_append] at h
      exact fun hmem => (List.nodup_append'.mp h).2.2 hmem List.mem_cons_self
    have hset : (d.set i.1 i.2).items = d.items ++ [i] := set_new hnew
    have hrest : (((d.set i.1 i.2).items ++ items).map Prod.fst).Nodup := by
      rwa [hset, List.append_assoc, List.singleton_append]
    show ((d.set i.1 i.2).setAll items).items = _
    rw [ih hrest, hset, List.append_assoc, List.singleton_append]

/-- **The items of a dictionary make it again.** -/
theorem setAll_items (d : OrderedDict α β) : empty.setAll d.items = d :=
  ext (items_setAll (d := empty) d.nodup)

/-- What every item has, every item of the dictionary they make has. -/
theorem forall_setAll {p : α → β → Prop} (items : List (α × β)) (hd : ∀ i ∈ d.items, p i.1 i.2)
    (h : ∀ i ∈ items, p i.1 i.2) : ∀ i ∈ (d.setAll items).items, p i.1 i.2 := by
  induction items generalizing d with
  | nil => exact hd
  | cons i items ih =>
    apply ih
    · rintro ⟨k, x⟩ hmem
      have hget := get?_eq_some_iff.mpr hmem
      rw [get?_set] at hget
      split at hget
      next heq =>
        obtain rfl := heq
        obtain rfl := Option.some.inj hget
        exact h i List.mem_cons_self
      next => exact hd _ (get?_eq_some_iff.mp hget)
    · exact fun j hj => h j (List.mem_cons_of_mem i hj)

/-! ## §3 — the map -/

/-- The dictionary without the order. -/
def toMap (d : OrderedDict α β) : Finmap fun _ : α => β :=
  d.items.foldl (fun m i => m.insert i.1 i.2) ∅

theorem lookup_toMap (d : OrderedDict α β) (k : α) : d.toMap.lookup k = d.get? k := by
  have hfold (items : List (α × β)) (h : (items.map Prod.fst).Nodup) (m : Finmap fun _ : α => β) :
      (items.foldl (fun m i => m.insert i.1 i.2) m).lookup k =
        ((items.find? fun i => i.1 = k).map Prod.snd).or (m.lookup k) := by
    induction items generalizing m with
    | nil => rfl
    | cons i items ih =>
      obtain ⟨hi, hitems⟩ := List.nodup_cons.mp h
      rw [List.foldl_cons, ih hitems, List.find?_cons]
      by_cases hk : i.1 = k
      · subst hk
        have hnone : items.find? (fun j => j.1 = i.1) = none := by
          rw [List.find?_eq_none]
          intro j hj heq
          exact hi (List.mem_map.mpr ⟨j, hj, by simpa using heq⟩)
        rw [decide_eq_true rfl, hnone, Finmap.lookup_insert]
        rfl
      · rw [decide_eq_false hk, Finmap.lookup_insert_of_ne _ (Ne.symm hk)]
  rw [toMap, hfold d.items d.nodup, Finmap.lookup_empty, Option.or_none]
  rfl

/-- The maps are one when every key finds the same. -/
theorem toMap_eq_iff : d.toMap = d'.toMap ↔ ∀ k, d.get? k = d'.get? k := by
  constructor
  · intro h k
    rw [← lookup_toMap, h, lookup_toMap]
  · intro h
    apply Finmap.ext_lookup
    intro k
    rw [lookup_toMap, lookup_toMap, h]

theorem toMap_set (d : OrderedDict α β) (k : α) (v : β) : (d.set k v).toMap = d.toMap.insert k v := by
  apply Finmap.ext_lookup
  intro k'
  rw [lookup_toMap, get?_set]
  by_cases hk : k' = k
  · subst hk
    rw [if_pos rfl, Finmap.lookup_insert]
  · rw [if_neg hk, Finmap.lookup_insert_of_ne _ hk, lookup_toMap]

end OrderedDict

end Icbd.Lib
