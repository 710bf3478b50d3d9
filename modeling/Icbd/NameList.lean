/-
# Icbd.NameList — bounded name lists (`namelist.c`).

A list keeps its names most recently put first, with a cursor for `nlget`. The linked list of the
source is a list of names here; `num` is its length. Names are compared without regard to case; read
that way, a list is a bounded most-recently-used list.
-/
import Icbd.Lib.RecentList
import Icbd.Text

namespace Icbd

open Icbd.Lib

/-! ## §1 — the operations -/

/-- `NAMLIST`: the names from `head` to `tail`, the capacity and the position of `p`. -/
structure NamList where
  names : List Bytes := []
  max : Nat := 0
  cursor : Nat := 0
  deriving DecidableEq, Repr

/-- `nlcount`. -/
def NamList.count (nl : NamList) : Nat := nl.names.length

/-- `nlput`: move a known name to the front, else add it there, dropping the last one when full. -/
def nlput (nl : NamList) (name : Bytes) : NamList :=
  match nl.names.find? (strcaseEq name) with
  | some old => { nl with names := old :: nl.names.erase old, cursor := 0 }
  | none =>
      if nl.count < nl.max then { nl with names := name :: nl.names, cursor := 0 }
      else { nl with names := name :: nl.names.dropLast, cursor := 0 }

/-- `nlget`: the name under the cursor, and the list with the cursor moved on. -/
def nlget (nl : NamList) : Bytes × NamList :=
  (nl.names.getD nl.cursor [],
    { nl with cursor := if nl.cursor + 1 < nl.count then nl.cursor + 1 else 0 })

/-- `nlclear`. -/
def nlclear (nl : NamList) : NamList := { nl with names := [], cursor := 0 }

/-- `nlinit`. -/
def nlinit (max : Nat) : NamList := { names := [], max := max, cursor := 0 }

/-- `nldelete`: whether the name was there, and the list without it. -/
def nldelete (nl : NamList) (name : Bytes) : Bool × NamList :=
  match nl.names.find? (strcaseEq name) with
  | none => (false, nl)
  | some old => (true, { nl with names := nl.names.erase old, cursor := 0 })

/-- `nlpresent`. -/
def nlpresent (name : Bytes) (nl : NamList) : Bool := nl.names.any (strcaseEq name)

/-- `nlmatch`: the entries are patterns. -/
def nlmatch (name : Bytes) (nl : NamList) : Bool := nl.names.any (wildmat name)

/-- `nlget` as often as there are names. -/
def nlgetAll (nl : NamList) : List Bytes := nl.names.drop nl.cursor ++ nl.names.take nl.cursor

/-! ## §2 — up to case -/

/-- The names up to case, most recently put first. -/
def NamList.keys (nl : NamList) : List Bytes := nl.names.map lcaseit

/-- A list of capacity `k` that holds no name twice. -/
structure NamList.Sound (k : Nat) (nl : NamList) : Prop where
  nodup : nl.keys.Nodup
  max_eq : nl.max = k
  fits : nl.count ≤ k

section
variable {nl : NamList} {k : Nat} {name old : Bytes}

@[simp] theorem NamList.keys_length : nl.keys.length = nl.count := List.length_map _

theorem strcaseEq_iff {a b : Bytes} : strcaseEq a b ↔ lcaseit b = lcaseit a :=
  (beq_iff_eq).trans eq_comm

theorem nlpresent_iff : nlpresent name nl ↔ lcaseit name ∈ nl.keys := by
  simp only [nlpresent, NamList.keys, List.any_eq_true, List.mem_map, strcaseEq_iff]

theorem nlinit_sound (k : Nat) : (nlinit k).Sound k := ⟨List.nodup_nil, rfl, Nat.zero_le k⟩

theorem NamList.Sound.nlclear (h : nl.Sound k) : (nlclear nl).Sound k :=
  ⟨List.nodup_nil, h.max_eq, Nat.zero_le k⟩

/-- The entry a name is found under. -/
theorem find_strcaseEq (h : nl.names.find? (strcaseEq name) = some old) :
    old ∈ nl.names ∧ lcaseit old = lcaseit name :=
  ⟨List.mem_of_find?_eq_some h, strcaseEq_iff.mp (List.find?_some h)⟩

theorem find_strcaseEq_none : nl.names.find? (strcaseEq name) = none ↔ lcaseit name ∉ nl.keys := by
  simp only [List.find?_eq_none, NamList.keys, List.mem_map, strcaseEq_iff, not_exists, not_and]

/-- Where no two names are the same up to case, an entry goes with its key. -/
theorem map_lcaseit_erase {names : List Bytes} (hnodup : (names.map lcaseit).Nodup) (hold : old ∈ names) :
    (names.erase old).map lcaseit = (names.map lcaseit).erase (lcaseit old) := by
  induction names with
  | nil => rfl
  | cons x xs ih =>
    obtain ⟨hx, hxs⟩ := List.nodup_cons.mp hnodup
    by_cases heq : x = old
    · subst heq
      simp
    · have hmem : old ∈ xs := (List.mem_cons.mp hold).resolve_left (Ne.symm heq)
      have hkey : lcaseit x ≠ lcaseit old := fun h => hx (h ▸ List.mem_map_of_mem hmem)
      rw [List.erase_cons_tail (by simpa using heq), List.map_cons, List.map_cons,
        List.erase_cons_tail (by simpa using hkey), ih hxs hmem]

/-- **`nlput`** on the keys. -/
theorem nlput_keys (h : nl.Sound k) (hk : 0 < k) : (nlput nl name).keys = touch k nl.keys (lcaseit name) := by
  unfold nlput
  cases hfind : nl.names.find? (strcaseEq name) with
  | some old =>
    obtain ⟨hold, hkey⟩ := find_strcaseEq hfind
    have hmem : lcaseit name ∈ nl.keys := hkey ▸ List.mem_map_of_mem hold
    rw [touch_of_mem hmem (by rw [NamList.keys_length]; exact h.fits)]
    show lcaseit old :: (nl.names.erase old).map lcaseit = _
    rw [map_lcaseit_erase h.nodup hold, hkey]
    rfl
  | none =>
    have hnew : lcaseit name ∉ nl.keys := find_strcaseEq_none.mp hfind
    have hfits : nl.names.length ≤ k := h.fits
    rw [touch, List.erase_of_not_mem hnew]
    dsimp only
    split
    next hroom =>
      rw [h.max_eq] at hroom
      have hroom : nl.names.length < k := hroom
      have hlen : (lcaseit name :: nl.keys).length ≤ k := by
        rw [List.length_cons, NamList.keys_length]
        exact hroom
      exact (List.take_of_length_le hlen).symm
    next hfull =>
      rw [h.max_eq] at hfull
      have hfull : ¬ nl.names.length < k := hfull
      obtain ⟨m, rfl⟩ : ∃ m, k = m + 1 := ⟨k - 1, by omega⟩
      show lcaseit name :: nl.names.dropLast.map lcaseit = _
      rw [List.take_succ_cons, List.dropLast_eq_take, List.map_take, show nl.names.length - 1 = m by omega]
      rfl

theorem NamList.Sound.nlput (h : nl.Sound k) (hk : 0 < k) : (nlput nl name).Sound k := by
  have hkeys : (Icbd.nlput nl name).keys = _ := nlput_keys h hk
  refine ⟨hkeys ▸ touch_nodup h.nodup, ?_, ?_⟩
  · unfold Icbd.nlput
    split
    · exact h.max_eq
    · split <;> exact h.max_eq
  · rw [← NamList.keys_length, hkeys]
    exact touch_length_le

/-- What is on a list after `nlput`. -/
theorem mem_of_mem_nlput {x : Bytes} (h : x ∈ (nlput nl name).names) : x = name ∨ x ∈ nl.names := by
  unfold nlput at h
  cases hfind : nl.names.find? (strcaseEq name) with
  | some old =>
    simp only [hfind, List.mem_cons] at h
    obtain rfl | h := h
    · exact .inr (List.mem_of_find?_eq_some hfind)
    · exact .inr (List.mem_of_mem_erase h)
  | none =>
    simp only [hfind] at h
    split at h
    · exact List.mem_cons.mp h
    · exact (List.mem_cons.mp h).imp_right (List.dropLast_subset _ ·)

/-- `nldelete` says whether the name was there. -/
theorem nldelete_fst : (nldelete nl name).1 = nlpresent name nl := by
  unfold nldelete
  cases hfind : nl.names.find? (strcaseEq name) with
  | some old =>
    obtain ⟨hold, hkey⟩ := find_strcaseEq hfind
    exact (nlpresent_iff.mpr (hkey ▸ List.mem_map_of_mem hold)).symm
  | none =>
    have hnew : ¬ nlpresent name nl := fun h => find_strcaseEq_none.mp hfind (nlpresent_iff.mp h)
    exact (Bool.eq_false_iff.mpr hnew).symm

/-- **`nldelete`** on the keys. -/
theorem nldelete_keys (h : nl.keys.Nodup) : (nldelete nl name).2.keys = nl.keys.erase (lcaseit name) := by
  unfold nldelete
  cases hfind : nl.names.find? (strcaseEq name) with
  | some old =>
    obtain ⟨hold, hkey⟩ := find_strcaseEq hfind
    exact hkey ▸ map_lcaseit_erase h hold
  | none => exact (List.erase_of_not_mem (find_strcaseEq_none.mp hfind)).symm

theorem NamList.Sound.nldelete (h : nl.Sound k) : (nldelete nl name).2.Sound k := by
  have hkeys : (Icbd.nldelete nl name).2.keys = _ := nldelete_keys h.nodup
  refine ⟨hkeys ▸ h.nodup.erase _, ?_, ?_⟩
  · unfold Icbd.nldelete
    split <;> exact h.max_eq
  · rw [← NamList.keys_length, hkeys]
    exact Nat.le_trans List.length_erase_le (NamList.keys_length ▸ h.fits)

/-- A deleted name is gone. -/
theorem not_nlpresent_nldelete (h : nl.keys.Nodup) : ¬ nlpresent name (nldelete nl name).2 := by
  rw [nlpresent_iff, nldelete_keys h]
  exact h.not_mem_erase

end

/-! ## §3 — names in capitals -/

/-- A sound list of names in capitals. -/
structure NamList.Shouted (k : Nat) (nl : NamList) : Prop extends nl.Sound k where
  upper : ∀ x ∈ nl.names, ucaseit x = x

theorem upper_lower (b : UInt8) : upper (lower b) = upper b := by
  have h : ∀ n : Fin 256, upper (lower (UInt8.ofFin n)) = upper (UInt8.ofFin n) := by decide +kernel
  exact h b.toFin

theorem upper_upper (b : UInt8) : upper (upper b) = upper b := by
  have h : ∀ n : Fin 256, upper (upper (UInt8.ofFin n)) = upper (UInt8.ofFin n) := by decide +kernel
  exact h b.toFin

theorem ucaseit_lcaseit (s : Bytes) : ucaseit (lcaseit s) = ucaseit s := by
  simp only [ucaseit, lcaseit, List.map_map]
  exact List.map_congr_left fun b _ => upper_lower b

theorem ucaseit_ucaseit (s : Bytes) : ucaseit (ucaseit s) = ucaseit s := by
  simp only [ucaseit, List.map_map]
  exact List.map_congr_left fun b _ => upper_upper b

section
variable {nl : NamList} {k : Nat} {name x y : Bytes}

/-- Names in capitals are told apart by their keys. -/
theorem eq_of_lcaseit_eq (hx : ucaseit x = x) (hy : ucaseit y = y) (h : lcaseit x = lcaseit y) : x = y := by
  rw [← hx, ← hy, ← ucaseit_lcaseit x, h, ucaseit_lcaseit]

theorem nlinit_shouted (k : Nat) : (nlinit k).Shouted k := ⟨nlinit_sound k, nofun⟩

theorem NamList.Shouted.nlclear (h : nl.Shouted k) : (nlclear nl).Shouted k := ⟨h.toSound.nlclear, nofun⟩

/-- A name in capitals is found as it stands. -/
theorem NamList.Shouted.nlpresent_iff (h : nl.Shouted k) (hname : ucaseit name = name) :
    nlpresent name nl ↔ name ∈ nl.names := by
  rw [Icbd.nlpresent_iff, NamList.keys, List.mem_map]
  refine ⟨fun ⟨old, hold, hkey⟩ => ?_, fun hmem => ⟨name, hmem, rfl⟩⟩
  exact eq_of_lcaseit_eq (h.upper old hold) hname hkey ▸ hold

theorem NamList.Shouted.find_eq (h : nl.Shouted k) (hname : ucaseit name = name) (hmem : name ∈ nl.names) :
    nl.names.find? (strcaseEq name) = some name := by
  obtain ⟨old, hfind⟩ : ∃ old, nl.names.find? (strcaseEq name) = some old :=
    Option.isSome_iff_exists.mp (List.find?_isSome.mpr ⟨name, hmem, strcaseEq_refl name⟩)
  obtain ⟨hold, hkey⟩ := find_strcaseEq hfind
  rw [hfind, eq_of_lcaseit_eq (h.upper old hold) hname hkey]

theorem NamList.Shouted.find_none (h : nl.Shouted k) (hname : ucaseit name = name) (hmem : name ∉ nl.names) :
    nl.names.find? (strcaseEq name) = none :=
  find_strcaseEq_none.mpr fun hkey => hmem ((h.nlpresent_iff hname).mp (Icbd.nlpresent_iff.mpr hkey))

theorem NamList.Shouted.names_nodup (h : nl.Shouted k) : nl.names.Nodup := h.nodup.of_map

/-- A name is put on a list with room for it. -/
theorem NamList.Shouted.mem_nlput (h : nl.Shouted k) (hname : ucaseit name = name)
    (hroom : name ∈ nl.names ∨ nl.count < k) : x ∈ (nlput nl name).names ↔ x = name ∨ x ∈ nl.names := by
  by_cases hmem : name ∈ nl.names
  · simp only [nlput, h.find_eq hname hmem, List.mem_cons]
    by_cases hx : x = name
    · simp [hx]
    · simp [hx, List.mem_erase_of_ne hx]
  · have hlt : nl.count < nl.max := h.max_eq ▸ hroom.resolve_left hmem
    simp only [nlput, h.find_none hname hmem, hlt, ↓reduceIte, List.mem_cons]

/-- A name is taken off a list. -/
theorem NamList.Shouted.mem_nldelete (h : nl.Shouted k) (hname : ucaseit name = name) :
    x ∈ (nldelete nl name).2.names ↔ x ≠ name ∧ x ∈ nl.names := by
  by_cases hmem : name ∈ nl.names
  · simp only [nldelete, h.find_eq hname hmem]
    exact h.names_nodup.mem_erase_iff
  · simp only [nldelete, h.find_none hname hmem]
    exact ⟨fun hx => ⟨fun heq => hmem (heq ▸ hx), hx⟩, And.right⟩

theorem NamList.Shouted.nlput (h : nl.Shouted k) (hk : 0 < k) (hname : ucaseit name = name) :
    (nlput nl name).Shouted k := by
  refine ⟨h.toSound.nlput hk, fun x hx => ?_⟩
  obtain rfl | hx := mem_of_mem_nlput hx
  · exact hname
  · exact h.upper x hx

theorem NamList.Shouted.nldelete (h : nl.Shouted k) (hname : ucaseit name = name) :
    (nldelete nl name).2.Shouted k :=
  ⟨h.toSound.nldelete, fun _ hx => h.upper _ ((h.mem_nldelete hname).mp hx).2⟩

end

/-! ## §4 — lists that are gone through -/

/-- A list of names that are not empty, with its cursor on one of them if there is any. -/
structure NamList.Live (nl : NamList) : Prop where
  named : [] ∉ nl.names
  cursor : nl.names = [] ∨ nl.cursor < nl.count

section
variable {nl : NamList} {name : Bytes}

theorem NamList.Live.nil {max cursor : Nat} : (NamList.mk [] max cursor).Live := ⟨List.not_mem_nil, .inl rfl⟩

theorem NamList.Live.nlput (h : nl.Live) (hname : name ≠ []) : (nlput nl name).Live := by
  refine ⟨fun hmem => ?_, .inr ?_⟩
  · obtain heq | hmem := mem_of_mem_nlput hmem
    · exact hname heq.symm
    · exact h.named hmem
  · unfold Icbd.nlput
    split
    · exact Nat.succ_pos _
    · split <;> exact Nat.succ_pos _

theorem NamList.Live.nldelete (h : nl.Live) : (nldelete nl name).2.Live := by
  unfold Icbd.nldelete
  split
  · exact h
  · refine ⟨fun hmem => h.named (List.mem_of_mem_erase hmem), ?_⟩
    rw [or_iff_not_imp_left]
    exact List.length_pos_iff.mpr

/-- What `nlget` finds is on the list, and the cursor stays on it. -/
theorem NamList.Live.nlget (h : nl.Live) :
    (nlget nl).2.names = nl.names ∧ (nlget nl).2.Live ∧ (nl.names ≠ [] → (nlget nl).1 ∈ nl.names) := by
  refine ⟨rfl, ⟨h.named, ?_⟩, fun hne => ?_⟩
  · obtain hnil | hlt := h.cursor
    · exact .inl hnil
    · refine .inr ?_
      simp only [Icbd.nlget]
      split
      · assumption
      · exact Nat.zero_lt_of_lt hlt
  · have hlt := h.cursor.resolve_left hne
    show nl.names.getD nl.cursor [] ∈ nl.names
    rw [List.getD_eq_getElem?_getD, List.getElem?_eq_getElem hlt]
    exact List.getElem_mem hlt

/-- A deleted name takes one entry with it. -/
theorem nldelete_count (h : name ∈ nl.names) : (nldelete nl name).2.count + 1 = nl.count := by
  unfold nldelete
  cases hfind : nl.names.find? (strcaseEq name) with
  | none => exact absurd (List.mem_map_of_mem h) (find_strcaseEq_none.mp hfind)
  | some old =>
    have hold := List.mem_of_find?_eq_some hfind
    show (nl.names.erase old).length + 1 = nl.names.length
    rw [List.length_erase_of_mem hold]
    have hpos := List.length_pos_of_mem hold
    omega

/-- The names from the cursor round are the one returned and those from the next position, with the one
returned at the end. -/
theorem nlgetAll_step (h : nl.cursor < nl.names.length) :
    ∃ rest, nlgetAll nl = (nlget nl).1 :: rest ∧
      nlgetAll (nlget nl).2 = rest ++ [(nlget nl).1] := by
  have hget : (nlget nl).1 = nl.names[nl.cursor] := by
    simp [nlget, List.getElem?_eq_getElem h]
  have htake : nl.names.take (nl.cursor + 1) = nl.names.take nl.cursor ++ [nl.names[nl.cursor]] := by
    rw [List.take_succ_eq_append_getElem h]
  refine ⟨nl.names.drop (nl.cursor + 1) ++ nl.names.take nl.cursor, ?_, ?_⟩
  · rw [nlgetAll, hget, List.drop_eq_getElem_cons h, List.cons_append]
  · rw [hget, nlgetAll]
    show nl.names.drop (if nl.cursor + 1 < nl.names.length then nl.cursor + 1 else 0) ++
      nl.names.take (if nl.cursor + 1 < nl.names.length then nl.cursor + 1 else 0) = _
    by_cases hmore : nl.cursor + 1 < nl.names.length
    · rw [if_pos hmore, htake, List.append_assoc]
    · have hend : nl.names.drop (nl.cursor + 1) = [] := List.drop_eq_nil_of_le (by omega)
      have hall : nl.names.take (nl.cursor + 1) = nl.names := List.take_of_length_le (by omega)
      rw [if_neg hmore, List.drop_zero, List.take_zero, List.append_nil, hend, List.nil_append,
        ← htake, hall]

theorem nlgetAll_perm (nl : NamList) : (nlgetAll nl).Perm nl.names := by
  rw [nlgetAll]
  exact List.perm_append_comm.trans (by rw [List.take_append_drop])

end

end Icbd
