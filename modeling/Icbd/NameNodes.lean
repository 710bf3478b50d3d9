/-
# Icbd.NameNodes — name lists with their nodes in memory (`namelist.c` over `strlist.c`).

`Icbd.NameList` has the names of a list and a position; here are the nodes, the cursor `p` that points at
one of them, `malloc` and `free`. A null or dangling pointer that is followed ends the run. `Shows` connects
the two: the run on nodes does what the run on names does, and the cursor always is where the position says.
-/
import Icbd.NameList
import Icbd.StrList
import Mathlib.Data.List.Find

namespace Icbd

open Icbd.Lib Icbd.Lib.LinkedList

variable {P : Type} [DecidableEq P]

/-! ## §1 — the operations -/

/-- `NAMLIST`. -/
structure NameNodes (P : Type) where
  list : StrList P
  p : Option P := none
  num : Int := 0
  max : Int

namespace NameNodes

/-- `nlinit`. -/
def nlinit (m : Memory P Bytes) (max : Int) : NameNodes P := { list := { mem := m }, max }

/-- The end of `nlput` for a new name: a node is allocated, filled and put in front. -/
def add (A : Memory.Allocator P Bytes) (name : Bytes) (n : NameNodes P) : Option (NameNodes P) := do
  let sp := A.new n.list.mem name
  let l ← strlinkhead (some sp.1) { n.list with mem := sp.2 }
  return { n with list := l, num := n.num + 1, p := l.head }

/-- `nlput`. -/
def nlput (A : Memory.Allocator P Bytes) (name : Bytes) (n : NameNodes P) : Option (NameNodes P) := do
  let sp ← n.list.mem.seek (fun c => strcaseEq name c.val) n.list.head
  if sp ≠ none then
    let l ← strunlink sp n.list
    let l ← strlinkhead sp l
    return { n with list := l, p := l.head }
  else if n.num < n.max then
    add A name n
  else
    let sp := n.list.tail
    let l ← strunlink sp n.list
    let m ← l.mem.free sp
    add A name { n with list := { l with mem := m }, num := n.num - 1 }

/-- `nlget`. -/
def nlget (n : NameNodes P) : Option (Bytes × NameNodes P) := do
  let c ← n.list.mem.read n.p
  return (c.val, { n with p := if c.next = none then n.list.head else c.next })

/-- `nlclear`. -/
def nlclear (n : NameNodes P) : Option (NameNodes P) := do
  let m ← Memory.freeFrom n.list.mem.keys.card n.list.head n.list.mem
  return { n with num := 0, p := none, list := { mem := m } }

/-- `nldelete`. -/
def nldelete (name : Bytes) (n : NameNodes P) : Option (Int × NameNodes P) := do
  let namep ← strgetnode name n.list.head n.list.mem
  if namep = none then return (-1, n)
  else
    let l ← strunlink namep n.list
    let m ← l.mem.free namep
    let n := { n with list := { l with mem := m }, p := l.head }
    if n.num > 0 then
      let n := { n with num := n.num - 1 }
      return (0, if n.num = 0 then { n with p := none } else n)
    else return (0, n)

/-- `nlpresent`. -/
def nlpresent (name : Bytes) (n : NameNodes P) : Option Bool :=
  if n.num > 0 then (strgetnode name n.list.head n.list.mem).map Option.isSome
  else some false

/-- So many calls of `nlget`, and what they return. -/
def nlgets : Nat → NameNodes P → Option (List Bytes × NameNodes P)
  | 0, n => some ([], n)
  | k + 1, n => do
      let (s, n) ← n.nlget
      let (ss, n) ← nlgets k n
      return (s :: ss, n)

/-! ## §2 — nodes and names -/

/-- The list is well formed, and the names in its nodes are these. -/
def Names (n : NameNodes P) (names : List Bytes) : Prop :=
  ∃ ps, n.list.Represents ps ∧ ps.map (strOf n.list.mem) = names

/-- **The nodes show the list of names**: the same names, and a cursor that points at the node at the
position, or nowhere when there is none. -/
structure Shows (n : NameNodes P) (nl : NamList) : Prop where
  nodes : ∃ ps, n.list.Represents ps ∧ ps.map (strOf n.list.mem) = nl.names ∧ n.p = ps[nl.cursor]?
  num : n.num = nl.names.length
  max : n.max = nl.max
  cursor : nl.names = [] ∨ nl.cursor < nl.names.length

section
variable {n : NameNodes P} {nl : NamList} {name : Bytes} {ps : List P}

theorem shows_nlinit (m : Memory P Bytes) (max : Nat) : (nlinit m max).Shows (Icbd.nlinit max) :=
  ⟨⟨[], represents_nil m, rfl, rfl⟩, rfl, rfl, Or.inl rfl⟩

theorem strOf_relinked {m m' : Memory P Bytes} {changed : List P}
    (h : Memory.Relinked changed m m') : strOf m' = strOf m := by
  funext p
  rw [strOf, strOf, h.val]

theorem strOf_congr {m m' : Memory P Bytes} (h : ∀ p ∈ ps, m'.lookup p = m.lookup p) :
    ps.map (strOf m') = ps.map (strOf m) := by
  apply List.map_congr_left
  intro p hp
  rw [strOf, strOf, Memory.val, Memory.val, h p hp]

/-- **A search through the nodes is a search through the names.** Either no name is found, or the list
comes apart at the first node that has it. -/
theorem seek_names {l : StrList P} (h : l.Represents ps) (name : Bytes) :
    (l.mem.seek (fun c => strcaseEq name c.val) l.head = some none ∧
      (ps.map (strOf l.mem)).find? (strcaseEq name) = none) ∨
    ∃ xs i ys, ps = xs ++ i :: ys ∧
      l.mem.seek (fun c => strcaseEq name c.val) l.head = some (some i) ∧
      (ps.map (strOf l.mem)).find? (strcaseEq name) = some (strOf l.mem i) ∧
      strOf l.mem i ∉ xs.map (strOf l.mem) := by
  have hseek : l.mem.seek (fun c => strcaseEq name c.val) l.head =
      some (ps.find? (strcaseEq name ∘ strOf l.mem)) := by
    rw [h.head, Memory.seek_eq h.linked h.nodup]
    congr 1
    apply List.find?_congr
    intro p hp
    obtain ⟨c, hc⟩ := h.linked.lookup hp
    rw [hc, Function.comp_apply, strOf_eq hc, Option.any_some]
  rw [hseek, List.find?_map]
  cases hfind : ps.find? (strcaseEq name ∘ strOf l.mem) with
  | none => exact Or.inl ⟨rfl, rfl⟩
  | some i =>
      right
      obtain ⟨hi, xs, ys, rfl, hxs⟩ := List.find?_eq_some_iff_append.mp hfind
      refine ⟨xs, i, ys, rfl, rfl, rfl, ?_⟩
      intro hmem
      obtain ⟨x, hx, heq⟩ := List.mem_map.mp hmem
      have hno := hxs x hx
      rw [Function.comp_apply, heq] at hno
      rw [Function.comp_apply] at hi
      simp [hi] at hno

omit [DecidableEq P] in
/-- The names without the one that was found. -/
theorem erase_found {f : P → Bytes} {xs ys : List P} {i : P} (hi : f i ∉ xs.map f) :
    ((xs ++ i :: ys).map f).erase (f i) = (xs ++ ys).map f := by
  rw [List.map_append, List.map_cons, List.erase_append_right _ hi, List.erase_cons_head,
    List.map_append]

/-! ## §3 — one operation -/

/-- **A new node** in front. -/
theorem add_spec (A : Memory.Allocator P Bytes) (name : Bytes) {n : NameNodes P}
    (h : n.list.Represents ps) :
    ∃ n' a, n.add A name = some n' ∧ n'.list.Represents (a :: ps) ∧
      (a :: ps).map (strOf n'.list.mem) = name :: ps.map (strOf n.list.mem) ∧ n'.p = some a ∧
      n'.num = n.num + 1 ∧ n'.max = n.max := by
  have hfresh := A.fresh n.list.mem
  have ha : A.address n.list.mem ∉ ps := by
    intro hmem
    obtain ⟨c, hc⟩ := h.linked.lookup hmem
    rw [hc] at hfresh
    cases hfresh
  have hsame : ∀ p ∈ ps, (A.new n.list.mem name).2.lookup p = n.list.mem.lookup p := by
    intro p hp
    exact Memory.lookup_set_ne fun heq => ha (heq ▸ hp)
  obtain ⟨l, hl, hr, hrel⟩ := strlinkhead_spec (h.congr hsame) ha (Memory.lookup_set _ _ _)
  refine ⟨{ n with list := l, num := n.num + 1, p := l.head }, _, ?_, hr, ?_, hr.head, rfl, rfl⟩
  · simp only [add, Memory.Allocator.new] at hl ⊢
    rw [hl]
    rfl
  · rw [strOf_relinked hrel, List.map_cons]
    congr 1
    · exact strOf_eq (Memory.lookup_set _ _ _)
    · exact strOf_congr hsame

/-- A member moved to the front, or taken out and freed. -/
theorem unlink_spec {l : StrList P} {xs ys : List P} {i : P} (h : l.Represents (xs ++ i :: ys)) :
    (∃ l', (strunlink (some i) l).bind (strlinkhead (some i)) = some l' ∧
      l'.Represents (i :: (xs ++ ys)) ∧ strOf l'.mem = strOf l.mem) ∧
    ∃ l' m, strunlink (some i) l = some l' ∧ l'.mem.free (some i) = some m ∧
      { l' with mem := m }.Represents (xs ++ ys) ∧
      (xs ++ ys).map (strOf m) = (xs ++ ys).map (strOf l.mem) := by
  obtain ⟨l₁, hl₁, hr₁, hrel₁⟩ := strunlink_spec h
  obtain ⟨⟨c, hc, -⟩, hixs, hiys⟩ := h.cell
  have hi : i ∉ xs ++ ys := by
    rw [List.mem_append]
    rintro (hx | hy)
    · exact hixs hx
    · exact hiys hy
  -- the node keeps its string, so it is still there
  obtain ⟨d, hd⟩ : ∃ d, l₁.mem.lookup i = some d := by
    have hval : l₁.mem.val i = some c.val := by
      rw [hrel₁.val, Memory.val, hc]
      rfl
    obtain ⟨d, hd, -⟩ := Option.map_eq_some_iff.mp hval
    exact ⟨d, hd⟩
  constructor
  · obtain ⟨l₂, hl₂, hr₂, hrel₂⟩ := strlinkhead_spec hr₁ hi hd
    refine ⟨l₂, ?_, hr₂, (strOf_relinked hrel₂).trans (strOf_relinked hrel₁)⟩
    rw [hl₁, Option.bind_some, hl₂]
  · have hsame : ∀ p ∈ xs ++ ys, (l₁.mem.remove i).lookup p = l₁.mem.lookup p := by
      intro p hp
      exact Memory.lookup_remove_ne fun heq => hi (heq ▸ hp)
    refine ⟨l₁, l₁.mem.remove i, hl₁, Memory.free_some hd, hr₁.congr hsame, ?_⟩
    rw [strOf_congr hsame, strOf_relinked hrel₁]

/-- **`nlput`.** -/
theorem Shows.nlput (A : Memory.Allocator P Bytes) (h : n.Shows nl) (hmax : 0 < nl.max)
    (name : Bytes) : ∃ n', n.nlput A name = some n' ∧ n'.Shows (Icbd.nlput nl name) := by
  obtain ⟨⟨ps, hr, hnames, hp⟩, hnum, hmaxn, hcur⟩ := h
  unfold NameNodes.nlput Icbd.nlput
  rcases seek_names hr name with ⟨hseek, hfind⟩ | ⟨xs, i, ys, rfl, hseek, hfind, hi⟩
  · rw [hnames] at hfind
    simp only [hseek, hfind, Option.bind_eq_bind, Option.bind_some, ne_eq, not_true_eq_false, if_false]
    by_cases hroom : nl.count < nl.max
    · -- there is room
      have hlt : n.num < n.max := by
        rw [hnum, hmaxn]
        exact_mod_cast hroom
      obtain ⟨n', a, hadd, hr', hnames', hp', hnum', hmax'⟩ := add_spec A name hr
      rw [if_pos hlt, if_pos hroom]
      refine ⟨n', hadd, ⟨a :: ps, hr', by rw [hnames', hnames], hp'⟩, ?_, ?_, Or.inr (Nat.succ_pos _)⟩
      · rw [hnum', hnum]
        simp
      · rw [hmax', hmaxn]
    · -- the list is full: its tail goes
      have hge : ¬ n.num < n.max := by
        rw [hnum, hmaxn]
        exact_mod_cast hroom
      have hne : ps ≠ [] := by
        rintro rfl
        rw [← show nl.names.length = nl.count from rfl, ← hnames] at hroom
        exact hroom hmax
      obtain ⟨xs, z, rfl⟩ := (List.eq_nil_or_concat' ps).resolve_left hne
      have htail : n.list.tail = some z := by rw [hr.tail, List.getLast?_concat]
      obtain ⟨-, l, m, hl, hm, hr₁, hsame⟩ := unlink_spec hr
      rw [List.append_nil] at hr₁ hsame
      obtain ⟨n', a, hadd, hr', hnames', hp', hnum', hmax'⟩ :=
        add_spec A name (n := { n with list := { l with mem := m }, num := n.num - 1 }) hr₁
      have hdrop : nl.names.dropLast = xs.map (strOf n.list.mem) := by
        rw [← hnames, List.map_append, List.map_singleton, List.dropLast_concat]
      have hlen : (xs ++ [z]).length = nl.names.length := by rw [← hnames, List.length_map]
      rw [if_neg hge, if_neg hroom]
      simp only [htail, hl, hm, Option.bind_some]
      refine ⟨n', hadd, ⟨a :: xs, hr', ?_, hp'⟩, ?_, ?_, Or.inr (Nat.succ_pos _)⟩
      · rw [hnames', hsame, hdrop]
      · rw [hnum']
        simp only [hnum, hdrop, List.length_cons, List.length_map]
        rw [List.length_append, List.length_singleton] at hlen
        omega
      · rw [hmax', hmaxn]
  · -- the name is known
    rw [hnames] at hfind
    obtain ⟨⟨l, hl, hr', hstr⟩, -⟩ := unlink_spec hr
    simp only [hseek, hfind, Option.bind_eq_bind, Option.bind_some, ne_eq, reduceCtorEq,
      not_false_eq_true, if_true]
    have herase : nl.names.erase (strOf n.list.mem i) = (xs ++ ys).map (strOf n.list.mem) := by
      rw [← hnames, erase_found hi]
    rw [Option.bind_eq_some_iff] at hl
    obtain ⟨l₁, hl₁, hl₂⟩ := hl
    refine ⟨{ n with list := l, p := l.head }, ?_, ⟨i :: (xs ++ ys), hr', ?_, hr'.head⟩, ?_, hmaxn,
      Or.inr (Nat.succ_pos _)⟩
    · simp only [hl₁, hl₂, Option.bind_some]
      rfl
    · rw [hstr, List.map_cons, herase]
    · show n.num = _
      rw [hnum, herase, ← hnames]
      simp only [List.length_map, List.length_append, List.length_cons]
      omega

/-- **`nldelete`.** -/
theorem Shows.nldelete (h : n.Shows nl) (name : Bytes) :
    ∃ r n', n.nldelete name = some (r, n') ∧ n'.Shows (Icbd.nldelete nl name).2 := by
  have hshows := h
  obtain ⟨⟨ps, hr, hnames, hp⟩, hnum, hmaxn, hcur⟩ := h
  unfold NameNodes.nldelete Icbd.nldelete strgetnode
  rcases seek_names hr name with ⟨hseek, hfind⟩ | ⟨xs, i, ys, rfl, hseek, hfind, hi⟩
  · rw [hnames] at hfind
    simp only [hseek, hfind, Option.bind_eq_bind, Option.bind_some, if_true]
    exact ⟨-1, n, rfl, hshows⟩
  · rw [hnames] at hfind
    obtain ⟨-, l, m, hl, hm, hr₁, hsame⟩ := unlink_spec hr
    have herase : nl.names.erase (strOf n.list.mem i) = (xs ++ ys).map (strOf n.list.mem) := by
      rw [← hnames, erase_found hi]
    have hlen : n.num = ((xs ++ ys).length : Int) + 1 := by
      rw [hnum, ← hnames]
      simp only [List.length_map, List.length_append, List.length_cons]
      omega
    have hpos : n.num > 0 := by omega
    simp only [hseek, hfind, Option.bind_eq_bind, Option.bind_some, reduceCtorEq, if_false, hl, hm,
      hpos, if_true]
    refine ⟨0, _, rfl, ⟨xs ++ ys, ?_, ?_, ?_⟩, ?_, ?_, ?_⟩
    · split <;> exact hr₁
    · rw [herase]
      split <;> exact hsame
    · split
      · -- the last one is gone, and `p` is null
        rename_i hzero
        have hnil : xs ++ ys = [] := by
          have hzero : n.num - 1 = 0 := hzero
          exact List.length_eq_zero_iff.mp (by omega)
        rw [hnil]
        rfl
      · rw [show (Icbd.NamList.mk _ _ 0).cursor = 0 from rfl, ← List.head?_eq_getElem?]
        exact hr₁.head
    · split <;> simp only [herase, List.length_map] <;> omega
    · split <;> exact hmaxn
    · rw [or_iff_not_imp_left]
      exact List.length_pos_iff.mpr

/-- **`nlclear`.** -/
theorem Shows.nlclear (h : n.Shows nl) : ∃ n', n.nlclear = some n' ∧ n'.Shows (Icbd.nlclear nl) := by
  obtain ⟨⟨ps, hr, hnames, hp⟩, hnum, hmaxn, hcur⟩ := h
  obtain ⟨m, hm⟩ := Memory.freeFrom_eq hr.linked hr.nodup (hr.linked.length_le hr.nodup)
  rw [← hr.head] at hm
  refine ⟨{ n with num := 0, p := none, list := { mem := m } }, ?_,
    ⟨[], represents_nil m, rfl, rfl⟩, rfl, hmaxn, Or.inl rfl⟩
  simp only [NameNodes.nlclear, hm, Option.bind_eq_bind, Option.bind_some]
  rfl

/-- **`nlpresent`.** -/
theorem Shows.nlpresent (h : n.Shows nl) (name : Bytes) :
    n.nlpresent name = some (Icbd.nlpresent name nl) := by
  obtain ⟨⟨ps, hr, hnames, hp⟩, hnum, hmaxn, hcur⟩ := h
  have hfound : Icbd.nlpresent name nl = (nl.names.find? (strcaseEq name)).isSome := by
    rw [Icbd.nlpresent, List.isSome_find?]
  unfold NameNodes.nlpresent strgetnode
  by_cases hzero : n.num > 0
  · rw [if_pos hzero, hfound, ← hnames]
    rcases seek_names hr name with ⟨hseek, hfind⟩ | ⟨xs, i, ys, rfl, hseek, hfind, -⟩
    · rw [hseek, hfind]
      rfl
    · rw [hseek, hfind]
      rfl
  · have hnil : nl.names = [] := List.length_eq_zero_iff.mp (by omega)
    rw [if_neg hzero, hfound, hnil]
    rfl

/-- **`nlget`** on a list with names. The cursor goes to the next node, from the last one back to the
head. -/
theorem Shows.nlget (h : n.Shows nl) (hne : nl.names ≠ []) :
    ∃ n', n.nlget = some ((Icbd.nlget nl).1, n') ∧ n'.Shows (Icbd.nlget nl).2 := by
  obtain ⟨⟨ps, hr, hnames, hp⟩, hnum, hmaxn, hcur⟩ := h
  have hlt : nl.cursor < nl.names.length := hcur.resolve_left hne
  have hlen : ps.length = nl.names.length := by rw [← hnames, List.length_map]
  have hlt' : nl.cursor < ps.length := by omega
  -- the list comes apart at the cursor
  have hsplit : ps = ps.take nl.cursor ++ ps[nl.cursor] :: ps.drop (nl.cursor + 1) := by
    rw [← List.drop_eq_getElem_cons hlt', List.take_append_drop]
  have hr' := hr
  rw [hsplit] at hr'
  obtain ⟨⟨c, hc, -, hnext⟩, -, -⟩ := hr'.cell
  rw [List.head?_drop] at hnext
  have hread : n.list.mem.read n.p = some c := by
    rw [hp, List.getElem?_eq_getElem hlt', Memory.read_some, hc]
  have hname : (Icbd.nlget nl).1 = c.val := by
    show nl.names.getD nl.cursor [] = c.val
    rw [List.getD_eq_getElem?_getD, ← hnames, List.getElem?_map, List.getElem?_eq_getElem hlt',
      Option.map_some, Option.getD_some, strOf_eq hc]
  refine ⟨{ n with p := if c.next = none then n.list.head else c.next }, ?_,
    ⟨ps, hr, hnames, ?_⟩, hnum, hmaxn, ?_⟩
  · rw [hname]
    simp only [NameNodes.nlget, hread, Option.bind_eq_bind, Option.bind_some]
    rfl
  · show (if c.next = none then n.list.head else c.next) =
      ps[if nl.cursor + 1 < nl.names.length then nl.cursor + 1 else 0]?
    by_cases hmore : nl.cursor + 1 < nl.names.length
    · have hsome : c.next ≠ none := by
        rw [hnext, List.getElem?_eq_getElem (by omega)]
        simp
      rw [if_neg hsome, if_pos hmore, hnext]
    · have hnone : c.next = none := by
        rw [hnext, List.getElem?_eq_none (by omega)]
      rw [if_pos hnone, if_neg hmore, hr.head, List.head?_eq_getElem?]
  · right
    show (if nl.cursor + 1 < nl.names.length then nl.cursor + 1 else 0) < nl.names.length
    split <;> omega

/-- On an empty list `nlget` follows a null pointer. -/
theorem Shows.nlget_empty (h : n.Shows nl) (hnil : nl.names = []) : n.nlget = none := by
  obtain ⟨⟨ps, hr, hnames, hp⟩, -⟩ := h
  have hps : ps = [] := List.map_eq_nil_iff.mp (hnames.trans hnil)
  rw [hps] at hp
  simp [NameNodes.nlget, hp, Memory.read]

end

/-- **Calls of `nlget` one after the other** go round the list. -/
theorem Shows.nlgets {n : NameNodes P} {nl : NamList} (h : n.Shows nl) (hne : nl.names ≠ [])
    {k : Nat} (hk : k ≤ nl.names.length) :
    ∃ n', n.nlgets k = some ((nlgetAll nl).take k, n') := by
  induction k generalizing n nl with
  | zero => exact ⟨n, rfl⟩
  | succ k ih =>
      obtain ⟨n₁, hn₁, h₁⟩ := h.nlget hne
      obtain ⟨rest, hall, hnext⟩ := nlgetAll_step (h.cursor.resolve_left hne)
      obtain ⟨n₂, hn₂⟩ := ih h₁ hne (Nat.le_of_succ_le hk)
      have hlen : (nlgetAll nl).length = nl.names.length := (nlgetAll_perm nl).length_eq
      rw [hall, List.length_cons] at hlen
      refine ⟨n₂, ?_⟩
      rw [hnext, List.take_append_of_le_length (by omega)] at hn₂
      simp only [NameNodes.nlgets, hn₁, hn₂, Option.bind_eq_bind, Option.bind_some, hall,
        List.take_succ_cons]
      rfl

/-! ## §4 — runs -/

/-- A call on a list. -/
inductive NlOp
  | put (name : Bytes)
  | delete (name : Bytes)
  | get
  | clear
  deriving DecidableEq, Repr

/-- The call on the nodes. -/
def NlOp.run (A : Memory.Allocator P Bytes) (n : NameNodes P) : NlOp → Option (NameNodes P)
  | .put name => n.nlput A name
  | .delete name => (n.nldelete name).map Prod.snd
  | .get => n.nlget.map Prod.snd
  | .clear => n.nlclear

/-- Calls one after the other. -/
def runOps (A : Memory.Allocator P Bytes) (ops : List NlOp) (n : NameNodes P) :
    Option (NameNodes P) := ops.foldlM (fun n op => op.run A n) n

/-- Whether a call puts a name with this key. -/
def NlOp.puts (key : Bytes) : NlOp → Bool
  | .put name => lcaseit name == key
  | _ => false

/-- When a key was last put: the number of calls up to then. -/
def lastPut (ops : List NlOp) (key : Bytes) : Nat :=
  (ops.reverse.dropWhile fun op => !op.puts key).length

theorem lastPut_le (ops : List NlOp) (key : Bytes) : lastPut ops key ≤ ops.length := by
  have hlen := (List.dropWhile_suffix (l := ops.reverse) fun op => !op.puts key).length_le
  rwa [List.length_reverse] at hlen

theorem lastPut_snoc (ops : List NlOp) (op : NlOp) (key : Bytes) :
    lastPut (ops ++ [op]) key = if op.puts key then ops.length + 1 else lastPut ops key := by
  rw [lastPut, List.reverse_append, List.reverse_singleton, List.singleton_append,
    List.dropWhile_cons]
  cases op.puts key <;> simp [lastPut]

/-- The keys stand in the order in which they were last put, the latest first. -/
def Recent (ops : List NlOp) (nl : NamList) : Prop :=
  nl.keys.Pairwise fun a b => lastPut ops b < lastPut ops a

section
variable {ops : List NlOp} {nl nl' : NamList}

/-- A call that puts nothing and brings in no key. -/
theorem Recent.sublist {op : NlOp} (h : Recent ops nl) (hop : ∀ key, op.puts key = false)
    (hkeys : nl'.keys.Sublist nl.keys) : Recent (ops ++ [op]) nl' := by
  apply (List.Pairwise.sublist hkeys h).imp
  intro a b hab
  rw [lastPut_snoc, lastPut_snoc, hop, hop]
  exact hab

/-- A name that is put comes before all others. -/
theorem Recent.put {k : Nat} (h : Recent ops nl) (hs : nl.Sound k) (hk : 0 < k) (name : Bytes) :
    Recent (ops ++ [.put name]) (Icbd.nlput nl name) := by
  rw [Recent, nlput_keys hs hk]
  apply List.Pairwise.sublist (List.take_sublist k _)
  have hself : NlOp.puts (lcaseit name) (.put name) = true := by simp [NlOp.puts]
  have hother : ∀ key ∈ nl.keys.erase (lcaseit name), NlOp.puts key (.put name) = false := by
    intro key hkey
    have hne : lcaseit name ≠ key := fun heq => hs.nodup.not_mem_erase (heq ▸ hkey)
    simpa [NlOp.puts] using hne
  constructor
  · intro key hkey
    rw [lastPut_snoc, lastPut_snoc, hself, hother key hkey]
    exact Nat.lt_succ_of_le (lastPut_le ops key)
  · apply (List.Pairwise.sublist List.erase_sublist h).imp_of_mem
    intro a b ha hb hab
    rw [lastPut_snoc, lastPut_snoc, hother a ha, hother b hb]
    exact hab

end

/-- **The run**, by induction on the calls: the nodes show a sound list in the order of the last puts,
unless an `nlget` has been called on an empty list. -/
theorem runOps_shows (A : Memory.Allocator P Bytes) (m : Memory P Bytes) {k : Nat} (hk : 0 < k)
    (ops : List NlOp) :
    (∃ n nl, runOps A ops (nlinit m k) = some n ∧ n.Shows nl ∧ nl.Sound k ∧ Recent ops nl) ∨
    (runOps A ops (nlinit m k) = none ∧
      ∃ pre n, pre ++ [.get] <+: ops ∧ runOps A pre (nlinit m k) = some n ∧ n.num = 0) := by
  induction ops using List.reverseRecOn with
  | nil => exact Or.inl ⟨_, _, rfl, shows_nlinit m k, nlinit_sound k, List.Pairwise.nil⟩
  | append_singleton ops op ih =>
      have hsnoc : runOps A (ops ++ [op]) (nlinit m k) =
          (runOps A ops (nlinit m k)).bind fun n => op.run A n := by
        rw [runOps, List.foldlM_append]
        simp only [List.foldlM_cons, List.foldlM_nil, bind_pure]
        rfl
      rcases ih with ⟨n, nl, hrun, hshows, hsound, hrecent⟩ | ⟨hnone, pre, n, hpre, hstuck⟩
      · rw [hsnoc, hrun, Option.bind_some]
        have hmax : 0 < nl.max := hsound.max_eq ▸ hk
        cases op with
        | put name =>
            obtain ⟨n', hn', h'⟩ := hshows.nlput A hmax name
            exact Or.inl ⟨n', _, hn', h', hsound.nlput hk, hrecent.put hsound hk name⟩
        | delete name =>
            obtain ⟨r, n', hn', h'⟩ := hshows.nldelete name
            refine Or.inl ⟨n', _, by simp [NlOp.run, hn'], h', hsound.nldelete, ?_⟩
            apply hrecent.sublist
            · intro key
              rfl
            · rw [nldelete_keys hsound.nodup]
              exact List.erase_sublist
        | get =>
            by_cases hnil : nl.names = []
            · right
              refine ⟨by simp [NlOp.run, hshows.nlget_empty hnil], ops, n, List.prefix_refl _, hrun, ?_⟩
              rw [hshows.num, hnil]
              rfl
            · obtain ⟨n', hn', h'⟩ := hshows.nlget hnil
              refine Or.inl ⟨n', _, by simp [NlOp.run, hn'], h', ⟨hsound.nodup, hsound.max_eq,
                hsound.fits⟩, ?_⟩
              apply hrecent.sublist
              · intro key
                rfl
              · exact List.Sublist.refl _
        | clear =>
            obtain ⟨n', hn', h'⟩ := hshows.nlclear
            refine Or.inl ⟨n', _, hn', h', hsound.nlclear, ?_⟩
            apply hrecent.sublist
            · intro key
              rfl
            · exact List.nil_sublist _
      · rw [hsnoc, hnone]
        exact Or.inr ⟨rfl, pre, n, hpre.trans (List.prefix_append ops [op]), hstuck⟩

/-- **`NAMLIST` is a bounded most-recently-used set.** After any calls on a list initialised with room for
at least one name the list is well formed; its names are distinct under `strcasecmp`, as many as `num`
says and no more than fit, and in the order in which they were last put; `nlpresent` answers membership;
a new name put on a full list takes the place of the last one; and as many calls of `nlget` as there are
names return each of them once. The one thing that ends a run is an `nlget` on an empty list. -/
theorem namlist_is_recent_set (A : Memory.Allocator P Bytes) (m : Memory P Bytes) (max : Int)
    (hmax : 1 ≤ max) (ops : List NlOp) :
    (∀ n, runOps A ops (nlinit m max) = some n → ∃ names, n.Names names ∧
      (names.map lcaseit).Nodup ∧ n.num = names.length ∧ n.num ≤ max ∧
      (names.map lcaseit).Pairwise (fun a b => lastPut ops b < lastPut ops a) ∧
      (∀ name, n.nlpresent name = some (decide (lcaseit name ∈ names.map lcaseit))) ∧
      (∀ name, lcaseit name ∉ names.map lcaseit → n.num = max →
        ∃ n', n.nlput A name = some n' ∧ n'.Names (name :: names.dropLast)) ∧
      (0 < n.num → ∃ got n', n.nlgets names.length = some (got, n') ∧ got.Perm names)) ∧
    (runOps A ops (nlinit m max) = none →
      ∃ pre n, pre ++ [.get] <+: ops ∧ runOps A pre (nlinit m max) = some n ∧ n.num = 0) := by
  obtain ⟨k, rfl⟩ : ∃ k : Nat, max = k := ⟨max.toNat, by omega⟩
  have hk : 0 < k := by omega
  rcases runOps_shows A m hk ops with ⟨n, nl, hrun, hshows, hsound, hrecent⟩ | ⟨hnone, hstuck⟩
  · constructor
    · intro n' hn'
      obtain rfl := Option.some.inj (hrun.symm.trans hn')
      have hfits : nl.names.length ≤ k := hsound.fits
      obtain ⟨ps, hr, hnames, -⟩ := hshows.nodes
      refine ⟨nl.names, ⟨ps, hr, hnames⟩, hsound.nodup, hshows.num, ?_, hrecent, ?_, ?_, ?_⟩
      · rw [hshows.num]
        exact_mod_cast hfits
      · intro name
        rw [hshows.nlpresent, Bool.eq_iff_iff.mpr (nlpresent_iff.trans decide_eq_true_iff.symm)]
        rfl
      · intro name hnew hfull
        obtain ⟨n', hput, h'⟩ := hshows.nlput A (hsound.max_eq ▸ hk) name
        obtain ⟨ps', hr', hnames', -⟩ := h'.nodes
        refine ⟨n', hput, ps', hr', ?_⟩
        have hfind : nl.names.find? (strcaseEq name) = none := find_strcaseEq_none.mpr hnew
        have hroom : ¬ nl.count < nl.max := by
          have hnum := hshows.num
          rw [hsound.max_eq]
          show ¬ nl.names.length < k
          omega
        rw [hnames', Icbd.nlput, hfind]
        simp only [hroom, if_false]
      · intro hpos
        have hne : nl.names ≠ [] := by
          intro hnil
          rw [hshows.num, hnil] at hpos
          simp at hpos
        obtain ⟨n', hget⟩ := hshows.nlgets hne (Nat.le_refl _)
        refine ⟨_, n', hget, ?_⟩
        rw [List.take_of_length_le (by rw [(nlgetAll_perm nl).length_eq])]
        exact nlgetAll_perm nl
    · intro hnone
      rw [hrun] at hnone
      cases hnone
  · constructor
    · intro n hn
      rw [hnone] at hn
      cases hn
    · intro _
      exact hstuck

/-- Three names put on a list with room for two. -/
theorem namlist_is_recent_set_sample :
    ∃ n, runOps default [.put (str "ann"), .put (str "bob"), .put (str "cid")]
      (nlinit (∅ : Memory Nat Bytes) 2) = some n ∧ n.num ≤ 2 := by
  obtain ⟨hall, hstuck⟩ := namlist_is_recent_set default (∅ : Memory Nat Bytes) 2 (by decide)
    [.put (str "ann"), .put (str "bob"), .put (str "cid")]
  cases hrun : runOps default [.put (str "ann"), .put (str "bob"), .put (str "cid")]
      (nlinit (∅ : Memory Nat Bytes) 2) with
  | none =>
      -- nothing was got
      obtain ⟨pre, n, hpre, -⟩ := hstuck hrun
      have hget : NlOp.get ∈ [NlOp.put (str "ann"), .put (str "bob"), .put (str "cid")] :=
        hpre.subset (by simp)
      simp at hget
  | some n =>
      obtain ⟨names, -, -, -, hnum, -⟩ := hall n hrun
      exact ⟨n, rfl, hnum⟩

end NameNodes

end Icbd
