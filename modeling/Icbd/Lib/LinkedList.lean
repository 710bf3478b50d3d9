/-
# Icbd.Lib.LinkedList — doubly linked lists, cell by cell.

A memory has the cells that are allocated; a pointer that is null or dangling cannot be followed, and
an operation that follows one has no result. `Linked m b ps a`: the cells at `ps` point at each other in
both directions, the first one back at `b` and the last one on to `a`. The rules say what one assignment
does to such a stretch: at its last cell, at its first cell, or anywhere else. A list is a stretch
between two null pointers whose ends `head` and `tail` know.
-/
import Mathlib.Data.Finmap
import Mathlib.Order.Lattice.Nat

namespace Icbd.Lib

universe u v

/-- A node: two pointers and what it carries. -/
structure Cell (P : Type u) (α : Type v) where
  next : Option P := none
  prev : Option P := none
  val : α
  deriving DecidableEq

/-- The allocated cells. -/
abbrev Memory (P : Type u) (α : Type v) := Finmap fun _ : P => Cell P α

namespace Memory

variable {P : Type u} {α : Type v} [DecidableEq P]

/-! ## §1 — reading and writing -/

/-- The memory with the cell `c` at `a`. -/
def set (m : Memory P α) (a : P) (c : Cell P α) : Memory P α := Finmap.insert a c m

/-- The memory without the cell at `a`. -/
def remove (m : Memory P α) (a : P) : Memory P α := Finmap.erase a m

/-- The cell a pointer points to. -/
def read (m : Memory P α) (p : Option P) : Option (Cell P α) := p.bind fun a => m.lookup a

/-- `p->next = q`. -/
def setNext (m : Memory P α) (p q : Option P) : Option (Memory P α) :=
  p.bind fun a => (m.lookup a).map fun c => m.set a { c with next := q }

/-- `p->prev = q`. -/
def setPrev (m : Memory P α) (p q : Option P) : Option (Memory P α) :=
  p.bind fun a => (m.lookup a).map fun c => m.set a { c with prev := q }

/-- `free`: a null pointer is let pass, a dangling one is not. -/
def free (m : Memory P α) : Option P → Option (Memory P α)
  | none => some m
  | some a => (m.lookup a).map fun _ => m.remove a

/-- What each cell carries. -/
def val (m : Memory P α) (a : P) : Option α := (m.lookup a).map Cell.val

section Access
variable {m : Memory P α} {a x : P} {c d : Cell P α}

@[simp] theorem lookup_set (m : Memory P α) (a : P) (c : Cell P α) : (m.set a c).lookup a = some c :=
  Finmap.lookup_insert m

theorem lookup_set_ne (hx : x ≠ a) : (m.set a d).lookup x = m.lookup x :=
  Finmap.lookup_insert_of_ne m hx

theorem lookup_remove_ne (hx : x ≠ a) : (m.remove a).lookup x = m.lookup x :=
  Finmap.lookup_erase_ne hx

@[simp] theorem read_some (m : Memory P α) (a : P) : m.read (some a) = m.lookup a := rfl

theorem setNext_spec (h : m.lookup a = some c) (q : Option P) :
    ∃ m', m.setNext (some a) q = some m' ∧ m' = m.set a { c with next := q } := by
  refine ⟨_, ?_, rfl⟩
  rw [setNext, Option.bind_some, h, Option.map_some]

theorem setPrev_spec (h : m.lookup a = some c) (q : Option P) :
    ∃ m', m.setPrev (some a) q = some m' ∧ m' = m.set a { c with prev := q } := by
  refine ⟨_, ?_, rfl⟩
  rw [setPrev, Option.bind_some, h, Option.map_some]

theorem free_some (h : m.lookup a = some c) : m.free (some a) = some (m.remove a) := by
  rw [free, h, Option.map_some]

/-- An assignment to a pointer changes nothing that is carried. -/
theorem val_set (h : m.lookup a = some c) (hd : d.val = c.val) : (m.set a d).val = m.val := by
  funext x
  by_cases hx : x = a
  · subst hx
    rw [val, val, lookup_set, h, Option.map_some, Option.map_some, hd]
  · rw [val, val, lookup_set_ne hx]

end Access

/-- Only pointers in the cells at `ps` have changed. -/
structure Relinked (ps : List P) (m m' : Memory P α) : Prop where
  val : m'.val = m.val
  other : ∀ p ∉ ps, m'.lookup p = m.lookup p

theorem Relinked.refl (ps : List P) (m : Memory P α) : Relinked ps m m := ⟨rfl, fun _ _ => rfl⟩

/-- One more assignment to a pointer. -/
theorem Relinked.step {ps : List P} {m m₁ m₂ : Memory P α} {a : P} {c d : Cell P α}
    (h : Relinked ps m m₁) (e : m₂ = m₁.set a d) (ha : a ∈ ps) (hc : m₁.lookup a = some c)
    (hd : d.val = c.val) : Relinked ps m m₂ := by
  subst e
  constructor
  · rw [val_set hc hd, h.val]
  · intro p hp
    have hne : p ≠ a := by
      rintro rfl
      exact hp ha
    rw [lookup_set_ne hne, h.other p hp]

/-! ## §2 — allocation -/

/-- `malloc` of a node: the address depends on what is allocated, the block holds whatever it holds,
and it is not in use. -/
structure Allocator (P : Type u) (α : Type v) [DecidableEq P] where
  address : Memory P α → P
  junk : Memory P α → Option P × Option P
  fresh : ∀ m : Memory P α, m.lookup (address m) = none

/-- The address behind all that are in use. -/
instance : Inhabited (Allocator Nat α) where
  default :=
    { address := fun m => m.keys.sup id + 1
      junk := fun _ => (none, none)
      fresh := by
        intro m
        rw [Finmap.lookup_eq_none, ← Finmap.mem_keys]
        intro hmem
        have := Finset.le_sup (f := id) hmem
        simp only [id_eq] at this
        omega }

/-- A new node that carries `x`. -/
def Allocator.new (A : Allocator P α) (m : Memory P α) (x : α) : P × Memory P α :=
  (A.address m, m.set (A.address m) { next := (A.junk m).1, prev := (A.junk m).2, val := x })

/-! ## §3 — stretches -/

/-- The cells at `ps` are linked, from `b` before them to `a` after them. -/
def Linked (m : Memory P α) : Option P → List P → Option P → Prop
  | _, [], _ => True
  | b, p :: ps, a =>
      (∃ c, m.lookup p = some c ∧ c.prev = b ∧ c.next = ps.head?.or a) ∧ m.Linked (some p) ps a

section Stretches
variable {m : Memory P α} {a b a' b' : Option P} {ps xs ys : List P} {p s : P} {c d : Cell P α}

theorem linked_append :
    m.Linked b (xs ++ ys) a ↔
      m.Linked b xs (ys.head?.or a) ∧ m.Linked (xs.getLast?.or b) ys a := by
  induction xs generalizing b with
  | nil => simp [Linked]
  | cons x xs ih =>
      have hlast : ((x :: xs).getLast?).or b = xs.getLast?.or (some x) := by
        rw [List.getLast?_cons]
        cases xs.getLast? <;> rfl
      rw [List.cons_append, Linked, Linked, ih, hlast, List.head?_append, Option.or_assoc, and_assoc]

/-- Every cell of a stretch is allocated. -/
theorem Linked.lookup (h : m.Linked b ps a) (hp : p ∈ ps) : ∃ c, m.lookup p = some c := by
  induction ps generalizing b with
  | nil => cases hp
  | cons x xs ih =>
      obtain ⟨⟨c, hc, -⟩, hrest⟩ := h
      rcases List.mem_cons.mp hp with rfl | hp
      · exact ⟨c, hc⟩
      · exact ih hrest hp

/-- A stretch depends on its own cells only. -/
theorem Linked.congr {m' : Memory P α} (h : m.Linked b ps a)
    (hsame : ∀ p ∈ ps, m'.lookup p = m.lookup p) : m'.Linked b ps a := by
  induction ps generalizing b with
  | nil => trivial
  | cons x xs ih =>
      obtain ⟨⟨c, hc, hprev, hnext⟩, hrest⟩ := h
      constructor
      · refine ⟨c, ?_, hprev, hnext⟩
        rw [hsame x List.mem_cons_self, hc]
      · apply ih hrest
        intro p hp
        exact hsame p (List.mem_cons_of_mem x hp)

/-- **An assignment elsewhere.** -/
theorem Linked.set (h : m.Linked b ps a) (hs : s ∉ ps) (d : Cell P α) :
    (m.set s d).Linked b ps a := by
  apply h.congr
  intro p hp
  exact lookup_set_ne fun heq => hs (heq ▸ hp)

theorem Linked.remove (h : m.Linked b ps a) (hs : s ∉ ps) : (m.remove s).Linked b ps a := by
  apply h.congr
  intro p hp
  exact lookup_remove_ne fun heq => hs (heq ▸ hp)

end Stretches

/-! ## §4 — going through a list -/

/-- From `p` on, the first cell that passes the test. A walk of more steps than there are cells goes
round in circles: it has no result. -/
def seekFrom (m : Memory P α) (test : Cell P α → Bool) : Nat → Option P → Option (Option P)
  | _, none => some none
  | 0, some _ => none
  | n + 1, some a =>
      (m.lookup a).bind fun c => if test c then some (some a) else m.seekFrom test n c.next

/-- Frees the nodes from `p` on. -/
def freeFrom : Nat → Option P → Memory P α → Option (Memory P α)
  | _, none, m => some m
  | 0, some _, _ => none
  | n + 1, some a, m =>
      (m.lookup a).bind fun c => (m.free (some a)).bind fun m => freeFrom n c.next m

/-- The walk. -/
def seek (m : Memory P α) (test : Cell P α → Bool) (p : Option P) : Option (Option P) :=
  m.seekFrom test m.keys.card p

section Walks
variable {m : Memory P α} {b : Option P} {ps : List P}

theorem Linked.length_le (h : m.Linked b ps none) (hnd : ps.Nodup) : ps.length ≤ m.keys.card := by
  rw [← List.toFinset_card_of_nodup hnd]
  apply Finset.card_le_card
  intro p hp
  obtain ⟨c, hc⟩ := h.lookup (List.mem_toFinset.mp hp)
  rw [Finmap.mem_keys, Finmap.mem_iff]
  exact ⟨c, hc⟩

theorem seekFrom_eq (h : m.Linked b ps none) {n : Nat} (hn : ps.length ≤ n) (test : Cell P α → Bool) :
    m.seekFrom test n ps.head? = some (ps.find? fun p => (m.lookup p).any test) := by
  induction ps generalizing b n with
  | nil =>
      cases n <;> rfl
  | cons p ps ih =>
      obtain ⟨⟨c, hc, -, hnext⟩, hrest⟩ := h
      cases n with
      | zero => simp at hn
      | succ n =>
          have hthen := ih hrest (Nat.le_of_succ_le_succ hn)
          rw [Option.or_none] at hnext
          simp only [List.head?_cons, seekFrom, hc, Option.bind_some, List.find?_cons, Option.any_some,
            hnext]
          cases test c with
          | true => rfl
          | false => exact hthen

/-- **A walk through a list** finds what a search of it finds. -/
theorem seek_eq (h : m.Linked b ps none) (hnd : ps.Nodup) (test : Cell P α → Bool) :
    m.seek test ps.head? = some (ps.find? fun p => (m.lookup p).any test) :=
  seekFrom_eq h (h.length_le hnd) test

/-- **A list can be freed.** -/
theorem freeFrom_eq (h : m.Linked b ps none) (hnd : ps.Nodup) {n : Nat} (hn : ps.length ≤ n) :
    ∃ m', freeFrom n ps.head? m = some m' := by
  induction ps generalizing b n m with
  | nil => exact ⟨m, by cases n <;> rfl⟩
  | cons p ps ih =>
      obtain ⟨⟨c, hc, -, hnext⟩, hrest⟩ := h
      obtain ⟨hp, hps⟩ := List.nodup_cons.mp hnd
      cases n with
      | zero => simp at hn
      | succ n =>
          obtain ⟨m', hm'⟩ := ih (hrest.remove hp) hps (Nat.le_of_succ_le_succ hn)
          refine ⟨m', ?_⟩
          rw [Option.or_none] at hnext
          simp only [List.head?_cons, freeFrom, hc, Option.bind_some, free_some hc, hnext, hm']

end Walks

end Memory

/-! ## §5 — lists -/

/-- A list in memory: the pointers to its ends, and the memory. -/
structure LinkedList (P : Type u) (α : Type v) where
  head : Option P := none
  tail : Option P := none
  mem : Memory P α

namespace LinkedList

variable {P : Type u} {α : Type v} [DecidableEq P]

/-- **The list is well formed, and its sequence is `ps`.** -/
structure Represents (l : LinkedList P α) (ps : List P) : Prop where
  nodup : ps.Nodup
  head : l.head = ps.head?
  tail : l.tail = ps.getLast?
  linked : l.mem.Linked none ps none

section
variable {l : LinkedList P α} {ps xs ys : List P} {p s : P}

theorem represents_nil (m : Memory P α) : (LinkedList.mk none none m).Represents [] :=
  ⟨List.nodup_nil, rfl, rfl, trivial⟩

theorem Represents.head_none_iff (h : l.Represents ps) : l.head = none ↔ ps = [] := by
  rw [h.head, List.head?_eq_none_iff]

theorem Represents.tail_none_iff (h : l.Represents ps) : l.tail = none ↔ ps = [] := by
  rw [h.tail, List.getLast?_eq_none_iff]

/-- The two parts of a list. -/
theorem Represents.parts (h : l.Represents (xs ++ ys)) :
    l.mem.Linked none xs ys.head? ∧ l.mem.Linked xs.getLast? ys none := by
  have hparts := Memory.linked_append.mp h.linked
  simpa only [Option.or_none] using hparts

/-- The cell at `s`, its neighbours and the rest. -/
theorem Represents.cell (h : l.Represents (xs ++ s :: ys)) :
    (∃ c, l.mem.lookup s = some c ∧ c.prev = xs.getLast? ∧ c.next = ys.head?) ∧
      s ∉ xs ∧ s ∉ ys := by
  obtain ⟨-, ⟨hs, -⟩⟩ := h.parts
  have hnd := h.nodup
  rw [List.nodup_append'] at hnd
  obtain ⟨-, hright, hdisj⟩ := hnd
  refine ⟨by simpa only [Option.or_none] using hs, ?_, (List.nodup_cons.mp hright).1⟩
  intro hmem
  exact hdisj hmem List.mem_cons_self

/-- A list depends on its own cells only. -/
theorem Represents.congr {m : Memory P α} (h : l.Represents ps)
    (hsame : ∀ p ∈ ps, m.lookup p = l.mem.lookup p) : { l with mem := m }.Represents ps :=
  ⟨h.nodup, h.head, h.tail, h.linked.congr hsame⟩

/-! ## §6 — insertion and removal -/

/-- What becomes of the cells in front of a place when the last of them is made to point at `q`. -/
theorem linked_left {m m' : Memory P α} {q : Option P} (h : m.Linked none xs ys.head?)
    (hnd : xs.Nodup)
    (hlast : ∀ x c, xs.getLast? = some x → m.lookup x = some c → m'.lookup x = some { c with next := q })
    (hother : ∀ p ∈ xs, xs.getLast? ≠ some p → m'.lookup p = m.lookup p) : m'.Linked none xs q := by
  induction xs using List.reverseRecOn with
  | nil => trivial
  | append_singleton init x _ =>
      rw [Memory.linked_append] at h ⊢
      obtain ⟨hinit, ⟨c, hc, hprev, -⟩, -⟩ := h
      have hx : x ∉ init := by
        have := (List.nodup_append'.mp hnd).2.2
        exact fun hmem => this hmem List.mem_cons_self
      constructor
      · apply hinit.congr
        intro p hp
        apply hother p (List.mem_append_left _ hp)
        rw [List.getLast?_concat]
        intro heq
        exact hx (Option.some.inj heq ▸ hp)
      · exact ⟨⟨_, hlast x c List.getLast?_concat hc, hprev, rfl⟩, trivial⟩

/-- What becomes of the cells behind a place when the first of them is made to point back at `q`. -/
theorem linked_right {m m' : Memory P α} {b q : Option P} (h : m.Linked b ys none) (hnd : ys.Nodup)
    (hfirst : ∀ y c, ys.head? = some y → m.lookup y = some c → m'.lookup y = some { c with prev := q })
    (hother : ∀ p ∈ ys, ys.head? ≠ some p → m'.lookup p = m.lookup p) : m'.Linked q ys none := by
  cases ys with
  | nil => trivial
  | cons y ys =>
      obtain ⟨⟨c, hc, -, hnext⟩, hrest⟩ := h
      refine ⟨⟨_, hfirst y c rfl hc, rfl, hnext⟩, ?_⟩
      apply hrest.congr
      intro p hp
      apply hother p (List.mem_cons_of_mem y hp)
      rw [List.head?_cons]
      intro heq
      exact (List.nodup_cons.mp hnd).1 (Option.some.inj heq ▸ hp)

/-- The node at one side of a place is the one that is known to be there. -/
theorem Memory.side {m : Memory P α} {o : Option P} {z : P} {d : Cell P α} {Q : P → Cell P α → Prop}
    (ho : o = some z) (hd : m.lookup z = some d) (h : Q z d) :
    ∀ x c, o = some x → m.lookup x = some c → Q x c := by
  intro x c hx hc
  obtain rfl : z = x := Option.some.inj (ho.symm.trans hx)
  obtain rfl : d = c := Option.some.inj (hd.symm.trans hc)
  exact h

omit [DecidableEq P] in
theorem ne_of_side {o : Option P} {z p : P} (ho : o = some z) (hp : o ≠ some p) : p ≠ z := by
  rintro rfl
  exact hp ho

/-- **The insertion rule.** A list with a cell at `s` that points at both sides of a place, whose two
sides point at it and are otherwise as they were, is the list with `s` at that place. -/
theorem Represents.insert {l' : LinkedList P α} (h : l.Represents (xs ++ ys)) (hs : s ∉ xs ++ ys)
    (hhead : l'.head = (xs ++ s :: ys).head?) (htail : l'.tail = (xs ++ s :: ys).getLast?)
    (hcell : ∃ c, l'.mem.lookup s = some c ∧ c.prev = xs.getLast? ∧ c.next = ys.head?)
    (hleft : ∀ x c, xs.getLast? = some x → l.mem.lookup x = some c →
      l'.mem.lookup x = some { c with next := some s })
    (hright : ∀ y c, ys.head? = some y → l.mem.lookup y = some c →
      l'.mem.lookup y = some { c with prev := some s })
    (hother : ∀ p ∈ xs ++ ys, xs.getLast? ≠ some p → ys.head? ≠ some p →
      l'.mem.lookup p = l.mem.lookup p) : l'.Represents (xs ++ s :: ys) := by
  obtain ⟨hxs, hys⟩ := h.parts
  obtain ⟨hndx, hndy, hdisj⟩ := List.nodup_append'.mp h.nodup
  have hnd : (xs ++ s :: ys).Nodup := by
    rw [List.perm_middle.nodup_iff]
    exact List.nodup_cons.mpr ⟨hs, h.nodup⟩
  have hl : l'.mem.Linked none xs (some s) := by
    apply linked_left hxs hndx hleft
    intro p hp hlast
    apply hother p (List.mem_append_left _ hp) hlast
    intro hfirst
    exact hdisj hp (List.mem_of_head? hfirst)
  have hr : l'.mem.Linked (some s) ys none := by
    apply linked_right hys hndy hright
    intro p hp hfirst
    apply hother p (List.mem_append_right _ hp) _ hfirst
    intro hlast
    exact hdisj (List.mem_of_getLast? hlast) hp
  refine ⟨hnd, hhead, htail, ?_⟩
  rw [Memory.linked_append]
  simp only [Option.or_none, List.head?_cons]
  refine ⟨hl, ?_, hr⟩
  simpa only [Option.or_none] using hcell

/-- **The removal rule.** When the two sides of `s` point at each other and are otherwise as they were,
the list has lost `s`. -/
theorem Represents.remove {l' : LinkedList P α} (h : l.Represents (xs ++ s :: ys))
    (hhead : l'.head = (xs ++ ys).head?) (htail : l'.tail = (xs ++ ys).getLast?)
    (hleft : ∀ x c, xs.getLast? = some x → l.mem.lookup x = some c →
      l'.mem.lookup x = some { c with next := ys.head? })
    (hright : ∀ y c, ys.head? = some y → l.mem.lookup y = some c →
      l'.mem.lookup y = some { c with prev := xs.getLast? })
    (hother : ∀ p ∈ xs ++ ys, xs.getLast? ≠ some p → ys.head? ≠ some p →
      l'.mem.lookup p = l.mem.lookup p) : l'.Represents (xs ++ ys) := by
  obtain ⟨hxs, -, hys⟩ := h.parts
  obtain ⟨hndx, hndsy, hdisj⟩ := List.nodup_append'.mp h.nodup
  have hndy : ys.Nodup := (List.nodup_cons.mp hndsy).2
  have hdisj' : ∀ p ∈ xs, p ∉ ys := fun p hp hy => hdisj hp (List.mem_cons_of_mem s hy)
  refine ⟨List.nodup_append'.mpr ⟨hndx, hndy, hdisj'⟩, hhead, htail, ?_⟩
  rw [Memory.linked_append]
  simp only [Option.or_none]
  constructor
  · apply linked_left hxs hndx hleft
    intro p hp hlast
    apply hother p (List.mem_append_left _ hp) hlast
    intro hfirst
    exact hdisj' p hp (List.mem_of_head? hfirst)
  · apply linked_right hys hndy hright
    intro p hp hfirst
    apply hother p (List.mem_append_right _ hp) _ hfirst
    intro hlast
    exact hdisj' p (List.mem_of_getLast? hlast) hp

end

end LinkedList

end Icbd.Lib
