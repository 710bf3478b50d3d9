/-
# Icbd.Lib.TailQueue — the tail queue of `queue.h`, pointer by pointer.

A tail queue is a head with a pointer to the first element and the address of the last link, and in
every element a pointer to the next one and the address of the link that points to it. The
operations are the macros' assignments in their order; one that follows a null pointer is `none`.
`Represents q ps`: following the links from the head visits `ps`. A head whose bytes are all zero
represents the empty queue although its `last` points nowhere, so inserting at the tail is an error
there and inserting at the head is not: `push` takes the branch its state allows.
-/
import Mathlib.Data.List.Basic
import Mathlib.Logic.Function.Basic

namespace Icbd.Lib

universe u

/-- The address of a link: `&head->tqh_first`, or `&elm->tqe_next`. -/
inductive Link (P : Type u)
  | first
  | next (p : P)
  deriving DecidableEq

/-- `TAILQ_ENTRY`; a null `prev` is `none`. -/
structure QueueEntry (P : Type u) where
  next : Option P := none
  prev : Option (Link P) := none

/-- `TAILQ_HEAD` and the entries of all elements; a null `last` is `none`. -/
structure TailQueue (P : Type u) where
  first : Option P := none
  last : Option (Link P) := none
  entry : P → QueueEntry P := fun _ => {}

namespace TailQueue

variable {P : Type u}

/-! ## §1 — the macros -/

/-- What a link points to. -/
def read (q : TailQueue P) : Link P → Option P
  | .first => q.first
  | .next p => (q.entry p).next

section Macros
variable [DecidableEq P]

/-- Assignment through the address of a link. -/
def write (q : TailQueue P) (v : Option P) : Link P → TailQueue P
  | .first => { q with first := v }
  | .next p => { q with entry := Function.update q.entry p { q.entry p with next := v } }

/-- Assignment to an element's `tqe_prev`. -/
def setPrev (q : TailQueue P) (p : P) (l : Option (Link P)) : TailQueue P :=
  { q with entry := Function.update q.entry p { q.entry p with prev := l } }

/-- `TAILQ_INSERT_HEAD`. -/
def insertHead (q : TailQueue P) (e : P) : TailQueue P :=
  let q := q.write q.first (.next e)
  let q :=
    match q.first with
    | some x => q.setPrev x (some (.next e))
    | none => { q with last := some (.next e) }
  (q.write (some e) .first).setPrev e (some .first)

/-- `TAILQ_INSERT_TAIL`. -/
def insertTail (q : TailQueue P) (e : P) : Option (TailQueue P) :=
  let q := (q.write none (.next e)).setPrev e q.last
  match q.last with
  | none => none
  | some l => some { q.write (some e) l with last := some (.next e) }

/-- `TAILQ_REMOVE`. -/
def remove (q : TailQueue P) (e : P) : Option (TailQueue P) :=
  let q :=
    match (q.entry e).next with
    | some x => q.setPrev x (q.entry e).prev
    | none => { q with last := (q.entry e).prev }
  match (q.entry e).prev with
  | none => none
  | some l => some (q.write (q.entry e).next l)

/-- Insertion at the head of an empty queue and at the tail of any other. -/
def push (q : TailQueue P) (e : P) : Option (TailQueue P) :=
  if q.first = none then some (q.insertHead e) else q.insertTail e

@[simp] theorem read_write (q : TailQueue P) (v : Option P) (l k : Link P) :
    (q.write v l).read k = if k = l then v else q.read k := by
  cases l with
  | first => cases k <;> simp [write, read]
  | next p =>
      cases k with
      | first => simp [write, read]
      | next x =>
          by_cases hx : x = p
          · subst hx; simp [write, read]
          · simp [write, read, hx]

@[simp] theorem prev_write (q : TailQueue P) (v : Option P) (l : Link P) (p : P) :
    ((q.write v l).entry p).prev = (q.entry p).prev := by
  cases l with
  | first => rfl
  | next x =>
      by_cases hx : p = x
      · subst hx; simp [write]
      · simp [write, hx]

@[simp] theorem last_write (q : TailQueue P) (v : Option P) (l : Link P) :
    (q.write v l).last = q.last := by
  cases l <;> rfl

@[simp] theorem read_setPrev (q : TailQueue P) (p : P) (l : Option (Link P)) (k : Link P) :
    (q.setPrev p l).read k = q.read k := by
  cases k with
  | first => rfl
  | next x =>
      by_cases hx : x = p
      · subst hx; simp [setPrev, read]
      · simp [setPrev, read, hx]

@[simp] theorem prev_setPrev (q : TailQueue P) (p x : P) (l : Option (Link P)) :
    ((q.setPrev p l).entry x).prev = if x = p then l else (q.entry x).prev := by
  by_cases hx : x = p
  · subst hx; simp [setPrev]
  · simp [setPrev, hx]

@[simp] theorem last_setPrev (q : TailQueue P) (p : P) (l : Option (Link P)) :
    (q.setPrev p l).last = q.last := rfl

end Macros

/-! ## §2 — what a queue represents -/

/-- From the link `l` on the queue visits the list, and `last` is the link after it. -/
def Linked (q : TailQueue P) : Link P → List P → Link P → Prop
  | l, [], last => q.read l = none ∧ last = l
  | l, p :: ps, last => q.read l = some p ∧ (q.entry p).prev = some l ∧ q.Linked (.next p) ps last

/-- The queue is the list. Only a queue with elements has a `last`. -/
structure Represents (q : TailQueue P) (ps : List P) : Prop where
  nodup : ps.Nodup
  linked : ∃ last, q.Linked .first ps last ∧ (ps ≠ [] → q.last = some last)

/-- A head of zeros is an empty queue. -/
theorem represents_zero (entry : P → QueueEntry P) :
    ({ first := none, last := none, entry := entry } : TailQueue P).Represents [] :=
  ⟨List.nodup_nil, .first, ⟨rfl, rfl⟩, fun h => absurd rfl h⟩

theorem Represents.first_none_iff {q : TailQueue P} {ps : List P} (h : q.Represents ps) :
    q.first = none ↔ ps = [] := by
  obtain ⟨last, hl, _⟩ := h.linked
  cases ps with
  | nil => exact ⟨fun _ => rfl, fun _ => hl.1⟩
  | cons p ps =>
      constructor
      · intro hnone
        cases hl.1.symm.trans hnone
      · intro hnil
        cases hnil

/-- A walk reads its own links only. -/
theorem Linked.congr {q q' : TailQueue P} {l last : Link P} {ps : List P} (h : q.Linked l ps last)
    (hl : q'.read l = q.read l) (hr : ∀ p ∈ ps, q'.read (.next p) = q.read (.next p))
    (hp : ∀ p ∈ ps, (q'.entry p).prev = (q.entry p).prev) : q'.Linked l ps last := by
  induction ps generalizing l with
  | nil => exact ⟨hl.trans h.1, h.2⟩
  | cons p ps ih =>
      obtain ⟨h₁, h₂, h₃⟩ := h
      refine ⟨hl.trans h₁, (hp p List.mem_cons_self).trans h₂, ?_⟩
      apply ih h₃
      · exact hr p List.mem_cons_self
      · intro x hx
        exact hr x (List.mem_cons_of_mem p hx)
      · intro x hx
        exact hp x (List.mem_cons_of_mem p hx)

/-- The link after a walk is the one it starts from, or that of one of its elements. -/
theorem Linked.last_mem {q : TailQueue P} {l last : Link P} {ps : List P}
    (h : q.Linked l ps last) : last = l ∨ ∃ x ∈ ps, last = .next x := by
  induction ps generalizing l with
  | nil => exact Or.inl h.2
  | cons y ys ih =>
      rcases ih h.2.2 with hy | ⟨x, hx, hlx⟩
      · exact Or.inr ⟨y, List.mem_cons_self, hy⟩
      · exact Or.inr ⟨x, List.mem_cons_of_mem y hx, hlx⟩

/-- One element more at the end of a walk. -/
theorem Linked.append {q q' : TailQueue P} {l last : Link P} {ps : List P} {e : P}
    (h : q.Linked l ps last) (hnd : ps.Nodup) (hl : ∀ p ∈ ps, l ≠ .next p) (he : e ∉ ps)
    (hle : l ≠ .next e) (hlast : q'.read last = some e) (hend : q'.read (.next e) = none)
    (hprev : (q'.entry e).prev = some last)
    (hr : ∀ k, k ≠ last → k ≠ .next e → q'.read k = q.read k)
    (hp : ∀ p, p ≠ e → (q'.entry p).prev = (q.entry p).prev) :
    q'.Linked l (ps ++ [e]) (.next e) := by
  induction ps generalizing l with
  | nil =>
      obtain ⟨_, rfl⟩ := h
      exact ⟨hlast, hprev, hend, rfl⟩
  | cons p ps ih =>
      obtain ⟨h₁, h₂, h₃⟩ := h
      have hpe : p ≠ e := fun hpe => he (hpe ▸ List.mem_cons_self)
      obtain ⟨hpps, hnd'⟩ := List.nodup_cons.mp hnd
      have hne : l ≠ last := by
        rcases h₃.last_mem with hy | ⟨x, hx, hlx⟩
        · rw [hy]
          exact hl p List.mem_cons_self
        · rw [hlx]
          exact hl x (List.mem_cons_of_mem p hx)
      refine ⟨(hr l hne hle).trans h₁, (hp p hpe).trans h₂, ?_⟩
      apply ih h₃ hnd'
      · intro x hx hxp
        cases hxp
        exact hpps hx
      · exact fun hmem => he (List.mem_cons_of_mem p hmem)
      · exact fun hnext => hpe (Link.next.inj hnext)

/-! ## §3 — the operations on what is represented -/

variable [DecidableEq P]

/-- **Insertion.** From a queue for `ps`, a head of zeros included, `push` appends. -/
theorem Represents.push {q : TailQueue P} {ps : List P} {e : P} (h : q.Represents ps)
    (he : e ∉ ps) : ∃ q', q.push e = some q' ∧ q'.Represents (ps ++ [e]) := by
  have hnd : (ps ++ [e]).Nodup := by
    rw [List.nodup_append]
    refine ⟨h.nodup, by simp, ?_⟩
    rintro x hx y hy rfl
    exact he (List.mem_singleton.mp hy ▸ hx)
  by_cases hps : ps = []
  · subst hps
    have hnone : q.first = none := h.first_none_iff.mpr rfl
    have hread : (q.write none (.next e)).first = none := hnone
    refine ⟨q.insertHead e, by rw [TailQueue.push, if_pos hnone], hnd, .next e, ?_, fun _ => ?_⟩
    · simp only [insertHead, hnone, hread]
      refine ⟨?_, ?_, ?_, rfl⟩
      · simp
      · simp
      · simp [read, write, setPrev]
    · simp [insertHead, hnone, hread]
  · obtain ⟨last, hl, hlast⟩ := h.linked
    have hsome : ¬ q.first = none := fun hnone => hps (h.first_none_iff.mp hnone)
    have hlaste : last ≠ .next e := by
      rcases hl.last_mem with rfl | ⟨x, hx, rfl⟩
      · nofun
      · intro hxe
        cases hxe
        exact he hx
    set q₁ := (q.write none (.next e)).setPrev e (some last) with hq₁
    have htail : q.insertTail e = some { q₁.write (some e) last with last := some (.next e) } := by
      simp [insertTail, hlast hps, hq₁]
    have hread : ∀ k, ({ q₁.write (some e) last with last := some (.next e) } : TailQueue P).read k =
        (q₁.write (some e) last).read k := by
      intro k
      cases k <;> rfl
    refine ⟨_, by rw [TailQueue.push, if_neg hsome, htail], hnd, .next e, ?_, fun _ => rfl⟩
    apply Linked.append hl h.nodup (fun _ _ => nofun) he nofun
    · rw [hread]
      simp
    · rw [hread]
      simp [hq₁, Ne.symm hlaste]
    · show ((q₁.write (some e) last).entry e).prev = _
      simp [hq₁]
    · intro k hk hke
      rw [hread]
      simp [hq₁, hk, hke]
    · intro p hpe
      show ((q₁.write (some e) last).entry p).prev = _
      simp [hq₁, hpe]

/-- **Removal** of the first element. -/
theorem Represents.pop {q : TailQueue P} {p : P} {ps : List P} (h : q.Represents (p :: ps)) :
    ∃ q', q.remove p = some q' ∧ q'.Represents ps := by
  obtain ⟨last, ⟨hfirst, hprev, hrest⟩, hlast⟩ := h.linked
  obtain ⟨hpps, hnd⟩ := List.nodup_cons.mp h.nodup
  cases ps with
  | nil =>
      have hnext : (q.entry p).next = none := hrest.1
      refine ⟨({ q with last := some .first } : TailQueue P).write none .first, ?_, List.nodup_nil,
        .first, ⟨?_, rfl⟩, fun hne => absurd rfl hne⟩
      · simp only [remove, hnext, hprev]
      · simp
  | cons x xs =>
      have hnext : (q.entry p).next = some x := hrest.1
      have hxp : p ≠ x := fun hpx => hpps (hpx ▸ List.mem_cons_self)
      obtain ⟨hxs, _⟩ := List.nodup_cons.mp hnd
      set q₁ := q.setPrev x (some .first) with hq₁
      have hnext₁ : (q₁.entry p).next = some x := by
        simp [hq₁, setPrev, hxp, hnext]
      have hprev₁ : (q₁.entry p).prev = some .first := by simp [hq₁, hxp, hprev]
      refine ⟨q₁.write (some x) .first, ?_, hnd, last, ⟨?_, ?_, ?_⟩, fun _ => ?_⟩
      · simp only [remove, hnext, hprev]
        rw [← hq₁, hprev₁, hnext₁]
      · simp
      · simp [hq₁]
      · apply hrest.2.2.congr
        · simp [hq₁]
        · intro y _
          simp [hq₁]
        · intro y hy
          have hyx : y ≠ x := fun hyx => hxs (hyx ▸ hy)
          simp [hq₁, hyx]
      · simpa [hq₁] using hlast (by simp)

/-- Inserting at the tail of a head of zeros follows a null pointer. -/
theorem insertTail_zero (entry : P → QueueEntry P) (e : P) :
    ({ first := none, last := none, entry := entry } : TailQueue P).insertTail e = none := by
  simp [insertTail]

end TailQueue

end Icbd.Lib
