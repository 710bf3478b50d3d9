/-
# Icbd.StrList — lists of strings (`strlist.c`).

The link operations are the assignments of the source in their order, on nodes in memory. Each of them
comes down to the insertion or the removal rule of the list library. `strlinkalpha` is on the sequences an
ordered insertion behind everything that is not larger.
-/
import Icbd.Lib.LinkedList
import Icbd.Lib.StableInsert
import Icbd.Text

namespace Icbd

open Icbd.Lib Icbd.Lib.LinkedList

variable {P : Type} [DecidableEq P]

/-! ## §1 — the operations -/

/-- The nodes of `STRLIST`s, and the ends of one list. -/
abbrev StrList (P : Type) := LinkedList P Bytes

/-- `strlinkhead`. -/
def strlinkhead (s : Option P) (l : StrList P) : Option (StrList P) :=
  if l.tail = none then do
    let m ← l.mem.setNext s none
    let m ← m.setPrev s none
    return { head := s, tail := s, mem := m }
  else do
    let m ← l.mem.setPrev l.head s
    let m ← m.setPrev s none
    let m ← m.setNext s l.head
    return { l with head := s, mem := m }

/-- `strlinktail`. -/
def strlinktail (s : Option P) (l : StrList P) : Option (StrList P) :=
  if l.head = none then do
    let m ← l.mem.setNext s none
    let m ← m.setPrev s none
    return { head := s, tail := s, mem := m }
  else do
    let m ← l.mem.setNext l.tail s
    let m ← m.setPrev s l.tail
    let m ← m.setNext s none
    return { l with tail := s, mem := m }

/-- `strlinkafter`. -/
def strlinkafter (s i : Option P) (l : StrList P) : Option (StrList P) := do
  let m ← l.mem.setPrev s i
  let m ← m.setNext s (← m.read i).next
  let m ← m.setNext i s
  if i = l.tail then return { l with tail := s, mem := m }
  else
    let m ← m.setPrev (← m.read s).next s
    return { l with mem := m }

/-- `strlinkbefore`. -/
def strlinkbefore (s i : Option P) (l : StrList P) : Option (StrList P) := do
  let m ← l.mem.setPrev s (← l.mem.read i).prev
  let m ← m.setNext s i
  let m ← m.setPrev i s
  let c ← m.read s
  if c.prev ≠ none then
    let m ← m.setNext c.prev s
    return { l with mem := m }
  else return { l with head := s, mem := m }

/-- `strunlink`: the second `else` belongs to the outermost `if`. -/
def strunlink (s : Option P) (l : StrList P) : Option (StrList P) := do
  let c ← l.mem.read s
  if c.prev = none then
    if c.next ≠ none then
      let m ← l.mem.setPrev c.next none
      return { l with head := c.next, mem := m }
    else return { l with head := none, tail := none }
  else if c.next = none then
    if c.prev ≠ none then
      let m ← l.mem.setNext c.prev none
      return { l with tail := c.prev, mem := m }
    else return { l with head := none, tail := none }
  else
    let m ← l.mem.setNext c.prev c.next
    let c ← m.read s
    let m ← m.setPrev c.next c.prev
    return { l with mem := m }

/-- `strcmp`: the difference at the first place where the strings differ. The `'\0'` behind a string is
smaller than any of its bytes. -/
def strcmp : Bytes → Bytes → Int
  | [], [] => 0
  | [], _ :: _ => -1
  | _ :: _, [] => 1
  | a :: as, b :: bs => if a = b then strcmp as bs else (a.toNat : Int) - b.toNat

/-- `strcasecmp`. -/
def strcasecmp (a b : Bytes) : Int := strcmp (lcaseit a) (lcaseit b)

/-- The comparison `strlinkalpha` makes. -/
def alphacmp (caseindep : Bool) (a b : Bytes) : Int := if caseindep then strcasecmp a b else strcmp a b

/-- `strlinkalpha`. -/
def strlinkalpha (s : Option P) (l : StrList P) (caseindep : Bool) : Option (StrList P) :=
  if l.head = none then strlinkhead s l
  else do
    let c ← l.mem.read s
    let i ← l.mem.seek (fun d => alphacmp caseindep c.val d.val < 0) l.head
    if i ≠ none then
      if i = l.head then strlinkhead s l else strlinkbefore s i l
    else strlinktail s l

/-- `strgetnode` without patterns and without regard to case. -/
def strgetnode (str : Bytes) (head : Option P) (m : Memory P Bytes) : Option (Option P) :=
  m.seek (fun c => strcaseEq str c.val) head

/-! ## §2 — insertions -/

section
variable {l : StrList P} {ps xs ys : List P} {s i : P} {c : Cell P Bytes}

/-- What a link operation is to do: a new list with this sequence, in a memory where only its pointers
have changed. -/
def Becomes (l : StrList P) (r : Option (StrList P)) (ps changed : List P) : Prop :=
  ∃ l', r = some l' ∧ l'.Represents ps ∧ Memory.Relinked changed l.mem l'.mem

/-- **`strlinkhead`** puts a node in front. -/
theorem strlinkhead_spec (h : l.Represents ps) (hs : s ∉ ps) (hc : l.mem.lookup s = some c) :
    Becomes l (strlinkhead (some s) l) (s :: ps) (s :: ps) := by
  cases ps with
  | nil =>
      have htail : l.tail = none := h.tail_none_iff.mpr rfl
      obtain ⟨m₁, hm₁, e₁⟩ := Memory.setNext_spec hc none
      have hc₁ : m₁.lookup s = some { c with next := none } := by rw [e₁, Memory.lookup_set]
      obtain ⟨m₂, hm₂, e₂⟩ := Memory.setPrev_spec hc₁ none
      refine ⟨{ head := some s, tail := some s, mem := m₂ }, ?_, ?_, ?_⟩
      · simp [strlinkhead, htail, hm₁, hm₂]
      · apply Represents.insert (show l.Represents ([] ++ []) from h) hs rfl rfl
        · exact ⟨_, by rw [e₂, Memory.lookup_set], rfl, rfl⟩
        · intro x _ hx
          cases hx
        · intro y _ hy
          cases hy
        · intro p hp
          cases hp
      · exact ((Memory.Relinked.refl _ _).step e₁ List.mem_cons_self hc rfl).step e₂
          List.mem_cons_self hc₁ rfl
  | cons y ys =>
      have htail : l.tail ≠ none := fun ht => by cases h.tail_none_iff.mp ht
      obtain ⟨d, hd⟩ := h.linked.lookup (List.mem_cons_self (a := y))
      have hsy : s ≠ y := fun heq => hs (heq ▸ List.mem_cons_self)
      obtain ⟨m₁, hm₁, e₁⟩ := Memory.setPrev_spec hd (some s)
      have hc₁ : m₁.lookup s = some c := by rw [e₁, Memory.lookup_set_ne hsy, hc]
      obtain ⟨m₂, hm₂, e₂⟩ := Memory.setPrev_spec hc₁ none
      have hc₂ : m₂.lookup s = some { c with prev := none } := by rw [e₂, Memory.lookup_set]
      obtain ⟨m₃, hm₃, e₃⟩ := Memory.setNext_spec hc₂ (some y)
      have hhead : l.head = some y := h.head
      refine ⟨{ l with head := some s, mem := m₃ }, ?_, ?_, ?_⟩
      · simp [strlinkhead, htail, hhead, hm₁, hm₂, hm₃]
      · apply Represents.insert (show l.Represents ([] ++ y :: ys) from h) hs rfl
        · rw [h.tail]
          rfl
        · exact ⟨_, by rw [e₃, Memory.lookup_set], rfl, rfl⟩
        · intro x _ hx
          cases hx
        · refine Memory.side List.head?_cons hd ?_
          show m₃.lookup y = _
          rw [e₃, Memory.lookup_set_ne hsy.symm, e₂, Memory.lookup_set_ne hsy.symm, e₁,
            Memory.lookup_set]
        · intro p hp _ hpy
          have hps : p ≠ s := fun heq => hs (heq ▸ hp)
          have hpy : p ≠ y := ne_of_side List.head?_cons hpy
          show m₃.lookup p = _
          rw [e₃, Memory.lookup_set_ne hps, e₂, Memory.lookup_set_ne hps, e₁,
            Memory.lookup_set_ne hpy]
      · have hr := (Memory.Relinked.refl (s :: y :: ys) l.mem).step e₁ (by simp) hd rfl
        exact (hr.step e₂ List.mem_cons_self hc₁ rfl).step e₃ List.mem_cons_self hc₂ rfl

/-- **`strlinktail`** puts it at the end. -/
theorem strlinktail_spec (h : l.Represents ps) (hs : s ∉ ps) (hc : l.mem.lookup s = some c) :
    Becomes l (strlinktail (some s) l) (ps ++ [s]) (s :: ps) := by
  rcases List.eq_nil_or_concat' ps with rfl | ⟨xs, z, rfl⟩
  · have hhead : l.head = none := h.head_none_iff.mpr rfl
    obtain ⟨m₁, hm₁, e₁⟩ := Memory.setNext_spec hc none
    have hc₁ : m₁.lookup s = some { c with next := none } := by rw [e₁, Memory.lookup_set]
    obtain ⟨m₂, hm₂, e₂⟩ := Memory.setPrev_spec hc₁ none
    refine ⟨{ head := some s, tail := some s, mem := m₂ }, ?_, ?_, ?_⟩
    · simp [strlinktail, hhead, hm₁, hm₂]
    · apply Represents.insert (show l.Represents ([] ++ []) from h) hs rfl rfl
      · exact ⟨_, by rw [e₂, Memory.lookup_set], rfl, rfl⟩
      · intro x _ hx
        cases hx
      · intro y _ hy
        cases hy
      · intro p hp
        cases hp
    · exact ((Memory.Relinked.refl _ _).step e₁ List.mem_cons_self hc rfl).step e₂
        List.mem_cons_self hc₁ rfl
  · have hhead : l.head ≠ none := by
      rw [ne_eq, h.head_none_iff]
      simp
    have hz : z ∈ xs ++ [z] := List.mem_append_right xs List.mem_cons_self
    obtain ⟨d, hd⟩ := h.linked.lookup hz
    have hsz : s ≠ z := fun heq => hs (heq ▸ hz)
    have htail : l.tail = some z := by rw [h.tail, List.getLast?_concat]
    obtain ⟨m₁, hm₁, e₁⟩ := Memory.setNext_spec hd (some s)
    have hc₁ : m₁.lookup s = some c := by rw [e₁, Memory.lookup_set_ne hsz, hc]
    obtain ⟨m₂, hm₂, e₂⟩ := Memory.setPrev_spec hc₁ (some z)
    have hc₂ : m₂.lookup s = some { c with prev := some z } := by rw [e₂, Memory.lookup_set]
    obtain ⟨m₃, hm₃, e₃⟩ := Memory.setNext_spec hc₂ none
    refine ⟨{ l with tail := some s, mem := m₃ }, ?_, ?_, ?_⟩
    · simp [strlinktail, hhead, htail, hm₁, hm₂, hm₃]
    · rw [← List.append_nil (xs ++ [z])] at h
      apply Represents.insert h (by rwa [List.append_nil])
      · rw [h.head]
        cases xs <;> rfl
      · rw [List.getLast?_concat]
      · exact ⟨_, by rw [e₃, Memory.lookup_set], (List.getLast?_concat).symm, rfl⟩
      · refine Memory.side List.getLast?_concat hd ?_
        show m₃.lookup z = _
        rw [e₃, Memory.lookup_set_ne hsz.symm, e₂, Memory.lookup_set_ne hsz.symm, e₁,
          Memory.lookup_set]
      · intro y _ hy
        cases hy
      · intro p hp hpz _
        rw [List.append_nil] at hp
        have hps : p ≠ s := fun heq => hs (heq ▸ hp)
        have hpz : p ≠ z := ne_of_side List.getLast?_concat hpz
        show m₃.lookup p = _
        rw [e₃, Memory.lookup_set_ne hps, e₂, Memory.lookup_set_ne hps, e₁,
          Memory.lookup_set_ne hpz]
    · have hr := (Memory.Relinked.refl (s :: (xs ++ [z])) l.mem).step e₁
        (List.mem_cons_of_mem s hz) hd rfl
      exact (hr.step e₂ List.mem_cons_self hc₁ rfl).step e₃ List.mem_cons_self hc₂ rfl

/-- **`strlinkafter`** puts it behind a member. -/
theorem strlinkafter_spec (h : l.Represents (xs ++ i :: ys)) (hs : s ∉ xs ++ i :: ys)
    (hc : l.mem.lookup s = some c) :
    Becomes l (strlinkafter (some s) (some i) l) (xs ++ i :: s :: ys) (s :: (xs ++ i :: ys)) := by
  have hi : i ∈ xs ++ i :: ys := List.mem_append_right xs List.mem_cons_self
  have his : i ≠ s := fun heq => hs (heq ▸ hi)
  obtain ⟨⟨d, hd, -, hnext⟩, hixs, hiys⟩ := h.cell
  obtain ⟨m₁, hm₁, e₁⟩ := Memory.setPrev_spec hc (some i)
  have hc₁ : m₁.lookup s = some { c with prev := some i } := by rw [e₁, Memory.lookup_set]
  have hd₁ : m₁.lookup i = some d := by rw [e₁, Memory.lookup_set_ne his, hd]
  obtain ⟨m₂, hm₂, e₂⟩ := Memory.setNext_spec hc₁ d.next
  have hd₂ : m₂.lookup i = some d := by rw [e₂, Memory.lookup_set_ne his, hd₁]
  obtain ⟨m₃, hm₃, e₃⟩ := Memory.setNext_spec hd₂ (some s)
  have hc₃ : m₃.lookup s = some { c with prev := some i, next := d.next } := by
    rw [e₃, Memory.lookup_set_ne his.symm, e₂, Memory.lookup_set]
  have hr : Memory.Relinked (s :: (xs ++ i :: ys)) l.mem m₃ := by
    have hr := (Memory.Relinked.refl (s :: (xs ++ i :: ys)) l.mem).step e₁ List.mem_cons_self hc rfl
    exact (hr.step e₂ List.mem_cons_self hc₁ rfl).step e₃ (List.mem_cons_of_mem s hi) hd₂ rfl
  have hassoc : ∀ zs : List P, (xs ++ [i]) ++ zs = xs ++ i :: zs := by simp
  have hhead : ∀ zs : List P, (xs ++ [i] ++ zs).head? = (xs ++ i :: ys).head? := by
    intro zs
    cases xs <;> rfl
  have hother₃ : ∀ p, p ≠ s → p ≠ i → m₃.lookup p = l.mem.lookup p := by
    intro p hps hpi
    rw [e₃, Memory.lookup_set_ne hpi, e₂, Memory.lookup_set_ne hps, e₁, Memory.lookup_set_ne hps]
  have hd₃ : m₃.lookup i = some { d with next := some s } := by rw [e₃, Memory.lookup_set]
  rw [← hassoc (s :: ys)]
  cases ys with
  | nil =>
      have htail : l.tail = some i := by rw [h.tail, List.getLast?_concat]
      refine ⟨{ l with tail := some s, mem := m₃ }, ?_, ?_, hr⟩
      · simp [strlinkafter, hm₁, hd₁, hm₂, hm₃, htail]
      · rw [← hassoc] at h hs
        apply Represents.insert h hs
        · rw [h.head, hhead, hhead]
        · rw [List.getLast?_concat]
        · exact ⟨_, hc₃, (List.getLast?_concat).symm, hnext⟩
        · refine Memory.side List.getLast?_concat hd ?_
          exact hd₃
        · intro y _ hy
          cases hy
        · intro p hp hpi _
          apply hother₃
          · rintro rfl
            exact hs hp
          · exact ne_of_side List.getLast?_concat hpi
  | cons y ys =>
      have hy : y ∈ xs ++ i :: y :: ys := by simp
      have hys : y ≠ s := fun heq => hs (heq ▸ hy)
      have hyi : y ≠ i := fun heq => hiys (heq ▸ List.mem_cons_self)
      obtain ⟨e, he⟩ := h.linked.lookup hy
      have htail : l.tail ≠ some i := by
        rw [h.tail]
        intro hlast
        have hmem : i ∈ y :: ys := by
          rw [List.getLast?_append_of_ne_nil _ (by simp), List.getLast?_cons_cons] at hlast
          exact List.mem_of_getLast? hlast
        exact hiys hmem
      obtain ⟨m₄, hm₄, e₄⟩ := Memory.setPrev_spec ((hother₃ y hys hyi).trans he) (some s)
      refine ⟨{ l with mem := m₄ }, ?_, ?_, ?_⟩
      · rw [List.head?_cons] at hnext
        rw [hnext] at hm₂ hc₃
        simp [strlinkafter, hm₁, hd₁, hnext, hm₂, hm₃, htail.symm, hc₃, hm₄]
      · rw [← hassoc] at h hs
        apply Represents.insert h hs
        · rw [h.head, hhead, hhead]
        · rw [h.tail]
          simp
        · refine ⟨{ c with prev := some i, next := d.next }, ?_, (List.getLast?_concat).symm, hnext⟩
          rw [e₄, Memory.lookup_set_ne hys.symm, hc₃]
        · refine Memory.side List.getLast?_concat hd ?_
          show m₄.lookup i = _
          rw [e₄, Memory.lookup_set_ne hyi.symm, hd₃]
        · refine Memory.side List.head?_cons he ?_
          show m₄.lookup y = _
          rw [e₄, Memory.lookup_set]
        · intro p hp hpi hpy
          have hpy : p ≠ y := ne_of_side List.head?_cons hpy
          show m₄.lookup p = _
          rw [e₄, Memory.lookup_set_ne hpy]
          apply hother₃
          · rintro rfl
            exact hs hp
          · exact ne_of_side List.getLast?_concat hpi
      · exact hr.step e₄ (List.mem_cons_of_mem s hy) ((hother₃ y hys hyi).trans he) rfl

/-- **`strlinkbefore`** puts it in front of a member. -/
theorem strlinkbefore_spec (h : l.Represents (xs ++ i :: ys)) (hs : s ∉ xs ++ i :: ys)
    (hc : l.mem.lookup s = some c) :
    Becomes l (strlinkbefore (some s) (some i) l) (xs ++ s :: i :: ys) (s :: (xs ++ i :: ys)) := by
  have hi : i ∈ xs ++ i :: ys := List.mem_append_right xs List.mem_cons_self
  have his : i ≠ s := fun heq => hs (heq ▸ hi)
  obtain ⟨⟨d, hd, hprev, -⟩, hixs, -⟩ := h.cell
  obtain ⟨m₁, hm₁, e₁⟩ := Memory.setPrev_spec hc d.prev
  have hc₁ : m₁.lookup s = some { c with prev := d.prev } := by rw [e₁, Memory.lookup_set]
  obtain ⟨m₂, hm₂, e₂⟩ := Memory.setNext_spec hc₁ (some i)
  have hd₂ : m₂.lookup i = some d := by
    rw [e₂, Memory.lookup_set_ne his, e₁, Memory.lookup_set_ne his, hd]
  obtain ⟨m₃, hm₃, e₃⟩ := Memory.setPrev_spec hd₂ (some s)
  have hc₃ : m₃.lookup s = some { c with prev := d.prev, next := some i } := by
    rw [e₃, Memory.lookup_set_ne his.symm, e₂, Memory.lookup_set]
  have hd₃ : m₃.lookup i = some { d with prev := some s } := by rw [e₃, Memory.lookup_set]
  have hother₃ : ∀ p, p ≠ s → p ≠ i → m₃.lookup p = l.mem.lookup p := by
    intro p hps hpi
    rw [e₃, Memory.lookup_set_ne hpi, e₂, Memory.lookup_set_ne hps, e₁, Memory.lookup_set_ne hps]
  have hr : Memory.Relinked (s :: (xs ++ i :: ys)) l.mem m₃ := by
    have hr := (Memory.Relinked.refl (s :: (xs ++ i :: ys)) l.mem).step e₁ List.mem_cons_self hc rfl
    exact (hr.step e₂ List.mem_cons_self hc₁ rfl).step e₃ (List.mem_cons_of_mem s hi) hd₂ rfl
  rcases List.eq_nil_or_concat' xs with rfl | ⟨xs, z, rfl⟩
  · -- the member is the head
    have hnone : d.prev = none := hprev
    refine ⟨{ l with head := some s, mem := m₃ }, ?_, ?_, hr⟩
    · rw [hnone] at hm₁ hc₃
      simp [strlinkbefore, hd, hnone, hm₁, hm₂, hm₃, hc₃]
    · apply Represents.insert (show l.Represents ([] ++ i :: ys) from h) hs rfl
      · rw [h.tail]
        simp
      · exact ⟨_, hc₃, hnone, rfl⟩
      · intro x _ hx
        cases hx
      · refine Memory.side List.head?_cons hd ?_
        exact hd₃
      · intro p hp _ hpi
        apply hother₃
        · rintro rfl
          exact hs hp
        · exact ne_of_side List.head?_cons hpi
  · have hz : z ∈ (xs ++ [z]) ++ i :: ys := by simp
    have hzs : z ≠ s := fun heq => hs (heq ▸ hz)
    have hzi : z ≠ i := fun heq => hixs (heq ▸ List.mem_append_right xs List.mem_cons_self)
    have hsome : d.prev = some z := by rw [hprev, List.getLast?_concat]
    obtain ⟨e, he⟩ := h.linked.lookup hz
    obtain ⟨m₄, hm₄, e₄⟩ := Memory.setNext_spec ((hother₃ z hzs hzi).trans he) (some s)
    refine ⟨{ l with mem := m₄ }, ?_, ?_, ?_⟩
    · rw [hsome] at hm₁ hc₃
      simp [strlinkbefore, hd, hsome, hm₁, hm₂, hm₃, hc₃, hm₄]
    · apply Represents.insert h hs
      · rw [h.head]
        cases xs <;> rfl
      · rw [h.tail]
        simp
      · refine ⟨{ c with prev := d.prev, next := some i }, ?_, hprev, rfl⟩
        rw [e₄, Memory.lookup_set_ne hzs.symm, hc₃]
      · refine Memory.side List.getLast?_concat he ?_
        show m₄.lookup z = _
        rw [e₄, Memory.lookup_set]
      · refine Memory.side List.head?_cons hd ?_
        show m₄.lookup i = _
        rw [e₄, Memory.lookup_set_ne hzi.symm, hd₃]
      · intro p hp hpz hpi
        have hpz : p ≠ z := ne_of_side List.getLast?_concat hpz
        show m₄.lookup p = _
        rw [e₄, Memory.lookup_set_ne hpz]
        apply hother₃
        · rintro rfl
          exact hs hp
        · exact ne_of_side List.head?_cons hpi
    · exact hr.step e₄ (List.mem_cons_of_mem s hz) ((hother₃ z hzs hzi).trans he) rfl

/-- **`strunlink`** takes a member out. The four cases are the four branches. -/
theorem strunlink_spec (h : l.Represents (xs ++ s :: ys)) :
    Becomes l (strunlink (some s) l) (xs ++ ys) (xs ++ s :: ys) := by
  obtain ⟨⟨c, hc, hprev, hnext⟩, hsxs, hsys⟩ := h.cell
  rcases List.eq_nil_or_concat' xs with rfl | ⟨xs, z, rfl⟩
  · cases ys with
    | nil =>
        -- the only node
        have hp : c.prev = none := hprev
        have hn : c.next = none := hnext
        refine ⟨{ l with head := none, tail := none }, ?_, represents_nil l.mem, Memory.Relinked.refl _ _⟩
        simp [strunlink, hc, hp, hn]
    | cons y ys =>
        -- the head
        have hp : c.prev = none := hprev
        have hn : c.next = some y := hnext
        obtain ⟨d, hd⟩ := h.linked.lookup (p := y) (by simp)
        obtain ⟨m₁, hm₁, e₁⟩ := Memory.setPrev_spec hd none
        refine ⟨{ l with head := some y, mem := m₁ }, ?_, ?_, ?_⟩
        · simp [strunlink, hc, hp, hn, hm₁]
        · apply Represents.remove (show l.Represents ([] ++ s :: y :: ys) from h) rfl
          · rw [h.tail]
            rfl
          · intro x _ hx
            cases hx
          · refine Memory.side List.head?_cons hd ?_
            show m₁.lookup y = _
            rw [e₁, Memory.lookup_set]
            rfl
          · intro p _ _ hpy
            have hpy : p ≠ y := ne_of_side List.head?_cons hpy
            show m₁.lookup p = _
            rw [e₁, Memory.lookup_set_ne hpy]
        · exact (Memory.Relinked.refl _ _).step e₁ (by simp) hd rfl
  · have hp : c.prev = some z := by rw [hprev, List.getLast?_concat]
    have hsz : s ≠ z := fun heq => hsxs (heq ▸ List.mem_append_right xs List.mem_cons_self)
    obtain ⟨e, he⟩ := h.linked.lookup (p := z) (by simp)
    cases ys with
    | nil =>
        -- the tail
        have hn : c.next = none := hnext
        obtain ⟨m₁, hm₁, e₁⟩ := Memory.setNext_spec he none
        refine ⟨{ l with tail := some z, mem := m₁ }, ?_, ?_, ?_⟩
        · simp [strunlink, hc, hp, hn, hm₁]
        · apply Represents.remove h
          · rw [h.head]
            cases xs <;> rfl
          · rw [List.append_nil, List.getLast?_concat]
          · refine Memory.side List.getLast?_concat he ?_
            show m₁.lookup z = _
            rw [e₁, Memory.lookup_set]
            rfl
          · intro y _ hy
            cases hy
          · intro p _ hpz _
            have hpz : p ≠ z := ne_of_side List.getLast?_concat hpz
            show m₁.lookup p = _
            rw [e₁, Memory.lookup_set_ne hpz]
        · exact (Memory.Relinked.refl _ _).step e₁ (by simp) he rfl
    | cons y ys =>
        -- a node between two others
        have hn : c.next = some y := hnext
        obtain ⟨d, hd⟩ := h.linked.lookup (p := y) (by simp)
        have hyz : y ≠ z := by
          have := (List.nodup_append'.mp h.nodup).2.2
          rintro rfl
          apply this (a := y) <;> simp
        obtain ⟨m₁, hm₁, e₁⟩ := Memory.setNext_spec he (some y)
        have hc₁ : m₁.lookup s = some c := by rw [e₁, Memory.lookup_set_ne hsz, hc]
        have hd₁ : m₁.lookup y = some d := by rw [e₁, Memory.lookup_set_ne hyz, hd]
        obtain ⟨m₂, hm₂, e₂⟩ := Memory.setPrev_spec hd₁ (some z)
        refine ⟨{ l with mem := m₂ }, ?_, ?_, ?_⟩
        · simp [strunlink, hc, hp, hn, hm₁, hc₁, hm₂]
        · apply Represents.remove h
          · rw [h.head]
            cases xs <;> rfl
          · rw [h.tail]
            simp
          · refine Memory.side List.getLast?_concat he ?_
            show m₂.lookup z = _
            rw [e₂, Memory.lookup_set_ne hyz.symm, e₁, Memory.lookup_set]
            rfl
          · refine Memory.side List.head?_cons hd ?_
            show m₂.lookup y = _
            rw [e₂, Memory.lookup_set, List.getLast?_concat]
          · intro p _ hpz hpy
            have hpz : p ≠ z := ne_of_side List.getLast?_concat hpz
            have hpy : p ≠ y := ne_of_side List.head?_cons hpy
            show m₂.lookup p = _
            rw [e₂, Memory.lookup_set_ne hpy, e₁, Memory.lookup_set_ne hpz]
        · exact ((Memory.Relinked.refl _ _).step e₁ (by simp) he rfl).step e₂ (by simp) hd₁ rfl

end

/-! ## §3 — the order -/

/-- What two strings are compared by. -/
def alphaKey (caseindep : Bool) (s : Bytes) : List Nat :=
  (if caseindep then lcaseit s else s).map UInt8.toNat

theorem strcmp_cases (a b : Bytes) :
    (strcmp a b < 0 ↔ a.map UInt8.toNat < b.map UInt8.toNat) ∧
      (strcmp a b = 0 ↔ a.map UInt8.toNat = b.map UInt8.toNat) := by
  induction a generalizing b with
  | nil => cases b <;> simp [strcmp]
  | cons x xs ih =>
      cases b with
      | nil => simp [strcmp]
      | cons y ys =>
          rw [List.map_cons, List.map_cons, List.cons_lt_cons_iff, List.cons.injEq, UInt8.toNat_inj]
          by_cases hxy : x = y
          · simp only [strcmp, hxy, if_true, Nat.lt_irrefl, false_or, true_and]
            exact ih ys
          · have hne : x.toNat ≠ y.toNat := fun h => hxy (UInt8.toNat_inj.mp h)
            simp only [strcmp, hxy, if_false, false_and, or_false, iff_false]
            omega

theorem alphacmp_neg_iff (caseindep : Bool) (a b : Bytes) :
    alphacmp caseindep a b < 0 ↔ alphaKey caseindep a < alphaKey caseindep b := by
  cases caseindep <;> exact (strcmp_cases _ _).1

theorem alphacmp_zero_iff (caseindep : Bool) (a b : Bytes) :
    alphacmp caseindep a b = 0 ↔ alphaKey caseindep a = alphaKey caseindep b := by
  cases caseindep <;> exact (strcmp_cases _ _).2

theorem alphacmp_nonpos_iff (caseindep : Bool) (a b : Bytes) :
    alphacmp caseindep a b ≤ 0 ↔ alphaKey caseindep a ≤ alphaKey caseindep b := by
  rw [le_iff_lt_or_eq, le_iff_lt_or_eq, alphacmp_neg_iff, alphacmp_zero_iff]

/-- The string of a node. -/
def strOf (m : Memory P Bytes) (p : P) : Bytes := (m.val p).getD []

/-! ## §4 — `strlinkalpha` -/

section
variable {l : StrList P} {ps : List P} {s : P} {c : Cell P Bytes}

theorem strOf_eq {m : Memory P Bytes} {p : P} (h : m.lookup p = some c) : strOf m p = c.val := by
  rw [strOf, Memory.val, h]
  rfl

/-- **`strlinkalpha`** puts a node behind everything that is not larger. -/
theorem strlinkalpha_spec (caseindep : Bool) (h : l.Represents ps) (hs : s ∉ ps)
    (hc : l.mem.lookup s = some c) :
    Becomes l (strlinkalpha (some s) l caseindep)
      (stableInsert (fun p => alphaKey caseindep (strOf l.mem p)) s ps) (s :: ps) := by
  unfold strlinkalpha
  by_cases hnil : ps = []
  · subst hnil
    rw [if_pos (h.head_none_iff.mpr rfl)]
    exact strlinkhead_spec h hs hc
  rw [if_neg (mt h.head_none_iff.mp hnil)]
  -- the test of the loop is the order of the keys
  have htest : ∀ p ∈ ps, ((l.mem.lookup p).any fun d => alphacmp caseindep c.val d.val < 0) = true ↔
      alphaKey caseindep (strOf l.mem s) < alphaKey caseindep (strOf l.mem p) := by
    intro p hp
    obtain ⟨d, hd⟩ := h.linked.lookup hp
    rw [hd, strOf_eq hd, strOf_eq hc, ← alphacmp_neg_iff]
    simp
  have hseek := Memory.seek_eq h.linked h.nodup fun d => alphacmp caseindep c.val d.val < 0
  rw [← h.head] at hseek
  simp only [Memory.read_some, hc, Option.bind_eq_bind, Option.bind_some, hseek]
  cases hfind : ps.find? fun p => (l.mem.lookup p).any fun d => alphacmp caseindep c.val d.val < 0 with
  | none =>
      have hlast : stableInsert (fun p => alphaKey caseindep (strOf l.mem p)) s ps = ps ++ [s] := by
        apply stableInsert_last
        intro p hp hlt
        exact List.find?_eq_none.mp hfind p hp ((htest p hp).mpr hlt)
      rw [if_neg (by simp), hlast]
      exact strlinktail_spec h hs hc
  | some i =>
      obtain ⟨hi, xs, ys, rfl, hxs⟩ := List.find?_eq_some_iff_append.mp hfind
      have hbefore : stableInsert (fun p => alphaKey caseindep (strOf l.mem p)) s (xs ++ i :: ys) =
          xs ++ s :: i :: ys := by
        apply stableInsert_before
        · intro x hx hlt
          have hno := hxs x hx
          rw [(htest x (List.mem_append_left _ hx)).mpr hlt] at hno
          cases hno
        · exact (htest i (by simp)).mp hi
      rw [if_pos (by simp), hbefore]
      cases xs with
      | nil =>
          have hhead : some i = l.head := h.head.symm
          rw [if_pos hhead]
          exact strlinkhead_spec h hs hc
      | cons x xs =>
          have hne : some i ≠ l.head := by
            rw [h.head]
            intro heq
            have hix : i = x := Option.some.inj heq
            have := (List.nodup_cons.mp h.nodup).1
            exact this (hix ▸ by simp)
          rw [if_neg hne]
          exact strlinkbefore_spec h hs hc

/-- `strlinkalpha` for one node after the other. -/
def strlinkalphaAll (caseindep : Bool) (ss : List P) (l : StrList P) : Option (StrList P) :=
  ss.foldlM (fun l s => strlinkalpha (some s) l caseindep) l

/-- **The insertions**, by induction on the nodes: the strings do not change on the way. -/
theorem strlinkalphaAll_spec (caseindep : Bool) (ss : List P) (h : l.Represents ps)
    (hnd : (ps ++ ss).Nodup) (hall : ∀ s ∈ ss, s ∈ l.mem) :
    ∃ l', strlinkalphaAll caseindep ss l = some l' ∧
      l'.Represents (stableInsertAll (fun p => alphaKey caseindep (strOf l.mem p)) ss ps) ∧
      l'.mem.val = l.mem.val := by
  induction ss generalizing l ps with
  | nil => exact ⟨l, rfl, h, rfl⟩
  | cons s ss ih =>
      have hs : s ∉ ps := by
        have := (List.nodup_append'.mp hnd).2.2
        exact fun hmem => this hmem List.mem_cons_self
      obtain ⟨c, hc⟩ := Finmap.mem_iff.mp (hall s List.mem_cons_self)
      obtain ⟨l₁, hl₁, hr₁, hsame⟩ := strlinkalpha_spec caseindep h hs hc
      have hkey : strOf l₁.mem = strOf l.mem := by
        funext p
        rw [strOf, strOf, hsame.val]
      have hmem : ∀ x ∈ ss, x ∈ l₁.mem := by
        intro x hx
        obtain ⟨d, hd⟩ := Finmap.mem_iff.mp (hall x (List.mem_cons_of_mem s hx))
        have hval : l₁.mem.val x = some d.val := by
          rw [hsame.val, Memory.val, hd]
          rfl
        obtain ⟨d', hd', -⟩ := Option.map_eq_some_iff.mp hval
        exact Finmap.mem_iff.mpr ⟨d', hd'⟩
      have hperm := (stableInsert_perm (fun p => alphaKey caseindep (strOf l.mem p)) s ps).append_right ss
      have hnd₁ : (stableInsert (fun p => alphaKey caseindep (strOf l.mem p)) s ps ++ ss).Nodup := by
        rw [hperm.nodup_iff, List.cons_append, ← List.perm_middle.nodup_iff]
        exact hnd
      obtain ⟨l₂, hl₂, hr₂, hsame₂⟩ := ih hr₁ hnd₁ hmem
      rw [hkey] at hr₂
      refine ⟨l₂, ?_, hr₂, hsame₂.trans hsame.val⟩
      rw [strlinkalphaAll, List.foldlM_cons, hl₁]
      exact hl₂

end

/-! ## §5 — the list as a whole -/

/-- **String list surgery.** On a well-formed list every link operation with a fresh node, and `strunlink`
with a member, leaves a well-formed list with the node at, or gone from, its place, and changes nothing
but pointers of the list and the node. Nodes inserted with `strlinkalpha` into an empty list come out
sorted, each once, and those with equal strings in the order in which they were inserted. -/
theorem strlist_surgery :
    (∀ {l : StrList P} {ps : List P} {s : P}, l.Represents ps → s ∉ ps → s ∈ l.mem →
      Becomes l (strlinkhead (some s) l) (s :: ps) (s :: ps) ∧
      Becomes l (strlinktail (some s) l) (ps ++ [s]) (s :: ps) ∧
      ∀ xs i ys, ps = xs ++ i :: ys →
        Becomes l (strlinkafter (some s) (some i) l) (xs ++ i :: s :: ys) (s :: ps) ∧
        Becomes l (strlinkbefore (some s) (some i) l) (xs ++ s :: i :: ys) (s :: ps)) ∧
    (∀ {l : StrList P} {xs ys : List P} {s : P}, l.Represents (xs ++ s :: ys) →
      Becomes l (strunlink (some s) l) (xs ++ ys) (xs ++ s :: ys)) ∧
    (∀ (m : Memory P Bytes) (ss : List P) (caseindep : Bool), ss.Nodup → (∀ s ∈ ss, s ∈ m) →
      ∃ l' ps, strlinkalphaAll caseindep ss { mem := m } = some l' ∧ l'.Represents ps ∧
        l'.mem.val = m.val ∧ ps.Perm ss ∧
        ps.Pairwise (fun p q => alphacmp caseindep (strOf m p) (strOf m q) ≤ 0) ∧
        ∀ str, ps.filter (fun p => alphacmp caseindep (strOf m p) str = 0) =
          ss.filter fun p => alphacmp caseindep (strOf m p) str = 0) := by
  refine ⟨?_, fun h => strunlink_spec h, ?_⟩
  · intro l ps s h hs hmem
    obtain ⟨c, hc⟩ := Finmap.mem_iff.mp hmem
    refine ⟨strlinkhead_spec h hs hc, strlinktail_spec h hs hc, ?_⟩
    rintro xs i ys rfl
    exact ⟨strlinkafter_spec h hs hc, strlinkbefore_spec h hs hc⟩
  · intro m ss caseindep hnd hall
    obtain ⟨l', hl', hr', hval⟩ :=
      strlinkalphaAll_spec caseindep ss (represents_nil m) (by rwa [List.nil_append]) hall
    obtain ⟨hsorted, hperm, hfilter⟩ := stableInsertAll_spec
      (show SortedBy (fun p => alphaKey caseindep (strOf m p)) [] from List.Pairwise.nil) ss
    refine ⟨l', _, hl', hr', hval, hperm, ?_, ?_⟩
    · apply hsorted.imp
      intro p q hpq
      exact (alphacmp_nonpos_iff _ _ _).mpr hpq
    · intro str
      have hclass : ∀ p, decide (alphacmp caseindep (strOf m p) str = 0) = true ↔
          alphaKey caseindep (strOf m p) = alphaKey caseindep str := by
        intro p
        rw [decide_eq_true_eq, alphacmp_zero_iff]
      simpa only [List.filter_nil, List.nil_append] using hfilter _ _ hclass

end Icbd
