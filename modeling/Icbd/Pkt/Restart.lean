/-
# Icbd.Pkt.Restart — the poll set in a dump, and in the process that loads it.

`g_pollset` is allocated at the first call of `add_pollfd` and doubled when it is full. Here it is the memory
that was allocated, every access is checked against its end, and what malloc and realloc hand out holds
anything.

`pktserv_loadsockets` stores the dumped size in `g_pollsetsize` and then calls `add_pollfd`, which looks for
its descriptor among that many: in a new process before a single one is there. With the size left alone the
same calls build the set.
-/
import Icbd.Pkt.PollSet
import Icbd.TextFile

namespace Icbd.Pkt

/-! ## §1 — the memory -/

/-- What ends a run of the code. -/
inductive Fault
  /-- an element outside the allocated array is read or written -/
  | outside
  /-- the model stops counting -/
  | rounds
  deriving DecidableEq, Repr

/-- An element of `g_pollset`. -/
structure Cell where
  fd : Int := 0
  events : PollBits := {}
  deriving DecidableEq, Repr

/-- The globals of `pktserv.c`; a new process has no array. -/
structure Polling where
  pollset : List Cell := []
  pollsetsize : Nat := 0
  pollsetmax : Nat := 0
  portFd : Int := 0
  sslportFd : Int := 0
  deriving DecidableEq, Repr

/-- The allocator: whether it has room for so many elements, and what they hold. -/
structure Heap where
  grants : Nat → Bool := fun _ => true
  junk : Nat → Cell := fun _ => {}

/-- `malloc` and `realloc`: the elements there are, and the new ones behind them. -/
def Heap.extend (heap : Heap) (cells : List Cell) (n : Nat) : List Cell :=
  cells ++ (List.range' cells.length (n - cells.length)).map heap.junk

/-- The search of `add_pollfd`, over so many elements from `i` on: where it ends. -/
def searchFd (cells : List Cell) (fd : Int) : Nat → Nat → Except Fault Nat
  | 0, i => .ok i
  | n + 1, i =>
      match cells[i]? with
      | none => .error .outside
      | some c => if c.fd = fd then .ok i else searchFd cells fd n (i + 1)

/-- `g_pollset[i]` is written. -/
def Polling.write (p : Polling) (i : Nat) (f : Cell → Cell) : Except Fault Polling :=
  match p.pollset[i]? with
  | none => .error .outside
  | some c => .ok { p with pollset := p.pollset.set i (f c) }

/-- Room for one more element, if the allocator has it. -/
def grow (heap : Heap) (p : Polling) : Option Polling :=
  if p.pollsetmax = 0 then
    if heap.grants 16 then some { p with pollset := heap.extend [] 16, pollsetmax := 16 } else none
  else if p.pollsetsize = p.pollsetmax then
    if heap.grants (p.pollsetmax * 2) then
      some { p with
        pollset := heap.extend p.pollset (p.pollsetmax * 2)
        pollsetmax := p.pollsetmax * 2 }
    else none
  else some p

/-- `add_pollfd`. -/
def addPollfd (heap : Heap) (fd : Int) (p : Polling) : Except Fault (Int × Polling) := do
  let i ← searchFd p.pollset fd p.pollsetsize 0
  if i = p.pollsetsize then
    match grow heap p with
    | none => pure (-1, p)
    | some q =>
        let q ← q.write q.pollsetsize fun c => { c with fd := fd }
        let q := { q with pollsetsize := q.pollsetsize + 1 }
        let q ← q.write i fun c => { c with events := { pollin := true } }
        pure (0, q)
  else
    let q ← p.write i fun c => { c with events := { pollin := true } }
    pure (0, q)

/-! ## §2 — the file -/

/-- The loop of `pktserv_dumpsockets`, over so many elements from `i` on. -/
def dumpFds (cells : List Cell) : Nat → Nat → Except Fault Bytes
  | 0, _ => .ok []
  | n + 1, i =>
      match cells[i]? with
      | none => .error .outside
      | some c => (dumpFds cells n (i + 1)).map fun text => num c.fd ++ text

/-- `pktserv_dumpsockets`. -/
def pktservDumpsockets (p : Polling) : Except Fault Bytes :=
  (dumpFds p.pollset p.pollsetsize 0).map fun text =>
    num p.pollsetsize ++ text ++ num p.portFd ++ num p.sslportFd

/-- The loop of `pktserv_loadsockets`, from `i` on: up to the size there is, which `add_pollfd` may raise. -/
def loadLoop (heap : Heap) : Nat → Nat → Int → Polling → Bytes → Except Fault (Polling × Bytes)
  | 0, _, _, _, _ => .error .rounds
  | rounds + 1, i, k, p, dump =>
      if i < p.pollsetsize then do
        let r := fscanfNum k dump
        let q ← addPollfd heap r.1 p
        loadLoop heap rounds (i + 1) r.1 q.2 r.2
      else .ok (p, dump)

/-- `pktserv_loadsockets`: `k` holds anything before it is read. Each new descriptor takes a byte of the file
at least, so the rounds are enough. -/
def pktservLoadsockets (heap : Heap) (k : Int) (p : Polling) (dump : Bytes) : Except Fault Polling := do
  let r := fscanfNum k dump
  let q ← loadLoop heap (r.1.toNat + dump.length + 1) 0 r.1 { p with pollsetsize := r.1.toNat } r.2
  let port := fscanfNum q.1.portFd q.2
  let ssl := fscanfNum q.1.sslportFd port.2
  pure { q.1 with portFd := port.1, sslportFd := ssl.1 }

/-! ## §3 — `add_pollfd` -/

/-- The array is as long as it was allocated, and the used part of it is there. -/
structure Polling.Allocated (p : Polling) : Prop where
  room : p.pollset.length = p.pollsetmax
  used : p.pollsetsize ≤ p.pollsetmax

/-- The descriptors that are polled. -/
def Polling.fds (p : Polling) : List Int := (p.pollset.take p.pollsetsize).map (·.fd)

section
variable {heap : Heap} {fd : Int} {p q : Polling} {cells : List Cell}

/-- A process starts with nothing allocated. -/
theorem allocated_start : Polling.Allocated {} := ⟨rfl, Nat.le_refl 0⟩

/-- **The search** stays in an array that is long enough, and ends at the descriptor or behind the last. -/
theorem searchFd_ok (fd : Int) (n i : Nat) (h : i + n ≤ cells.length) :
    ∃ j, searchFd cells fd n i = .ok j ∧ i ≤ j ∧ j ≤ i + n ∧
      (∀ k, i ≤ k → k < j → ∀ c, cells[k]? = some c → c.fd ≠ fd) ∧
      (j < i + n → ∃ c, cells[j]? = some c ∧ c.fd = fd) := by
  induction n generalizing i with
  | zero => exact ⟨i, rfl, Nat.le_refl i, Nat.le_refl i, fun k _ _ => by omega, fun _ => by omega⟩
  | succ n ih =>
    have hget : cells[i]? = some cells[i] := List.getElem?_eq_getElem (by omega)
    rw [searchFd, hget]
    dsimp only
    by_cases hfd : cells[i].fd = fd
    · rw [if_pos hfd]
      exact ⟨i, rfl, Nat.le_refl i, by omega, fun k _ _ => by omega, fun _ => ⟨_, hget, hfd⟩⟩
    · rw [if_neg hfd]
      obtain ⟨j, hsearch, hle, hj, hbefore, hat⟩ := ih (i + 1) (by omega)
      refine ⟨j, hsearch, by omega, by omega, ?_, fun hlt => hat (by omega)⟩
      intro k hik hkj c hc
      rcases Nat.eq_or_lt_of_le hik with rfl | hlt
      · rwa [Option.some.inj (hc.symm.trans hget)]
      · exact hbefore k hlt hkj c hc

theorem write_ok {i : Nat} (f : Cell → Cell) (h : i < p.pollset.length) :
    p.write i f = .ok { p with pollset := p.pollset.set i (f p.pollset[i]) } := by
  rw [Polling.write, List.getElem?_eq_getElem h]

/-- **Growing** leaves what is used as it is, and there is room behind it. -/
theorem grow_spec (h : p.Allocated) (hgrow : grow heap p = some q) :
    q.Allocated ∧ q.pollsetsize = p.pollsetsize ∧ p.pollsetsize < q.pollset.length ∧
      q.pollset.take p.pollsetsize = p.pollset.take p.pollsetsize ∧ q.portFd = p.portFd ∧
        q.sslportFd = p.sslportFd := by
  obtain ⟨hroom, hused⟩ := h
  have hlen (cells : List Cell) (n : Nat) (hn : cells.length ≤ n) :
      (heap.extend cells n).length = n := by
    rw [Heap.extend, List.length_append, List.length_map, List.length_range']
    omega
  unfold grow at hgrow
  split at hgrow
  next hfirst =>
    -- nothing is allocated, so nothing is used
    split at hgrow
    next =>
      obtain rfl := Option.some.inj hgrow
      have hzero : p.pollsetsize = 0 := by omega
      refine ⟨⟨hlen [] 16 (Nat.zero_le _), by dsimp only; omega⟩, rfl, ?_, ?_, rfl, rfl⟩
      · rw [hlen [] 16 (Nat.zero_le _), hzero]
        decide
      · rw [hzero, List.take_zero, List.take_zero]
    next => cases hgrow
  next hmore =>
    split at hgrow
    next hfull =>
      split at hgrow
      next =>
        obtain rfl := Option.some.inj hgrow
        have hdouble := hlen p.pollset (p.pollsetmax * 2) (by omega)
        refine ⟨⟨hdouble, by dsimp only; omega⟩, rfl, by dsimp only; omega, ?_, rfl, rfl⟩
        exact List.take_append_of_le_length (by omega)
      next => cases hgrow
    next hspare =>
      obtain rfl := Option.some.inj hgrow
      exact ⟨⟨hroom, hused⟩, rfl, by omega, rfl, rfl, rfl⟩

/-- What `add_pollfd` does with a set that is allocated: the descriptor is there, or it is put behind the
last, or there is no memory for it. -/
theorem addPollfd_cases (heap : Heap) (fd : Int) (h : p.Allocated) :
    (∃ j < p.pollsetsize, ∃ c, p.pollset[j]? = some c ∧ c.fd = fd ∧
      addPollfd heap fd p =
        .ok (0, { p with pollset := p.pollset.set j { c with events := { pollin := true } } })) ∨
    (fd ∉ p.fds ∧ grow heap p = none ∧ addPollfd heap fd p = .ok (-1, p)) ∨
    (fd ∉ p.fds ∧ ∃ q, grow heap p = some q ∧
      addPollfd heap fd p = .ok (0, { q with
        pollset := q.pollset.set p.pollsetsize ⟨fd, { pollin := true }⟩
        pollsetsize := p.pollsetsize + 1 })) := by
  have hlen : 0 + p.pollsetsize ≤ p.pollset.length := by
    rw [h.room, Nat.zero_add]
    exact h.used
  obtain ⟨j, hsearch, -, hj, hbefore, hat⟩ := searchFd_ok fd p.pollsetsize 0 hlen
  rw [Nat.zero_add] at hlen hj hat
  rcases Nat.eq_or_lt_of_le hj with rfl | hlt
  · right
    have hnew : fd ∉ p.fds := by
      intro hmem
      obtain ⟨c, hc, hfd⟩ := List.mem_map.mp hmem
      obtain ⟨k, hk, hget⟩ := List.mem_take_iff_getElem.mp hc
      have hget' : p.pollset[k]? = some c := by
        rw [List.getElem?_eq_getElem (by omega), hget]
      exact hbefore k (Nat.zero_le k) (by omega) c hget' hfd
    cases hgrow : grow heap p with
    | none =>
      left
      refine ⟨hnew, rfl, ?_⟩
      simp only [addPollfd, hsearch, hgrow, bind, Except.bind, if_true, pure, Except.pure]
    | some q =>
      right
      refine ⟨hnew, q, rfl, ?_⟩
      obtain ⟨-, hsize, hroom, -⟩ := grow_spec h hgrow
      have hset : p.pollsetsize < (q.pollset.set p.pollsetsize
          { q.pollset[p.pollsetsize] with fd := fd }).length := by
        rwa [List.length_set]
      simp only [addPollfd, hsearch, hgrow, bind, Except.bind, if_true, pure, Except.pure, hsize,
        write_ok _ hroom, write_ok (p := Polling.mk _ _ _ _ _) _ hset, List.getElem_set_self,
        List.set_set]
  · left
    obtain ⟨c, hc, hfd⟩ := hat hlt
    refine ⟨j, hlt, c, hc, hfd, ?_⟩
    have hjlen : j < p.pollset.length := by omega
    have hcell : p.pollset[j] = c := by
      rw [List.getElem?_eq_getElem hjlen] at hc
      exact Option.some.inj hc
    simp only [addPollfd, hsearch, bind, Except.bind, if_neg (Nat.ne_of_lt hlt), pure, Except.pure,
      write_ok _ hjlen, hcell]

/-- Writing an element without its descriptor. -/
theorem map_fd_set {j : Nat} {c c' : Cell} (hc : cells[j]? = some c) (hfd : c'.fd = c.fd) :
    (cells.set j c').map (·.fd) = cells.map (·.fd) := by
  apply List.ext_getElem?
  intro k
  rw [List.getElem?_map, List.getElem?_map]
  by_cases hk : j = k
  · subst hk
    rw [List.getElem?_set_self (List.getElem?_eq_some_iff.mp hc).1, hc, Option.map_some,
      Option.map_some, hfd]
  · rw [List.getElem?_set_ne hk]

/-- **One call** never leaves the array, and what was polled still is. -/
theorem addPollfd_step (heap : Heap) (fd : Int) (h : p.Allocated) :
    ∃ r q, addPollfd heap fd p = .ok (r, q) ∧ q.Allocated ∧ q.portFd = p.portFd ∧
      q.sslportFd = p.sslportFd ∧
        (q.fds = p.fds ∧ (r = 0 → fd ∈ p.fds) ∨ r = 0 ∧ fd ∉ p.fds ∧ q.fds = p.fds ++ [fd]) := by
  obtain ⟨hroom, hused⟩ := h
  rcases addPollfd_cases heap fd ⟨hroom, hused⟩ with
    ⟨j, hj, c, hc, hfd, hadd⟩ | ⟨-, -, hadd⟩ | ⟨hnew, q, hgrow, hadd⟩
  · obtain ⟨hjlen, rfl⟩ := List.getElem?_eq_some_iff.mp hc
    refine ⟨_, _, hadd, ⟨by rw [List.length_set]; exact hroom, hused⟩, rfl, rfl, .inl ⟨?_, fun _ => ?_⟩⟩
    · rw [Polling.fds, Polling.fds, List.map_take, List.map_take]
      exact congrArg (List.take p.pollsetsize) (map_fd_set hc rfl)
    · rw [← hfd]
      exact List.mem_map_of_mem (List.mem_take_iff_getElem.mpr ⟨j, by omega, rfl⟩)
  · exact ⟨_, _, hadd, ⟨hroom, hused⟩, rfl, rfl, .inl ⟨rfl, fun h => absurd h (by decide)⟩⟩
  · obtain ⟨hq, hsize, hlt, htake, hport, hssl⟩ := grow_spec ⟨hroom, hused⟩ hgrow
    refine ⟨_, _, hadd, ⟨?_, ?_⟩, hport, hssl, .inr ⟨rfl, hnew, ?_⟩⟩
    · rw [List.length_set]
      exact hq.room
    · exact hq.room ▸ hlt
    · rw [Polling.fds, Polling.fds]
      dsimp only
      rw [List.take_succ_eq_append_getElem (by rwa [List.length_set]), List.getElem_set_self,
        List.take_set_of_le (Nat.le_refl _), htake, List.map_append]
      rfl

/-- Descriptors are added one after the other. -/
def addAll (heap : Heap) : List Int → Polling → Except Fault Polling
  | [], p => .ok p
  | fd :: fds, p => do
      let q ← addPollfd heap fd p
      addAll heap fds q.2

/-- **Any number of calls** stay in the array and hold no descriptor twice. -/
theorem addAll_allocated (heap : Heap) (fds : List Int) (h : p.Allocated) (hnodup : p.fds.Nodup) :
    ∃ q, addAll heap fds p = .ok q ∧ q.Allocated ∧ q.fds.Nodup := by
  induction fds generalizing p with
  | nil => exact ⟨p, rfl, h, hnodup⟩
  | cons fd fds ih =>
    obtain ⟨r, q, hadd, hq, -, -, hfds⟩ := addPollfd_step heap fd h
    have hq' : q.fds.Nodup := by
      rcases hfds with ⟨hsame, -⟩ | ⟨-, hnew, hmore⟩
      · rwa [hsame]
      · rw [hmore]
        exact List.Nodup.append hnodup (List.nodup_singleton fd) (by simpa using hnew)
    obtain ⟨q', hall, hq'⟩ := ih hq hq'
    refine ⟨q', ?_, hq'⟩
    rw [addAll, hadd]
    exact hall

theorem grow_ne_none (hgrants : ∀ n, heap.grants n = true) : grow heap p ≠ none := by
  unfold grow
  simp only [hgrants, if_true]
  split
  · exact Option.some_ne_none _
  · split <;> exact Option.some_ne_none _

/-- While there is memory a new descriptor is put in. -/
theorem addPollfd_new (hgrants : ∀ n, heap.grants n = true) (h : p.Allocated) (hnew : fd ∉ p.fds) :
    ∃ q, addPollfd heap fd p = .ok (0, q) ∧ q.Allocated ∧ q.portFd = p.portFd ∧
      q.sslportFd = p.sslportFd ∧ q.fds = p.fds ++ [fd] := by
  obtain ⟨r, q, hadd, hq, hport, hssl, hfds⟩ := addPollfd_step heap fd h
  rcases hfds with ⟨-, hr⟩ | ⟨rfl, -, hmore⟩
  · rcases addPollfd_cases heap fd h with
      ⟨j, -, c, -, -, hadd'⟩ | ⟨-, hnone, -⟩ | ⟨-, q', -, hadd'⟩
    · obtain ⟨rfl, -⟩ := Prod.mk.inj (Except.ok.inj (hadd.symm.trans hadd'))
      exact absurd (hr rfl) hnew
    · exact absurd hnone (grow_ne_none hgrants)
    · obtain ⟨rfl, -⟩ := Prod.mk.inj (Except.ok.inj (hadd.symm.trans hadd'))
      exact absurd (hr rfl) hnew
  · exact ⟨q, hadd, hq, hport, hssl, hmore⟩

/-- **The set that calls of `add_pollfd` build** from different descriptors, however many there are. This is
what the calls of `pktserv_loadsockets` would do with a size of 0. -/
theorem addAll_fds (hgrants : ∀ n, heap.grants n = true) (fds : List Int) (h : p.Allocated)
    (hnodup : (p.fds ++ fds).Nodup) :
    ∃ q, addAll heap fds p = .ok q ∧ q.Allocated ∧ q.fds = p.fds ++ fds := by
  induction fds generalizing p with
  | nil => exact ⟨p, rfl, h, (List.append_nil _).symm⟩
  | cons fd fds ih =>
    have hnew : fd ∉ p.fds := fun hmem => (List.nodup_append'.mp hnodup).2.2 hmem List.mem_cons_self
    obtain ⟨q, hadd, hq, -, -, hfds⟩ := addPollfd_new hgrants h hnew
    have hnodup' : (q.fds ++ fds).Nodup := by
      rwa [hfds, List.append_assoc, List.singleton_append]
    obtain ⟨q', hall, hq', hfds'⟩ := ih hq hnodup'
    refine ⟨q', ?_, hq', ?_⟩
    · rw [addAll, hadd]
      exact hall
    · rw [hfds', hfds, List.append_assoc, List.singleton_append]

end

/-! ## §4 — the set of descriptors -/

/-- The array shows a poll set. -/
structure Shows (p : Polling) (set : PollSet) : Prop where
  allocated : p.Allocated
  size : p.pollsetsize = set.size
  cell : ∀ i < set.size, p.pollset[i]? = some ⟨(set.slot i).fd, (set.slot i).events⟩

theorem PollSet.addPollfd_known (set : PollSet) {i : Nat} (hi : i < set.size) :
    (set.addPollfd (set.slot i).fd).size = set.size ∧
      (set.addPollfd (set.slot i).fd).slot =
        Function.update set.slot i { set.slot i with events := { pollin := true } } := by
  have hindex := set.fdIndex_self hi
  unfold PollSet.addPollfd
  split
  · rename_i k h
    obtain rfl := Option.some.inj (hindex.symm.trans h)
    exact ⟨rfl, rfl⟩
  · rename_i h
    rw [hindex] at h
    cases h

theorem PollSet.addPollfd_unknown (set : PollSet) {fd : Nat} (hnew : ∀ i < set.size, (set.slot i).fd ≠ fd) :
    (set.addPollfd fd).size = set.size + 1 ∧
      (set.addPollfd fd).slot = Function.update set.slot set.size
        { set.slot set.size with fd := fd, events := { pollin := true }, polled := false } := by
  have hindex := fdIndex_eq_none.mpr hnew
  unfold PollSet.addPollfd
  split
  · rename_i k h
    rw [hindex] at h
    cases h
  · exact ⟨rfl, rfl⟩

/-- **`add_pollfd` on the array and on the set.** While there is memory they go together. -/
theorem Shows.addPollfd {heap : Heap} {p : Polling} {set : PollSet} (hgrants : ∀ n, heap.grants n = true)
    (h : Shows p set) (fd : Nat) :
    ∃ q, Icbd.Pkt.addPollfd heap fd p = .ok (0, q) ∧ Shows q (set.addPollfd fd) := by
  obtain ⟨r, q, hadd, hq, -, -, -⟩ := addPollfd_step heap fd h.allocated
  obtain ⟨halloc, hsize, hcell⟩ := h
  have hlen : set.size ≤ p.pollset.length := by
    rw [halloc.room, ← hsize]
    exact halloc.used
  rcases addPollfd_cases heap (fd : Int) halloc with
    ⟨j, hj, c, hc, hfd, hadd'⟩ | ⟨-, hnone, -⟩ | ⟨hnew, q', hgrow, hadd'⟩
  · -- the descriptor is there, and is watched for input again
    obtain ⟨rfl, rfl⟩ := Prod.mk.inj (Except.ok.inj (hadd.symm.trans hadd'))
    rw [hsize] at hj
    obtain rfl : ⟨(set.slot j).fd, (set.slot j).events⟩ = c := Option.some.inj ((hcell j hj).symm.trans hc)
    obtain rfl : (set.slot j).fd = fd := Int.ofNat_inj.mp hfd
    obtain ⟨hsize', hslot⟩ := set.addPollfd_known hj
    refine ⟨_, hadd, hq, hsize.trans hsize'.symm, ?_⟩
    intro i hi
    rw [hsize'] at hi
    rw [hslot]
    by_cases hij : i = j
    · subst hij
      rw [Function.update_self]
      exact List.getElem?_set_self (by omega)
    · rw [Function.update_of_ne hij]
      exact (List.getElem?_set_ne (Ne.symm hij)).trans (hcell i hi)
  · exact absurd hnone (grow_ne_none hgrants)
  · -- it is put behind the last
    obtain ⟨rfl, rfl⟩ := Prod.mk.inj (Except.ok.inj (hadd.symm.trans hadd'))
    obtain ⟨-, -, hlt, htake, -, -⟩ := grow_spec halloc hgrow
    rw [hsize] at hlt htake
    have hunknown : ∀ i < set.size, (set.slot i).fd ≠ fd := by
      rintro i hi rfl
      apply hnew
      rw [Polling.fds, hsize]
      exact List.mem_map_of_mem (List.mem_of_getElem? ((List.getElem?_take_of_lt hi).trans (hcell i hi)))
    obtain ⟨hsize', hslot⟩ := set.addPollfd_unknown hunknown
    refine ⟨_, hadd, hq, (congrArg (· + 1) hsize).trans hsize'.symm, ?_⟩
    intro i hi
    rw [hsize'] at hi
    rw [hslot]
    dsimp only
    rw [hsize]
    rcases Nat.lt_succ_iff_lt_or_eq.mp hi with hi | rfl
    · rw [Function.update_of_ne (Nat.ne_of_lt hi), List.getElem?_set_ne (Nat.ne_of_gt hi),
        ← List.getElem?_take_of_lt hi, htake, List.getElem?_take_of_lt hi]
      exact hcell i hi
    · rw [Function.update_self]
      exact List.getElem?_set_self hlt

/-! ## §5 — a restart -/

/-- The file of a set that is allocated. -/
theorem dumpFds_ok {cells : List Cell} (n i : Nat) (h : i + n ≤ cells.length) :
    dumpFds cells n i = .ok (((cells.drop i).take n).flatMap fun c => num c.fd) := by
  induction n generalizing i with
  | zero => rfl
  | succ n ih =>
    have hlt : i < cells.length := by omega
    rw [dumpFds, List.getElem?_eq_getElem hlt]
    dsimp only
    rw [ih (i + 1) (by omega), List.drop_eq_getElem_cons hlt, List.take_succ_cons, List.flatMap_cons]
    rfl

theorem pktservDumpsockets_ok {p : Polling} (h : p.Allocated) :
    pktservDumpsockets p = .ok (num p.pollsetsize ++ p.fds.flatMap num ++ num p.portFd ++
      num p.sslportFd) := by
  have hlen : 0 + p.pollsetsize ≤ p.pollset.length := by
    rw [h.room, Nat.zero_add]
    exact h.used
  rw [pktservDumpsockets, dumpFds_ok _ _ hlen, List.drop_zero, Polling.fds, List.flatMap_map]
  rfl

/-- **The first call looks into an array that is not there.** -/
theorem pktservLoadsockets_outside (heap : Heap) (k : Int) {n : Nat} (hn : 0 < n) (rest : Bytes) :
    pktservLoadsockets heap k {} (num n ++ rest) = .error .outside := by
  obtain ⟨n, rfl⟩ : ∃ m, n = m + 1 := ⟨n - 1, by omega⟩
  have hfirst : fscanfNum k (num (n + 1 : Nat) ++ rest) = (((n + 1 : Nat) : Int), skipSpace rest) :=
    fscanfNum_num k _ false rest
  rw [pktservLoadsockets, hfirst]
  rfl

/-- What a restart is to give back: the set as it was dumped, in a process that has just started. -/
def Restored (heap : Heap) (k : Int) (p : Polling) : Prop :=
  ∃ dump q, pktservDumpsockets p = .ok dump ∧ pktservLoadsockets heap k {} dump = .ok q ∧
    q.pollsetsize = p.pollsetsize ∧ q.fds.Perm p.fds ∧ q.fds.Nodup ∧ q.portFd = p.portFd ∧
      q.sslportFd = p.sslportFd

theorem loads_outside (heap : Heap) (k : Int) {p : Polling} (h : p.Allocated) (hsome : 1 ≤ p.pollsetsize) :
    ∃ dump, pktservDumpsockets p = .ok dump ∧ pktservLoadsockets heap k {} dump = .error .outside := by
  have hdump := pktservDumpsockets_ok h
  simp only [List.append_assoc] at hdump
  exact ⟨_, hdump, pktservLoadsockets_outside heap k hsome _⟩

theorem not_restored {heap : Heap} {k : Int} {p : Polling} (h : p.Allocated) (hsome : 1 ≤ p.pollsetsize) :
    ¬ Restored heap k p := by
  obtain ⟨dump, hdump, hload⟩ := loads_outside heap k h hsome
  rintro ⟨dump', q, hdump', hload', -⟩
  obtain rfl := Except.ok.inj (hdump.symm.trans hdump')
  rw [hload] at hload'
  cases hload'

/-- **No poll set survives a restart.** With one descriptor or more in the dump, the process that loads it
reads outside the array. -/
theorem poll_set_lost (heap : Heap) (k : Int) (p : Polling) (h : p.Allocated) (hsome : 1 ≤ p.pollsetsize) :
    (∃ dump, pktservDumpsockets p = .ok dump ∧ pktservLoadsockets heap k {} dump = .error .outside) ∧
      ¬ Restored heap k p :=
  ⟨loads_outside heap k h hsome, not_restored h hsome⟩

/-- A server that listens on one socket, and has no client. -/
def oneSocket : Polling where
  pollset := ⟨3, { pollin := true }⟩ :: List.replicate 15 {}
  pollsetsize := 1
  pollsetmax := 16
  portFd := 3

example : addPollfd {} 3 { portFd := 3 } = .ok (0, oneSocket) := by decide

theorem oneSocket_allocated : oneSocket.Allocated := ⟨rfl, by decide⟩

/-- Its restart. -/
theorem poll_set_lost_oneSocket :
    (∃ dump, pktservDumpsockets oneSocket = .ok dump ∧
      pktservLoadsockets {} 0 {} dump = .error .outside) ∧ ¬ Restored {} 0 oneSocket :=
  poll_set_lost {} 0 oneSocket oneSocket_allocated (Nat.le_refl 1)

/-- It does not come back. -/
theorem oneSocket_lost :
    ¬ ∀ (heap : Heap) (k : Int) (p : Polling), p.Allocated → 1 ≤ p.pollsetsize → p.fds.Nodup →
      Restored heap k p := by
  intro h
  exact not_restored oneSocket_allocated (Nat.le_refl 1)
    (h {} 0 oneSocket oneSocket_allocated (Nat.le_refl 1) (by decide))

end Icbd.Pkt
