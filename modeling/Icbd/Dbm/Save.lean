/-
# Icbd.Dbm.Save — saving, one system call at a time: `flush_file` as a machine.

`flushFile` of `Icbd.Dbm.File` says how a flush ends. Here a flush is the sequence of its system
calls, so that it can be stopped after any of them: the state has the table, the file under `path`
and the one under the temporary name, and the run is the list of what the calls answered. A process
that stops is a run that ends early.
-/
import Icbd.Dbm.File

namespace Icbd.Dbm

/-! ## §1 — the machine -/

/-- Where `flush_file` stands: the call it makes next, or what it returned. -/
inductive SavePoint
  | allocating
  | opening
  | writing (b : Bytes) (bs : List Bytes)
  | syncing
  | replacing
  | clearing
  | unlinking
  | returned (r : Int)
  deriving DecidableEq, Repr

/-- A flush under way. `replaced` records that the rename has taken place; the code does not read
it. -/
structure Saving where
  point : SavePoint
  db : IcbDbm
  path : Option Bytes
  tmp : Option Bytes
  replaced : Bool := false

/-- The next call of the writing loops: `xwrite` makes none for an empty buffer. -/
def nextWrite : List Bytes → SavePoint
  | [] => .syncing
  | [] :: bs => nextWrite bs
  | (c :: b) :: bs => .writing (c :: b) bs

/-- `flush_file` entered, with `old` under the path and anything under the temporary name. -/
def flushStart (db : IcbDbm) (old tmp : Option Bytes) : Saving :=
  { point := if db.dirty then .allocating else .returned 0, db, path := old, tmp }

/-- One call of `flush_file` and what the code does with the answer: `none` is a failure, and
`some k` a success, where a `write` takes at most `k + 1` bytes. -/
def Saving.step (s : Saving) (answer : Option Nat) : Saving :=
  match s.point with
  | .allocating =>
      match answer with
      | none => { s with point := .returned (-1) }
      | some _ => { s with point := .opening }
  | .opening =>
      match answer with
      | none => { s with point := .returned (-1) }
      | some _ => { s with point := nextWrite (flushBuffers s.db), tmp := some [] }
  | .writing b bs =>
      match answer with
      | none => { s with point := .unlinking }
      | some k => { s with
          point := nextWrite (b.drop (k + 1) :: bs)
          tmp := s.tmp.map (· ++ b.take (k + 1)) }
  | .syncing =>
      match answer with
      | none => { s with point := .unlinking }
      | some _ => { s with point := .replacing }
  | .replacing =>
      match answer with
      -- this exit does not go through `fail`: the temporary file stays
      | none => { s with point := .returned (-1) }
      | some _ => { s with point := .clearing, path := s.tmp, tmp := none, replaced := true }
  | .clearing => { s with point := .returned 0, db := { s.db with dirty := false } }
  | .unlinking =>
      { s with point := .returned (-1), tmp := if answer.isSome then none else s.tmp }
  | .returned _ => s

/-- The calls one after the other. -/
def Saving.run (s : Saving) (answers : List (Option Nat)) : Saving := answers.foldl Saving.step s

/-! ## §2 — the invariant -/

/-- What holds at each point of a flush of `db`. -/
def SavePoint.Holds (db : IcbDbm) (s : Saving) : SavePoint → Prop
  | .allocating | .opening | .unlinking => s.db = db ∧ s.replaced = false
  | .writing b bs =>
      s.db = db ∧ s.replaced = false ∧ b ≠ [] ∧
        ∃ done, s.tmp = some done ∧ done ++ (b ++ bs.flatten) = fileBytes db
  | .syncing | .replacing => s.db = db ∧ s.replaced = false ∧ s.tmp = some (fileBytes db)
  | .clearing => s.db = db ∧ s.replaced = true
  | .returned r =>
      r = 0 ∧ s.db = { db with dirty := false } ∧ s.replaced = true ∨
        r = -1 ∧ s.db = db ∧ s.replaced = false

/-- The invariant of a flush of a changed table: the file is the old one until it is replaced, and
the complete new one from then on. -/
structure Saves (db : IcbDbm) (old : Option Bytes) (s : Saving) : Prop where
  file : s.path = if s.replaced then some (fileBytes db) else old
  point : s.point.Holds db s

theorem holds_nextWrite {db : IcbDbm} {s : Saving} {done : Bytes} (bs : List Bytes)
    (hdb : s.db = db) (hr : s.replaced = false) (htmp : s.tmp = some done)
    (hall : done ++ bs.flatten = fileBytes db) : (nextWrite bs).Holds db s := by
  induction bs with
  | nil =>
      rw [List.flatten_nil, List.append_nil] at hall
      exact ⟨hdb, hr, by rw [htmp, hall]⟩
  | cons b bs ih =>
      cases b with
      | nil => exact ih hall
      | cons c b => exact ⟨hdb, hr, List.cons_ne_nil c b, done, htmp, hall⟩

/-- **Every answer of every call** keeps the invariant. -/
theorem Saves.step {db : IcbDbm} {old : Option Bytes} {s : Saving} (h : Saves db old s)
    (answer : Option Nat) : Saves db old (s.step answer) := by
  obtain ⟨hfile, hpoint⟩ := h
  obtain ⟨p, t, path, tmp, replaced⟩ := s
  cases p with
  | allocating =>
      obtain ⟨hdb, hr⟩ := hpoint
      cases answer with
      | none => exact ⟨hfile, Or.inr ⟨rfl, hdb, hr⟩⟩
      | some k => exact ⟨hfile, hdb, hr⟩
  | opening =>
      obtain ⟨rfl, hr⟩ := hpoint
      cases answer with
      | none => exact ⟨hfile, Or.inr ⟨rfl, rfl, hr⟩⟩
      | some k =>
          constructor
          · exact hfile
          · refine holds_nextWrite (flushBuffers t) rfl hr (show _ = some [] from rfl) ?_
            rw [List.nil_append, flatten_flushBuffers]
  | writing b bs =>
      obtain ⟨hdb, hr, -, done, htmp, hall⟩ := hpoint
      cases answer with
      | none => exact ⟨hfile, hdb, hr⟩
      | some k =>
          constructor
          · exact hfile
          · -- what the call took goes from the buffer to the temporary file
            have htmp' : tmp.map (· ++ b.take (k + 1)) = some (done ++ b.take (k + 1)) :=
              congrArg (Option.map (· ++ b.take (k + 1))) htmp
            refine holds_nextWrite (b.drop (k + 1) :: bs) hdb hr htmp' ?_
            rw [List.flatten_cons, List.append_assoc, ← List.append_assoc (b.take (k + 1)),
              List.take_append_drop, hall]
  | syncing =>
      obtain ⟨hdb, hr, htmp⟩ := hpoint
      cases answer with
      | none => exact ⟨hfile, hdb, hr⟩
      | some k => exact ⟨hfile, hdb, hr, htmp⟩
  | replacing =>
      obtain ⟨hdb, hr, htmp⟩ := hpoint
      cases answer with
      | none => exact ⟨hfile, Or.inr ⟨rfl, hdb, hr⟩⟩
      | some k => exact ⟨htmp, hdb, rfl⟩
  | clearing =>
      obtain ⟨rfl, hr⟩ := hpoint
      exact ⟨hfile, Or.inl ⟨rfl, rfl, hr⟩⟩
  | unlinking =>
      obtain ⟨hdb, hr⟩ := hpoint
      exact ⟨hfile, Or.inr ⟨rfl, hdb, hr⟩⟩
  | returned r => exact ⟨hfile, hpoint⟩

theorem Saves.run {db : IcbDbm} {old : Option Bytes} {s : Saving} (h : Saves db old s)
    (answers : List (Option Nat)) : Saves db old (s.run answers) := by
  induction answers generalizing s with
  | nil => exact h
  | cons a answers ih => exact ih (h.step a)

theorem run_returned {s : Saving} {r : Int} (h : s.point = .returned r)
    (answers : List (Option Nat)) : s.run answers = s := by
  induction answers with
  | nil => rfl
  | cons a answers ih =>
      have hstep : s.step a = s := by simp only [Saving.step, h]
      rw [Saving.run, List.foldl_cons, hstep]
      exact ih

/-! ## §3 — it returns -/

/-- The calls that can still be made from a point. -/
def SavePoint.calls (db : IcbDbm) : SavePoint → Nat
  | .allocating => (fileBytes db).length + 5
  | .opening => (fileBytes db).length + 4
  | .writing b bs => b.length + bs.flatten.length + 3
  | .syncing => 3
  | .replacing => 2
  | .clearing => 1
  | .unlinking => 1
  | .returned _ => 0

theorem calls_nextWrite (db : IcbDbm) (bs : List Bytes) :
    (nextWrite bs).calls db ≤ bs.flatten.length + 3 := by
  induction bs with
  | nil => exact Nat.le_refl 3
  | cons b bs ih =>
      cases b with
      | nil => exact ih
      | cons c b =>
          rw [List.flatten_cons, List.length_append]
          exact Nat.le_refl _

/-- **Each call brings the return nearer.** -/
theorem Saves.calls_step {db : IcbDbm} {old : Option Bytes} {s : Saving} (h : Saves db old s)
    (answer : Option Nat) : (s.step answer).point.calls db ≤ s.point.calls db - 1 := by
  obtain ⟨-, hpoint⟩ := h
  obtain ⟨p, t, path, tmp, replaced⟩ := s
  cases p with
  | allocating => cases answer <;> simp [Saving.step, SavePoint.calls]
  | opening =>
      obtain ⟨rfl, -⟩ := hpoint
      cases answer with
      | none => exact Nat.zero_le _
      | some k =>
          have := calls_nextWrite t (flushBuffers t)
          rw [flatten_flushBuffers] at this
          exact this
  | writing b bs =>
      obtain ⟨-, -, hb, -⟩ := hpoint
      have hpos : 0 < b.length := List.length_pos_iff.mpr hb
      cases answer with
      | none =>
          simp only [Saving.step, SavePoint.calls]
          omega
      | some k =>
          have := calls_nextWrite db (b.drop (k + 1) :: bs)
          rw [List.flatten_cons, List.length_append, List.length_drop] at this
          show (nextWrite (b.drop (k + 1) :: bs)).calls db ≤ b.length + bs.flatten.length + 3 - 1
          omega
  | syncing => cases answer <;> simp [Saving.step, SavePoint.calls]
  | replacing => cases answer <;> simp [Saving.step, SavePoint.calls]
  | clearing => exact Nat.le_refl 0
  | unlinking => exact Nat.le_refl 0
  | returned r => exact Nat.le_refl 0

theorem Saves.calls_run {db : IcbDbm} {old : Option Bytes} {s : Saving} (h : Saves db old s)
    (answers : List (Option Nat)) :
    (s.run answers).point.calls db ≤ s.point.calls db - answers.length := by
  induction answers generalizing s with
  | nil => exact Nat.le_refl _
  | cons a answers ih =>
      have hone := h.calls_step a
      have hrest := ih (h.step a)
      rw [List.length_cons]
      apply Nat.le_trans hrest
      omega

theorem returned_of_calls (db : IcbDbm) {p : SavePoint} (h : p.calls db = 0) :
    ∃ r, p = .returned r := by
  cases p with
  | returned r => exact ⟨r, rfl⟩
  | _ => simp [SavePoint.calls] at h

/-! ## §4 — all or nothing -/

theorem saves_start (db : IcbDbm) (old tmp : Option Bytes) (hd : db.dirty = true) :
    Saves db old (flushStart db old tmp) := by
  constructor
  · rfl
  · simp only [flushStart, hd, if_true]
    exact ⟨rfl, rfl⟩

theorem Saves.file_cases {db : IcbDbm} {old : Option Bytes} {s : Saving} (h : Saves db old s) :
    s.replaced = false ∧ s.path = old ∨ s.replaced = true ∧ s.path = some (fileBytes db) := by
  have hfile := h.file
  cases hr : s.replaced with
  | false =>
      rw [hr, if_neg Bool.false_ne_true] at hfile
      exact Or.inl ⟨rfl, hfile⟩
  | true =>
      rw [hr, if_pos rfl] at hfile
      exact Or.inr ⟨rfl, hfile⟩

theorem Saves.replaced_of_clean {db : IcbDbm} {old : Option Bytes} {s : Saving}
    (h : Saves db old s) (hd : db.dirty = true) (hclean : s.db.dirty = false) :
    s.replaced = true := by
  have hpoint := h.point
  have hsame : s.db ≠ db := by
    intro heq
    rw [heq, hd] at hclean
    cases hclean
  cases hp : s.point with
  | clearing => exact (hp ▸ hpoint).2
  | returned r =>
      rw [hp] at hpoint
      rcases hpoint with ⟨-, -, hr⟩ | ⟨-, hdb, -⟩
      · exact hr
      · exact absurd hdb hsame
  | _ =>
      rw [hp] at hpoint
      exact absurd hpoint.1 hsame

theorem Saves.answer {db : IcbDbm} {old : Option Bytes} {s : Saving} (h : Saves db old s) {r : Int}
    (hr : s.point = .returned r) : (r = 0 ∨ r = -1) ∧ (r = -1 ↔ s.replaced = false) := by
  have hpoint := h.point
  rw [hr] at hpoint
  rcases hpoint with ⟨rfl, -, hrep⟩ | ⟨rfl, -, hrep⟩
  · simp [hrep]
  · simp [hrep]

/-- **Saving is all or nothing.** Stop a flush after any number of system calls, whatever they
answered: under the path is the old file, or, once it has been replaced, the complete encoding of
the table; a changed table counts as saved only in the second case. A flush that is not stopped
returns, and what it returns is `0` or `-1`, `-1` exactly when there was something to save and the
file has not been replaced. -/
theorem flush_all_or_nothing (db : IcbDbm) (old tmp : Option Bytes) (answers : List (Option Nat)) :
    let s := (flushStart db old tmp).run answers
    (s.replaced = false ∧ s.path = old ∨ s.replaced = true ∧ s.path = some (fileBytes db)) ∧
    (s.db.dirty = false → db.dirty = true → s.replaced = true) ∧
    (∀ r, s.point = .returned r →
      (r = 0 ∨ r = -1) ∧ (r = -1 ↔ db.dirty = true ∧ s.replaced = false)) ∧
    ((fileBytes db).length + 5 ≤ answers.length → ∃ r, s.point = .returned r) := by
  intro s
  cases hd : db.dirty with
  | false =>
      -- `if (!db->dirty) return 0`
      have hpoint : (flushStart db old tmp).point = .returned 0 := by
        simp only [flushStart, hd, Bool.false_eq_true, if_false]
      have hs : s = flushStart db old tmp := run_returned hpoint answers
      rw [hs]
      refine ⟨Or.inl ⟨rfl, rfl⟩, ?_, ?_, fun _ => ⟨0, hpoint⟩⟩
      · intro _ hdirty
        cases hdirty
      · intro r hr
        obtain rfl := SavePoint.returned.inj (hpoint.symm.trans hr)
        simp
  | true =>
      have hstart := saves_start db old tmp hd
      have hrun : Saves db old s := hstart.run answers
      refine ⟨hrun.file_cases, ?_, ?_, ?_⟩
      · intro hclean _
        exact hrun.replaced_of_clean hd hclean
      · intro r hr
        simpa only [true_and] using hrun.answer hr
      · intro hlen
        apply returned_of_calls db
        have hfirst : (flushStart db old tmp).point.calls db = (fileBytes db).length + 5 := by
          simp only [flushStart, hd, if_true, SavePoint.calls]
        have hcalls : s.point.calls db ≤ (flushStart db old tmp).point.calls db - answers.length :=
          hstart.calls_run answers
        omega

/-! ## §5 — the flush of one function is a run -/

theorem run_append (s : Saving) (xs ys : List (Option Nat)) :
    s.run (xs ++ ys) = (s.run xs).run ys := List.foldl_append

theorem step_write {s : Saving} {b done : Bytes} {bs : List Bytes} (hb : b ≠ [])
    (hp : s.point = nextWrite (b :: bs)) (ht : s.tmp = some done) (k : Nat) :
    s.step (some k) =
      { s with point := nextWrite (b.drop (k + 1) :: bs), tmp := some (done ++ b.take (k + 1)) } := by
  obtain ⟨c, b, rfl⟩ := List.exists_cons_of_ne_nil hb
  have hpoint : s.point = .writing (c :: b) bs := hp
  simp only [Saving.step, hpoint, ht, Option.map_some]

/-- One buffer: the loop of `xwrite` is a run of writes, and its failure the exit at `fail`. -/
theorem xwriteLoop_run {fuel : Nat} (b done : Bytes) (script : List (Option Nat)) {s : Saving}
    {bs : List Bytes} (hfuel : b.length ≤ fuel) (hp : s.point = nextWrite (b :: bs))
    (ht : s.tmp = some done) :
    match xwriteLoop fuel done script b with
    | none => ∃ answers tmp, s.run answers = { s with point := .unlinking, tmp }
    | some (w, _) =>
        ∃ answers, s.run answers = { s with point := nextWrite bs, tmp := some w } := by
  induction fuel generalizing b done script s with
  | zero =>
      obtain rfl := List.length_eq_zero_iff.mp (Nat.le_zero.mp hfuel)
      exact ⟨[], by rw [← ht, ← show s.point = nextWrite bs from hp]; rfl⟩
  | succ fuel ih =>
      unfold xwriteLoop
      by_cases hb : b = []
      · subst hb
        exact ⟨[], by rw [← ht, ← show s.point = nextWrite bs from hp]; rfl⟩
      · have hpos : 0 < b.length := List.length_pos_iff.mpr hb
        rw [if_neg hb]
        rcases script with _ | ⟨_ | k, script⟩
        · -- the script has run out: one write takes the whole buffer
          refine ⟨[some b.length], ?_⟩
          have hstep := step_write hb hp ht b.length
          rw [List.drop_of_length_le (Nat.le_succ _), List.take_of_length_le (Nat.le_succ _)]
            at hstep
          exact hstep
        · obtain ⟨c, b, rfl⟩ := List.exists_cons_of_ne_nil hb
          have hpoint : s.point = .writing (c :: b) bs := hp
          refine ⟨[none], s.tmp, ?_⟩
          simp only [Saving.run, List.foldl_cons, List.foldl_nil, Saving.step, hpoint]
        · have hstep := step_write hb hp ht k
          have hrest := ih (b.drop (k + 1)) (done ++ b.take (k + 1)) script (s := s.step (some k))
            (by rw [List.length_drop]; omega) (by rw [hstep]) (by rw [hstep])
          simp only
          cases hloop : xwriteLoop fuel (done ++ b.take (k + 1)) script (b.drop (k + 1)) with
          | none =>
              rw [hloop] at hrest
              obtain ⟨answers, tmp, hrun⟩ := hrest
              refine ⟨some k :: answers, tmp, ?_⟩
              rw [Saving.run, List.foldl_cons, ← Saving.run, hrun, hstep]
          | some r =>
              rw [hloop] at hrest
              obtain ⟨answers, hrun⟩ := hrest
              refine ⟨some k :: answers, ?_⟩
              rw [Saving.run, List.foldl_cons, ← Saving.run, hrun, hstep]

/-- All the buffers. -/
theorem xwriteAll_run (bs : List Bytes) (done : Bytes) (script : List (Option Nat)) {s : Saving}
    (hp : s.point = nextWrite bs) (ht : s.tmp = some done) :
    match xwriteAll done script bs with
    | none => ∃ answers tmp, s.run answers = { s with point := .unlinking, tmp }
    | some w => ∃ answers, s.run answers = { s with point := .syncing, tmp := some w } := by
  induction bs generalizing done script s with
  | nil => exact ⟨[], by rw [← ht, ← show s.point = .syncing from hp]; rfl⟩
  | cons b bs ih =>
      have hone := xwriteLoop_run b done script (Nat.le_refl b.length) hp ht
      rw [xwriteAll, xwrite]
      cases hloop : xwriteLoop b.length done script b with
      | none =>
          rw [hloop] at hone
          exact hone
      | some r =>
          rw [hloop] at hone
          obtain ⟨answers, hrun⟩ := hone
          have hrest := ih r.1 r.2 (s := s.run answers) (by rw [hrun])
            (by rw [hrun])
          simp only [Option.bind_some]
          cases hall : xwriteAll r.1 r.2 bs with
          | none =>
              rw [hall] at hrest
              obtain ⟨more, tmp, hmore⟩ := hrest
              exact ⟨answers ++ more, tmp, by rw [run_append, hmore, hrun]⟩
          | some w =>
              rw [hall] at hrest
              obtain ⟨more, hmore⟩ := hrest
              exact ⟨answers ++ more, by rw [run_append, hmore, hrun]⟩

/-- **`flushFile` is the machine run to its end**: for every script the calls can be answered so
that the machine returns what `flushFile` returns and leaves the same table and the same file. -/
theorem flushFile_is_run (script : FlushScript) (db : IcbDbm) (old tmp : Option Bytes) :
    ∃ answers, let s := (flushStart db old tmp).run answers
      s.point = .returned (flushFile script db old).1 ∧ s.db = (flushFile script db old).2.1 ∧
        s.path = (flushFile script db old).2.2 := by
  unfold flushFile
  by_cases hd : db.dirty = true
  · have hstart : flushStart db old tmp = { point := .allocating, db, path := old, tmp } := by
      simp only [flushStart, hd, if_true]
    rw [if_neg (by simp [hd]), hstart]
    by_cases ho : script.opens = true
    · rw [if_neg (by simp [ho])]
      -- the state once the temporary file is open
      have hwrite := xwriteAll_run (flushBuffers db) [] script.writes
        (s := { point := nextWrite (flushBuffers db), db, path := old, tmp := some [] }) rfl rfl
      cases hall : xwriteAll [] script.writes (flushBuffers db) with
      | none =>
          rw [hall] at hwrite
          obtain ⟨answers, tmp', hrun⟩ := hwrite
          refine ⟨[some 0, some 0] ++ answers ++ [some 0], ?_⟩
          rw [run_append, run_append]
          simp only [Saving.run, List.foldl_cons, List.foldl_nil, Saving.step] at hrun ⊢
          rw [hrun]
          exact ⟨rfl, rfl, rfl⟩
      | some w =>
          rw [hall] at hwrite
          obtain ⟨answers, hrun⟩ := hwrite
          -- how the calls after the last write are answered
          have hend : ∀ last, (Saving.run { point := .allocating, db, path := old, tmp }
              ([some 0, some 0] ++ answers ++ last)) =
              Saving.run { point := .syncing, db, path := old, tmp := some w } last := by
            intro last
            rw [run_append, run_append]
            simp only [Saving.run, List.foldl_cons, List.foldl_nil, Saving.step] at hrun ⊢
            rw [hrun]
          by_cases hs : script.fsyncs = true
          · by_cases hr : script.renames = true
            · refine ⟨[some 0, some 0] ++ answers ++ [some 0, some 0, some 0], ?_⟩
              simp only [hend]
              simp [hs, hr, Saving.run, Saving.step]
            · refine ⟨[some 0, some 0] ++ answers ++ [some 0, none], ?_⟩
              simp only [hend]
              simp [hs, hr, Saving.run, Saving.step]
          · refine ⟨[some 0, some 0] ++ answers ++ [none, none], ?_⟩
            simp only [hend]
            simp [hs, Saving.run, Saving.step]
    · refine ⟨[none], ?_⟩
      simp [ho, Saving.run, Saving.step]
  · refine ⟨[], ?_⟩
    simp [hd, Saving.run, flushStart]

end Icbd.Dbm
