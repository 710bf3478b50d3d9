/-
# Icbd.Pkt.Outbound — from queued packets to the bytes on the wire.

The queue of a connection is written from two places, `pktserv_send` and the `WANT_WRITE` case, and
a short write leaves a position inside its first packet. `Streaming` says where every byte of the
packets taken so far is: on the wire, or still in the queue, in order and none twice.

The source keeps the queue as a tail queue whose head `accept` fills with zeros. `Moves.follows`
connects it with the list of the model: the insertions of `pktserv_send` and the removals of
`pktsocket_write` and `handle_disconnect` do to the tail queue what each step does to the list.
-/
import Icbd.Lib.TailQueue
import Icbd.Pkt.Steps
import Mathlib.Data.Fintype.EquivFin
import Mathlib.Logic.Relation

namespace Icbd.Pkt

open Icbd.Lib

/-! ## §1 — what a connection has taken and not written -/

/-- `pktserv_send` queues the packet: the connection is not going down and the queue has room. -/
def Conn.takes (c : Conn) : Bool :=
  c.cbuf.state != .wantDisconnect && c.cbuf.state != .wantRawDisconnect &&
    decide (c.cbuf.wlistSize < maxSendpacketQueue)

/-- The packet a step queues. -/
def queuedBy : Label → Proc → List Bytes
  | .call (.send pkt), p => if p.conn.takes then [pkt] else []
  | _, _ => []

/-- The bytes of a queue that are still to be written. -/
def unsent (q : List MsgBuf) : Bytes := q.flatMap fun m => m.data.drop m.pos

@[simp] theorem unsent_nil : unsent [] = [] := rfl

@[simp] theorem unsent_cons (m : MsgBuf) (q : List MsgBuf) :
    unsent (m :: q) = m.data.drop m.pos ++ unsent q := rfl

theorem unsent_append (q q' : List MsgBuf) : unsent (q ++ q') = unsent q ++ unsent q' :=
  List.flatMap_append

/-- Every buffer of the queue holds a whole packet. -/
def Whole (q : List MsgBuf) : Prop := ∀ m ∈ q, m.len = m.data.length

/-- **The invariant**, for the packets `sent` that the connection has taken. -/
structure Streaming (c : Conn) (sent : List Bytes) : Prop where
  whole : Whole c.cbuf.wlist
  bytes : c.wire.outbound ++ unsent c.cbuf.wlist = sent.flatten
  size : c.cbuf.wlistSize = c.cbuf.wlist.length
  bound : c.cbuf.wlist.length ≤ maxSendpacketQueue

/-! ## §2 — one pass of the write loop -/

/-- What `write` takes of a buffer is what it puts on the wire. -/
theorem Wire.write_outbound {w : Wire} {b : Bytes} {n : Nat} (h : (w.write b).1 = .count n) :
    n ≤ b.length ∧ (w.write b).2.outbound = w.outbound ++ b.take n := by
  rcases hw : w.writes with _ | ⟨x, ws⟩
  · simp [Wire.write, hw] at h
  · cases x with
    | wouldBlock => simp [Wire.write, hw] at h
    | error => simp [Wire.write, hw] at h
    | wrote k =>
        have hn : min k b.length = n := by simpa [Wire.write, hw] using h
        refine ⟨by omega, ?_⟩
        simp only [Wire.write, hw]
        rw [← hn, ← List.take_eq_take_min]

theorem Wire.write_outbound_same {w : Wire} {b : Bytes} (h : ∀ n, (w.write b).1 ≠ .count n) :
    (w.write b).2.outbound = w.outbound := by
  rcases hw : w.writes with _ | ⟨x, ws⟩
  · simp [Wire.write, hw]
  · cases x with
    | wouldBlock => simp [Wire.write, hw]
    | error => simp [Wire.write, hw]
    | wrote k => exact absurd (by simp [Wire.write, hw]) (h (min k b.length))

/-- **A pass of the write loop** moves bytes from the front of the queue to the wire. -/
theorem writeLoop_streaming (c : Conn) (q : List MsgBuf) {sent : List Bytes}
    (hssl : c.cbuf.isSsl = false) (hwhole : Whole q)
    (hbytes : c.wire.outbound ++ unsent q = sent.flatten)
    (hsize : c.cbuf.wlistSize = q.length) (hbound : q.length ≤ maxSendpacketQueue) :
    Streaming (writeLoop c q).2 sent := by
  induction q generalizing c with
  | nil => exact ⟨hwhole, hbytes, hsize, hbound⟩
  | cons m ms ih =>
      have hsock := sockWrite_plain hssl (m.data.drop m.pos)
      have hlen : m.len = m.data.length := hwhole m List.mem_cons_self
      have hms : Whole ms := fun x hx => hwhole x (List.mem_cons_of_mem m hx)
      cases hout : (c.wire.write (m.data.drop m.pos)).1 with
      | wouldBlock =>
          have hsame := Wire.write_outbound_same (w := c.wire) (b := m.data.drop m.pos)
            (by rw [hout]; rintro _ ⟨⟩)
          simp only [writeLoop, hsock, hout]
          exact ⟨hwhole, by rw [hsame]; exact hbytes, hsize, hbound⟩
      | error =>
          have hsame := Wire.write_outbound_same (w := c.wire) (b := m.data.drop m.pos)
            (by rw [hout]; rintro _ ⟨⟩)
          simp only [writeLoop, hsock, hout]
          exact ⟨hwhole, by rw [hsame]; exact hbytes, hsize, hbound⟩
      | count n =>
          obtain ⟨hle, hnew⟩ := Wire.write_outbound hout
          rw [List.length_drop] at hle
          simp only [unsent_cons] at hbytes
          by_cases hn : n < m.len - m.pos
          · -- a short write: the position moves on by what was taken
            simp only [writeLoop, hsock, hout, hssl, hn, Bool.false_eq_true, and_false, if_false,
              if_true]
            refine ⟨?_, ?_, hsize, hbound⟩
            · intro x hx
              rcases List.mem_cons.mp hx with rfl | hx
              · exact hlen
              · exact hms x hx
            · show (c.wire.write (m.data.drop m.pos)).2.outbound ++
                (m.data.drop (m.pos + n) ++ unsent ms) = sent.flatten
              rw [hnew, ← hbytes, List.append_assoc, ← List.append_assoc (List.take n _),
                ← List.drop_drop, List.take_append_drop]
          · -- the whole of it is out
            have hall : (m.data.drop m.pos).take n = m.data.drop m.pos :=
              List.take_of_length_le (by rw [List.length_drop]; omega)
            simp only [writeLoop, hsock, hout, hssl, hn, Bool.false_eq_true, and_false, if_false]
            apply ih
            · rfl
            · exact hms
            · show (c.wire.write (m.data.drop m.pos)).2.outbound ++ unsent ms = sent.flatten
              rw [hnew, hall, List.append_assoc]
              exact hbytes
            · show c.cbuf.wlistSize - 1 = (ms.length : Int)
              simp only [List.length_cons] at hsize
              omega
            · simp only [List.length_cons] at hbound
              omega

/-! ## §3 — sends -/

/-- A connection that keeps its queue and its wire's output keeps the invariant. -/
theorem Streaming.of_same {c c' : Conn} {sent : List Bytes} (h : Streaming c sent)
    (hwlist : c'.cbuf.wlist = c.cbuf.wlist) (hsize : c'.cbuf.wlistSize = c.cbuf.wlistSize)
    (hout : c'.wire.outbound = c.wire.outbound) : Streaming c' sent := by
  refine ⟨?_, ?_, ?_, ?_⟩
  · rw [hwlist]; exact h.whole
  · rw [hout, hwlist]; exact h.bytes
  · rw [hsize, hwlist]; exact h.size
  · rw [hwlist]; exact h.bound

/-- A packet joins the queue whole, if there is room. -/
theorem Streaming.queued {c : Conn} {sent : List Bytes} (h : Streaming c sent) (pkt : Bytes)
    (hroom : c.cbuf.wlistSize < maxSendpacketQueue) :
    Streaming (c.queued pkt) (sent ++ [pkt]) := by
  obtain ⟨hwhole, hbytes, hsize, _⟩ := h
  have hlen : (c.queued pkt).cbuf.wlist.length = c.cbuf.wlist.length + 1 := by
    simp [Conn.queued]
  refine ⟨?_, ?_, ?_, ?_⟩
  · intro m hm
    rcases List.mem_append.mp hm with hm | hm
    · exact hwhole m hm
    · rw [List.mem_singleton.mp hm]
  · show c.wire.outbound ++ unsent (c.cbuf.wlist ++ [_]) = _
    rw [unsent_append, ← List.append_assoc, hbytes, List.flatten_append]
    simp
  · show c.cbuf.wlistSize + 1 = _
    rw [hlen]
    omega
  · rw [hlen]
    omega

/-- **One send.** The packet is taken whole or not at all. -/
theorem pktservSend_streaming {c : Conn} {sent : List Bytes} (pkt : Bytes)
    (hssl : c.cbuf.isSsl = false) (h : Streaming c sent) :
    Streaming (pktservSend c pkt).2 (sent ++ if c.takes then [pkt] else []) := by
  by_cases hs : c.cbuf.state = .wantDisconnect ∨ c.cbuf.state = .wantRawDisconnect
  · have hno : c.takes = false := by
      rcases hs with hs | hs <;> simp [Conn.takes, hs]
    have hsend : (pktservSend c pkt).2 = c := by simp [pktservSend, hs]
    rw [hsend, hno]
    simpa using h
  · have htakes : c.takes = decide (c.cbuf.wlistSize < maxSendpacketQueue) := by
      simp only [not_or] at hs
      simp [Conn.takes, hs]
    rcases pktservSend_cases c pkt with ⟨hs', _⟩ | ⟨hfull, hsend⟩ | ⟨hroom, _, hsend⟩ |
      ⟨hroom, _, hsend⟩
    · exact absurd hs' hs
    · have hsame : Streaming (c.setState .wantWrite) sent := h.of_same rfl rfl rfl
      rw [hsend, htakes, decide_eq_false (Int.not_lt.mpr hfull)]
      simpa using hsame
    · have hdown : Streaming ((c.queued pkt).setState .wantDisconnect) (sent ++ [pkt]) :=
        (h.queued pkt hroom).of_same rfl rfl rfl
      rw [hsend, htakes, decide_eq_true hroom]
      exact hdown
    · obtain ⟨hwhole, hbytes, hsize, hbound⟩ := h.queued pkt hroom
      have hloop := writeLoop_streaming (c.queued pkt) _ hssl hwhole hbytes hsize hbound
      rw [hsend, htakes, decide_eq_true hroom]
      dsimp only
      split
      · exact hloop.of_same rfl rfl rfl
      · exact hloop

/-! ## §4 — whole runs -/

/-- The steps of a connection until `handle_disconnect`, with the packets it takes. -/
abbrev SendingPath := Lib.Path (Logging queuedBy (Under (fun l _ => l ≠ .freed) Moves))

/-- The steps that are not calls of the server, up to `handle_disconnect`. -/
theorem Moves.streaming_other {l : Label} {p p' : Proc} {sent : List Bytes} (hm : Moves l p p')
    (hp : Plaintext p) (hfree : l ≠ .freed) (hcall : ∀ a, l ≠ .call a)
    (h : Streaming p.conn sent) : Streaming p'.conn sent := by
  have hssl := hp.isSsl
  have hcycle : ∀ {c : Conn}, Streaming c sent → Streaming (cycleToWrite c) sent := by
    intro c hc
    unfold cycleToWrite
    split
    · exact hc.of_same rfl rfl rfl
    · exact hc
  have hread : ∀ {c : Conn}, c.cbuf.isSsl = false → Streaming c sent →
      Streaming (pktsocketRead c).2 sent := by
    intro c hc hs
    have hro := (pktsocketRead_readOnly hc).1
    exact hs.of_same hro.wlist hro.wlistSize hro.outbound
  cases hm with
  | call a _ => exact absurd rfl (hcall a)
  | lost => exact absurd rfl hfree
  | network | except _ _ _ | rest _ | greeted | greet _ _ | lose _ _ | close _ _ | gone _ _ =>
      exact h.of_same rfl rfl rfl
  | poll b _ =>
      obtain ⟨d, hd⟩ := Conn.polled_disp _ b
      rw [hd]
      exact h.of_same rfl rfl rfl
  | @write c r w _ hs =>
      rcases writeCase_cases r w hs with hsame | ⟨d, hpass⟩
      · rw [hsame]
        exact h
      · have hloop := writeLoop_streaming c c.cbuf.wlist hssl h.whole h.bytes h.size h.bound
        rw [hpass]
        exact hloop.of_same rfl rfl rfl
  | packet _ _ _ => exact (hread hssl h).of_same rfl rfl rfl
  | fragment _ _ _ => exact hcycle (hread hssl h)
  | skip _ _ => exact hcycle h
  | @dispatched c =>
      have hback : Streaming { c with cbuf := { c.cbuf with rbuf := none, state := .wantHeader } }
          sent := h.of_same rfl rfl rfl
      exact hcycle hback

/-- **Every step up to `handle_disconnect` keeps the invariant.** -/
theorem Moves.streaming {l : Label} {p p' : Proc} {sent : List Bytes} (hm : Moves l p p')
    (hp : Plaintext p) (hfree : l ≠ .freed) (h : Streaming p.conn sent) :
    Streaming p'.conn (sent ++ queuedBy l p) := by
  cases l with
  | call a =>
      cases a with
      | send pkt =>
          cases hm
          exact pktservSend_streaming pkt hp.isSsl h
      | disconnect =>
          cases hm
          rw [show queuedBy (.call .disconnect) _ = [] from rfl, List.append_nil]
          exact h.of_same rfl rfl rfl
  | freed => exact absurd rfl hfree
  | poll b =>
      rw [show queuedBy (.poll b) p = [] from rfl, List.append_nil]
      exact hm.streaming_other hp hfree nofun h
  | network i r w =>
      rw [show queuedBy (.network i r w) p = [] from rfl, List.append_nil]
      exact hm.streaming_other hp hfree nofun h
  | internal =>
      rw [show queuedBy .internal p = [] from rfl, List.append_nil]
      exact hm.streaming_other hp hfree nofun h

/-- **Outbound stream integrity.** From its acceptance until `handle_disconnect`, under every
interleaving of sends, write readiness and outcomes of `write`: the bytes on the wire are a prefix
of the packets taken, in call order; a packet refused because the queue is full is not among them
and changes neither the wire nor the queue; and `wlist_size` is the number of queued packets, at
most `MAX_SENDPACKET_QUEUE`. -/
theorem outbound_stream {fd : Nat} {w : Wire} {ls : List Label} {p : Proc} {sent : List Bytes}
    (hw : w.outbound = []) (h : SendingPath (Proc.accepted fd w, []) ls (p, sent)) :
    p.conn.wire.outbound <+: sent.flatten ∧
      (∀ pkt, p.conn.cbuf.wlistSize ≥ maxSendpacketQueue →
        queuedBy (.call (.send pkt)) p = [] ∧ (pktservSend p.conn pkt).1 = -1 ∧
          (pktservSend p.conn pkt).2.wire.outbound = p.conn.wire.outbound ∧
          (pktservSend p.conn pkt).2.cbuf.wlist = p.conn.cbuf.wlist) ∧
      p.conn.cbuf.wlistSize = p.conn.cbuf.wlist.length ∧
      p.conn.cbuf.wlistSize ≤ maxSendpacketQueue := by
  have hinv : Plaintext p ∧ Streaming p.conn sent := by
    refine h.invariant (I := fun s => Plaintext s.1 ∧ Streaming s.1.conn s.2) ?_ ?_
    · refine ⟨Proc.accepted_plaintext fd w, nofun, ?_, rfl, Nat.zero_le _⟩
      simpa [Proc.accepted, Cbuf.fresh] using hw
    · rintro l ⟨t, sent⟩ ⟨t', sent'⟩ ⟨hplain, hs⟩ ⟨⟨hfree, hm⟩, hlog⟩
      dsimp only at hplain hs hfree hm hlog ⊢
      rw [hlog]
      exact ⟨hm.plaintext hplain, hm.streaming hplain hfree hs⟩
  obtain ⟨-, hs⟩ := hinv
  refine ⟨⟨_, hs.bytes⟩, ?_, hs.size, ?_⟩
  · intro pkt hfull
    have hno : p.conn.takes = false := by simp [Conn.takes, Int.not_lt.mpr hfull]
    refine ⟨by simp [queuedBy, hno], ?_⟩
    unfold pktservSend
    split
    · exact ⟨rfl, rfl, rfl⟩
    · exact ⟨rfl, rfl, rfl⟩
  · have hbound := hs.bound
    rw [hs.size]
    exact_mod_cast hbound

/-- Two packets, of which `write` takes the first in two parts and then blocks. -/
theorem outbound_stream_short_write :
    ∃ ls p, SendingPath (Proc.accepted 5 { writes := [.wrote 2, .wrote 1, .wouldBlock] }, []) ls
        (p, [[2, 97, 98], [1, 99]]) ∧
      p.conn.wire.outbound = [2, 97, 98] ∧ p.conn.cbuf.wlistSize = 1 ∧
      p.conn.wire.outbound <+: [[2, 97, 98], [1, 99]].flatten := by
  have hfirst : SendingPath (Proc.accepted 5 { writes := [.wrote 2, .wrote 1, .wouldBlock] }, []) _
      (_, [[2, 97, 98]]) :=
    Path.single (l := Label.call (.send [2, 97, 98])) ⟨⟨nofun, Moves.call _ rfl⟩, rfl⟩
  have hsecond : SendingPath (Proc.accepted 5 { writes := [.wrote 2, .wrote 1, .wouldBlock] }, []) _
      (_, [[2, 97, 98], [1, 99]]) :=
    Path.snoc (.call (.send [1, 99])) hfirst ⟨⟨nofun, Moves.call _ rfl⟩, rfl⟩
  exact ⟨_, _, hsecond, by decide, by decide, (outbound_stream rfl hsecond).1⟩

/-! ## §5 — the tail queue under the list -/

/-- One change of the tail queue: a buffer at an unused address goes in, or the first one comes
out. -/
inductive QueueStep : TailQueue Nat → TailQueue Nat → Prop
  | insert {q q' : TailQueue Nat} (p : Nat) : q.push p = some q' → QueueStep q q'
  | remove {q q' : TailQueue Nat} (p : Nat) :
      q.first = some p → q.remove p = some q' → QueueStep q q'

/-- The tail queue `q` is the list `wl`; `buf` is what the buffers hold. -/
def Backs (q : TailQueue Nat) (wl : List MsgBuf) : Prop :=
  ∃ (ps : List Nat) (buf : Nat → MsgBuf), q.Represents ps ∧ wl = ps.map buf

/-- From `q` the source's insertions and removals lead to a queue for `wl`. -/
def Follows (q : TailQueue Nat) (wl : List MsgBuf) : Prop :=
  ∃ q', Relation.ReflTransGen QueueStep q q' ∧ Backs q' wl

theorem Backs.follows {q : TailQueue Nat} {wl : List MsgBuf} (h : Backs q wl) : Follows q wl :=
  ⟨q, .refl, h⟩

theorem Follows.step {q q' : TailQueue Nat} {wl : List MsgBuf} (hstep : QueueStep q q')
    (h : Follows q' wl) : Follows q wl := by
  obtain ⟨q'', hpath, hb⟩ := h
  exact ⟨q'', hpath.head hstep, hb⟩

/-- The insertion of `pktserv_send`, at the head of an empty queue and at the tail of any other. -/
theorem Backs.append {q : TailQueue Nat} {wl : List MsgBuf} (h : Backs q wl) (m : MsgBuf) :
    ∃ q', QueueStep q q' ∧ Backs q' (wl ++ [m]) := by
  obtain ⟨ps, buf, hr, rfl⟩ := h
  obtain ⟨p, hp⟩ : ∃ p, p ∉ ps := (Infinite.exists_notMem_finset ps.toFinset).imp (by simp)
  obtain ⟨q', hpush, hr'⟩ := hr.push hp
  refine ⟨q', .insert p hpush, ps ++ [p], Function.update buf p m, hr', ?_⟩
  rw [List.map_append, List.map_singleton, Function.update_self]
  congr 1
  refine List.map_congr_left fun x hx => ?_
  have hxp : x ≠ p := fun hxp => hp (hxp ▸ hx)
  rw [Function.update_of_ne hxp]

/-- The removal of the first buffer. -/
theorem Backs.tail {q : TailQueue Nat} {m : MsgBuf} {wl : List MsgBuf} (h : Backs q (m :: wl)) :
    ∃ q', QueueStep q q' ∧ Backs q' wl := by
  obtain ⟨ps, buf, hr, heq⟩ := h
  cases ps with
  | nil => cases heq
  | cons p ps =>
      obtain ⟨q', hpop, hr'⟩ := hr.pop
      obtain ⟨_, hwalk, _⟩ := hr.linked
      exact ⟨q', .remove p hwalk.1 hpop, ps, buf, hr', (List.cons.inj heq).2⟩

/-- A short write moves the position inside the first buffer. -/
theorem Backs.head {q : TailQueue Nat} {m m' : MsgBuf} {wl : List MsgBuf}
    (h : Backs q (m :: wl)) : Backs q (m' :: wl) := by
  obtain ⟨ps, buf, hr, heq⟩ := h
  cases ps with
  | nil => cases heq
  | cons p ps =>
      refine ⟨p :: ps, Function.update buf p m', hr, ?_⟩
      rw [List.map_cons, Function.update_self, (List.cons.inj heq).2]
      congr 1
      refine List.map_congr_left fun x hx => ?_
      have hxp : x ≠ p := fun hxp => (List.nodup_cons.mp hr.nodup).1 (hxp ▸ hx)
      rw [Function.update_of_ne hxp]

/-- The loop of `handle_disconnect`. -/
theorem Backs.clear {q : TailQueue Nat} {wl : List MsgBuf} (h : Backs q wl) : Follows q [] := by
  induction wl generalizing q with
  | nil => exact h.follows
  | cons m wl ih =>
      obtain ⟨q', hstep, hb⟩ := h.tail
      exact (ih hb).step hstep

theorem writeLoop_follows {q : TailQueue Nat} (c : Conn) (wl : List MsgBuf)
    (hssl : c.cbuf.isSsl = false) (h : Backs q wl) :
    Follows q (writeLoop c wl).2.cbuf.wlist := by
  induction wl generalizing c q with
  | nil => exact h.follows
  | cons m ms ih =>
      obtain ⟨w, _, ⟨m', hloop⟩ | ⟨_, hloop⟩ | hloop⟩ := writeLoop_step c m ms hssl
      · rw [hloop]
        exact h.head.follows
      · rw [hloop]
        exact h.follows
      · rw [hloop]
        obtain ⟨q', hstep, hb⟩ := h.tail
        apply Follows.step hstep
        exact ih _ hssl hb

theorem pktservSend_follows {q : TailQueue Nat} {c : Conn} (pkt : Bytes)
    (hssl : c.cbuf.isSsl = false) (h : Backs q c.cbuf.wlist) :
    Follows q (pktservSend c pkt).2.cbuf.wlist := by
  obtain ⟨q', hstep, hqueued⟩ := h.append { data := pkt, len := pkt.length, pos := 0 }
  rcases pktservSend_cases c pkt with ⟨_, hsend⟩ | ⟨_, hsend⟩ | ⟨_, _, hsend⟩ | ⟨_, _, hsend⟩
  · rw [hsend]
    exact h.follows
  · rw [hsend]
    exact h.follows
  · rw [hsend]
    exact hqueued.follows.step hstep
  · have hloop := writeLoop_follows (c.queued pkt) _ hssl hqueued
    rw [hsend]
    dsimp only
    split
    · exact hloop.step hstep
    · exact hloop.step hstep

/-- **The list refines to the tail queue.** Whatever a step does to the list of the model, the tail
queue under it can follow with its own insertions and removals, and none of them follows a null
pointer. -/
theorem Moves.follows {l : Label} {p p' : Proc} {q : TailQueue Nat} (hm : Moves l p p')
    (hp : Plaintext p) (h : Backs q p.conn.cbuf.wlist) : Follows q p'.conn.cbuf.wlist := by
  have hssl := hp.isSsl
  have hcycle : ∀ c : Conn, (cycleToWrite c).cbuf.wlist = c.cbuf.wlist := by
    intro c
    unfold cycleToWrite
    split <;> rfl
  cases hm with
  | call a _ =>
      cases a with
      | send pkt => exact pktservSend_follows pkt hssl h
      | disconnect => exact h.follows
  | @write c r w _ hs =>
      rcases writeCase_cases r w hs with hsame | ⟨d, hpass⟩
      · rw [hsame]
        exact h.follows
      · rw [hpass]
        exact writeLoop_follows c _ hssl h
  | poll b _ =>
      obtain ⟨d, hd⟩ := Conn.polled_disp _ b
      rw [hd]
      exact h.follows
  | packet _ _ _ =>
      show Follows q (pktsocketRead _).2.cbuf.wlist
      rw [(pktsocketRead_readOnly hssl).1.wlist]
      exact h.follows
  | fragment _ _ _ =>
      show Follows q (cycleToWrite (pktsocketRead _).2).cbuf.wlist
      rw [hcycle, (pktsocketRead_readOnly hssl).1.wlist]
      exact h.follows
  | skip _ _ =>
      show Follows q (cycleToWrite _).cbuf.wlist
      rw [hcycle]
      exact h.follows
  | dispatched =>
      show Follows q (cycleToWrite _).cbuf.wlist
      rw [hcycle]
      exact h.follows
  | lost => exact h.clear
  | network | except _ _ _ | rest _ | greeted | greet _ _ | lose _ _ | close _ _ | gone _ _ =>
      exact h.follows

/-- The head of zeros that `accept` leaves is a queue for the fresh connection. -/
theorem backs_accepted (fd : Nat) (w : Wire) (entry : Nat → QueueEntry Nat) :
    Backs { first := none, last := none, entry := entry } (Proc.accepted fd w).conn.cbuf.wlist :=
  ⟨[], fun _ => {}, TailQueue.represents_zero entry, rfl⟩

end Icbd.Pkt
