/-
# Icbd.Pkt.Inbound — from a stream of frames to dispatched packets.

The reading side keeps its place in the stream in two spots: the partial packet in `rbuf` and the
state word that says whether there is one. The writing side shares the state word, and
`pktserv_send` overwrites it. `Framed` is the alignment between the stream and the connection;
every poll keeps it, whatever the chunking and whatever the callbacks send, and a send keeps it
unless it lands while a packet is partly read (`WANT_READ`): the place in the stream is then
forgotten.
-/
import Icbd.Pkt.Returns

namespace Icbd.Pkt

/-! ## §1 — frames and streams -/

/-- A well-formed frame: one to 254 bytes of contents. -/
structure Frame where
  body : Bytes
  nonempty : 1 ≤ body.length
  fits : body.length ≤ 254
  deriving DecidableEq

/-- A frame on the wire: the length byte, then the contents. -/
def Frame.encode (f : Frame) : Bytes := UInt8.ofNat f.body.length :: f.body

/-- A stream of frames. -/
def stream (fs : List Frame) : Bytes := fs.flatMap Frame.encode

@[simp] theorem stream_cons (f : Frame) (fs : List Frame) :
    stream (f :: fs) = f.encode ++ stream fs := rfl

@[simp] theorem Frame.length_encode (f : Frame) : f.encode.length = f.body.length + 1 := rfl

/-- The length byte gives the length back. -/
theorem Frame.header_toNat (f : Frame) : (UInt8.ofNat f.body.length).toNat = f.body.length := by
  have h := f.fits
  simp only [UInt8.toNat_ofNat']
  omega

theorem stream_eq_nil {fs : List Frame} (h : stream fs = []) : fs = [] := by
  cases fs with
  | nil => rfl
  | cons f fs => simp [Frame.encode] at h

/-! ## §2 — what happens to a connection -/

/-- `read` hands over bytes or would block. -/
def ReadResult.quiet : ReadResult → Bool
  | .data _ | .wouldBlock => true
  | .eof | .error => false

/-- Something that happens to a connection: the state machine is called on it, with what the
callbacks send to it meanwhile, or another connection's traffic makes the server send to it. -/
inductive Event
  | poll (greeting replies : List Bytes) (ok2read pollin pollout : Bool)
  | send (pkt : Bytes)
  deriving DecidableEq, Repr

/-- The callbacks of a `poll` event. -/
def Event.upcalls (greeting replies : List Bytes) (ok2read : Bool) : Upcalls :=
  { newClient := greeting.map .send, dispatch := replies.map .send, ok2read := ok2read }

/-- The connection after an event; a poll has a result when the state machine returns. -/
def Event.Result (c c' : Conn) : Event → Prop
  | .poll greeting replies ok2read pollin pollout =>
      ∃ fuel, pollfdStateMachine (upcalls greeting replies ok2read)
        { pollin := pollin, pollout := pollout } fuel c = some c'
  | .send pkt => c' = (pktservSend c pkt).2

/-- The runs of a plaintext connection to which the peer sends the frames `fs`, with each event
meeting `ok` where it happens. The two scripts of the wire are the chunking of the stream and the
outcomes of the writes. -/
inductive Run (ok : Event → Conn → Prop) (fs : List Frame) : List Event → Conn → Prop
  | accept (fd : Nat) (w : Wire) : w.inbound = stream fs → (∀ r ∈ w.reads, r.quiet = true) →
      .error ∉ w.writes → Run ok fs [] { cbuf := Cbuf.fresh fd false, wire := w }
  | event {es : List Event} {c c' : Conn} (e : Event) :
      Run ok fs es c → ok e c → e.Result c c' → Run ok fs (es ++ [e]) c'

/-- The condition on an event: a poll returns (`callReturns`); a send does not find a packet partly
read, nor the retry limit passed with room left in the queue. -/
def Event.inStep (c : Conn) : Event → Bool
  | .poll greeting replies ok2read pollin pollout =>
      callReturns (upcalls greeting replies ok2read) { pollin := pollin, pollout := pollout } c
  | .send _ =>
      c.cbuf.state != .wantRead &&
        (decide (c.cbuf.retries ≤ maxSendpacketRetries) ||
          decide (c.cbuf.wlistSize ≥ maxSendpacketQueue))

/-! ## §3 — the alignment -/

/-- A connection with the first `n` bytes of `f` in its buffer and the others still on the wire. -/
structure Holding (c : Conn) (f : Frame) (fs : List Frame) (n : Nat) : Prop where
  begun : 1 ≤ n
  part : n < f.encode.length
  rbuf : c.cbuf.rbuf = some { data := f.encode.take n, len := f.encode.length, pos := n }
  inbound : c.wire.inbound = f.encode.drop n ++ stream fs

/-- How the bytes still on the wire continue what the connection holds, with `rest` the frames not
dispatched yet. Only in `WANT_READ` is part of a frame in the buffer. -/
def Aligned (c : Conn) (rest : List Frame) : Prop :=
  match c.cbuf.state with
  | .accepted =>
      c.wire.inbound = stream rest ∧ c.cbuf.wlist = [] ∧ c.cbuf.wlistSize = 0 ∧ c.cbuf.retries = 0
  | .wantHeader => c.wire.inbound = stream rest ∧ c.cbuf.wlist = []
  | .wantWrite => c.wire.inbound = stream rest
  | .wantRead =>
      c.cbuf.wlist = [] ∧ ∃ f fs n, rest = f :: fs ∧ Holding c f fs n
  | _ => False

/-- **The invariant.** The dispatched packets are the first frames of the stream and the connection
is aligned with the others. -/
structure Framed (fs : List Frame) (c : Conn) : Prop where
  isSsl : c.cbuf.isSsl = false
  disp : c.cbuf.disp = .ok
  reads : ∀ r ∈ c.wire.reads, r.quiet = true
  writes : .error ∉ c.wire.writes
  split : ∃ done rest, fs = done ++ rest ∧ c.dispatched = done.map Frame.encode ∧ Aligned c rest

/-! ## §4 — the writing side leaves the stream alone -/

/-- A wire on which only writes have happened since. -/
structure Wire.Later (w w' : Wire) : Prop where
  inbound : w'.inbound = w.inbound
  reads : w'.reads = w.reads
  writes : w'.writes <:+ w.writes

theorem Wire.Later.refl (w : Wire) : w.Later w := ⟨rfl, rfl, List.suffix_rfl⟩

theorem Wire.Later.trans {w w' w'' : Wire} (h : w.Later w') (h' : w'.Later w'') : w.Later w'' :=
  ⟨h'.inbound.trans h.inbound, h'.reads.trans h.reads, h'.writes.trans h.writes⟩

theorem Wire.Later.error_not_mem {w w' : Wire} (h : w.Later w') (hw : .error ∉ w.writes) :
    .error ∉ w'.writes :=
  fun hm => hw (h.writes.subset hm)

theorem Wire.write_later (w : Wire) (b : Bytes) : w.Later (w.write b).2 := by
  rcases hw : w.writes with _ | ⟨x, xs⟩
  · simp only [Wire.write, hw]
    exact Wire.Later.refl w
  · cases x <;> exact ⟨by simp [Wire.write, hw], by simp [Wire.write, hw], by simp [Wire.write, hw]⟩

/-- **What one iteration of the write loop can do** on a plaintext socket: stall with the retry
counted, fail because `write` failed, or take the packet and go on. -/
theorem writeLoop_step (c : Conn) (m : MsgBuf) (ms : List MsgBuf) (hssl : c.cbuf.isSsl = false) :
    ∃ w, c.wire.Later w ∧
      ((∃ m', writeLoop c (m :: ms) = (0, { c with wire := w, cbuf := { c.cbuf with
          wlist := m' :: ms, state := .wantWrite, retries := c.cbuf.retries + 1 } })) ∨
       (.error ∈ c.wire.writes ∧ writeLoop c (m :: ms) = (-1, { c with wire := w, cbuf := { c.cbuf with
          wlist := m :: ms, state := .wantDisconnect } })) ∨
       writeLoop c (m :: ms) = writeLoop { c with wire := w, cbuf := { c.cbuf with
          wlist := ms, wlistSize := c.cbuf.wlistSize - 1, retries := 0 } } ms) := by
  refine ⟨(c.wire.write (m.data.drop m.pos)).2, Wire.write_later _ _, ?_⟩
  have hsock : sockWrite c (m.data.drop m.pos) = ((c.wire.write (m.data.drop m.pos)).1,
      { c with wire := (c.wire.write (m.data.drop m.pos)).2 }) := sockWrite_plain hssl _
  cases hout : (c.wire.write (m.data.drop m.pos)).1 with
  | wouldBlock => exact Or.inl ⟨m, by simp [writeLoop, hsock, hout]⟩
  | error =>
      refine Or.inr (Or.inl ⟨?_, by simp [writeLoop, hsock, hout]⟩)
      rcases hw : c.wire.writes with _ | ⟨x, xs⟩
      · simp [Wire.write, hw] at hout
      · cases x <;> simp [Wire.write, hw] at hout ⊢
  | count n =>
      by_cases hn : n < m.len - m.pos
      · exact Or.inl ⟨{ m with pos := m.pos + n }, by simp [writeLoop, hsock, hout, hssl, hn]⟩
      · exact Or.inr (Or.inr (by simp [writeLoop, hsock, hout, hssl, hn]))

/-- What a write leaves of a connection: everything the reading side depends on, except the state
word. -/
structure Untouched (c c' : Conn) : Prop where
  wire : c.wire.Later c'.wire
  trace : c'.trace = c.trace
  disp : c'.cbuf.disp = c.cbuf.disp
  isSsl : c'.cbuf.isSsl = c.cbuf.isSsl

theorem Untouched.trans {c c' c'' : Conn} (h : Untouched c c') (h' : Untouched c' c'') :
    Untouched c c'' :=
  ⟨h.wire.trans h'.wire, h'.trace.trans h.trace, h'.disp.trans h.disp, h'.isSsl.trans h.isSsl⟩

theorem writeLoop_untouched (c : Conn) (q : List MsgBuf) (hssl : c.cbuf.isSsl = false) :
    Untouched c (writeLoop c q).2 := by
  induction q generalizing c with
  | nil => exact ⟨Wire.Later.refl _, rfl, rfl, rfl⟩
  | cons m ms ih =>
      obtain ⟨w, hw, ⟨m', h⟩ | ⟨_, h⟩ | h⟩ := writeLoop_step c m ms hssl
      · rw [h]
        exact ⟨hw, rfl, rfl, rfl⟩
      · rw [h]
        exact ⟨hw, rfl, rfl, rfl⟩
      · rw [h]
        obtain ⟨hw', ht, hd, hi⟩ := ih { c with wire := w, cbuf := { c.cbuf with
          wlist := ms, wlistSize := c.cbuf.wlistSize - 1, retries := 0 } } hssl
        exact ⟨hw.trans hw', ht, hd, hi⟩

/-- The queue is empty and a header is awaited, or writing goes on. -/
def Conn.quiescent (c : Conn) : Prop :=
  (c.cbuf.state = .wantHeader ∧ c.cbuf.wlist = []) ∨ c.cbuf.state = .wantWrite

theorem writeLoop_quiescent (c : Conn) (q : List MsgBuf) (hssl : c.cbuf.isSsl = false)
    (hw : .error ∉ c.wire.writes) :
    (writeLoop c q).1 = 0 ∧ (writeLoop c q).2.quiescent := by
  induction q generalizing c with
  | nil => exact ⟨rfl, Or.inl ⟨rfl, rfl⟩⟩
  | cons m ms ih =>
      obtain ⟨w, hlater, ⟨m', h⟩ | ⟨herr, _⟩ | h⟩ := writeLoop_step c m ms hssl
      · rw [h]
        exact ⟨rfl, Or.inr rfl⟩
      · exact absurd herr hw
      · rw [h]
        exact ih _ hssl (hlater.error_not_mem hw)

/-- As long as nothing but sends has happened, the counters bound each other. -/
def Conn.paced (c : Conn) : Prop :=
  c.cbuf.wlistSize = c.cbuf.wlist.length ∧ c.cbuf.retries ≤ c.cbuf.wlist.length

theorem writeLoop_paced (c : Conn) (q : List MsgBuf) (hssl : c.cbuf.isSsl = false)
    (hsize : c.cbuf.wlistSize = q.length) (hr : c.cbuf.retries ≤ q.length - 1) :
    (writeLoop c q).2.paced := by
  induction q generalizing c with
  | nil => exact ⟨hsize, hr⟩
  | cons m ms ih =>
      obtain ⟨w, _, ⟨m', h⟩ | ⟨_, h⟩ | h⟩ := writeLoop_step c m ms hssl
      · rw [h]
        refine ⟨hsize, ?_⟩
        simp only [List.length_cons] at hr ⊢
        omega
      · rw [h]
        refine ⟨hsize, ?_⟩
        simp only [List.length_cons] at hr ⊢
        omega
      · rw [h]
        refine ih _ hssl ?_ (Nat.zero_le _)
        simp only [List.length_cons] at hsize ⊢
        omega

/-- **What `pktserv_send` can do**: refuse because the connection is going down or the queue is full
or the retry limit is passed, or make a pass of the write loop. -/
theorem pktservSend_cases (c : Conn) (pkt : Bytes) :
    ((c.cbuf.state = .wantDisconnect ∨ c.cbuf.state = .wantRawDisconnect) ∧
        (pktservSend c pkt).2 = c) ∨
    (c.cbuf.wlistSize ≥ maxSendpacketQueue ∧ (pktservSend c pkt).2 = c.setState .wantWrite) ∨
    (c.cbuf.wlistSize < maxSendpacketQueue ∧ maxSendpacketRetries < c.cbuf.retries ∧
        (pktservSend c pkt).2 = (c.queued pkt).setState .wantDisconnect) ∨
    (c.cbuf.wlistSize < maxSendpacketQueue ∧ c.cbuf.retries ≤ maxSendpacketRetries ∧
        (pktservSend c pkt).2 =
          let r := writeLoop (c.queued pkt) (c.queued pkt).cbuf.wlist
          if r.1 < 0 then r.2.setState .wantDisconnect else r.2) := by
  by_cases hs : c.cbuf.state = .wantDisconnect ∨ c.cbuf.state = .wantRawDisconnect
  · exact Or.inl ⟨hs, by simp [pktservSend, hs]⟩
  · right
    by_cases hq : c.cbuf.wlistSize ≥ maxSendpacketQueue
    · exact Or.inl ⟨hq, by simp [pktservSend, hs, hq, Conn.setState]⟩
    · right
      have hq' : c.cbuf.wlistSize < maxSendpacketQueue := Int.not_le.mp hq
      by_cases hr : maxSendpacketRetries < c.cbuf.retries
      · refine Or.inl ⟨hq', hr, ?_⟩
        have hp : pktsocketWrite (c.queued pkt) = (-1, c.queued pkt) := if_pos hr
        simp [pktservSend, hs, hq, hp]
      · refine Or.inr ⟨hq', Nat.le_of_not_lt hr, ?_⟩
        have hp : pktsocketWrite (c.queued pkt) =
            writeLoop (c.queued pkt) (c.queued pkt).cbuf.wlist := if_neg hr
        simp only [pktservSend, hs, hq, if_false, hp]
        split <;> rfl

theorem pktservSend_untouched (c : Conn) (pkt : Bytes) (hssl : c.cbuf.isSsl = false) :
    Untouched c (pktservSend c pkt).2 := by
  have hloop : Untouched c (writeLoop (c.queued pkt) (c.queued pkt).cbuf.wlist).2 := by
    obtain ⟨hw, ht, hd, hi⟩ := writeLoop_untouched (c.queued pkt) (c.queued pkt).cbuf.wlist hssl
    exact ⟨hw, ht, hd, hi⟩
  rcases pktservSend_cases c pkt with ⟨_, h⟩ | ⟨_, h⟩ | ⟨_, _, h⟩ | ⟨_, _, h⟩
  · rw [h]
    exact ⟨Wire.Later.refl _, rfl, rfl, rfl⟩
  · rw [h]
    exact ⟨Wire.Later.refl _, rfl, rfl, rfl⟩
  · rw [h]
    exact ⟨Wire.Later.refl _, rfl, rfl, rfl⟩
  · rw [h]
    dsimp only
    split
    · exact ⟨hloop.wire, hloop.trace, hloop.disp, hloop.isSsl⟩
    · exact hloop

theorem pktservSend_quiescent (c : Conn) (pkt : Bytes) (hssl : c.cbuf.isSsl = false)
    (hw : .error ∉ c.wire.writes)
    (hs : c.cbuf.state ≠ .wantDisconnect ∧ c.cbuf.state ≠ .wantRawDisconnect)
    (hroom : c.cbuf.retries ≤ maxSendpacketRetries ∨ c.cbuf.wlistSize ≥ maxSendpacketQueue) :
    (pktservSend c pkt).2.quiescent := by
  rcases pktservSend_cases c pkt with ⟨h, _⟩ | ⟨_, h⟩ | ⟨hq, hr, _⟩ | ⟨_, _, h⟩
  · exact absurd h (by simp [hs])
  · rw [h]
    exact Or.inr rfl
  · exact absurd hroom (by omega)
  · obtain ⟨h₀, hq⟩ := writeLoop_quiescent (c.queued pkt) (c.queued pkt).cbuf.wlist hssl hw
    rw [h]
    simp only [h₀, Int.lt_irrefl, if_false]
    exact hq

theorem pktservSend_paced (c : Conn) (pkt : Bytes) (hssl : c.cbuf.isSsl = false)
    (hp : c.paced) : (pktservSend c pkt).2.paced := by
  obtain ⟨hsize, hr⟩ := hp
  have hlen : (c.queued pkt).cbuf.wlist.length = c.cbuf.wlist.length + 1 := by
    simp [Conn.queued]
  rcases pktservSend_cases c pkt with ⟨_, h⟩ | ⟨_, h⟩ | ⟨hq, hr', _⟩ | ⟨_, _, h⟩
  · rw [h]
    exact ⟨hsize, hr⟩
  · rw [h]
    exact ⟨hsize, hr⟩
  · -- the limit is above the queue's length, so it cannot be passed before the queue is full
    simp only [maxSendpacketQueue, maxSendpacketRetries] at hq hr'
    omega
  · have hpaced := writeLoop_paced (c.queued pkt) (c.queued pkt).cbuf.wlist hssl
      (by rw [hlen]; simp only [Conn.queued]; omega) (by rw [hlen]; exact hr)
    rw [h]
    dsimp only
    split <;> exact hpaced

/-- The calls a callback makes when all it does is send. -/
theorem runActions_send_untouched (pkts : List Bytes) (c : Conn) (hssl : c.cbuf.isSsl = false) :
    Untouched c (runActions c (pkts.map .send)) := by
  induction pkts generalizing c with
  | nil => exact ⟨Wire.Later.refl _, rfl, rfl, rfl⟩
  | cons p ps ih =>
      have h := pktservSend_untouched c p hssl
      exact h.trans (ih (pktservSend c p).2 (h.isSsl.trans hssl))

/-- A greeting never gets a fresh connection dropped. -/
theorem runActions_send_quiescent (pkts : List Bytes) (c : Conn) (hssl : c.cbuf.isSsl = false)
    (hw : .error ∉ c.wire.writes) (hp : c.paced) (hq : c.quiescent) :
    (runActions c (pkts.map .send)).quiescent := by
  induction pkts generalizing c with
  | nil => exact hq
  | cons p ps ih =>
      have h := pktservSend_untouched c p hssl
      have hs : c.cbuf.state ≠ .wantDisconnect ∧ c.cbuf.state ≠ .wantRawDisconnect := by
        rcases hq with ⟨h, _⟩ | h <;> simp [h]
      have hroom : c.cbuf.retries ≤ maxSendpacketRetries ∨
          c.cbuf.wlistSize ≥ maxSendpacketQueue := by
        obtain ⟨hsize, hr⟩ := hp
        simp only [maxSendpacketQueue, maxSendpacketRetries]
        omega
      exact ih (pktservSend c p).2 (h.isSsl.trans hssl) (h.wire.error_not_mem hw)
        (pktservSend_paced c p hssl hp) (pktservSend_quiescent c p hssl hw hs hroom)

/-! ## §5 — the reading side -/

/-- What a read keeps, whatever it finds. -/
structure ReadKeeps (c c' : Conn) : Prop where
  isSsl : c'.cbuf.isSsl = c.cbuf.isSsl
  disp : c'.cbuf.disp = c.cbuf.disp
  wlist : c'.cbuf.wlist = c.cbuf.wlist
  trace : c'.trace = c.trace
  reads : c'.wire.reads <:+ c.wire.reads
  writes : c'.wire.writes = c.wire.writes

/-- Where a read that had bytes of `f` to expect leaves the connection: still in the middle of `f`,
or with all of it. -/
def BodyRead (c : Conn) (f : Frame) (fs : List Frame) : Prop :=
  (c.cbuf.state = .wantRead ∧ ∃ n, Holding c f fs n) ∨
  (c.cbuf.state = .completePacket ∧ (c.cbuf.rbuf.getD {}).data = f.encode ∧
    c.wire.inbound = stream fs)

/-- **The body of a packet.** Whatever chunk `read` hands over, it is the next part of the frame and
never a byte more. -/
theorem readBody_holding {c : Conn} {f : Frame} {fs : List Frame} {n : Nat}
    (hssl : c.cbuf.isSsl = false) (hr : ∀ r ∈ c.wire.reads, r.quiet = true)
    (h : Holding c f fs n) :
    ReadKeeps c (readBody c).2 ∧ BodyRead (readBody c).2 f fs := by
  have hne : c.wire.inbound ≠ [] := by
    rw [h.inbound]
    have : (f.encode.drop n).length ≠ 0 := by rw [List.length_drop]; have := h.part; omega
    intro hnil
    exact this (by simp [(List.append_eq_nil_iff.mp hnil).1])
  rcases hreads : c.wire.reads with _ | ⟨r, rs⟩
  · have hb : readBody c = (0, c.setState .wantRead) := by
      simp [readBody, sockRead, hssl, Wire.read, hreads, Conn.setState]
    rw [hb]
    exact ⟨⟨rfl, rfl, rfl, rfl, by simp [Conn.setState], rfl⟩,
      Or.inl ⟨rfl, n, ⟨h.begun, h.part, h.rbuf, h.inbound⟩⟩⟩
  · cases r with
    | eof | error => exact absurd (hr _ (by rw [hreads]; exact List.mem_cons_self)) (by decide)
    | wouldBlock =>
        have hb : readBody c =
            (0, { c with wire := { c.wire with reads := rs } }.setState .wantRead) := by
          simp [readBody, sockRead, hssl, Wire.read, hreads, Conn.setState]
        rw [hb]
        exact ⟨⟨rfl, rfl, rfl, rfl, by simp [Conn.setState, hreads], rfl⟩,
          Or.inl ⟨rfl, n, ⟨h.begun, h.part, h.rbuf, h.inbound⟩⟩⟩
    | data k =>
        -- the chunk: at most what is missing of the frame
        set d := min (f.encode.length - n) (k + 1) with hd
        have hpos : 0 < d := by have := h.part; omega
        have hle : n + d ≤ f.encode.length := by omega
        have htake : c.wire.inbound.take d = (f.encode.drop n).take d := by
          rw [h.inbound, List.take_append_of_le_length]
          rw [List.length_drop]; omega
        have hdrop : c.wire.inbound.drop d = f.encode.drop (n + d) ++ stream fs := by
          rw [h.inbound, List.drop_append_of_le_length, List.drop_drop]
          rw [List.length_drop]; omega
        have hlen : ((f.encode.drop n).take d).length = d := by
          rw [List.length_take, List.length_drop]; omega
        have hchunk : (f.encode.drop n).take d ≠ [] := by
          intro hnil
          rw [hnil] at hlen
          simp at hlen
          omega
        have hdata : f.encode.take n ++ (f.encode.drop n).take d = f.encode.take (n + d) := by
          rw [List.take_add]
        set c₁ : Conn := { c with
          wire := { c.wire with reads := rs, inbound := f.encode.drop (n + d) ++ stream fs }
          cbuf := { c.cbuf with
            rbuf := some { data := f.encode.take (n + d), len := f.encode.length, pos := n + d } } }
          with hc₁
        have hb : readBody c = (0, c₁.setState
            (if f.encode.length - n - d = 0 then .completePacket else .wantRead)) := by
          have hread : c.wire.read (f.encode.length - n) = (.bytes ((f.encode.drop n).take d),
              { c.wire with reads := rs, inbound := f.encode.drop (n + d) ++ stream fs }) := by
            simp only [Wire.read, hreads, hne, if_false]
            rw [← hd, htake, hdrop]
          simp only [readBody, sockRead_plain hssl, h.rbuf, Option.getD_some, hread, hchunk,
            if_false, Conn.setRbuf, hdata, hlen]
          split <;> rfl
        rw [hb]
        refine ⟨⟨rfl, rfl, rfl, rfl, by simp [hc₁, Conn.setState, hreads], rfl⟩, ?_⟩
        by_cases hlast : f.encode.length - n - d = 0
        · right
          simp only [hlast, if_true]
          have hall : n + d = f.encode.length := by omega
          refine ⟨rfl, ?_, ?_⟩
          · simp only [hc₁, Conn.setState, Option.getD_some, hall, List.take_length]
          · simp only [hc₁, Conn.setState, hall, List.drop_length, List.nil_append]
        · left
          simp only [hlast, if_false]
          exact ⟨rfl, n + d, ⟨by have := h.begun; omega, by omega, rfl, rfl⟩⟩

/-- **The header of a packet.** Either nothing was there, or the length byte of the next frame is and
reading goes on with its body. -/
theorem pktsocketRead_header {c : Conn} {rest : List Frame} (hs : c.cbuf.state = .wantHeader)
    (hssl : c.cbuf.isSsl = false) (hr : ∀ r ∈ c.wire.reads, r.quiet = true)
    (hin : c.wire.inbound = stream rest) :
    ReadKeeps c (pktsocketRead c).2 ∧
      (((pktsocketRead c).2.cbuf.state = .wantHeader ∧
          (pktsocketRead c).2.wire.inbound = stream rest) ∨
        ∃ f fs, rest = f :: fs ∧ BodyRead (pktsocketRead c).2 f fs) := by
  have hstop : ∀ {r c'}, readHeader c = (some r, c') → pktsocketRead c = (r, c') := by
    intro r c' hh
    simp only [pktsocketRead, if_pos hs, hh]
  have hgo : ∀ {c'}, readHeader c = (none, c') → pktsocketRead c = readBody c' := by
    intro c' hh
    simp only [pktsocketRead, if_pos hs, hh]
  rcases hreads : c.wire.reads with _ | ⟨r, rs⟩
  · have hh : readHeader c = (some 0, c.setRbuf {}) := by
      simp [readHeader, sockRead, Conn.setRbuf, hssl, Wire.read, hreads]
    rw [hstop hh]
    exact ⟨⟨rfl, rfl, rfl, rfl, by simp [Conn.setRbuf], rfl⟩, Or.inl ⟨hs, hin⟩⟩
  · have hblock : (r = .wouldBlock ∨ c.wire.inbound = []) → r.quiet = true → readHeader c =
        (some 0, { c.setRbuf {} with wire := { c.wire with reads := rs } }) := by
      rintro (rfl | hnil) hq
      · simp [readHeader, sockRead, Conn.setRbuf, hssl, Wire.read, hreads]
      · cases r with
        | eof | error => cases hq
        | wouldBlock => simp [readHeader, sockRead, Conn.setRbuf, hssl, Wire.read, hreads]
        | data k => simp [readHeader, sockRead, Conn.setRbuf, hssl, Wire.read, hreads, hnil]
    have hq : r.quiet = true := hr r (by rw [hreads]; exact List.mem_cons_self)
    by_cases hb : r = .wouldBlock ∨ c.wire.inbound = []
    · rw [hstop (hblock hb hq)]
      exact ⟨⟨rfl, rfl, rfl, rfl, by simp [hreads], rfl⟩, Or.inl ⟨hs, hin⟩⟩
    · cases r with
      | eof | error => cases hq
      | wouldBlock => exact absurd (Or.inl rfl) hb
      | data k =>
          have hne : c.wire.inbound ≠ [] := fun h => hb (Or.inr h)
          rcases rest with _ | ⟨f, fs⟩
          · exact absurd hin hne
          · -- one byte: the frame's length
            set c₁ : Conn := { c with
              wire := { c.wire with reads := rs, inbound := f.encode.drop 1 ++ stream fs }
              cbuf := { c.cbuf with
                rbuf := some { data := f.encode.take 1, len := f.encode.length, pos := 1 }
                newmsg := false } } with hc₁
            have hh : readHeader c = (none, c₁) := by
              have hfit : ¬ (f.body.length + 1 > maxPktLen - 1) := by
                have := f.fits
                simp only [maxPktLen]
                omega
              have hin' : c.wire.inbound = UInt8.ofNat f.body.length :: (f.body ++ stream fs) := hin
              simp [readHeader, sockRead, Conn.setRbuf, hssl, Wire.read, hreads, packetHeaderLen,
                hin', f.header_toNat, hfit, hc₁, Frame.encode]
            have hhold : Holding c₁ f fs 1 := by
              have := f.nonempty
              exact ⟨Nat.le_refl 1, by rw [f.length_encode]; omega, rfl, rfl⟩
            have hr₁ : ∀ r ∈ c₁.wire.reads, r.quiet = true := by
              intro r hmem
              exact hr r (by rw [hreads]; exact List.mem_cons_of_mem _ hmem)
            obtain ⟨hk, hbody⟩ := readBody_holding (c := c₁) hssl hr₁ hhold
            rw [hgo hh]
            refine ⟨⟨hk.isSsl, hk.disp, hk.wlist, hk.trace, ?_, hk.writes⟩,
              Or.inr ⟨f, fs, rfl, hbody⟩⟩
            exact hk.reads.trans (by simp [hc₁, hreads])

/-! ## §6 — every step keeps the alignment -/

theorem Framed.of_untouched {fs : List Frame} {c c' : Conn} (h : Framed fs c) (hu : Untouched c c')
    {done rest : List Frame} (hfs : fs = done ++ rest)
    (hdone : c.dispatched = done.map Frame.encode) (ha : Aligned c' rest) : Framed fs c' := by
  refine ⟨hu.isSsl.trans h.isSsl, hu.disp.trans h.disp, ?_, hu.wire.error_not_mem h.writes,
    done, rest, hfs, ?_, ha⟩
  · rw [hu.wire.reads]
    exact h.reads
  · rw [← hdone, Conn.dispatched, Conn.dispatched, hu.trace]

/-- A connection between two packets stays aligned through anything that only writes. -/
theorem Aligned.of_quiescent {c c' : Conn} {rest : List Frame} (hin : c.wire.inbound = stream rest)
    (hu : Untouched c c') (hq : c'.quiescent) : Aligned c' rest := by
  have hin' : c'.wire.inbound = stream rest := hu.wire.inbound.trans hin
  rcases hq with ⟨hs, hw⟩ | hs
  · simp only [Aligned, hs]
    exact ⟨hin', hw⟩
  · simp only [Aligned, hs]
    exact hin'

/-- Between two packets, the bytes on the wire are the frames to come. -/
theorem Aligned.inbound {c : Conn} {rest : List Frame} (ha : Aligned c rest)
    (hs : c.cbuf.state ≠ .wantRead) : c.wire.inbound = stream rest := by
  cases h : c.cbuf.state with
  | accepted | wantHeader =>
      simp only [Aligned, h] at ha
      exact ha.1
  | wantWrite =>
      simp only [Aligned, h] at ha
      exact ha
  | wantRead => exact absurd h hs
  | _ => simp [Aligned, h] at ha

theorem Aligned.not_closing {c : Conn} {rest : List Frame} (ha : Aligned c rest) :
    c.cbuf.state ≠ .wantDisconnect ∧ c.cbuf.state ≠ .wantRawDisconnect := by
  constructor <;> intro h <;> simp [Aligned, h] at ha

/-- A send between two packets. -/
theorem pktservSend_framed {fs : List Frame} {c : Conn} (pkt : Bytes) (h : Framed fs c)
    (hstep : (Event.send pkt).inStep c = true) : Framed fs (pktservSend c pkt).2 := by
  obtain ⟨done, rest, hfs, hdone, ha⟩ := h.split
  simp only [Event.inStep, Bool.and_eq_true, bne_iff_ne, ne_eq, Bool.or_eq_true,
    decide_eq_true_eq] at hstep
  have hu := pktservSend_untouched c pkt h.isSsl
  have hq := pktservSend_quiescent c pkt h.isSsl h.writes ha.not_closing hstep.2
  exact h.of_untouched hu hfs hdone (Aligned.of_quiescent (ha.inbound hstep.1) hu hq)

/-- `ACCEPTED`: the greeting. -/
theorem greeted_framed {fs : List Frame} {c : Conn} (greeting replies : List Bytes) (ok2read : Bool)
    (h : Framed fs c) (hs : c.cbuf.state = .accepted) :
    Framed fs (c.greeted (Event.upcalls greeting replies ok2read)) := by
  obtain ⟨done, rest, hfs, hdone, ha⟩ := h.split
  simp only [Aligned, hs] at ha
  obtain ⟨hin, hw, hsize, hr⟩ := ha
  set c₁ : Conn := (c.setState .wantHeader).report .newClient with hc₁
  have h₁ : Framed fs c₁ := by
    refine ⟨h.isSsl, h.disp, h.reads, h.writes, done, rest, hfs, ?_, ?_⟩
    · rw [← hdone, hc₁, Conn.dispatched_report_other _ _ (by simp), Conn.dispatched_setState]
    · exact ⟨hin, hw⟩
  have hp : c₁.paced := by
    refine ⟨?_, ?_⟩
    · simp [hc₁, hw, hsize, Conn.setState]
    · simp [hc₁, hr, Conn.setState]
  have hu := runActions_send_untouched greeting c₁ h₁.isSsl
  have hq := runActions_send_quiescent greeting c₁ h₁.isSsl h₁.writes hp (Or.inl ⟨rfl, hw⟩)
  obtain ⟨_, _, hfs₁, hdone₁, ha₁⟩ := h₁.split
  exact h₁.of_untouched hu hfs₁ hdone₁ (Aligned.of_quiescent (ha₁.inbound (by simp [hc₁])) hu hq)

/-- Setting the disposition to OK changes nothing when it is. -/
theorem Framed.of_ok {fs : List Frame} {c : Conn} (h : Framed fs c) :
    Framed fs { c with cbuf := { c.cbuf with disp := .ok } } := by
  have hsame : { c with cbuf := { c.cbuf with disp := .ok } } = c := by
    rw [← h.disp]
  exact hsame ▸ h

/-- `WANT_WRITE`. -/
theorem writeCase_framed {fs : List Frame} {c : Conn} (readable writeable : Bool) (h : Framed fs c)
    (hs : c.cbuf.state = .wantWrite) : Framed fs (writeCase readable writeable c) := by
  have hdisp : ∀ {c : Conn}, Framed fs c → Framed fs (if readable = true ∧
      (c.cbuf.state = .wantRead ∨ c.cbuf.state = .wantHeader) then
        { c with cbuf := { c.cbuf with disp := .ok } } else c) := by
    intro c hc
    split
    · exact hc.of_ok
    · exact hc
  cases writeable with
  | false => exact hdisp h
  | true =>
      refine hdisp ?_
      simp only [if_true]
      by_cases hr : c.cbuf.retries > maxSendpacketRetries
      · simp only [pktsocketWrite, hr, if_true]
        exact h
      · simp only [pktsocketWrite, hr, if_false]
        obtain ⟨done, rest, hfs, hdone, ha⟩ := h.split
        have hu := writeLoop_untouched c c.cbuf.wlist h.isSsl
        have hq := (writeLoop_quiescent c c.cbuf.wlist h.isSsl h.writes).2
        exact h.of_untouched hu hfs hdone
          (Aligned.of_quiescent (ha.inbound (by simp [hs])) hu hq)

/-- The end of the reading case: between two packets, with whatever is queued. -/
theorem cycleToWrite_framed {fs done rest : List Frame} {c : Conn} (hssl : c.cbuf.isSsl = false)
    (hd : c.cbuf.disp = .ok) (hr : ∀ r ∈ c.wire.reads, r.quiet = true)
    (hw : .error ∉ c.wire.writes) (hfs : fs = done ++ rest)
    (hdone : c.dispatched = done.map Frame.encode) (hs : c.cbuf.state = .wantHeader)
    (hin : c.wire.inbound = stream rest) : Framed fs (cycleToWrite c) := by
  unfold cycleToWrite
  split
  next _ => exact ⟨hssl, hd, hr, hw, done, rest, hfs, hdone, hin⟩
  next hq =>
    refine ⟨hssl, hd, hr, hw, done, rest, hfs, hdone, ?_⟩
    simp only [Aligned, hs]
    exact ⟨hin, by simpa using hq⟩

/-- What follows a read that was expecting bytes of `f`: wait for the others, or dispatch. -/
theorem dispatchPacket_framed {fs done rest : List Frame} {c₀ c : Conn} {f : Frame}
    (greeting replies : List Bytes) (ok2read : Bool) (h : Framed fs c₀) (hk : ReadKeeps c₀ c)
    (hempty : c₀.cbuf.wlist = []) (hfs : fs = done ++ f :: rest)
    (hdone : c₀.dispatched = done.map Frame.encode) (hbody : BodyRead c f rest) :
    Framed fs (cycleToWrite (dispatchPacket (Event.upcalls greeting replies ok2read) c)) := by
  have hssl : c.cbuf.isSsl = false := hk.isSsl.trans h.isSsl
  have hd : c.cbuf.disp = .ok := hk.disp.trans h.disp
  have hr : ∀ r ∈ c.wire.reads, r.quiet = true := fun r hm => h.reads r (hk.reads.subset hm)
  have hw : .error ∉ c.wire.writes := by rw [hk.writes]; exact h.writes
  have hdone' : c.dispatched = done.map Frame.encode := by
    rw [← hdone, Conn.dispatched, Conn.dispatched, hk.trace]
  rcases hbody with ⟨hs, n, hhold⟩ | ⟨hs, hdata, hin⟩
  · -- still in the middle of the frame; nothing is queued, so the state word stands
    have hsame : cycleToWrite (dispatchPacket (Event.upcalls greeting replies ok2read) c) = c := by
      simp [dispatchPacket, hs, cycleToWrite, hk.wlist, hempty]
    rw [hsame]
    refine ⟨hssl, hd, hr, hw, done, f :: rest, hfs, hdone', ?_⟩
    simp only [Aligned, hs]
    exact ⟨hk.wlist.trans hempty, f, rest, n, rfl, hhold⟩
  · set c₁ : Conn := c.report (.dispatch f.encode) with hc₁
    have hu := runActions_send_untouched replies c₁ hssl
    have hdisp : dispatchPacket (Event.upcalls greeting replies ok2read) c =
        { runActions c₁ (replies.map .send) with
          cbuf := { (runActions c₁ (replies.map .send)).cbuf with
            rbuf := none, state := .wantHeader } } := by
      simp [dispatchPacket, hs, hdata, hc₁, Event.upcalls]
    rw [hdisp]
    have hfs' : fs = (done ++ [f]) ++ rest := by simp [hfs]
    refine cycleToWrite_framed (hu.isSsl.trans hssl) (hu.disp.trans hd) ?_
      (hu.wire.error_not_mem hw) hfs' ?_ rfl (hu.wire.inbound.trans hin)
    · intro r hm
      exact hr r (hu.wire.reads ▸ hm)
    · have htrace : c₁.dispatched = done.map Frame.encode ++ [f.encode] := by
        rw [hc₁, Conn.dispatched_report_dispatch, hdone']
      simp only [List.map_append, List.map_cons, List.map_nil]
      rw [← htrace, Conn.dispatched, Conn.dispatched, hu.trace]

/-- `WANT_HEADER` and `WANT_READ`. -/
theorem readCase_framed {fs : List Frame} {c : Conn} (greeting replies : List Bytes)
    (ok2read readable : Bool) (h : Framed fs c)
    (hs : c.cbuf.state = .wantHeader ∨ c.cbuf.state = .wantRead) :
    Framed fs (readCase (Event.upcalls greeting replies ok2read) readable c) := by
  obtain ⟨done, rest, hfs, hdone, ha⟩ := h.split
  have hempty : c.cbuf.wlist = [] := by
    rcases hs with hs | hs
    · simp only [Aligned, hs] at ha
      exact ha.2
    · simp only [Aligned, hs] at ha
      exact ha.1
  unfold readCase
  by_cases hread : (readable && (Event.upcalls greeting replies ok2read).ok2read) = true
  · rw [if_pos hread]
    rcases hs with hs | hs
    · simp only [Aligned, hs] at ha
      obtain ⟨hk, ⟨hs', hin'⟩ | ⟨f, rest', rfl, hbody⟩⟩ :=
        pktsocketRead_header hs h.isSsl h.reads ha.1
      · have hnone : dispatchPacket (Event.upcalls greeting replies ok2read) (pktsocketRead c).2 =
            (pktsocketRead c).2 := by
          simp [dispatchPacket, hs']
        rw [hnone]
        refine cycleToWrite_framed (hk.isSsl.trans h.isSsl) (hk.disp.trans h.disp) ?_ ?_ hfs ?_
          hs' hin'
        · exact fun r hm => h.reads r (hk.reads.subset hm)
        · rw [hk.writes]
          exact h.writes
        · rw [← hdone, Conn.dispatched, Conn.dispatched, hk.trace]
      · exact dispatchPacket_framed greeting replies ok2read h hk hempty hfs hdone hbody
    · simp only [Aligned, hs] at ha
      obtain ⟨_, f, rest', n, rfl, hhold⟩ := ha
      have hbodyRead : pktsocketRead c = readBody c := by simp [pktsocketRead, hs]
      obtain ⟨hk, hbody⟩ := readBody_holding h.isSsl h.reads hhold
      rw [hbodyRead]
      exact dispatchPacket_framed greeting replies ok2read h hk hempty hfs hdone hbody
  · rw [if_neg hread]
    have hsame : cycleToWrite c = c := by simp [cycleToWrite, hempty]
    rw [hsame]
    exact h

/-- One iteration of the loop. -/
theorem machineBody_framed {fs : List Frame} {c : Conn} (greeting replies : List Bytes)
    (ok2read readable writeable : Bool) (h : Framed fs c) :
    match machineBody (Event.upcalls greeting replies ok2read) readable writeable c with
    | .ret c' => Framed fs c'
    | .again c' => Framed fs c' := by
  obtain ⟨_, _, _, _, ha⟩ := h.split
  cases hs : c.cbuf.state with
  | accepted =>
      simp only [machineBody, hs]
      exact greeted_framed greeting replies ok2read h hs
  | wantHeader =>
      simp only [machineBody, hs]
      exact readCase_framed greeting replies ok2read readable h (Or.inl hs)
  | wantRead =>
      simp only [machineBody, hs]
      exact readCase_framed greeting replies ok2read readable h (Or.inr hs)
  | wantWrite =>
      simp only [machineBody, hs]
      exact writeCase_framed readable writeable h hs
  | _ => simp [Aligned, hs] at ha

/-- The whole loop, by induction on the fuel. -/
theorem machineLoop_framed {fs : List Frame} {c c' : Conn} (greeting replies : List Bytes)
    (ok2read readable writeable : Bool) {fuel : Nat} (h : Framed fs c)
    (hrun : machineLoop (Event.upcalls greeting replies ok2read) readable writeable fuel c =
      some c') : Framed fs c' := by
  induction fuel generalizing c with
  | zero =>
      rw [machineLoop_zero h.disp] at hrun
      cases hrun
  | succ fuel ih =>
      have hbody := machineBody_framed greeting replies ok2read readable writeable h
      cases hb : machineBody (Event.upcalls greeting replies ok2read) readable writeable c with
      | ret c₁ =>
          rw [hb] at hbody
          rw [machineLoop_ret h.disp hb] at hrun
          exact Option.some.inj hrun ▸ hbody
      | again c₁ =>
          rw [hb] at hbody
          rw [machineLoop_again h.disp hb] at hrun
          exact ih hbody hrun

/-- Any event that meets its condition. -/
theorem Event.result_framed {fs : List Frame} {c c' : Conn} (e : Event) (h : Framed fs c)
    (hstep : e.inStep c = true) (hres : e.Result c c') : Framed fs c' := by
  cases e with
  | send pkt =>
      rw [Event.Result] at hres
      rw [hres]
      exact pktservSend_framed pkt h hstep
  | poll greeting replies ok2read pollin pollout =>
      obtain ⟨fuel, hrun⟩ := hres
      simp only [pollfdStateMachine, PollBits.exception, Bool.or_self, Bool.false_eq_true,
        if_false] at hrun
      refine machineLoop_framed greeting replies ok2read pollin pollout ?_ hrun
      split
      · exact h.of_ok
      · exact h

/-! ## §7 — whole runs -/

theorem Run.framed {fs : List Frame} {es : List Event} {c : Conn}
    (h : Run (fun e c => e.inStep c = true) fs es c) : Framed fs c := by
  induction h with
  | accept fd w hin hr hw =>
      exact ⟨rfl, rfl, hr, hw, [], fs, rfl, rfl, hin, rfl, rfl, rfl⟩
  | event e _ hstep hres ih => exact e.result_framed ih hstep hres

/-- The part of a packet that has been read and not dispatched. -/
def Conn.pending (c : Conn) : Bytes :=
  if c.cbuf.state = .wantRead then (c.cbuf.rbuf.getD {}).data else []

theorem Aligned.pending_append {c : Conn} {rest : List Frame} (ha : Aligned c rest) :
    c.pending ++ c.wire.inbound = stream rest := by
  by_cases hs : c.cbuf.state = .wantRead
  · simp only [Aligned, hs] at ha
    obtain ⟨_, f, fs, n, rfl, hhold⟩ := ha
    simp only [Conn.pending, hs, if_true, hhold.rbuf, hhold.inbound, Option.getD_some,
      stream_cons, ← List.append_assoc, List.take_append_drop]
  · simp only [Conn.pending, hs, if_false, List.nil_append]
    exact ha.inbound hs

/-- A partly read packet has bytes still to come. -/
theorem Aligned.rest_of_inbound {c : Conn} {rest : List Frame} (ha : Aligned c rest)
    (hin : c.wire.inbound = []) : rest = [] := by
  by_cases hs : c.cbuf.state = .wantRead
  · simp only [Aligned, hs] at ha
    obtain ⟨_, f, fs, n, rfl, hhold⟩ := ha
    have hlen := congrArg List.length (hhold.inbound.symm.trans hin)
    simp only [List.length_append, List.length_drop, List.length_nil] at hlen
    have := hhold.part
    omega
  · exact stream_eq_nil ((ha.inbound hs).symm.trans hin)

/-- **Inbound framing.** In every run whose events meet their condition, at every point: the packets
dispatched are the first frames of the stream; what has been read of the next frame continues with
exactly the bytes still on the wire; once the wire is empty every frame has been dispatched; and
the next event that meets its condition has a result. -/
theorem run_inbound_framing {fs : List Frame} {es : List Event} {c : Conn}
    (h : Run (fun e c => e.inStep c = true) fs es c) :
    (∃ rest, fs.map Frame.encode = c.dispatched ++ rest.map Frame.encode ∧
      c.pending ++ c.wire.inbound = stream rest) ∧
    (c.wire.inbound = [] → c.dispatched = fs.map Frame.encode) ∧
    ∀ e : Event, e.inStep c = true → ∃ c', e.Result c c' := by
  have hf := h.framed
  obtain ⟨done, rest, hfs, hdone, ha⟩ := hf.split
  refine ⟨⟨rest, ?_, ha.pending_append⟩, ?_, ?_⟩
  · rw [hfs, List.map_append, hdone]
  · intro hin
    rw [hfs, ha.rest_of_inbound hin, List.append_nil, hdone]
  · intro e hstep
    cases e with
    | send pkt => exact ⟨_, rfl⟩
    | poll greeting replies ok2read pollin pollout =>
        obtain ⟨fuel, hsome⟩ := (pollfdStateMachine_returns_iff _ _ _ hf.isSsl).mpr hstep
        obtain ⟨c', hc'⟩ := Option.isSome_iff_exists.mp hsome
        exact ⟨c', fuel, hc'⟩

/-! ### A send in the middle of a packet -/

/-- One frame of three bytes. -/
def splitFrame : Frame := { body := [9, 1, 7], nonempty := by decide, fits := by decide }

/-- A client that sends `splitFrame`; the first two reads hand over the length byte and one byte of
the contents, and every write is taken whole. -/
def splitStart : Conn :=
  { cbuf := Cbuf.fresh 5 false
    wire := { inbound := splitFrame.encode, reads := [.data 0, .data 0, .data 0, .data 0],
              writes := [.wrote 255] } }

/-- `splitStart` after the first poll. -/
def splitHeld : Conn :=
  (pollfdStateMachine (Event.upcalls [] [] true) { pollin := true } 2 splitStart).getD splitStart

/-- `splitHeld` after the send. -/
def splitSent : Conn := (pktservSend splitHeld [1, 65]).2

/-- `splitSent` after the second poll. -/
def splitEnd : Conn :=
  (pollfdStateMachine (Event.upcalls [] [] true) { pollin := true } 2 splitSent).getD splitSent

/-- The length byte is read, the send forgets it, and two bytes from the middle of the frame are
dispatched as a packet of their own. -/
theorem send_mid_packet_misframes :
    ¬ ∀ (fs : List Frame) (es : List Event) (c : Conn), Run (fun _ _ => True) fs es c →
        ∃ rest : List Frame, fs.map Frame.encode = c.dispatched ++ rest.map Frame.encode := by
  intro h
  have h₀ : Run (fun _ _ => True) [splitFrame] [] splitStart :=
    Run.accept 5 _ rfl (by decide) (by decide)
  have h₁ : Run _ _ _ splitHeld :=
    Run.event (.poll [] [] true true false) h₀ trivial ⟨2, by decide⟩
  have h₂ : Run _ _ _ splitSent := Run.event (.send [1, 65]) h₁ trivial rfl
  have h₃ : Run _ _ _ splitEnd :=
    Run.event (.poll [] [] true true false) h₂ trivial ⟨2, by decide⟩
  obtain ⟨rest, hrest⟩ := h _ _ _ h₃
  have hd : splitEnd.dispatched = [[1, 7]] := by decide
  rw [hd] at hrest
  simp [splitFrame, Frame.encode] at hrest

/-- The same stream without the send in between: the frame is dispatched whole. -/
theorem run_inbound_framing_split :
    ∃ c, Run (fun e c => e.inStep c = true) [splitFrame]
        ([] ++ [.poll [] [] true true false] ++ [.poll [] [] true true false]) c ∧
      c.wire.inbound = [] ∧ c.dispatched = [[3, 9, 1, 7]] := by
  have h₀ : Run (fun e c => e.inStep c = true) [splitFrame] []
      { splitStart with wire := { splitStart.wire with reads := [.data 0, .data 0, .data 1] } } :=
    Run.accept 5 _ rfl (by decide) (by decide)
  have h₁ : Run _ _ _ { splitHeld with wire := { splitHeld.wire with reads := [.data 1] } } :=
    Run.event (.poll [] [] true true false) h₀ (by decide) ⟨2, by decide⟩
  have h₂ : Run _ _ _ ((pollfdStateMachine (Event.upcalls [] [] true) { pollin := true } 2
      { splitHeld with wire := { splitHeld.wire with reads := [.data 1] } }).getD splitHeld) :=
    Run.event (.poll [] [] true true false) h₁ (by decide) ⟨2, by decide⟩
  exact ⟨_, h₂, by decide, (run_inbound_framing h₂).2.1 (by decide)⟩

end Icbd.Pkt
