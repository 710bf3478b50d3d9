/-
# Icbd.Pkt.Steps — one connection, step by step.

`pollfd_state_machine` as a transition system. A step is what happens between two points where the
server's own code can run: the packet layer calls `new_client`, `dispatch` or `lost_client`, and
while one of them runs, or between two polls, the server may call `pktserv_send` and
`pktserv_disconnect` on this connection any number of times. `pollfdStateMachine_path` connects the
two levels: a call of the state machine that returns is a path of steps.
-/
import Icbd.Lib.Path
import Icbd.Pkt.Inbound

namespace Icbd.Pkt

open Icbd.Lib

/-! ## §1 — the transition system -/

/-- Where the server stands with this connection. -/
inductive Control
  /-- outside `pollfd_state_machine` -/
  | waiting
  /-- at the head of its loop -/
  | running (readable writeable : Bool)
  /-- in the `new_client` callback -/
  | greeting (readable writeable : Bool)
  /-- in the `dispatch` callback -/
  | dispatching
  /-- in the `lost_client` callback: called from the loop, or (`none`) on an exceptional bit -/
  | losing (back : Option (Bool × Bool))
  deriving DecidableEq, Repr

/-- The points at which the server's own code runs. -/
def Control.serves : Control → Bool
  | .running _ _ => false
  | _ => true

/-- After `handle_disconnect`: back to the loop, or out of the call. -/
def Control.resumed : Option (Bool × Bool) → Control
  | none => .waiting
  | some (readable, writeable) => .running readable writeable

/-- A connection and where the server stands with it. -/
structure Proc where
  conn : Conn
  ctl : Control
  deriving DecidableEq, Repr

/-- What a step is: a result of `poll` for this descriptor, a call of the server, something on the
network, `handle_disconnect`, or another step of the state machine. -/
inductive Label
  | poll (b : PollBits)
  | call (a : Action)
  | network (inbound : Bytes) (reads : List ReadResult) (writes : List WriteResult)
  | freed
  | internal
  deriving DecidableEq, Repr

/-- The end of the dispatch: the buffer is freed and the next thing expected is a header. -/
def Conn.afterDispatch (c : Conn) : Conn :=
  cycleToWrite { c with cbuf := { c.cbuf with rbuf := none, state := .wantHeader } }

/-- A complete packet handed to the `dispatch` callback. -/
def Conn.handOver (c : Conn) : Conn := c.report (.dispatch (c.cbuf.rbuf.getD {}).data)

/-- The steps of a plaintext connection. -/
inductive Moves : Label → Proc → Proc → Prop
  | network {c : Conn} {k : Control} (inbound : Bytes) (reads : List ReadResult)
      (writes : List WriteResult) :
      Moves (.network inbound reads writes) ⟨c, k⟩
        ⟨{ c with wire := { c.wire with inbound := inbound, reads := reads, writes := writes } }, k⟩
  | call {c : Conn} {k : Control} (a : Action) : k.serves = true →
      Moves (.call a) ⟨c, k⟩ ⟨a.run c, k⟩
  -- a closed descriptor has left the poll set; only leftovers of the same round, which have no
  -- exceptional bit, still reach the state machine
  | except {c : Conn} (b : PollBits) : b.exception = true → c.cbuf.state ≠ .disconnected →
      Moves (.poll b) ⟨c, .waiting⟩ ⟨c.report .lostClient, .losing none⟩
  | poll {c : Conn} (b : PollBits) : b.exception = false →
      Moves (.poll b) ⟨c, .waiting⟩ ⟨c.polled b, .running b.pollin b.pollout⟩
  | rest {c : Conn} {r w : Bool} : c.cbuf.disp ≠ .ok →
      Moves .internal ⟨c, .running r w⟩ ⟨c, .waiting⟩
  | greet {c : Conn} {r w : Bool} : c.cbuf.disp = .ok → c.cbuf.state = .accepted →
      Moves .internal ⟨c, .running r w⟩
        ⟨(c.setState .wantHeader).report .newClient, .greeting r w⟩
  | greeted {c : Conn} {r w : Bool} :
      Moves .internal ⟨c, .greeting r w⟩ ⟨c, .running r w⟩
  | write {c : Conn} {r w : Bool} : c.cbuf.disp = .ok → c.cbuf.state = .wantWrite →
      Moves .internal ⟨c, .running r w⟩ ⟨writeCase r w c, .running r w⟩
  | packet {c : Conn} {w : Bool} : c.cbuf.disp = .ok →
      (c.cbuf.state = .wantHeader ∨ c.cbuf.state = .wantRead) →
      (pktsocketRead c).2.cbuf.state = .completePacket →
      Moves .internal ⟨c, .running true w⟩ ⟨(pktsocketRead c).2.handOver, .dispatching⟩
  | fragment {c : Conn} {w : Bool} : c.cbuf.disp = .ok →
      (c.cbuf.state = .wantHeader ∨ c.cbuf.state = .wantRead) →
      (pktsocketRead c).2.cbuf.state ≠ .completePacket →
      Moves .internal ⟨c, .running true w⟩ ⟨cycleToWrite (pktsocketRead c).2, .waiting⟩
  -- not readable, or `ok2read` says no
  | skip {c : Conn} {r w : Bool} : c.cbuf.disp = .ok →
      (c.cbuf.state = .wantHeader ∨ c.cbuf.state = .wantRead) →
      Moves .internal ⟨c, .running r w⟩ ⟨cycleToWrite c, .waiting⟩
  | dispatched {c : Conn} :
      Moves .internal ⟨c, .dispatching⟩ ⟨c.afterDispatch, .waiting⟩
  | lose {c : Conn} {r w : Bool} : c.cbuf.disp = .ok → c.cbuf.state = .wantDisconnect →
      Moves .internal ⟨c, .running r w⟩ ⟨c.report .lostClient, .losing (some (r, w))⟩
  | lost {c : Conn} {back : Option (Bool × Bool)} :
      Moves .freed ⟨c, .losing back⟩ ⟨handleDisconnect c, .resumed back⟩
  | close {c : Conn} {r w : Bool} : c.cbuf.disp = .ok → c.cbuf.state = .wantRawDisconnect →
      Moves .internal ⟨c, .running r w⟩ ⟨handleRawDisconnect c, .running r w⟩
  | gone {c : Conn} {r w : Bool} : c.cbuf.disp = .ok → c.cbuf.state = .disconnected →
      Moves .internal ⟨c, .running r w⟩
        ⟨{ c with cbuf := { c.cbuf with disp := .blocked } }, .running r w⟩

/-- A connection that has just been accepted on the plaintext port. -/
def Proc.accepted (fd : Nat) (w : Wire) : Proc :=
  ⟨{ cbuf := Cbuf.fresh fd false, wire := w }, .waiting⟩

/-! ## §2 — what reading and sending leave alone -/

/-- What reading leaves alone, whatever `read` answers: the writing side and what was reported. -/
structure ReadOnly (c c' : Conn) : Prop where
  isSsl : c'.cbuf.isSsl = c.cbuf.isSsl
  disp : c'.cbuf.disp = c.cbuf.disp
  wlist : c'.cbuf.wlist = c.cbuf.wlist
  wlistSize : c'.cbuf.wlistSize = c.cbuf.wlistSize
  retries : c'.cbuf.retries = c.cbuf.retries
  trace : c'.trace = c.trace
  outbound : c'.wire.outbound = c.wire.outbound

theorem ReadOnly.refl (c : Conn) : ReadOnly c c := ⟨rfl, rfl, rfl, rfl, rfl, rfl, rfl⟩

theorem ReadOnly.trans {c c' c'' : Conn} (h : ReadOnly c c') (h' : ReadOnly c' c'') :
    ReadOnly c c'' :=
  ⟨h'.isSsl.trans h.isSsl, h'.disp.trans h.disp, h'.wlist.trans h.wlist,
    h'.wlistSize.trans h.wlistSize, h'.retries.trans h.retries, h'.trace.trans h.trace,
    h'.outbound.trans h.outbound⟩

theorem Wire.read_outbound (w : Wire) (n : Nat) : (w.read n).2.outbound = w.outbound := by
  unfold Wire.read
  split
  · rfl
  · rfl
  · rfl
  · rfl
  · split <;> rfl

theorem sockRead_readOnly {c : Conn} (hssl : c.cbuf.isSsl = false) (n : Nat) :
    ReadOnly c (sockRead c n).2 := by
  rw [sockRead_plain hssl]
  exact ⟨rfl, rfl, rfl, rfl, rfl, rfl, Wire.read_outbound c.wire n⟩

/-- **The body part of a read** ends in the middle of the packet, at its end, or in a lost
connection. -/
theorem readBody_readOnly {c : Conn} (hssl : c.cbuf.isSsl = false) :
    ReadOnly c (readBody c).2 ∧
      ((readBody c).2.cbuf.state = .wantRead ∨ (readBody c).2.cbuf.state = .completePacket ∨
        (readBody c).2.cbuf.state = .wantDisconnect) := by
  set n := (c.cbuf.rbuf.getD {}).len - (c.cbuf.rbuf.getD {}).pos with hn
  have hkeep := sockRead_readOnly hssl n
  rcases hread : sockRead c n with ⟨out, c₁⟩
  rw [hread] at hkeep
  have hssl₁ : c₁.cbuf.isSsl = false := hkeep.isSsl.trans hssl
  cases out with
  | wouldBlock =>
      have hb : readBody c = (0, c₁.setState .wantRead) := by
        simp only [readBody, ← hn, hread]
      rw [hb]
      exact ⟨hkeep.trans ⟨rfl, rfl, rfl, rfl, rfl, rfl, rfl⟩, Or.inl rfl⟩
  | error =>
      have hb : readBody c = (-1, c₁.setState .wantDisconnect) := by
        simp only [readBody, ← hn, hread]
      rw [hb]
      exact ⟨hkeep.trans ⟨rfl, rfl, rfl, rfl, rfl, rfl, rfl⟩, Or.inr (Or.inr rfl)⟩
  | bytes b =>
      by_cases hb : b = []
      · have hbody : readBody c = (-1, c₁.setState .wantDisconnect) := by
          simp only [readBody, ← hn, hread, hb, if_true, hssl₁, Bool.false_eq_true, if_false]
        rw [hbody]
        exact ⟨hkeep.trans ⟨rfl, rfl, rfl, rfl, rfl, rfl, rfl⟩, Or.inr (Or.inr rfl)⟩
      · simp only [readBody, ← hn, hread, hb, if_false]
        split
        · exact ⟨hkeep.trans ⟨rfl, rfl, rfl, rfl, rfl, rfl, rfl⟩, Or.inr (Or.inl rfl)⟩
        · exact ⟨hkeep.trans ⟨rfl, rfl, rfl, rfl, rfl, rfl, rfl⟩, Or.inl rfl⟩

/-- The header part: the answer is final unless a length byte came. -/
theorem readHeader_readOnly {c : Conn} (hssl : c.cbuf.isSsl = false) :
    ReadOnly c (readHeader c).2 ∧
      ((readHeader c).1 = none ∨ (readHeader c).2.cbuf.state = c.cbuf.state ∨
        (readHeader c).2.cbuf.state = .wantDisconnect) := by
  have hkeep : ReadOnly c (sockRead (c.setRbuf {}) packetHeaderLen).2 :=
    (⟨rfl, rfl, rfl, rfl, rfl, rfl, rfl⟩ : ReadOnly c (c.setRbuf {})).trans
      (sockRead_readOnly (c := c.setRbuf {}) hssl packetHeaderLen)
  have hstate : (sockRead (c.setRbuf {}) packetHeaderLen).2.cbuf.state = c.cbuf.state := by
    rw [sockRead_plain (c := c.setRbuf {}) hssl]
    rfl
  rcases hread : sockRead (c.setRbuf {}) packetHeaderLen with ⟨out, c₁⟩
  rw [hread] at hkeep hstate
  have hssl₁ : c₁.cbuf.isSsl = false := hkeep.isSsl.trans hssl
  simp only [readHeader, hread]
  cases out with
  | wouldBlock => exact ⟨hkeep, Or.inr (Or.inl hstate)⟩
  | error => exact ⟨hkeep.trans ⟨rfl, rfl, rfl, rfl, rfl, rfl, rfl⟩, Or.inr (Or.inr rfl)⟩
  | bytes b =>
      cases b with
      | nil =>
          simp only [hssl₁, Bool.false_eq_true, if_false]
          exact ⟨hkeep.trans ⟨rfl, rfl, rfl, rfl, rfl, rfl, rfl⟩, Or.inr (Or.inr rfl)⟩
      | cons h t =>
          dsimp only
          split
          · exact ⟨hkeep.trans ⟨rfl, rfl, rfl, rfl, rfl, rfl, rfl⟩, Or.inr (Or.inr rfl)⟩
          · exact ⟨hkeep.trans ⟨rfl, rfl, rfl, rfl, rfl, rfl, rfl⟩, Or.inl rfl⟩

/-- **One call of `pktsocket_read`**, at the head of a packet or in the middle of one. -/
theorem pktsocketRead_readOnly {c : Conn} (hssl : c.cbuf.isSsl = false) :
    ReadOnly c (pktsocketRead c).2 ∧
      ((pktsocketRead c).2.cbuf.state = c.cbuf.state ∨
        (pktsocketRead c).2.cbuf.state = .wantRead ∨
        (pktsocketRead c).2.cbuf.state = .completePacket ∨
        (pktsocketRead c).2.cbuf.state = .wantDisconnect) := by
  by_cases hs : c.cbuf.state = .wantHeader
  · obtain ⟨hkeep, hst⟩ := readHeader_readOnly hssl
    rcases hh : readHeader c with ⟨res, c₁⟩
    rw [hh] at hkeep hst
    simp only [pktsocketRead, if_pos hs, hh]
    cases res with
    | some r =>
        rcases hst with hst | hst | hst
        · cases hst
        · exact ⟨hkeep, Or.inl hst⟩
        · exact ⟨hkeep, Or.inr (Or.inr (Or.inr hst))⟩
    | none =>
        obtain ⟨hbody, hst'⟩ := readBody_readOnly (hkeep.isSsl.trans hssl)
        exact ⟨hkeep.trans hbody, Or.inr hst'⟩
  · obtain ⟨hbody, hst⟩ := readBody_readOnly hssl
    simp only [pktsocketRead, if_neg hs]
    exact ⟨hbody, Or.inr hst⟩

/-- The states a pass of the write loop ends in. -/
theorem writeLoop_state (c : Conn) (q : List MsgBuf) (hssl : c.cbuf.isSsl = false) :
    (writeLoop c q).2.cbuf.state.afterCallback = true := by
  induction q generalizing c with
  | nil => rfl
  | cons m ms ih =>
      obtain ⟨w, _, ⟨m', h⟩ | ⟨_, h⟩ | h⟩ := writeLoop_step c m ms hssl
      · rw [h]; rfl
      · rw [h]; rfl
      · rw [h]
        exact ih _ hssl

/-- **The states a send ends in**: the one it started from, if it is refused because the connection
is going down, else one of the three of `afterCallback`. -/
theorem pktservSend_state (c : Conn) (pkt : Bytes) (hssl : c.cbuf.isSsl = false) :
    ((c.cbuf.state = .wantDisconnect ∨ c.cbuf.state = .wantRawDisconnect) ∧
        (pktservSend c pkt).2 = c) ∨
      (pktservSend c pkt).2.cbuf.state.afterCallback = true := by
  rcases pktservSend_cases c pkt with ⟨hs, h⟩ | ⟨_, h⟩ | ⟨_, _, h⟩ | ⟨_, _, h⟩
  · exact Or.inl ⟨hs, h⟩
  · right; rw [h]; rfl
  · right; rw [h]; rfl
  · right
    rw [h]
    dsimp only
    split
    · rfl
    · exact writeLoop_state _ _ hssl

/-! ## §3 — plaintext connections stay plaintext -/

/-- The state words of a plaintext connection at the head of the loop and between two polls. -/
def SocketState.plain : SocketState → Bool
  | .accepted | .wantHeader | .wantRead | .wantWrite => true
  | .wantDisconnect | .wantRawDisconnect | .disconnected => true
  | _ => false

theorem SocketState.plain_of_afterCallback {s : SocketState} (h : s.afterCallback = true) :
    s.plain = true := by
  cases s with
  | wantHeader | wantWrite | wantDisconnect => rfl
  | _ => cases h

theorem SocketState.plain_of_closing {s : SocketState} (h : s.closing = true) :
    s.plain = true := by
  cases s with
  | wantDisconnect | wantRawDisconnect | disconnected => rfl
  | _ => cases h

/-- A plaintext connection. `COMPLETE_PACKET` is seen only by the `dispatch` callback. -/
structure Plaintext (p : Proc) : Prop where
  isSsl : p.conn.cbuf.isSsl = false
  state : p.conn.cbuf.state.plain = true ∨
    (p.ctl = .dispatching ∧ p.conn.cbuf.state = .completePacket)

theorem cycleToWrite_plain {c : Conn} (h : c.cbuf.state.plain = true) :
    (cycleToWrite c).cbuf.state.plain = true := by
  unfold cycleToWrite
  split
  · rfl
  · exact h

@[simp] theorem cycleToWrite_isSsl (c : Conn) :
    (cycleToWrite c).cbuf.isSsl = c.cbuf.isSsl := by
  unfold cycleToWrite
  split <;> rfl

@[simp] theorem cycleToWrite_trace (c : Conn) : (cycleToWrite c).trace = c.trace := by
  unfold cycleToWrite
  split <;> rfl

/-- A result of `poll` touches the disposition only. -/
theorem Conn.polled_disp (c : Conn) (b : PollBits) :
    ∃ d, c.polled b = { c with cbuf := { c.cbuf with disp := d } } := by
  unfold Conn.polled
  split
  · exact ⟨.ok, rfl⟩
  · exact ⟨c.cbuf.disp, rfl⟩

/-- The `WANT_WRITE` case is a pass of the write loop, or nothing; what follows it touches the
disposition only. -/
theorem writeCase_cases (r w : Bool) {c : Conn} (hs : c.cbuf.state = .wantWrite) :
    writeCase r w c = c ∨
      ∃ d, writeCase r w c = { (writeLoop c c.cbuf.wlist).2 with
        cbuf := { (writeLoop c c.cbuf.wlist).2.cbuf with disp := d } } := by
  have hdone : ∀ c₁ : Conn, ∃ d, (if r = true ∧
      (c₁.cbuf.state = .wantRead ∨ c₁.cbuf.state = .wantHeader) then
        { c₁ with cbuf := { c₁.cbuf with disp := .ok } } else c₁) =
      { c₁ with cbuf := { c₁.cbuf with disp := d } } := by
    intro c₁
    split
    · exact ⟨.ok, rfl⟩
    · exact ⟨c₁.cbuf.disp, rfl⟩
  cases w with
  | false =>
      left
      simp [writeCase, hs]
  | true =>
      by_cases hr : c.cbuf.retries > maxSendpacketRetries
      · left
        simp [writeCase, pktsocketWrite, hr, hs]
      · right
        have hp : pktsocketWrite c = writeLoop c c.cbuf.wlist := if_neg hr
        simp only [writeCase, if_true, hp]
        exact hdone _

/-- **Every step keeps a plaintext connection one.** -/
theorem Moves.plaintext {l : Label} {p p' : Proc} (h : Moves l p p') (hp : Plaintext p) :
    Plaintext p' := by
  obtain ⟨hssl, hst⟩ := hp
  cases h with
  | network => exact ⟨hssl, hst⟩
  | @call c _ a _ =>
      cases a with
      | disconnect => exact ⟨hssl, Or.inl rfl⟩
      | send pkt =>
          refine ⟨(pktservSend_untouched _ pkt hssl).isSsl.trans hssl, ?_⟩
          rcases pktservSend_state _ pkt hssl with ⟨_, hsame⟩ | hcb
          · have hrun : Action.run c (.send pkt) = c := hsame
            rw [hrun]
            exact hst
          · exact Or.inl (SocketState.plain_of_afterCallback hcb)
  | except b _ _ =>
      refine ⟨hssl, ?_⟩
      rcases hst with hst | ⟨hk, _⟩
      · exact Or.inl hst
      · cases hk
  | poll b _ =>
      rcases hst with hst | ⟨hk, _⟩
      · obtain ⟨d, hd⟩ := Conn.polled_disp _ b
        rw [hd]
        exact ⟨hssl, Or.inl hst⟩
      · cases hk
  | rest _ | greeted =>
      rcases hst with hst | ⟨hk, _⟩
      · exact ⟨hssl, Or.inl hst⟩
      · cases hk
  | greet _ _ => exact ⟨hssl, Or.inl rfl⟩
  | @write _ r w _ hs =>
      rcases writeCase_cases r w hs with hsame | ⟨d, hpass⟩
      · rw [hsame]
        exact ⟨hssl, Or.inl (by rw [hs]; rfl)⟩
      · rw [hpass]
        exact ⟨(writeLoop_untouched _ _ hssl).isSsl.trans hssl,
          Or.inl (SocketState.plain_of_afterCallback (writeLoop_state _ _ hssl))⟩
  | packet _ _ hdone =>
      exact ⟨(pktsocketRead_readOnly hssl).1.isSsl.trans hssl, Or.inr ⟨rfl, hdone⟩⟩
  | fragment _ hs hpart =>
      obtain ⟨hkeep, hst'⟩ := pktsocketRead_readOnly hssl
      refine ⟨(cycleToWrite_isSsl _).trans (hkeep.isSsl.trans hssl), Or.inl (cycleToWrite_plain ?_)⟩
      rcases hst' with h | h | h | h
      · rw [h]
        rcases hs with h' | h' <;> rw [h'] <;> rfl
      · rw [h]; rfl
      · exact absurd h hpart
      · rw [h]; rfl
  | skip _ hs =>
      refine ⟨(cycleToWrite_isSsl _).trans hssl, Or.inl (cycleToWrite_plain ?_)⟩
      rcases hs with h' | h' <;> rw [h'] <;> rfl
  | dispatched =>
      exact ⟨(cycleToWrite_isSsl _).trans hssl, Or.inl (cycleToWrite_plain rfl)⟩
  | lose _ hs => exact ⟨hssl, Or.inl (SocketState.plain_of_closing (by rw [Conn.report_cbuf, hs]; rfl))⟩
  | lost | close _ _ => exact ⟨hssl, Or.inl rfl⟩
  | gone _ hs => exact ⟨hssl, Or.inl (SocketState.plain_of_closing (by rw [hs]; rfl))⟩

theorem Proc.accepted_plaintext (fd : Nat) (w : Wire) : Plaintext (Proc.accepted fd w) :=
  ⟨rfl, Or.inl rfl⟩

/-! ## §4 — a call of the state machine is a path -/

/-- The calls of a callback, one step each. -/
theorem runActions_path (as : List Action) (c : Conn) {k : Control} (hk : k.serves = true) :
    Path Moves ⟨c, k⟩ (as.map .call) ⟨runActions c as, k⟩ := by
  induction as generalizing c with
  | nil => exact Path.nil
  | cons a as ih => exact Path.cons (Moves.call a hk) (ih (a.run c))

/-- **One iteration** of the loop that goes on, or the last one: a path to the head of the loop or
out of it. -/
theorem machineBody_path (u : Upcalls) (r w : Bool) {c : Conn} (hp : Plaintext ⟨c, .running r w⟩)
    (hd : c.cbuf.disp = .ok) :
    match machineBody u r w c with
    | .ret c' => ∃ ls, Path Moves ⟨c, .running r w⟩ ls ⟨c', .waiting⟩
    | .again c' => ∃ ls, Path Moves ⟨c, .running r w⟩ ls ⟨c', .running r w⟩ := by
  have hread : c.cbuf.state = .wantHeader ∨ c.cbuf.state = .wantRead →
      ∃ ls, Path Moves ⟨c, .running r w⟩ ls ⟨readCase u r c, .waiting⟩ := by
    intro hs
    unfold readCase
    by_cases hok : (r && u.ok2read) = true
    · obtain ⟨rfl, -⟩ : r = true ∧ u.ok2read = true := by simpa using hok
      rw [if_pos hok]
      by_cases hdone : (pktsocketRead c).2.cbuf.state = .completePacket
      · -- through the `dispatch` callback
        rw [dispatchPacket, if_pos hdone]
        exact ⟨_, ((Path.single (Moves.packet hd hs hdone)).trans
          (runActions_path u.dispatch _ rfl)).trans (Path.single Moves.dispatched)⟩
      · rw [dispatchPacket, if_neg hdone]
        exact ⟨_, Path.single (Moves.fragment hd hs hdone)⟩
    · rw [if_neg hok]
      exact ⟨_, Path.single (Moves.skip hd hs)⟩
  rcases hp.state with hst | ⟨hk, _⟩
  swap
  · cases hk
  change c.cbuf.state.plain = true at hst
  cases hs : c.cbuf.state with
  | accepted =>
      simp only [machineBody, hs]
      exact ⟨_, ((Path.single (Moves.greet hd hs)).trans
        (runActions_path u.newClient _ rfl)).trans (Path.single Moves.greeted)⟩
  | wantHeader =>
      simp only [machineBody, hs]
      exact hread (Or.inl hs)
  | wantRead =>
      simp only [machineBody, hs]
      exact hread (Or.inr hs)
  | wantWrite =>
      simp only [machineBody, hs]
      exact ⟨_, Path.single (Moves.write hd hs)⟩
  | wantDisconnect =>
      simp only [machineBody, hs]
      exact ⟨_, ((Path.single (Moves.lose hd hs)).trans
        (runActions_path u.lostClient _ rfl)).trans (Path.single Moves.lost)⟩
  | wantRawDisconnect =>
      simp only [machineBody, hs]
      exact ⟨_, Path.single (Moves.close hd hs)⟩
  | disconnected =>
      have hgone := Path.single (Moves.gone (r := r) (w := w) hd hs)
      simp only [hs] at hgone
      simp only [machineBody, hs]
      exact ⟨_, hgone⟩
  | _ =>
      rw [hs] at hst
      cases hst

theorem plaintext_of_path {p p' : Proc} {ls : List Label} (h : Path Moves p ls p')
    (hp : Plaintext p) : Plaintext p' :=
  h.invariant hp fun _ _ _ ht hstep => hstep.plaintext ht

/-- The loop that returns, by induction on its fuel. -/
theorem machineLoop_path (u : Upcalls) (r w : Bool) {fuel : Nat} {c c' : Conn}
    (hp : Plaintext ⟨c, .running r w⟩) (hrun : machineLoop u r w fuel c = some c') :
    ∃ ls, Path Moves ⟨c, .running r w⟩ ls ⟨c', .waiting⟩ := by
  induction fuel generalizing c with
  | zero =>
      by_cases hd : c.cbuf.disp = .ok
      · rw [machineLoop_zero hd] at hrun
        cases hrun
      · rw [machineLoop_not_ok hd] at hrun
        cases hrun
        exact ⟨_, Path.single (Moves.rest hd)⟩
  | succ fuel ih =>
      by_cases hd : c.cbuf.disp = .ok
      · have hbody := machineBody_path u r w hp hd
        cases hb : machineBody u r w c with
        | ret c₁ =>
            rw [hb] at hbody
            rw [machineLoop_ret hd hb] at hrun
            cases hrun
            exact hbody
        | again c₁ =>
            rw [hb] at hbody
            rw [machineLoop_again hd hb] at hrun
            obtain ⟨ls, hpath⟩ := hbody
            obtain ⟨ls', hpath'⟩ := ih (plaintext_of_path hpath hp) hrun
            exact ⟨_, hpath.trans hpath'⟩
      · rw [machineLoop_not_ok hd] at hrun
        cases hrun
        exact ⟨_, Path.single (Moves.rest hd)⟩

/-- **The two levels.** A call of `pollfd_state_machine` on a plaintext connection that returns is a
path of steps that begins with the result of `poll`. -/
theorem pollfdStateMachine_path (u : Upcalls) (b : PollBits) {fuel : Nat} {c c' : Conn}
    (hp : Plaintext ⟨c, .waiting⟩) (hopen : b.exception = true → c.cbuf.state ≠ .disconnected)
    (hrun : pollfdStateMachine u b fuel c = some c') :
    ∃ ls, Path Moves ⟨c, .waiting⟩ (.poll b :: ls) ⟨c', .waiting⟩ := by
  unfold pollfdStateMachine at hrun
  by_cases he : b.exception = true
  · have hlisten : c.cbuf.state ≠ .listenSocket ∧ c.cbuf.state ≠ .listenSocketSsl := by
      rcases hp.state with hst | ⟨hk, _⟩
      · constructor <;> intro h <;> rw [h] at hst <;> cases hst
      · cases hk
    rw [if_pos he] at hrun
    simp only [if_pos hlisten, Option.some.injEq] at hrun
    rw [← hrun]
    set c₁ : Conn := runActions (c.report .lostClient) u.lostClient with hc₁
    have hback : Path Moves ⟨c₁, .losing none⟩ [.freed] ⟨handleDisconnect c₁, .waiting⟩ :=
      Path.single Moves.lost
    exact ⟨_, Path.cons (Moves.except b he (hopen he))
      ((runActions_path u.lostClient _ rfl).trans hback)⟩
  · have he' : b.exception = false := by simpa using he
    rw [if_neg he] at hrun
    have hstep : Moves (.poll b) ⟨c, .waiting⟩ ⟨c.polled b, .running b.pollin b.pollout⟩ :=
      Moves.poll b he'
    obtain ⟨ls, hpath⟩ := machineLoop_path u b.pollin b.pollout (hstep.plaintext hp) hrun
    exact ⟨ls, Path.cons hstep hpath⟩

end Icbd.Pkt
