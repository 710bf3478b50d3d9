/-
# Icbd.Pkt.Serv — the event loop's state machine for one descriptor.

`pollfd_state_machine`, `pktserv_send` and `pktserv_disconnect` of `pktserv.c`. The callbacks into
the server are an `Upcalls` record: what each of them does to this connection, as a list of calls
back into the packet layer. The loop `while (cbuf->disp == OK)` has no counter in the source, so it
runs on fuel here, and "the call returns" is "some fuel is enough".
-/
import Icbd.Pkt.Socket

namespace Icbd.Pkt

/-! ## §1 — the entry points -/

/-- A connection with one more packet at the end of its queue, ready to write. -/
def Conn.queued (c : Conn) (pkt : Bytes) : Conn :=
  { c with cbuf := { c.cbuf with
      wlist := c.cbuf.wlist ++ [{ data := pkt, len := pkt.length, pos := 0 }]
      wlistSize := c.cbuf.wlistSize + 1
      state := .wantWrite } }

/-- `pktserv_send`: queue a packet and try to write. -/
def pktservSend (c : Conn) (pkt : Bytes) : Int × Conn :=
  if c.cbuf.state = .wantDisconnect ∨ c.cbuf.state = .wantRawDisconnect then (-1, c)
  else if c.cbuf.wlistSize ≥ maxSendpacketQueue then (-1, c.setState .wantWrite)
  else
    match pktsocketWrite (c.queued pkt) with
    | (r, c) => if r < 0 then (-1, c.setState .wantDisconnect) else (0, c)

/-- `pktserv_disconnect`. -/
def pktservDisconnect (c : Conn) : Conn := c.setState .wantDisconnect

/-- A call the server makes into the packet layer about this connection. -/
inductive Action
  | send (pkt : Bytes)
  | disconnect
  deriving DecidableEq, Repr

/-- One call into the packet layer. -/
def Action.run (c : Conn) : Action → Conn
  | .send pkt => (pktservSend c pkt).2
  | .disconnect => pktservDisconnect c

/-- The calls a callback makes, in order. -/
def runActions (c : Conn) (as : List Action) : Conn := as.foldl Action.run c

/-- What `accept` answers on a listening socket. -/
inductive AcceptResult
  | wouldBlock
  | error
  | fd (ns : Nat)
  deriving DecidableEq, Repr

/-- What the server's callbacks do to this connection during one call of the state machine, and what
`accept` answers if the descriptor listens. Each of them runs at most once per call. -/
structure Upcalls where
  newClient : List Action := []
  dispatch : List Action := []
  lostClient : List Action := []
  ok2read : Bool := true
  accept : AcceptResult := .wouldBlock
  deriving DecidableEq, Repr

/-- `pktsocket_accept`, the listening socket's side: only its disposition changes. -/
def acceptListener (c : Conn) : AcceptResult → Conn
  | .wouldBlock => { c with cbuf := { c.cbuf with disp := .blocked } }
  | .error => c
  | .fd _ => { c with cbuf := { c.cbuf with disp := .ok } }

/-- `pktsocket_accept`, the new descriptor's side: a descriptor that does not index the table is
closed again, any other gets a cleared `cbuf`. -/
def acceptClient (maxUsers : Nat) (listener : Conn) : AcceptResult → Option Cbuf
  | .fd ns =>
      if ns ≥ maxUsers then none
      else some (Cbuf.fresh ns (listener.cbuf.state = .listenSocketSsl))
  | _ => none

/-- The bits `poll` can report. -/
structure PollBits where
  pollin : Bool := false
  pollout : Bool := false
  pollerr : Bool := false
  pollhup : Bool := false
  pollnval : Bool := false
  deriving DecidableEq, Repr

/-- Any of the exceptional bits. -/
def PollBits.exception (b : PollBits) : Bool := b.pollerr || b.pollhup || b.pollnval

/-! ## §2 — tear-down -/

/-- `handle_disconnect`: drop both buffers. -/
def handleDisconnect (c : Conn) : Conn :=
  { c with cbuf := { c.cbuf with rbuf := none, wlist := [], state := .wantRawDisconnect } }

/-- `handle_raw_disconnect`: close the descriptor and leave the poll set. -/
def handleRawDisconnect (c : Conn) : Conn := (c.report .closed).setState .disconnected

/-! ## §3 — `pollfd_state_machine` -/

/-- What one iteration of the loop ends with: a `return`, or another test of the disposition. -/
inductive Next
  | ret (c : Conn)
  | again (c : Conn)

/-- A complete packet is dispatched and its buffer freed; the next thing expected is a header,
whatever the callback left in the state word. -/
def dispatchPacket (u : Upcalls) (c : Conn) : Conn :=
  if c.cbuf.state = .completePacket then
    let c := runActions (c.report (.dispatch (c.cbuf.rbuf.getD {}).data)) u.dispatch
    { c with cbuf := { c.cbuf with rbuf := none, state := .wantHeader } }
  else c

/-- Back to writing if output is queued. -/
def cycleToWrite (c : Conn) : Conn := if c.cbuf.wlist ≠ [] then c.setState .wantWrite else c

/-- The `WANT_HEADER` / `WANT_READ` case. -/
def readCase (u : Upcalls) (readable : Bool) (c : Conn) : Conn :=
  cycleToWrite (if readable && u.ok2read then dispatchPacket u (pktsocketRead c).2 else c)

/-- The `WANT_WRITE` case. -/
def writeCase (readable writeable : Bool) (c : Conn) : Conn :=
  let c := if writeable then (pktsocketWrite c).2 else c
  if readable ∧ (c.cbuf.state = .wantRead ∨ c.cbuf.state = .wantHeader) then
    { c with cbuf := { c.cbuf with disp := .ok } }
  else c

/-- The body of the loop: the `switch` on the state word. -/
def machineBody (u : Upcalls) (readable writeable : Bool) (c : Conn) : Next :=
  match c.cbuf.state with
  | .listenSocket | .listenSocketSsl => .ret (acceptListener c u.accept)
  | .accepted => .again (runActions ((c.setState .wantHeader).report .newClient) u.newClient)
  | .wantSslAccept => .ret (if readable || writeable then (sslsocketAccept c).2 else c)
  | .wantSslRead => .ret (if readable || writeable then (pktsocketRead c).2 else c)
  | .wantSslWrite => .ret (if readable || writeable then (pktsocketWrite c).2 else c)
  | .wantWrite => .again (writeCase readable writeable c)
  | .idle => .ret (readCase u readable (if readable then c.setState .wantHeader else c))
  | .wantHeader | .wantRead => .ret (readCase u readable c)
  | .wantDisconnect => .again (handleDisconnect (runActions (c.report .lostClient) u.lostClient))
  | .wantRawDisconnect => .again (handleRawDisconnect c)
  | .disconnected => .again { c with cbuf := { c.cbuf with disp := .blocked } }
  | .completePacket => .again c

/-- `while (cbuf->disp == OK)`; `none` when the fuel runs out inside the loop. -/
def machineLoop (u : Upcalls) (readable writeable : Bool) : Nat → Conn → Option Conn
  | fuel, c =>
      if c.cbuf.disp = .ok then
        match fuel with
        | 0 => none
        | fuel + 1 =>
            match machineBody u readable writeable c with
            | .ret c => some c
            | .again c => machineLoop u readable writeable fuel c
      else some c

/-- `pollfd_state_machine` for a client descriptor below `MAX_USERS`. -/
def pollfdStateMachine (u : Upcalls) (b : PollBits) (fuel : Nat) (c : Conn) : Option Conn :=
  if b.exception then
    let c :=
      if c.cbuf.state ≠ .listenSocket ∧ c.cbuf.state ≠ .listenSocketSsl then
        runActions (c.report .lostClient) u.lostClient
      else c
    some (handleDisconnect c)
  else
    let c := if b.pollin || b.pollout then { c with cbuf := { c.cbuf with disp := .ok } } else c
    machineLoop u b.pollin b.pollout fuel c

/-! ## §4 — the states a plaintext connection can reach -/

/-- The states of a plaintext connection, from `accept` on: calls of the state machine that return,
calls of the server into the packet layer, and whatever the network does in between. -/
inductive Reachable : Conn → Prop
  | accept (fd : Nat) (w : Wire) : Reachable { cbuf := Cbuf.fresh fd false, wire := w }
  | poll {c c' : Conn} (u : Upcalls) (b : PollBits) (fuel : Nat) :
      Reachable c → pollfdStateMachine u b fuel c = some c' → Reachable c'
  | call {c : Conn} (a : Action) : Reachable c → Reachable (a.run c)
  | network {c : Conn} (w : Wire) : Reachable c → Reachable { c with wire := w }

end Icbd.Pkt
