/-
# Icbd.Pkt.Buffers — connection buffers and the two ends of a socket.

`Cbuf` and `MsgBuf` follow `pktbuffers.h`. The kernel's side of a socket is a `Wire`: the bytes the
peer has sent, the bytes `write` has accepted, and a script that fixes what each later call of
`read`, `write` or the TLS library answers. Every schedule of short reads, short writes and retries
is some script, so a result that holds for every script holds for every behaviour of the network.

A read buffer's `data` holds the bytes stored so far, so its length is `pos - data` of the source; a
write buffer's `data` is the whole packet and `pos` the offset of the next byte to write.
-/
import Icbd.Config

namespace Icbd.Pkt

/-! ## §1 — connection state -/

/-- `SocketState`: one word shared by the reading and the writing side of a connection. -/
inductive SocketState
  | disconnected
  | accepted
  | idle
  | wantSslAccept
  | wantSslRead
  | wantSslWrite
  | wantHeader
  | wantRead
  | wantWrite
  | wantDisconnect
  | wantRawDisconnect
  | completePacket
  | listenSocket
  | listenSocketSsl
  deriving DecidableEq, Repr

/-- `SocketDisposition`. -/
inductive SocketDisposition
  | ok
  | blocked
  | ignore
  deriving DecidableEq, Repr

/-- `msgbuf_t`. -/
structure MsgBuf where
  data : Bytes := []
  len : Nat := 0
  pos : Nat := 0
  deriving DecidableEq, Repr

/-- `cbuf_t`, for one descriptor. -/
structure Cbuf where
  fd : Nat := 0
  state : SocketState := .disconnected
  disp : SocketDisposition := .ok
  rbuf : Option MsgBuf := none
  newmsg : Bool := false
  wlist : List MsgBuf := []
  wlistSize : Int := 0
  retries : Nat := 0
  isSsl : Bool := false
  deriving DecidableEq, Repr

/-- The state words a connection passes through once it is being torn down. -/
def SocketState.closing : SocketState → Bool
  | .wantDisconnect | .wantRawDisconnect | .disconnected => true
  | _ => false

/-! ## §2 — the wire -/

/-- What the next `read` on a plaintext socket answers. `data k` hands over at most `k + 1` bytes. -/
inductive ReadResult
  | data (k : Nat)
  | wouldBlock
  | eof
  | error
  deriving DecidableEq, Repr

/-- What the next `write` on a plaintext socket answers: it takes at most `k` bytes. -/
inductive WriteResult
  | wrote (k : Nat)
  | wouldBlock
  | error
  deriving DecidableEq, Repr

/-- What the next call of the TLS library answers. `done k pending` moves at most `k + 1` bytes and
leaves decrypted bytes pending or not; `failed` is any of the fatal errors. -/
inductive SslResult
  | done (k : Nat) (pending : Bool)
  | wantRead
  | wantWrite
  | failed
  deriving DecidableEq, Repr

/-- The kernel's side of one socket. A script that has run out blocks. -/
structure Wire where
  inbound : Bytes := []
  outbound : Bytes := []
  reads : List ReadResult := []
  writes : List WriteResult := []
  ssl : List SslResult := []
  deriving DecidableEq, Repr

/-- The outcome of a read: `read` returned these bytes (none of them at end of file), would have
blocked, or failed. -/
inductive ReadOut
  | bytes (b : Bytes)
  | wouldBlock
  | error
  deriving DecidableEq, Repr

/-- The outcome of a write: bytes accepted, would have blocked, or failed. -/
inductive WriteOut
  | count (n : Nat)
  | wouldBlock
  | error
  deriving DecidableEq, Repr

/-- `read(fd, buf, n)` on a non-blocking plaintext socket. -/
def Wire.read (w : Wire) (n : Nat) : ReadOut × Wire :=
  match w.reads with
  | [] => (.wouldBlock, w)
  | .wouldBlock :: rs => (.wouldBlock, { w with reads := rs })
  | .error :: rs => (.error, { w with reads := rs })
  | .eof :: rs => (.bytes [], { w with reads := rs })
  | .data k :: rs =>
      if w.inbound = [] then (.wouldBlock, { w with reads := rs })
      else
        (.bytes (w.inbound.take (min n (k + 1))),
          { w with reads := rs, inbound := w.inbound.drop (min n (k + 1)) })

/-- `write(fd, buf, n)` on a non-blocking plaintext socket, where `buf` starts with `b`. -/
def Wire.write (w : Wire) (b : Bytes) : WriteOut × Wire :=
  match w.writes with
  | [] => (.wouldBlock, w)
  | .wouldBlock :: ws => (.wouldBlock, { w with writes := ws })
  | .error :: ws => (.error, { w with writes := ws })
  | .wrote k :: ws =>
      (.count (min k b.length), { w with writes := ws, outbound := w.outbound ++ b.take k })

/-! ## §3 — one connection and what it reports upwards -/

/-- What the packet layer does that the rest of the server can see. -/
inductive Trace
  /-- the `new_client` callback ran -/
  | newClient
  /-- the `dispatch` callback was handed this packet, length byte included -/
  | dispatch (pkt : Bytes)
  /-- the `lost_client` callback ran -/
  | lostClient
  /-- the descriptor was closed and taken out of the poll set -/
  | closed
  deriving DecidableEq, Repr

/-- One connection: its `cbuf`, the wire behind it and what has been reported so far. -/
structure Conn where
  cbuf : Cbuf
  wire : Wire := {}
  trace : List Trace := []
  deriving DecidableEq, Repr

/-- The packets handed to the `dispatch` callback so far, in order. -/
def Conn.dispatched (c : Conn) : List Bytes :=
  c.trace.filterMap fun
    | .dispatch p => some p
    | _ => none

/-- The same connection with another state word. -/
def Conn.setState (c : Conn) (s : SocketState) : Conn :=
  { c with cbuf := { c.cbuf with state := s } }

/-- The same connection with one more event reported. -/
def Conn.report (c : Conn) (t : Trace) : Conn :=
  { c with trace := c.trace ++ [t] }

@[simp] theorem Conn.setState_state (c : Conn) (s : SocketState) :
    (c.setState s).cbuf.state = s := rfl
@[simp] theorem Conn.setState_rbuf (c : Conn) (s : SocketState) :
    (c.setState s).cbuf.rbuf = c.cbuf.rbuf := rfl
@[simp] theorem Conn.setState_wlist (c : Conn) (s : SocketState) :
    (c.setState s).cbuf.wlist = c.cbuf.wlist := rfl
@[simp] theorem Conn.setState_disp (c : Conn) (s : SocketState) :
    (c.setState s).cbuf.disp = c.cbuf.disp := rfl
@[simp] theorem Conn.setState_isSsl (c : Conn) (s : SocketState) :
    (c.setState s).cbuf.isSsl = c.cbuf.isSsl := rfl
@[simp] theorem Conn.setState_wire (c : Conn) (s : SocketState) :
    (c.setState s).wire = c.wire := rfl
@[simp] theorem Conn.setState_trace (c : Conn) (s : SocketState) :
    (c.setState s).trace = c.trace := rfl

@[simp] theorem Conn.report_cbuf (c : Conn) (t : Trace) : (c.report t).cbuf = c.cbuf := rfl
@[simp] theorem Conn.report_wire (c : Conn) (t : Trace) : (c.report t).wire = c.wire := rfl

@[simp] theorem Conn.dispatched_setState (c : Conn) (s : SocketState) :
    (c.setState s).dispatched = c.dispatched := rfl

@[simp] theorem Conn.dispatched_report_dispatch (c : Conn) (p : Bytes) :
    (c.report (.dispatch p)).dispatched = c.dispatched ++ [p] := by
  simp [Conn.dispatched, Conn.report]

theorem Conn.dispatched_report_other (c : Conn) (t : Trace) (h : ∀ p, t ≠ .dispatch p) :
    (c.report t).dispatched = c.dispatched := by
  cases t with
  | dispatch p => exact absurd rfl (h p)
  | newClient => simp [Conn.dispatched, Conn.report]
  | lostClient => simp [Conn.dispatched, Conn.report]
  | closed => simp [Conn.dispatched, Conn.report]

/-- `pktsocket_accept` on the fresh descriptor: the cleared `cbuf` of a new client, waiting for its
handshake when it arrived on the TLS port. -/
def Cbuf.fresh (fd : Nat) (ssl : Bool) : Cbuf :=
  { fd := fd
    newmsg := true
    state := if ssl then .wantSslAccept else .accepted
    disp := .ok
    isSsl := ssl }

end Icbd.Pkt
