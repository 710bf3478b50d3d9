/-
# Icbd.Pkt.Socket — reading packets from and writing packets to one connection.

The functions of `pktsocket.c` and `sslsocket.c`, over a `Conn`. Allocations succeed. The integer
results are the source's: `0` for success or "try again later", `-1` when the connection is lost.
-/
import Icbd.Pkt.Buffers

namespace Icbd.Pkt

/-! ## §1 — the TLS library calls -/

/-- The state word `sslsocket_read` and `sslsocket_write` leave behind after moving data. -/
def sslDoneState (b : Cbuf) (pending : Bool) : SocketState :=
  if b.wlistSize ≠ 0 then .wantSslWrite else if pending then .wantSslRead else .idle

/-- `sslsocket_read`. A retry (result `0`) is the outcome `bytes []`. -/
def sslsocketRead (c : Conn) (n : Nat) : ReadOut × Conn :=
  match c.wire.ssl with
  | [] => (.bytes [], c.setState .wantSslRead)
  | .wantRead :: rs => (.bytes [], { c with wire := { c.wire with ssl := rs } }.setState .wantSslRead)
  | .wantWrite :: rs =>
      (.bytes [], { c with wire := { c.wire with ssl := rs } }.setState .wantSslWrite)
  | .failed :: rs => (.error, { c with wire := { c.wire with ssl := rs } }.setState .wantDisconnect)
  | .done k pending :: rs =>
      let got := c.wire.inbound.take (min n (k + 1))
      if got = [] then
        (.bytes [], { c with wire := { c.wire with ssl := rs } }.setState .wantSslRead)
      else
        (.bytes got,
          { c with wire := { c.wire with ssl := rs, inbound := c.wire.inbound.drop (min n (k + 1)) } }.setState
            (sslDoneState c.cbuf pending))

/-- `sslsocket_write`. A retry (result `0`) is the outcome `count 0`. -/
def sslsocketWrite (c : Conn) (b : Bytes) : WriteOut × Conn :=
  match c.wire.ssl with
  | [] => (.count 0, c.setState .wantSslWrite)
  | .wantRead :: rs => (.count 0, { c with wire := { c.wire with ssl := rs } }.setState .wantSslRead)
  | .wantWrite :: rs =>
      (.count 0, { c with wire := { c.wire with ssl := rs } }.setState .wantSslWrite)
  | .failed :: rs => (.error, { c with wire := { c.wire with ssl := rs } }.setState .wantDisconnect)
  | .done k pending :: rs =>
      (.count (min (k + 1) b.length),
        { c with wire := { c.wire with ssl := rs, outbound := c.wire.outbound ++ b.take (k + 1) } }.setState
          (sslDoneState c.cbuf pending))

/-- `sslsocket_accept`, the retried handshake. -/
def sslsocketAccept (c : Conn) : Int × Conn :=
  match c.wire.ssl with
  | [] => (0, c.setState .wantSslAccept)
  | .done _ _ :: rs =>
      let c := { c with wire := { c.wire with ssl := rs } }
      (0, { c with cbuf := { c.cbuf with isSsl := true, state := .accepted } })
  | .failed :: rs =>
      (-1, { c with wire := { c.wire with ssl := rs } }.setState .wantRawDisconnect)
  | _ :: rs => (0, { c with wire := { c.wire with ssl := rs } }.setState .wantSslAccept)

/-- The `is_ssl ? sslsocket_read : read` of `pktsocket_read`. -/
def sockRead (c : Conn) (n : Nat) : ReadOut × Conn :=
  if c.cbuf.isSsl then sslsocketRead c n
  else ((c.wire.read n).1, { c with wire := (c.wire.read n).2 })

/-- The `is_ssl ? sslsocket_write : write` of `pktsocket_write`. -/
def sockWrite (c : Conn) (b : Bytes) : WriteOut × Conn :=
  if c.cbuf.isSsl then sslsocketWrite c b
  else ((c.wire.write b).1, { c with wire := (c.wire.write b).2 })

theorem sockRead_plain {c : Conn} (h : c.cbuf.isSsl = false) (n : Nat) :
    sockRead c n = ((c.wire.read n).1, { c with wire := (c.wire.read n).2 }) := by
  simp [sockRead, h]

theorem sockWrite_plain {c : Conn} (h : c.cbuf.isSsl = false) (b : Bytes) :
    sockWrite c b = ((c.wire.write b).1, { c with wire := (c.wire.write b).2 }) := by
  simp [sockWrite, h]

/-! ## §2 — `pktsocket_read` -/

/-- The same connection with another read buffer. -/
def Conn.setRbuf (c : Conn) (m : MsgBuf) : Conn :=
  { c with cbuf := { c.cbuf with rbuf := some m } }

/-- The body part of `pktsocket_read`: read what is still missing of the packet in the buffer. -/
def readBody (c : Conn) : Int × Conn :=
  let m := c.cbuf.rbuf.getD {}
  let remain := m.len - m.pos
  match sockRead c remain with
  | (.wouldBlock, c) => (0, c.setState .wantRead)
  | (.error, c) => (-1, c.setState .wantDisconnect)
  | (.bytes b, c) =>
      if b = [] then
        -- a TLS retry has already set the state; on a plaintext socket this is end of file
        if c.cbuf.isSsl then (0, c) else (-1, c.setState .wantDisconnect)
      else
        let c := c.setRbuf { m with data := m.data ++ b, pos := m.pos + b.length }
        if remain - b.length = 0 then (0, c.setState .completePacket)
        else (0, c.setState .wantRead)

/-- The header part of `pktsocket_read`, from a freshly reset buffer; `none` when the length byte is
there and the body is to be read next. -/
def readHeader (c : Conn) : Option Int × Conn :=
  match sockRead (c.setRbuf {}) packetHeaderLen with
  | (.wouldBlock, c) => (some 0, c)
  | (.error, c) => (some (-1), c.setState .wantDisconnect)
  | (.bytes [], c) =>
      if c.cbuf.isSsl then (some 0, c) else (some (-1), c.setState .wantDisconnect)
  | (.bytes (h :: t), c) =>
      let len := h.toNat + 1
      let c := c.setRbuf { data := h :: t, len := len, pos := 1 }
      let c := { c with cbuf := { c.cbuf with newmsg := false } }
      if len > maxPktLen - 1 then (some (-1), c.setState .wantDisconnect) else (none, c)

/-- `pktsocket_read`. -/
def pktsocketRead (c : Conn) : Int × Conn :=
  if c.cbuf.state = .wantHeader then
    match readHeader c with
    | (some r, c) => (r, c)
    | (none, c) => readBody c
  else readBody c

/-! ## §3 — `pktsocket_write` -/

/-- The `while (!TAILQ_EMPTY(&wlist))` loop of `pktsocket_write`; the list is the queue from its
first element on. -/
def writeLoop (c : Conn) : List MsgBuf → Int × Conn
  | [] => (0, { c with cbuf := { c.cbuf with wlist := [], state := .wantHeader } })
  | m :: ms =>
      let remain := m.len - m.pos
      match sockWrite c (m.data.drop m.pos) with
      | (.wouldBlock, c) =>
          (0, { c with cbuf := { c.cbuf with
                  wlist := m :: ms, state := .wantWrite, retries := c.cbuf.retries + 1 } })
      | (.error, c) =>
          (-1, { c with cbuf := { c.cbuf with wlist := m :: ms, state := .wantDisconnect } })
      | (.count n, c) =>
          if n = 0 ∧ c.cbuf.isSsl then
            (0, { c with cbuf := { c.cbuf with
                    wlist := m :: ms, state := .wantSslWrite, retries := c.cbuf.retries + 1 } })
          else if n < remain then
            (0, { c with cbuf := { c.cbuf with
                    wlist := { m with pos := m.pos + n } :: ms
                    state := .wantWrite
                    retries := c.cbuf.retries + 1 } })
          else
            writeLoop { c with cbuf := { c.cbuf with
                          wlist := ms, wlistSize := c.cbuf.wlistSize - 1, retries := 0 } } ms

/-- `pktsocket_write`. -/
def pktsocketWrite (c : Conn) : Int × Conn :=
  if c.cbuf.retries > maxSendpacketRetries then (-1, c) else writeLoop c c.cbuf.wlist

end Icbd.Pkt
