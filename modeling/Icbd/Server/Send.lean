/-
# Icbd.Server.Send — messages to the clients (`send.c`).

A packet's contents are the type byte and the text behind it, as `snprintf` leaves them in
`packetbuffer`; `doSend` puts the length in front. `pktserv_send` never answers -2, so a send that
fails changes nothing here. A send to the automatic user's slot is ignored unless it is a personal
message or a beep; these two call back into the command dispatcher and are modelled with it
(`Icbd.Server.Msgs`).
-/
import Icbd.Server.State

namespace Icbd.Server

open Icbd.Lib

variable [Env]

/-! ## §1 — packets -/

/-- `ICB_M_LOGINOK`, `ICB_M_OPEN` and so on: the types of packets the server sends or receives. -/
def pktLogin : UInt8 := 97
def pktOpen : UInt8 := 98
def pktPersonal : UInt8 := 99
def pktStatus : UInt8 := 100
def pktError : UInt8 := 101
def pktImportant : UInt8 := 102
def pktExit : UInt8 := 103
def pktCommand : UInt8 := 104
def pktCmdout : UInt8 := 105
def pktProto : UInt8 := 106
def pktBeep : UInt8 := 107
def pktPing : UInt8 := 108
def pktPong : UInt8 := 109
def pktNoop : UInt8 := 110

/-- `VERSION`. -/
def version : Bytes := str "ICB Server v1.3.0"

/-- `PROTO_LEVEL`. -/
def protoLevel : Int := 1

/-- `^A`. -/
def sep : Bytes := [1]

/-- What is written behind the length byte of `packetbuffer`. -/
def packet (type : UInt8) (text : Bytes) : Bytes := snprintf (maxPktLen - 1) (type :: text)

/-- `doSend` of a message that is neither a personal message nor a beep. -/
def doSend (dst : Int) (content : Bytes) : W Unit := do
  let w ← getW
  whenever (0 ≤ dst ∧ dst < maxRealUsers ∧ w.sKill dst ≤ 0) (emit (.send dst content))

/-! ## §2 — the messages -/

/-- `MAX_STATUS_LEN`. -/
def maxStatusLen : Nat := 20

/-- The text of a status or important message. -/
def classText (cls msg : Bytes) : Bytes :=
  filtertext cls (maxStatusLen + 1) ++ sep ++ filtertext msg (maxPktData - maxStatusLen - 1)

/-- The text of an open or personal message. -/
def nickText (nick msg : Bytes) : Bytes :=
  filtertext nick (maxNickLen + 1) ++ sep ++ filtertext msg (maxPktData - maxNickLen - 1)

/-- `senderror`. -/
def senderror (dst : Int) (msg : Bytes) : W Unit :=
  doSend dst (packet pktError (filtertext msg maxPktData))

/-- `sendstatus`. -/
def sendstatus (dst : Int) (cls msg : Bytes) : W Unit :=
  doSend dst (packet pktStatus (classText cls msg))

/-- `sendimport`. -/
def sendimport (dst : Int) (cls msg : Bytes) : W Unit :=
  doSend dst (packet pktImportant (classText cls msg))

/-- `sendopen`. -/
def sendopen (src dst : Int) (msg : Bytes) : W Unit := do
  let u ← getU src
  doSend dst (packet pktOpen (nickText u.nickname msg))

/-- `sendexit`. -/
def sendexit (dst : Int) : W Unit := doSend dst (packet pktExit [])

/-- `sendping`. -/
def sendping (dst : Int) (who : Bytes) : W Unit := doSend dst (packet pktPing who)

/-- `sends_cmdout`. -/
def sendsCmdout (dst : Int) (msg : Bytes) : W Unit :=
  doSend dst (packet pktCmdout (str "co" ++ sep ++ filtertext msg (maxPktData - 3)))

/-- `send_cmdend`. -/
def sendCmdend (dst : Int) (msg : Bytes) : W Unit :=
  doSend dst (packet pktCmdout (str "ec" ++ sep ++ sep ++ filtertext msg (maxPktData - 4)))

/-- `send_loginok`. -/
def sendLoginok (dst : Int) : W Unit := doSend dst (packet pktLogin [])

/-- `user_wline`. -/
def userWline (dst : Int) (mod nick : Bytes) (idle resp login : Int) (user site name : Bytes) :
    W Unit :=
  doSend dst (packet pktCmdout (str "wl" ++ sep ++ mod ++ sep ++ nick ++ sep ++ decimal idle ++ sep ++
    decimal resp ++ sep ++ decimal login ++ sep ++ user ++ sep ++ site ++ sep ++ name))

/-- `user_whead`. -/
def userWhead (dst : Int) : W Unit := doSend dst (packet pktCmdout (str "wh"))

/-- `pktserv_disconnect`. -/
def pktservDisconnect (n : Int) : W Unit := emit (.disconnect n)

/-- `s_status_group`. -/
def sStatusGroup (k : Nat) (tellme : Bool) (n : Int) (cls msg : Bytes) : W Unit := do
  let my ← (if k = 1 then do let u ← getU n; pure u.group else do let g ← getG n; pure g.name)
  each (slots maxRealUsers) fun i => do
    let u ← getU i
    whenever (strcaseEq my u.group ∧ (tellme ∨ k ≠ 1 ∨ i ≠ n)) (sendstatus i cls msg)

end Icbd.Server
