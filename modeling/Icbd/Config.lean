/-
# Icbd.Config — byte strings and the compile-time constants of the server.

`icb_config.h` fixes most limits. `MAX_USERS` and `ADMIN_PWD` are chosen when the build is
configured; they belong to the server's environment (`Icbd.Server.State`).
-/
import Mathlib.Data.List.Basic

namespace Icbd

/-- A byte string. C strings are byte strings without their terminating NUL. -/
abbrev Bytes := List UInt8

/-! ## Packets -/

/-- `MAX_PKT_LEN`: the length byte and at most 255 bytes of contents. -/
def maxPktLen : Nat := 256
/-- `MAX_PKT_DATA`: packet data without the length and command bytes, with the trailing NUL. -/
def maxPktData : Nat := maxPktLen - 2
/-- `PACKET_HEADER_LEN`. -/
def packetHeaderLen : Nat := 1
/-- `MAX_SENDPACKET_QUEUE`. -/
def maxSendpacketQueue : Nat := 10
/-- `MAX_SENDPACKET_RETRIES`. -/
def maxSendpacketRetries : Nat := 10

/-! ## Table and text limits -/

/-- `MAX_GROUPS`. -/
def maxGroups : Nat := 300
/-- `MAX_FIELDS`. -/
def maxFields : Nat := 20
/-- `MAX_GROUPLEN`. -/
def maxGroupLen : Nat := 8
/-- `MAX_IDLEN`. -/
def maxIdLen : Nat := 12
/-- `MAX_NICKLEN`. -/
def maxNickLen : Nat := 12
/-- `MAX_INPUTSTR`. -/
def maxInputStr : Nat := 250 - maxNickLen - maxNickLen - 6
/-- `MAX_INVITES`. -/
def maxInvites : Nat := 50
/-- `MAX_NODELEN`. -/
def maxNodeLen : Nat := 64
/-- `MAX_PASSWDLEN`. -/
def maxPasswdLen : Nat := 12
/-- `MAX_TEXTLEN`. -/
def maxTextLen : Nat := 80 - maxNickLen - 5
/-- `MAX_TOPICLEN`. -/
def maxTopicLen : Nat := 32
/-- `MAX_HUSHED`. -/
def maxHushed : Nat := 32
/-- `MAX_NOTIFIES`. -/
def maxNotifies : Nat := 40
/-- `MAX_WRITES`. -/
def maxWrites : Nat := 20
/-- `MAX_AWAY_LEN`. -/
def maxAwayLen : Nat := maxInputStr - 17
/-- `IDLEBOOT_MSG_LEN`. -/
def idlebootMsgLen : Nat := 79 - 15 - maxNickLen + 2

/-! ## Times, in seconds -/

/-- `AWAY_NOSEND_TIME`. -/
def awayNosendTime : Int := 10
/-- `DEF_IDLE_BOOT`. -/
def defIdleBoot : Int := 3600
/-- `MOD_TIMEOUT`. -/
def modTimeout : Int := 300
/-- `MAX_IDLE_MOD`. -/
def maxIdleMod : Int := 14400
/-- `DEF_IDLE_MOD`. -/
def defIdleMod : Int := 3600

end Icbd
