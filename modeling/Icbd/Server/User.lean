/-
# Icbd.Server.User — the commands about oneself (`s_user.c`).
-/
import Icbd.Server.Status

namespace Icbd.Server

open Icbd.Lib

variable [Env]

/-! ## §1 — files shown to a user -/

/-- The complete lines of a file. -/
def completeLines : Bytes → Bytes → List Bytes
  | _, [] => []
  | line, b :: bs => if b = 10 then line :: completeLines [] bs else completeLines (line ++ [b]) bs

/-- The lines as they stand in a buffer of `cap` characters: NULs do not count, and what does not fit
is dropped. A last line without a newline is not shown. -/
def fileLines (cap : Nat) (s : Bytes) : List Bytes :=
  (completeLines [] s).map fun l => (l.filter (· ≠ 0)).take cap

/-- `s_help`. -/
def sHelp (n : Int) : W Unit := do
  let w ← getW
  if w.sys.help.isSome then each (fileLines 255 (w.sys.help.getD [])) (sendsCmdout n)
  else senderror n (str "No help file found.")

/-! ## §2 — `s_hush` -/

/-- The four hush lists. -/
inductive HushList
  | priS | pubS | priN | pubN
  deriving DecidableEq, Repr

/-- The list itself. -/
def HushList.get (u : UserOpts) : HushList → NamList
  | .priS => u.priSHushed
  | .pubS => u.pubSHushed
  | .priN => u.priNHushed
  | .pubN => u.pubNHushed

/-- The entry with another list. -/
def HushList.set (u : UserOpts) (nl : NamList) : HushList → UserOpts
  | .priS => { u with priSHushed := nl }
  | .pubS => { u with pubSHushed := nl }
  | .priN => { u with priNHushed := nl }
  | .pubN => { u with pubNHushed := nl }

/-- Its name in the messages. -/
def HushList.text : HushList → Bytes
  | .priS => str "site personal"
  | .pubS => str "site open"
  | .priN => str "nickname personal"
  | .pubN => str "nickname open"

/-- Its class when it is listed. -/
def HushList.cls : HushList → Bytes
  | .priS => str "Personal-Site-Hushed"
  | .pubS => str "Open-Site-Hushed"
  | .priN => str "Personal-Nick-Hushed"
  | .pubN => str "Open-Nick-Hushed"

/-- Put the name on the list, or take it off: `false` if the list is full. -/
def toggleHush (n : Int) (l : HushList) (who : Bytes) (quiet : Bool) : W Bool := do
  let u ← getU n
  let nl := l.get u.toUserOpts
  if nlpresent who nl then do
    modUOpts n fun o => l.set o (nldelete nl who).2
    whenever (quiet = false)
      (sendstatus n (str "Hush") (who ++ str " removed from " ++ l.text ++ str " hush list."))
    pure true
  else if nl.count = maxHushed then do
    senderror n (str "Max number of " ++ l.text ++ str " hushes reached.")
    pure false
  else do
    modUOpts n fun o => l.set o (nlput nl who)
    whenever (quiet = false)
      (sendstatus n (str "Hush") (who ++ str " added to " ++ l.text ++ str " hush list."))
    pure true

/-- The lists of `s_hush` without a name. -/
def listHushed (n : Int) : W Unit := do
  let u ← getU n
  let all : List HushList := [.priN, .pubN, .priS, .pubS]
  if (all.all fun l => (l.get u.toUserOpts).count = 0) then
    sendstatus n (str "Hush-List") (str "Empty List")
  else each all fun l => each (nlgetAll (l.get u.toUserOpts)) (sendstatus n l.cls)

/-- `s_hush` behind its flags. Neither `-p` nor `-o` means both; a full list ends the command. -/
def hushBody (n : Int) (f : Flags) : W Unit :=
  if f.who = [] then listHushed n
  else do
    let who := ucaseit f.who
    let ok ← (if f.p ∨ f.o = false then
        toggleHush n (if f.s then .priS else .priN) who f.q else pure true)
    whenever (ok ∧ (f.o ∨ f.p = false)) do
      let _ ← toggleHush n (if f.s then .pubS else .pubN) who f.q
      pure ()

/-- `s_hush`. -/
def sHush (n : Int) (arg : Bytes) : W Unit :=
  withFlags n "qnspo" (str "Usage: hush {-q} {-p} {-o} {-n nickname | -s address}") arg (hushBody n)

/-! ## §3 — `s_notify` -/

/-- The two notify lists, by site or by nickname. -/
def notifyGet (site : Bool) (u : UserOpts) : NamList := if site then u.sNotifies else u.nNotifies

/-- The entry with another notify list. -/
def notifySet (site : Bool) (nl : NamList) (u : UserOpts) : UserOpts :=
  if site then { u with sNotifies := nl } else { u with nNotifies := nl }

/-- `s_notify` behind its flags. -/
def notifyBody (n : Int) (f : Flags) : W Unit := do
  let w ← getW
  let u ← getU n
  let nl := notifyGet f.s u.toUserOpts
  let kind := if f.s then str "site" else str "nickname"
  let who := ucaseit f.who
  let i := findUser w who
  if f.who = [] then
    if u.nNotifies.count = 0 ∧ u.sNotifies.count = 0 then
      sendstatus n (str "Notify-List") (str "Empty List")
    else do
      each (nlgetAll u.nNotifies) (sendstatus n (str "Notify-Nickname"))
      each (nlgetAll u.sNotifies) (sendstatus n (str "Notify-Site"))
  else if nlpresent who nl then do
    modUOpts n (notifySet f.s (nldelete nl who).2)
    whenever (f.q = false)
      (sendstatus n (str "Notify") (who ++ str " removed from " ++ kind ++ str " notify list."))
  else if nl.count = maxNotifies then
    senderror n (str "Max number of " ++ kind ++ str " notifies reached.")
  else do
    modUOpts n (notifySet f.s (nlput nl who))
    whenever (f.q = false) do
      sendstatus n (str "Notify") (who ++ str " added to " ++ kind ++ str " notify list.")
      whenever (f.s = false ∧ i > 0)
        (sendstatus n (str "Notify") ((w.uTab i).nickname ++ str " is logged in now."))

/-- `s_notify`. -/
def sNotify (n : Int) (arg : Bytes) : W Unit :=
  withFlags n "qns" (str "Usage: notify {-q} {-n nickname | -s address}") arg (notifyBody n)

/-! ## §4 — `s_name` -/

/-- The nickname a `/name` asks for: cut, then filtered. -/
def newName (arg : Bytes) : Bytes := filternickname (arg.take maxNickLen)

/-- May `n` take this name? Nobody else has it, and the name of the administrator needs the
password. -/
def nameFree (w : World) (n : Int) (name : Bytes) : Bool :=
  (findUser w name < 0 || strcaseEq name (w.uTab n).nickname) &&
    (!strcaseEq name (str "admin") || (w.uTab n).password = Env.adminPwd)

/-- The registration status that goes with a new name. -/
def nameStatus (n : Int) : W Unit := do
  let u ← getU n
  setRealname n []
  let ret ← nicklookup (-n) u.nickname
  if ret = 0 then do
    setRealname n registered
    sendstatus n (str "Register") (str "Nick registered")
    nickwritetime n false
    regainMods n
    mailNotice n
  else if ret = -2 then offerMods n
  else do
    setRealname n []
    sendstatus n (str "No-Pass") (str "To register your nickname type /m server p mypassword")

/-- `s_name`. -/
def sName (n : Int) (arg : Bytes) : W Unit := do
  let w ← getW
  let u ← getU n
  let name := newName arg
  if arg = [] then senderror n (str "The nickname may not be null.")
  else if ¬ nameFree w n name then senderror n (str "Nickname already in use.")
  else do
    let text := u.nickname ++ str " changed nickname to " ++ name
    sStatusGroup 1 false n (str "Name") text
    nickwritetime n true
    setNickname n name
    sendstatus n (str "Name") text
    nameStatus n
    each (slots maxGroups) (talkReport n)

/-! ## §5 — settings -/

/-- The values of `echoback` and `nobeep`. -/
def offOnVerbose (arg : Bytes) : Option Int :=
  if strcaseEq arg (str "off") then some 0
  else if strcaseEq arg (str "on") then some 1
  else if strcaseEq arg (str "verbose") then some 2
  else none

/-- `s_echoback`. -/
def sEchoback (n : Int) (arg : Bytes) : W Unit := do
  let v := offOnVerbose arg
  if v.isSome then do
    modUOpts n fun o => { o with echoback := v.getD 0 }
    sendstatus n (str "Echo")
      (if v = some 0 then str "Echoback off"
       else if v = some 1 then str "Echoback on" else str "Echoback on verbose")
  else senderror n (str "Echoback: needs on/off/verbose")

/-- `s_nobeep`. -/
def sNobeep (n : Int) (arg : Bytes) : W Unit := do
  let v := offOnVerbose arg
  if v.isSome then do
    modUOpts n fun o => { o with nobeep := v.getD 0 }
    sendstatus n (str "No-Beep")
      (if v = some 0 then str "No-Beep off"
       else if v = some 1 then str "No-Beep on" else str "No-Beep on (verbose)")
  else senderror n (str "No-Beep: needs off/on/verbose")

/-- `s_ping`. Without a name one pings oneself. -/
def sPing (n : Int) (arg : Bytes) : W Unit := do
  let w ← getW
  let u ← getU n
  let p := getword arg
  let i := findUser w p
  if p ≠ [] ∧ i ≤ 0 then senderror n (str "Can't locate user (" ++ p ++ str ")")
  else do
    let dst := if p ≠ [] then i else n
    modMisc fun m =>
      { m with pingTime := Function.update m.pingTime dst (w.sys.now, w.sys.usec)
               pongReq := Function.update m.pongReq dst n }
    sendping dst u.nickname

/-- `s_noaway`. -/
def sNoaway (n : Int) : W Unit := do
  let u ← getU n
  if u.awaymsg = [] then sendstatus n (str "Away") (str "Away not set!")
  else do
    modUOpts n fun o => { o with awaymsg := [], lastaway := 0, lastawaytime := 0 }
    sendstatus n (str "Away") (str "Away message unset.")

/-- The time of day in an away message. -/
def clock (now : Int) : Bytes :=
  let h : Int := (Env.hour now).val
  decimal (if h > 12 then h - 12 else if h = 0 then 12 else h) ++ str ":" ++
    decimal02 (Env.minute now).val ++ (if h > 11 then str "pm" else str "am")

/-- `s_away`. -/
def sAway (n : Int) (arg : Bytes) : W Unit := do
  let w ← getW
  let u ← getU n
  if arg = [] then
    sendstatus n (str "Away")
      (if u.awaymsg ≠ [] then str "Away message is set to \"" ++ u.awaymsg ++ str "\""
       else str "Away message is not set.")
  else if (filterfmt arg 1).1.isSome then senderror n ((filterfmt arg 1).1.getD [])
  else do
    let msg := snprintf maxAwayLen (str "(%s@" ++ clock w.sys.now ++ str ") " ++ arg)
    modUOpts n fun o => { o with awaymsg := msg, lastaway := 0, lastawaytime := 0 }
    sendstatus n (str "Away") (str "Away message set to \"" ++ msg ++ str "\"")

end Icbd.Server
