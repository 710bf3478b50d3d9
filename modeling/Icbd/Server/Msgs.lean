/-
# Icbd.Server.Msgs — packets from the clients (`msgs.c`, `dispatch.c`, `s_auto.c`, `s_person.c`).

A personal message to the automatic user is a command: `doSend` splits it and calls `cmdmsg` again.
The functions on that cycle take the inner `cmdmsg` as an argument, and `cmdmsg` ties the knot on a
count of nested calls. The count starts at the length of the packet, and running out of it raises
the `diverged` flag.

`fields[]` holds strings here. In the source its entries point into the packet that was split last;
strings a handler writes over the packet to hand them to another handler are arguments here.
-/
import Icbd.Server.Info

namespace Icbd.Server

open Icbd.Lib

variable [Env]

/-! ## §1 — personal messages -/

/-- `doSend` of a personal message: to the automatic user it is a command of the sender. -/
def deliver (cmd : Int → Bytes → M Unit) (src dst : Int) (content : Bytes) : M Unit :=
  if dst ≥ maxRealUsers then do
    let _ ← split (str " " ++ content)
    let text ← getField 1
    cmd src (snprintf (maxPktData - 2) (getword text ++ sep ++ getTail text))
  else onWorld (doSend dst content)

/-- Has `dst` hushed personal messages of `src`? -/
def hushes (w : World) (dst src : Int) : Bool :=
  let u := w.uTab src
  let v := w.uTab dst
  nlmatch (ucaseit (snprintf 255 (address u))) v.priSHushed ||
    nlmatch (ucaseit (snprintf (maxNickLen + 1) u.nickname)) v.priNHushed

/-- `sendperson`. -/
def sendperson (cmd : Int → Bytes → M Unit) (src dst : Int) (msg : Bytes) : M Unit := do
  let w ← onWorld getW
  let u ← onWorld (getU src)
  if hushes w dst src then
    onWorld (sendstatus src (str "Bounce") (str "Message did not go through"))
  else do
    onWorld (modMisc fun m => { m with lprivId := Function.update m.lprivId dst src })
    deliver cmd src dst (packet pktPersonal (nickText u.nickname msg))

/-- `send_person_stored`. -/
def sendPersonStored (cmd : Int → Bytes → M Unit) (dst : Int) (fromNick msg : Bytes) : M Unit :=
  deliver cmd (-1) dst (packet pktPersonal (nickText fromNick msg))

/-- `u_tab[n].t_recv = time(NULL)`. -/
def stamp (n : Int) : W Unit := do
  let w ← getW
  modUOpts n fun o => { o with tRecv := w.sys.now }

/-- `autoBeep`. -/
def autoBeep (cmd : Int → Bytes → M Unit) (dst : Int) : M Unit := do
  sendperson cmd nickserv dst (str "Beep yerself!")
  onWorld (stamp nickserv)

/-- The beep of `sendbeep` does not get through. -/
def beepRefused (src dst : Int) : W Unit := do
  let u ← getU src
  let v ← getU dst
  senderror src (str "User has nobeep enabled.")
  whenever (v.nobeep = 2)
    (sendstatus dst (str "No-Beep") (u.nickname ++ str " attempted (and failed) to beep you"))

/-- `sendbeep`. -/
def sendbeep (cmd : Int → Bytes → M Unit) (src dst : Int) : M Unit := do
  let u ← onWorld (getU src)
  let v ← onWorld (getU dst)
  if v.nobeep ≠ 0 then onWorld (beepRefused src dst)
  else if dst ≥ maxRealUsers then autoBeep cmd src
  else onWorld (doSend dst (packet pktBeep u.nickname))

/-- `away_handle`. -/
def awayHandle (src dest : Int) : W Unit := do
  let w ← getW
  let u ← getU src
  let v ← getU dest
  whenever (v.awaymsg ≠ [] ∧
      (v.lastaway ≠ src ∨ w.sys.now - v.lastawaytime > awayNosendTime)) do
    modUOpts dest fun o => { o with lastaway := src, lastawaytime := w.sys.now }
    sendstatus src (str "Away") (snprintf maxPktData v.awaymsg)
    whenever (v.echoback = 2)
      (sendsCmdout dest (snprintf maxPktData (applyFmt
        (snprintf maxPktData (str "<*to: " ++ u.nickname ++ str "*> [=@" ++ clock w.sys.now ++
          str "=] " ++ v.awaymsg)) v.nickname)))

/-- What `s_personal` does before the message: pester the sender about his own away. -/
def pester (n dest : Int) : W Unit := do
  let u ← getU n
  whenever (u.awaymsg ≠ [] ∧ dest ≠ nickserv)
    (sendstatus n (str "Away") (str "Your away is still set..."))

/-- The echo of `s_personal` and `s_beep`, and the addressee's away message. -/
def echoAndAway (n dest : Int) (text : Bytes) : W Unit := do
  let u ← getU n
  let v ← getU dest
  whenever (u.echoback = 2)
    (sendsCmdout n (snprintf maxPktData (str "<*to: " ++ v.nickname ++ str "*> " ++ text)))
  awayHandle n dest

/-- `s_personal`. -/
def sPersonal (cmd : Int → Bytes → M Unit) (n : Int) (arg : Bytes) : M Unit := do
  let w ← onWorld getW
  let dest := findUser w (getword arg)
  if dest < 0 then onWorld (senderror n (getword arg ++ str " not signed on."))
  else do
    onWorld (pester n dest)
    sendperson cmd n dest (getTail arg)
    onWorld (echoAndAway n dest (getTail arg))

/-- `s_beep`. -/
def sBeep (cmd : Int → Bytes → M Unit) (n : Int) (arg : Bytes) : M Unit := do
  let w ← onWorld getW
  let dest := findUser w (getword arg)
  if getword arg = [] then pure ()
  else if dest < 0 then onWorld (senderror n (getword arg ++ str " not signed on."))
  else do
    sendbeep cmd n dest
    onWorld (echoAndAway n dest (str "[=Beep=]"))

/-! ## §2 — the automatic user's commands -/

/-- `auto_table`, in its order. -/
def autoTable : List String :=
  ["read", "whois", "p", "rname", "write", "text", "addr", "phone", "delete", "info", "help", "?",
   "cp", "email", "secure", "nosecure", "www"]

/-- The commands of `s_auto`. -/
inductive AutoCmd
  | read | whois | register | real | write | text | addr | phone | delete | info | help | question
  | cp | email | secure | nosecure | www
  deriving DecidableEq, Repr

/-- The command at an index of the table; anything else shows the usage. -/
def AutoCmd.ofIndex (i : Int) : AutoCmd :=
  if i < 0 then .question
  else
    [.read, .whois, .register, .real, .write, .text, .addr, .phone, .delete, .info, .help,
      .question, .cp, .email, .secure, .nosecure, .www].getD i.toNat .question

/-- One stored message. -/
def readOne (cmd : Int → Bytes → M Unit) (n : Int) (nick : Bytes) (i : Int) : M Unit := do
  let header ← onWorld (dbGet nick (numbered "header" i))
  onWorld (whenever header.isSome (sendsCmdout n (header.getD [])))
  onWorld (dbDelete nick (numbered "header" i))
  let sender ← onWorld (dbGet nick (numbered "from" i))
  onWorld (dbDelete nick (numbered "from" i))
  let text ← onWorld (dbGet nick (numbered "message" i))
  whenever text.isSome
    (sendPersonStored cmd n
      (if sender.isSome then (sender.getD []).take maxNickLen else str "Server") (text.getD []))
  onWorld (dbDelete nick (numbered "message" i))

/-- `nickreadmsg`. -/
def nickreadmsg (cmd : Int → Bytes → M Unit) (n : Int) : M Unit := do
  let u ← onWorld (getU n)
  let stored ← onWorld (dbGet u.nickname "nummsg")
  let count := atoi (stored.getD [])
  if u.realname = [] then
    onWorld (senderror n (str "You must be registered to read any messages."))
  else do
    if stored = none ∨ count = 0 then onWorld (senderror n (str "No messages"))
    else each ((slots (count.toNat + 1)).drop 1) (readOne cmd n u.nickname)
    onWorld (dbSet u.nickname "nummsg" (str "0"))

/-- The text of `help`. -/
def autoHelp : List Bytes :=
  [str "Command <argument(s)>           What it does",
   str "---------------------           ------------",
   str "whois <nick>                    returns info if available",
   str "p <passwd>                      registers current user info",
   str "delete <password>               deletes your info from the server db",
   str "cp <oldpassword> <newpasswd>    changes password",
   str "rname                           sets your real name",
   str "phone                           sets your phone number",
   str "addr                            sets your street address",
   str "email                           sets your e-mail address",
   str "text                            sets your text message",
   str "www                             sets your WWW home page",
   str "read                            reads your server messages",
   str "write <nick>                    send someone a server message",
   str "secure                          always requires a password to register",
   str "nosecure                        auto-validates based on username/hostname",
   str "info                            gives more info on Server",
   str "help                            lists this table",
   str "?                               shows usage",
   str "See also /s_help"]

/-- The usage of the automatic user. -/
def autoUsage : Bytes :=
  str "usage: /m server \x7bwhois | p | cp | delete | rname | email | phone | addr | text | read | write | www | info | secure | nosecure | help | ?\x7d"

/-- One of the commands that set an attribute of the record. -/
def setInfo (n : Int) (tag : String) (max : Nat) (message usage : String) (arg : Bytes) : W Unit :=
  if arg = [] then sendsCmdout n (str "Usage: " ++ str usage)
  else nickchinfo n tag arg max (str message)

/-- The command of `s_auto` with the text of `fields[1]`. -/
def autoArg (n : Int) (arg : Bytes) : AutoCmd → W Unit
  | .whois => do
      let _ ← nicklookup n (getword arg)
      pure ()
  | .register => do
      let _ ← nickwrite n (getword arg) false
      pure ()
  | .real => setInfo n "realname" 25 "Real Name" "rname Real Name" arg
  | .write => nickwritemsg n (getword arg) (getTail arg)
  | .text => setInfo n "text" 200 "Message text" "text Message Text" arg
  | .addr => setInfo n "addr" 79 "Address"
      "addr Address Line 1 | Address Line 2 | Address Line 3" arg
  | .phone => setInfo n "phone" 14 "Phone Number" "phone 1-800-555-1212" arg
  | .delete =>
      if getword arg = [] then sendsCmdout n (str "Usage: delete password")
      else nickdelete n (getword arg)
  | .cp => nickchpass n (getword arg) (getword (getTail arg))
  | .www => setInfo n "www" 80 "WWW" "www URL" arg
  | .email => setInfo n "email" 60 "E-Mail" "email e-mail address" arg
  | _ => pure ()

/-- Does the command look at `fields[1]`? -/
def AutoCmd.readsArg : AutoCmd → Bool
  | .read | .info | .help | .question | .secure | .nosecure => false
  | _ => true

/-- The command of `s_auto` without a text. -/
def autoPlain (cmd : Int → Bytes → M Unit) (n : Int) : AutoCmd → M Unit
  | .read => nickreadmsg cmd n
  | .info => onWorld do
      let _ ← nicklookup n (str "server")
      pure ()
  | .help => onWorld (each autoHelp (sendsCmdout n))
  | .secure => onWorld (setsecure n true)
  | .nosecure => onWorld (setsecure n false)
  | _ => sendperson cmd nickserv n autoUsage

/-- `s_auto`, with the flag 0 its only caller passes. -/
def sAuto (cmd : Int → Bytes → M Unit) (n : Int) : M Unit := do
  let f0 ← getField 0
  let which := AutoCmd.ofIndex (lookup (getword f0) autoTable)
  if which.readsArg then do
    let arg ← getField 1
    onWorld (autoArg n arg which)
  else autoPlain cmd n which
  onWorld (stamp nickserv)

/-! ## §3 — `cmdmsg` -/

/-- `command_table`, in its order. -/
def commandTable : List String :=
  ["drop", "shutdown", "wall", "beep", "cancel", "g", "invite", "pass", "boot", "status", "topic",
   "motd", "m", "echoback", "name", "v", "w", "whereis", "restart", "news", "hush", "shush",
   "s_help", "exclude", "shuttime", "notify", "talk", "ping", "nobeep", "away", "noaway", "log",
   "stats", "brick"]

/-- The commands; `brick` is not compiled in and is looked up like an unknown one. -/
inductive Command
  | drop | shutdown | wall | beep | cancel | g | invite | pass | boot | status | topic | motd | m
  | echoback | name | v | w | info | restart | news | hush | shush | help | exclude | shuttime
  | notify | talk | ping | nobeep | away | noaway | log | stats | other
  deriving DecidableEq, Repr

/-- The command at an index of the table. -/
def Command.ofIndex (i : Int) : Command :=
  if i < 0 then .other
  else
    [.drop, .shutdown, .wall, .beep, .cancel, .g, .invite, .pass, .boot, .status, .topic, .motd, .m,
      .echoback, .name, .v, .w, .info, .restart, .news, .hush, .shush, .help, .exclude, .shuttime,
      .notify, .talk, .ping, .nobeep, .away, .noaway, .log, .stats].getD i.toNat .other

/-- A handler that wants exactly two fields. -/
def withArg (argc : Nat) (f : Bytes → W Unit) : M Unit :=
  whenever (argc = 2) do
    let arg ← getField 1
    onWorld (f arg)

/-- A handler for the administrator only; the test comes before anything else. -/
def asAdmin (n : Int) (x : M Unit) : M Unit := do
  let w ← onWorld getW
  if checkAuth w n then x else onWorld (notAuthorized n)

/-- The `switch` of `cmdmsg`. -/
def runCommand (cmd : Int → Bytes → M Unit) (n : Int) (argc : Nat) : Command → M Unit
  | .drop => withArg argc (sDrop n)
  | .restart => asAdmin n (if argc = 2 then do
        let arg ← getField 1
        onWorld (sRestart n (strcaseEq arg (str "quiet")))
      else onWorld (sRestart n false))
  | .shutdown => asAdmin n (withArg argc sShutdown)
  | .wall => asAdmin n (withArg argc sWall)
  | .beep => whenever (argc = 2) do
      let arg ← getField 1
      sBeep cmd n arg
  | .cancel => withArg argc (sCancel n)
  | .g => if argc = 2 ∨ argc = 3 then do
        let arg ← getField 1
        onWorld do
          let _ ← sChange n arg (argc = 3)
          pure ()
      else pure ()
  | .invite => withArg argc (sInvite n)
  | .pass => withArg argc (sPass n)
  | .boot => withArg argc (sBoot n)
  | .status => withArg argc (sStatus n)
  | .topic => withArg argc (sTopic n)
  | .motd => onWorld (sMotd n)
  | .m => whenever (argc = 2) do
      let arg ← getField 1
      sPersonal cmd n arg
  | .echoback => withArg argc (sEchoback n)
  | .name => withArg argc (sName n)
  | .v => onWorld (whenever (argc = 2) (sVersion n))
  | .w => withArg argc (sWho n)
  | .info => withArg argc (sInfo n)
  | .news => do
      let arg ← getField 1
      onWorld (sNews n arg)
  | .hush | .shush => if argc ≥ 2 then do
        let arg ← getField 1
        onWorld (sHush n arg)
      else onWorld (listHushed n)
  | .help => onWorld (sHelp n)
  | .exclude => withArg argc (sExclude n)
  | .shuttime => onWorld (whenever (argc = 2) (sShuttime n))
  | .notify => if argc ≥ 2 then do
        let arg ← getField 1
        onWorld (sNotify n arg)
      else onWorld (sNotify n [])
  | .ping => withArg argc (sPing n)
  | .talk => withArg argc (sTalk n)
  | .nobeep => withArg argc (sNobeep n)
  | .away => whenever (argc ≤ 2) do
      let arg ← getField 1
      onWorld (sAway n arg)
  | .noaway => onWorld (whenever (argc ≤ 2) (sNoaway n))
  | .log => if argc < 2 then onWorld (sendsCmdout n (str "wrong number of parz")) else do
      let arg ← getField 1
      onWorld (sLog n arg)
  | .stats => if argc = 2 then do
        let arg ← getField 1
        onWorld (sServerStats n (arg = str "reset"))
      else onWorld (sServerStats n false)
  | .other => do
      let f0 ← getField 0
      if lookup f0 autoTable ≥ 0 then sAuto cmd n
      else onWorld (sendstatus n (str "Server") (str "Unknown command"))

/-- `cmdmsg` over an inner `cmdmsg`. -/
def cmdmsgWith (cmd : Int → Bytes → M Unit) (n : Int) (pkt : Bytes) : M Unit := do
  let u ← onWorld (getU n)
  whenever (u.login = .complete) do
    onWorld (stamp n)
    let argc ← split pkt
    let f0 ← getField 0
    runCommand cmd n argc (Command.ofIndex (lookup f0 commandTable))

/-- `cmdmsg`, with a bound on the nesting. -/
def cmdmsg : Nat → Int → Bytes → M Unit
  | 0 => fun _ _ => onWorld (modMisc fun m => { m with diverged := true })
  | depth + 1 => cmdmsgWith (cmdmsg depth)

/-! ## §4 — `openmsg` -/

/-- Open messages of one second in group 1: is this the third? The count goes up with every message
in that group and is reset by the first one of another second. -/
def countOpen (n : Int) : W Bool := do
  let w ← getW
  let u ← getU n
  let count := w.uRecvCount n + 1
  if u.group = str "1" then do
    modMisc fun m =>
      { m with uRecvCount := Function.update m.uRecvCount n (if u.tRecv = w.sys.now then count else 0) }
    pure (u.tRecv = w.sys.now ∧ count > 2)
  else pure false

/-- The boot of a spammer, up to the group change. -/
def spamNotice (n : Int) : W Unit := do
  let u ← getU n
  sendstatus n (str "Boot") (str "No spamming in group 1.")
  sStatusGroup 1 true n (str "Boot") (u.nickname ++ str " was auto-booted for spamming.")

/-- May `n` speak in group `g`? -/
def maySpeak (n : Int) (u : User) (g : Group) : Bool :=
  g.control ≠ .controlled || g.mod = n || nlpresent u.nickname g.nTalk ||
    (u.realname ≠ [] && nlpresent u.nickname g.nrTalk)

/-- An open message with one field. -/
def openBody (n : Int) (text : Bytes) : W Unit := do
  let w ← getW
  let u ← getU n
  let g ← getG (groupOf w n)
  if g.volume = .quiet then senderror n (str "Open messages not permitted in quiet groups.")
  else if ¬ maySpeak n u g then do
    senderror n (str "You do not have permission to send open messages in this group.")
    let m ← getU g.mod
    sendstatus n (str "INFO") (str "Use \"/m " ++ m.nickname ++
      str " may i talk?\" to request permission.")
  else if countUsersInGroup w g.name < 2 then senderror n (str "No one else in group!")
  else sSendGroup n text

/-- `openmsg`. -/
def openmsg (n : Int) (pkt : Bytes) : M Unit := do
  let u ← onWorld (getU n)
  whenever (u.login = .complete) do
    onWorld (whenever (u.awaymsg ≠ [])
      (sendstatus n (str "Away") (str "Your away is still set...")))
    let spam ← onWorld (countOpen n)
    whenever spam do
      onWorld (spamNotice n)
      setField 1 (str "ICB")
      onWorld (bootTo n (str "ICB"))
    onWorld (stamp n)
    let k ← split pkt
    whenever (k = 1) do
      let text ← getField 0
      onWorld (openBody n text)

/-! ## §5 — permissions and the access file -/

/-- `strtok`: the next token and what is behind it. -/
def strtok (delims : Bytes) (s : Bytes) : Option (Bytes × Bytes) :=
  let s := s.dropWhile delims.contains
  if s = [] then none
  else some (s.takeWhile (!delims.contains ·), (s.dropWhile (!delims.contains ·)).tail)

/-- All tokens. -/
def tokens (delims : Bytes) : Nat → Bytes → List Bytes
  | 0, _ => []
  | fuel + 1, s =>
      match strtok delims s with
      | none => []
      | some (t, rest) => t :: tokens delims fuel rest

/-- `PERM_DENY` and `PERM_SLOWMSGS`. -/
def permDeny : Nat := 1
def permSlowmsgs : Nat := 2

/-- `perm2val`. -/
def perm2val (s : Bytes) : Nat :=
  (tokens (str "|") (s.length + 1) s).foldl (fun perm t =>
    if strcaseEq t (str "perm_deny") then perm ||| permDeny
    else if strcaseEq t (str "perm_slowmsgs") then perm ||| permSlowmsgs
    else perm) 0

/-- The lines `fgets` reads, each with its newline. -/
def fgetsLines : Nat → Bytes → Bytes → List Bytes
  | _, line, [] => if line = [] then [] else [line]
  | room, line, b :: bs =>
      if b = 10 ∨ room = 1 then (line ++ [b]) :: fgetsLines 8191 [] bs
      else fgetsLines (room - 1) (line ++ [b]) bs

/-- One line of the permission file: the permissions, if it is about this login. -/
def permLine (w : World) (n : Int) (login line : Bytes) : Option Nat := do
  let line := cstr line
  if line = [] ∨ line.head? = some 10 ∨ line.head? = some 9 ∨ line.head? = some 35 then none
  else do
    let (type, r) ← strtok (str " \t") line
    let (arg1, r) ← strtok (str " \t") r
    let (arg2, r) ← strtok (str " \t") r
    let (perms, _) ← strtok (str " \t\n") r
    if strcaseEq type (str "user") then
      if strcaseEq arg1 login && strcaseEq arg2 (w.uTab n).nodeid then some (perm2val perms) else none
    else if strcaseEq type (str "mask") then do
      let addr ← (w.sys.peer n).join
      if addr &&& Env.inetAddr arg2 = Env.inetAddr arg1 then some (perm2val perms) else none
    else none

/-- `get_perms`: `none` when the peer cannot be asked for. -/
def getPerms (w : World) (n : Int) (login : Bytes) : Option Nat :=
  if (w.sys.peer n).isNone then none
  else
    match w.sys.perms with
    | none => some 0
    | some file => some (((fgetsLines 8191 [] file).findSome? (permLine w n login)).getD 0)

/-- The scan of the access file: every word is matched against the address, and the text behind the
first that matches is the reason. -/
def denyScan (addr : Bytes) : Bytes → Bytes → Option Bytes
  | _, [] => none
  | word, b :: bs =>
      if isspace b then
        if wildmat addr (ucaseit word) then
          some ((bs.takeWhile (· ≠ 10)).filter (· ≠ 0) |>.take 254)
        else denyScan addr [] bs
      else denyScan addr (if b = 0 then word else (word ++ [b]).take 254) bs

/-! ## §6 — `loginmsg` -/

/-- The tests of `loginmsg` in front of the access file: the errors of a refusal, or the
permissions. -/
def loginChecks (w : World) (n : Int) (loginid nick : Bytes) : Except Bytes Nat :=
  if findUser w nick ≥ 0 then .error (str "Nickname already in use.")
  else if nick = [] ∨ nick.length > maxNickLen then
    .error (str "Nickname must be between 1 and " ++ decimal maxNickLen ++ str " characters.")
  else if loginid = [] ∨ loginid.length > maxIdLen then
    .error (str "Login id must be between 1 and " ++ decimal maxIdLen ++ str " characters.")
  else if ¬ loginid.all isalnum then
    .error (str "Login id must contain only alphanumeric characters.")
  else
    match getPerms w n loginid with
    | none => .error (str "getpeername() failed: " ++ w.sys.strerror)
    | some perms => if perms &&& permDeny ≠ 0 then .error (str "Login denied.") else .ok perms

/-- `loginid@nodeid` in upper case, with the login id of the packet. -/
def loginAddr (w : World) (n : Int) (loginid : Bytes) : Bytes :=
  ucaseit (loginid ++ str "@" ++ (w.uTab n).nodeid)

/-- The reason the access file gives. -/
def denied (w : World) (n : Int) (loginid : Bytes) : Option Bytes :=
  w.sys.access.bind (denyScan (loginAddr w n loginid) [])

/-- The group a login asks for. -/
def whichGroup (group : Bytes) : Bytes :=
  if group = [] then str "1" else group.take (maxNickLen + 3)

/-- `@nick` in the group field: the group of that user, unless it is secret. -/
def loginGroup (n : Int) (which : Bytes) : W (Option Bytes) :=
  if which.head? = some 64 then do
    let w ← getW
    let u ← getU n
    let t := findUser w which.tail
    if t < 0 then do
      senderror n (str "User not found or is in a secret or invisible group.")
      pure none
    else do
      let v ← getU t
      let g ← getG (findGroup w v.group)
      if g.visibility ≠ .visible ∧ ¬ strncmpEq (str "ADMIN") u.nickname maxNickLen then do
        senderror n (str "User not found or is in a secret or invisible group.")
        pure none
      else pure (some v.group)
  else pure (some which)

/-- The last members of the table entry. -/
def startSession (n : Int) : W Unit := do
  let w ← getW
  setLogin n .pending
  modUOpts n fun o =>
    { o with
      tOn := w.sys.now, tRecv := w.sys.now, tSent := w.sys.now
      priNHushed := nlinit maxHushed, pubNHushed := nlinit maxHushed
      priSHushed := nlinit maxHushed, pubSHushed := nlinit maxHushed
      nNotifies := nlinit maxNotifies, sNotifies := nlinit maxNotifies }

/-- A nick that needs no password: it is registered, unless `nickwrite` has done it. -/
def autoRegister (n : Int) : W Unit := do
  let u ← getU n
  whenever (u.realname ≠ registered) do
    setRealname n registered
    sendstatus n (str "Register") (str "Nick registered")
    nickwritetime n false
    regainMods n
    mailNotice n

/-- Do we know this person? The record is checked silently, then the password of the packet, if there
is one, against the record. -/
def authenticate (n : Int) : W Unit := do
  let u ← getU n
  let ret ← nicklookup (-n) u.nickname
  let ok ← (if ret = -2 ∧ u.password ≠ [] then nickwrite n u.password true else pure false)
  whenever (ret = -2 ∧ ok = false) (offerMods n)
  if ret = 0 ∨ ok then autoRegister n
  else whenever (ret ≠ -2) do
    sendstatus n (str "No-Pass") (str "Your nickname does not have a password.")
    sendstatus n (str "No-Pass") (str "For help type /m server ?")

/-- The groups the new user is invited to and, unless `nickwrite` has told him, may talk in. -/
def reportGroups (n : Int) : W Unit := do
  let u ← getU n
  each (slots maxGroups) fun i => do
    let g ← getG i
    whenever (isInvited u g) (sendsCmdout n (str "Invited to: " ++ g.name))
  whenever (u.realname ≠ registered) (each (slots maxGroups) (talkReport n))

/-- Those who asked to be told hear of the new user, unless his group is invisible. -/
def notifyOn (n : Int) : W Unit := do
  let u ← getU n
  each (slots Env.maxUsers) fun j => do
    let v ← getU j
    whenever (n ≠ j ∧ v.login = .complete ∧
        (nlmatch (ucaseit u.nickname) v.nNotifies ∨ nlmatch (ucaseit (address u)) v.sNotifies)) do
      let w ← getW
      let g ← getG (findGroup w u.group)
      whenever (g.visibility ≠ .supersecret)
        (sendstatus j (str "Notify-On")
          (snprintf 255 (u.nickname ++ str " (" ++ ucaseit (address u) ++
            str ") has just signed on")))

/-- A login whose entry has been filled in and whose group is known. -/
def enterServer (n : Int) (group : Bytes) : W Int := do
  startSession n
  let u ← getU n
  sendsCmdout n (str "Welcome to ICB " ++ u.nickname)
  authenticate n
  reportGroups n
  let ok ← sChange n group true
  if ok then do
    setLogin n .complete
    modMisc fun m => { m with stats := { m.stats with signons := m.stats.signons + 1 } }
    notifyOn n
    pure 0
  else pure (-1)

/-- The login proper, once the nickname and the address are accepted. -/
def acceptLogin (n : Int) (loginid nick group password : Bytes) (perms : Nat) : W Int := do
  let u ← getU n
  let name := filternickname nick
  fillUserEntry n loginid u.nodeid name password [] [] .no 0 0 perms
  let w ← getW
  if strcaseEq name (str "admin") ∧ ¬ checkAuth w n then do
    senderror n (str "Nickname already in use.")
    pure (-1)
  else do
    sendLoginok n
    sMotd n
    let g ← loginGroup n (whichGroup group)
    if g.isSome then enterServer n (g.getD []) else pure (-1)

/-- The permissions are shown and the access file is asked. -/
def passAccess (n : Int) (loginid nick group password : Bytes) (perms : Nat) : W Int := do
  let w ← getW
  let reason := denied w n loginid
  whenever (perms ≠ 0)
    (sendstatus n (str "Permissions") (if perms &&& permSlowmsgs ≠ 0 then str "slowmsgs" else []))
  if reason.isSome then do
    senderror n (str "Login refused for " ++ loginAddr w n loginid)
    senderror n (str "Reason: " ++ reason.getD [])
    pure (-1)
  else acceptLogin n loginid nick group password perms

/-- A regular login. -/
def login (n : Int) (loginid nick group password : Bytes) : W Int := do
  let w ← getW
  match loginChecks w n loginid nick with
  | .error e => do
      senderror n e
      pure (-1)
  | .ok perms => passAccess n loginid nick group password perms

/-- `loginmsg`. -/
def loginmsg (n : Int) (pkt : Bytes) : M Int := do
  let u ← onWorld (getU n)
  if u.login ≠ .no then onWorld do
    senderror n (str "Already logged in.")
    pure 1
  else do
    let k ← split pkt
    if k < 4 then pure (-1)
    else do
      let f0 ← getField 0
      let f1 ← getField 1
      let f2 ← getField 2
      let f3 ← getField 3
      if strcaseEq f3 (str "w") then onWorld do
        sWho n []
        pure (-1)
      else if strcaseEq f3 (str "wg") then onWorld do
        sWho n f2
        pure (-1)
      else if strcaseEq f3 (str "login") then do
        -- the test above asks for four fields, the password is the fifth
        let f4 ← getField 4
        onWorld (login n f0 f1 f2 f4)
      else onWorld do
        senderror n (str "Unknown login type \"" ++ f3 ++ str "\"")
        pure (-1)

/-! ## §7 — `dispatch` -/

/-- `pong`. -/
def pong (n : Int) : W Unit := do
  let w ← getW
  let u ← getU n
  let t := w.pingTime n
  -- `timersub`
  let secs := w.sys.now - t.1 - (if w.sys.usec < t.2 then 1 else 0)
  let usecs := w.sys.usec - t.2 + (if w.sys.usec < t.2 then 1000000 else 0)
  whenever (u.login = .complete) do
    if w.pongReq n ≠ -1 then do
      sendstatus (w.pongReq n) (str "PONG") (u.nickname ++ str " client responded in " ++
        decimal secs ++ str "." ++ decimal02 (usecs.tdiv 10000) ++ str " seconds.")
      modMisc fun m =>
        { m with pongReq := Function.update m.pongReq n (-1)
                 pingTime := Function.update m.pingTime n (0, 0) }
    else do
      sendstatus n (str "PONG")
        (str "You were pinged, but they aren't there to receive your pong.")

/-- A refused login: the client is told to go and marked. -/
def refuse (n : Int) : W Unit := do
  sendexit n
  modMisc fun m => { m with sKill := Function.update m.sKill n (toInt16 (m.sKill n + 1)) }

/-- The packet types the server sends but does not take. -/
def unhandledTypes : List (UInt8 × String) :=
  [(pktPersonal, "ICB_M_PERSONAL"), (pktStatus, "ICB_M_STATUS"), (pktError, "ICB_M_ERROR"),
   (pktImportant, "ICB_M_IMPORTANT"), (pktExit, "ICB_M_EXIT"), (pktCmdout, "ICB_M_CMDOUT"),
   (pktProto, "ICB_M_PROTO"), (pktBeep, "ICB_M_BEEP"), (pktPing, "ICB_M_PING")]

/-- The error for a packet of any other type. -/
def badType (n : Int) (pkt : Bytes) : W Unit :=
  match unhandledTypes.find? (fun t => some t.1 = pkt.head?) with
  | some t => senderror n (str "Server doesn't handle " ++ str t.2 ++ str " packets")
  | none =>
      senderror n (decimal n ++ str ": Invalid packet type \"" ++
        (match pkt with
          | [] => []
          | b :: _ => [b] ++ str "\" (" ++ pkt ++ str ")"))

/-- The login case of `dispatch`. -/
def loginCase (n : Int) (text : Bytes) : M Unit :=
  if n ≥ maxRealUsers then onWorld do
    senderror n (str "ICB is full.")
    sendexit n
    pktservDisconnect n
  else do
    let r ← loginmsg n text
    onWorld (whenever (r < 0) (refuse n))

/-- The other cases of `dispatch`. -/
def otherCase (n : Int) (pkt : Bytes) : M Unit :=
  if pkt.head? = some pktOpen then openmsg n pkt.tail
  else if pkt.head? = some pktCommand then cmdmsg pkt.length n pkt.tail
  else if pkt.head? = some pktPong then onWorld (pong n)
  else if pkt.head? = some pktNoop then pure ()
  else onWorld (badType n pkt)

/-- `dispatch`, with the contents of the packet up to the first NUL. -/
def dispatch (n : Int) (contents : Bytes) : M Unit :=
  if (cstr contents).head? = some pktLogin then loginCase n (cstr contents).tail
  else otherCase n (cstr contents)

end Icbd.Server
