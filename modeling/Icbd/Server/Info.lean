/-
# Icbd.Server.Info — listings, files and the administrator's commands.

`s_who.c`, `s_motd.c`, `s_info.c`, `s_news.c`, `s_shuttime.c`, `s_stats.c`, `s_version.c` and
`s_admin.c`. `SORT_BY_NICKNAME` is not defined. A restart hands the tables to a new process; here the
process ends.
-/
import Icbd.Server.User

namespace Icbd.Server

open Icbd.Lib

variable [Env]

/-! ## §1 — `s_who` -/

/-- Insertion in front of the first entry that is not to stay before the new one. -/
def insertSorted (after : Int → Int → Bool) (x : Int) (xs : List Int) : List Int :=
  xs.takeWhile (after x) ++ x :: xs.dropWhile (after x)

/-- The order the listing builds up, entry by entry. -/
def sortSlots (after : Int → Int → Bool) (xs : List Int) : List Int :=
  xs.foldl (fun acc x => insertSorted after x acc) []

/-- The slots whose group is `gi`. -/
def membersOf (w : World) (gi : Int) : List Int :=
  (slots Env.maxUsers).filter fun i => groupOf w i = gi

/-- The names of `pgm_short`; `left` counts down from the size of the group. -/
def shortNames (n : Int) : Int → List Bytes → Bytes → W Bytes
  | _, [], line => pure line
  | left, x :: xs, line => do
      let line ← addItem n x line
      let line ← (if left - 1 ≠ 0 then addItem n (str ", ") line else pure line)
      shortNames n (left - 1) xs line

/-- `pgm_short`. -/
def pgmShort (n gi : Int) : W Unit := do
  let w ← getW
  let line ← addItem n (str "    Members: ") []
  let line ← shortNames n (countUsersInGroup w (w.gTab gi).name)
    ((membersOf w gi).map fun i => (w.uTab i).nickname) line
  whenever (line ≠ []) (sendsCmdout n line)

/-- The marks behind a name: not registered, away, on a secure connection. -/
def wlineStatus (u : User) : Bytes :=
  let nr := u.realname = []
  let aw := u.awaymsg ≠ []
  if nr ∨ aw ∨ u.secure then
    str "(" ++ (if nr then str "nr" else []) ++
      (if aw then (if nr then str "," else []) ++ str "aw" else []) ++
      (if u.secure then (if nr ∨ aw then str "," else []) ++ str "ssl" else []) ++ str ")"
  else []

/-- `pgm_long`. -/
def pgmLong (n gi : Int) : W Unit := do
  let w ← getW
  whenever (countUsersInGroup w (w.gTab gi).name ≥ 2) (userWhead n)
  each (sortSlots (fun x y => (w.uTab x).tGroup > (w.uTab y).tGroup) (membersOf w gi)) fun i => do
    let u ← getU i
    userWline n (if (w.gTab gi).mod = i then str "m" else str " ") u.nickname
      (toInt32 (w.sys.now - u.tRecv)) 0 (toInt32 u.tOn) u.loginid u.nodeid (wlineStatus u)

/-- The invitation test of the listings. -/
def isInvitedListed (u : User) (g : Group) : Bool :=
  let addr := ucaseit (address u)
  nlpresent u.nickname g.nInvites || (nlpresent u.nickname g.nrInvites && u.realname ≠ []) ||
    nlmatch addr g.sInvites || (nlmatch addr g.sInvites && u.realname ≠ []) ||
    strncmpEq (str "ADMIN") u.nickname maxNickLen

/-- The letters of the settings. -/
def optionLetters (g : Group) : Bytes :=
  (match g.control with
    | .pub => str "p" | .moderated => str "m" | .restricted => str "r" | .controlled => str "c") ++
  (match g.visibility with
    | .visible => str "v" | .secret => str "s" | .supersecret => str "i") ++
  (match g.volume with | .quiet => str "q" | .normal => str "n" | .loud => str "l")

/-- `print_group_header`. -/
def printGroupHeader (n gi : Int) : W Unit := do
  let w ← getW
  let u ← getU n
  let g ← getG gi
  let m ← (if g.mod < 0 then pure [] else do let v ← getU g.mod; pure v.nickname)
  let theMod :=
    if g.mod < 0 then
      if g.modtimeout = 0 then str "(None)"
      else g.missingmod ++ str " (" ++ decimal (toInt32 (g.modtimeout - w.sys.now)) ++ str ")"
    else m
  let topic := if g.topic = [] then str "(None)" else g.topic
  let name :=
    if g.visibility = .visible then g.name
    else if groupOf w n ≠ gi ∧ ¬ isInvitedListed u g then str "-SECRET-"
    else str "*" ++ g.name ++ str "*"
  sendsCmdout n (str " ")
  sendsCmdout n (str "Group: " ++ padRight 8 name ++ str " (" ++ optionLetters g ++ str ") Mod: " ++
    padRight 13 theMod ++ str " Topic: " ++ topic)

/-- The flags of `s_who`. -/
inductive WhoFlags
  | none
  | groupOnly
  | short
  deriving DecidableEq, Repr

/-- `doOne`. -/
def doOne (n : Int) (flags : WhoFlags) (name : Bytes) : W Unit := do
  let w ← getW
  let gi := findGroup w name
  if gi ≥ 0 then do
    printGroupHeader n gi
    if flags = .groupOnly then pure ()
    else if flags = .short then pgmShort n gi
    else pgmLong n gi
  else senderror n (str "The group " ++ name ++ str " doesn't exist.")

/-- The number of groups, without `ICB` when the automatic user is alone there. -/
def countGroups (w : World) : Nat :=
  ((slots maxGroups).filter fun i =>
    (w.gTab i).name ≠ [] ∧
      ((w.gTab i).name ≠ str "ICB" ∨ countUsersInGroup w (str "ICB") > 1)).length

/-- The number of users who have started to log in. -/
def countLoggedIn (w : World) : Nat :=
  ((slots maxRealUsers).filter fun i => (w.uTab i).login ≠ .no).length

/-- `doAll`. -/
def doAll (n : Int) (flags : WhoFlags) : W Unit := do
  let w ← getW
  let u ← getU n
  let listed := (slots maxGroups).filter fun i =>
    (w.gTab i).name ≠ [] ∧
      ((w.gTab i).visibility ≠ .supersecret ∨ isInvitedListed u (w.gTab i) ∨ i = groupOf w n)
  each (sortSlots (fun x y => strcaseGt (w.gTab x).name (w.gTab y).name) listed) fun i =>
    doOne n flags (w.gTab i).name
  let users := countLoggedIn w
  let groups := countGroups w
  sendsCmdout n
    (if users = 0 then str "No users found."
     else str "Total: " ++ decimal users ++ (if users > 1 then str " users in " else str " user in ") ++
       decimal groups ++ (if groups > 1 then str " groups" else str " group"))

/-- `s_who`. -/
def sWho (n : Int) (arg : Bytes) : W Unit := do
  let w ← getW
  let u ← getU n
  let flags : WhoFlags :=
    if strcaseEq (getword arg) (str "-g") then .groupOnly
    else if strcaseEq (getword arg) (str "-s") then .short
    else .none
  let word := if flags = .none then getword arg else getword (getTail arg)
  if strcaseEq (getword arg) (str "?") then
    sendsCmdout n (str "Usage: /w {-g | -s} {groupname}")
  else if word = [] then doAll n flags
  else if arg.head? = some 64 then do
    let t := findUser w arg.tail
    if t < 0 then senderror n (str "User not found.")
    else do
      let v ← getU t
      let g ← getG (findGroup w v.group)
      if g.visibility = .supersecret ∧ ¬ strncmpEq (str "ADMIN") u.nickname maxNickLen then
        senderror n (str "User not found.")
      else doOne n flags (if v.group = str "." then u.group else v.group)
  else
    let name := word.take maxGroupLen
    doOne n flags (if name = str "." then u.group else name)

/-! ## §2 — files -/

/-- The lines of the message of the day: `%U` is the time the server started, `%c` any other
character, and a line keeps at most 255 characters. -/
def motdLines (signon : Option Bytes) : Bytes → Bytes → List Bytes
  | _, [] => []
  | _, [37] => []
  | line, 37 :: b :: bs =>
      motdLines signon ((if b = 85 then line ++ signon.getD [] else line ++ [b]).take 255) bs
  | line, b :: bs =>
      if b = 10 then cstr line :: motdLines signon [] bs
      else motdLines signon ((line ++ [b]).take 255) bs

/-- `s_motd`. -/
def sMotd (n : Int) : W Unit := do
  let w ← getW
  let signon ← dbGet (str "server") "signon"
  if w.sys.motd.isSome then each (motdLines signon [] (w.sys.motd.getD [])) (sendsCmdout n)
  else senderror n (str "No MOTD file found.")

/-- The rule above and below a news item. -/
def newsRule : Bytes := str "--------------------------------------"

/-- `s_news`. -/
def sNews (n : Int) (arg : Bytes) : W Unit := do
  let w ← getW
  if arg = [] ∨ arg = str "(null)" then do
    let items := ((slots 10).drop 1).filterMap fun i => w.sys.news (decimal i)
    whenever (items ≠ []) (sendsCmdout n newsRule)
    each items fun item => do
      each (fileLines 254 item) (sendsCmdout n)
      sendsCmdout n newsRule
    whenever (items = []) (sendstatus n (str "News") (str "No news."))
  else if (w.sys.news arg).isSome then do
    sendsCmdout n newsRule
    each (fileLines 254 ((w.sys.news arg).getD [])) (sendsCmdout n)
    sendsCmdout n newsRule
  else senderror n (str "Entry not found.")

/-! ## §3 — information -/

/-- An idle time in one unit. -/
def idleText (idle : Int) : Bytes :=
  if idle < 60 then decimal idle ++ str "s"
  else if idle < 3600 then decimal (idle.tdiv 60) ++ str "m"
  else if idle < 86400 then decimal (idle.tdiv 3600) ++ str "h"
  else decimal (idle.tdiv 86400) ++ str "d"

/-- `s_info`: with no name, whoever sent the last private message. -/
def sInfo (n : Int) (arg : Bytes) : W Unit := do
  let w ← getW
  let name := (getword arg).take 19
  let i := if name = [] then w.lprivId n else findUser w name
  if i < 0 then sendsCmdout n (str "Nickname not found.")
  else do
    let u ← getU i
    sendsCmdout n (padRight 14 u.nickname ++ str " " ++ address u ++ str " (" ++ w.sys.peerName i ++
      str ") " ++ idleText (toInt32 (w.sys.now - u.tRecv)) ++
      (if u.awaymsg ≠ [] then str " (aw)" else []))

/-- `s_shuttime`. -/
def sShuttime (n : Int) : W Unit := do
  let w ← getW
  let left := w.timeToDie - w.sys.now
  sendstatus n (str "Shutdown")
    (if w.timeToDie < 0 then str "No shutdown time scheduled."
     else if left ≥ 3600 then
       decimal (left.tdiv 3600) ++ str " hour(s), " ++ decimal ((left.tmod 3600).tdiv 60) ++
         str " minute(s) left until scheduled shutdown."
     else if left > 60 then
       decimal (left.tdiv 60) ++ str " minute(s) left until scheduled shutdown."
     else decimal (toInt32 left) ++ str " second(s) left until scheduled shutdown!")

/-- `s_version`. -/
def sVersion (n : Int) : W Unit := do
  sendsCmdout n version
  sendsCmdout n (str "Proto Level: " ++ decimal protoLevel ++ str " Max Users: " ++
    decimal maxRealUsers ++ str " Max Groups: " ++ decimal maxGroups)

/-- `s` unless there is one. -/
def ending (i : Int) (s : String) : Bytes := if i ≠ 1 then str s else []

/-- `s_server_stats`; `reset` when the only argument asks for it. -/
def sServerStats (n : Int) (reset : Bool) : W Unit := do
  let w ← getW
  let st := w.stats
  let away := ((slots maxRealUsers).filter fun i =>
    (w.uTab i).login ≠ .no ∧ (w.uTab i).awaymsg ≠ []).length
  if reset then
    if ¬ checkAuth w n then senderror n (str "You are not authorized to do this.")
    else do
      modMisc fun m => { m with stats := { startTime := w.sys.now } }
      sendstatus n (str "Stats") (str "Stats have been reset.")
  else do
    sendsCmdout n (str "Server Settings:")
    sendsCmdout n (str "  " ++ version ++ str ", Protocol Level " ++ decimal protoLevel)
    sendsCmdout n (str "  Max Users: " ++ decimal maxRealUsers ++ str " Max Groups: " ++
      decimal maxGroups)
    sendsCmdout n (str "Server Stats:")
    sendsCmdout n (str "  Started: " ++ Env.ctime st.startTime)
    sendsCmdout n (str "  " ++ decimal st.signons ++ str " signon" ++ ending st.signons "s" ++
      str ", " ++ decimal st.boots ++ str " boot" ++ ending st.boots "s" ++ str ", " ++
      decimal st.drops ++ str " drop" ++ ending st.drops "s")
    sendsCmdout n (str "  " ++ decimal st.idleboots ++ str " idleboot" ++ ending st.idleboots "s" ++
      str ", " ++ decimal st.idlemods ++ str " idlemod pass" ++ ending st.idlemods "es")
    sendsCmdout n (str "  " ++ decimal (countLoggedIn w) ++ str " user" ++
      ending (countLoggedIn w) "s" ++ str " in " ++ decimal (countGroups w) ++ str " group" ++
      ending (countGroups w) "s" ++ str " (" ++ decimal away ++ str " away user" ++
      ending away "s" ++ str ")")

/-! ## §4 — the administrator -/

/-- An important message to everybody who has started to log in. -/
def importAll (cls msg : Bytes) : W Unit :=
  each (slots maxRealUsers) fun i => do
    let u ← getU i
    whenever (u.login ≠ .no) (sendimport i cls msg)

/-- What anybody but the administrator is told. -/
def notAuthorized (n : Int) : W Unit := senderror n (str "You are not authorized to do this.")

/-- `s_log`. -/
def sLog (n : Int) (arg : Bytes) : W Unit := do
  let w ← getW
  let level := max 0 (atoi (getword arg))
  if ¬ checkAuth w n then notAuthorized n
  else do
    whenever (arg ≠ []) (modMisc fun m => { m with logLevel := level })
    sendsCmdout n (str "The log level is " ++ decimal (if arg ≠ [] then level else w.logLevel))

/-- `s_drop`. -/
def sDrop (n : Int) (arg : Bytes) : W Unit := do
  let w ← getW
  let victim := findUser w (getword arg)
  let ok ← valuser (w.uTab victim).nickname (getword (getTail arg))
  if victim < 0 then senderror n (str "User not found.")
  else if checkAuth w n then pktservDisconnect victim
  else if ok = 0 then do
    sendstatus victim (str "Drop") (str "You have been disconnected by " ++ (w.uTab n).nickname)
    modMisc fun m =>
      { m with sKill := Function.update m.sKill victim (toInt16 (m.sKill victim + 1)) }
  else senderror n (str "Authentication failure.")

/-- `s_shutdown`, for the administrator. -/
def sShutdown (arg : Bytes) : W Unit := do
  let w ← getW
  importAll (str "Shutdown") (str "Server going down in " ++ decimal (atol arg) ++
    str " minute(s)!")
  modMisc fun m =>
    { m with timeToDie := w.sys.now + 60 * atol arg
             shutdownNotify := if atol arg < 300 then 1 else 0 }

/-- `s_restart`, for the administrator. -/
def sRestart (n : Int) (quiet : Bool) : W Unit := do
  if quiet then
    sendimport n (str "Quiet-Restart") (str "Server restarting...please be patient.")
  else importAll (str "Restart") (str "Server restarting...please be patient.")
  modMisc fun m => { m with halted := true }

/-- `s_wall`, for the administrator. -/
def sWall (arg : Bytes) : W Unit := importAll (str "WALL") arg

end Icbd.Server
