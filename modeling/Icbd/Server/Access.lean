/-
# Icbd.Server.Access — registered nicknames (`access.c`).

A nickname's record is the set of keys `nick.attribute`. `icbdb_open` and `icbdb_close` only count
references in the default mode, so a failed open shows in each access and nowhere else.
-/
import Icbd.Server.Send

namespace Icbd.Server

open Icbd.Lib

variable [Env]

/-! ## §1 — authority -/

/-- `check_auth`. -/
def checkAuth (w : World) (n : Int) : Bool :=
  strcaseEq (w.uTab n).nickname (str "ADMIN") && strcaseEq (w.uTab n).password Env.adminPwd

/-- A password argument, cut in place. -/
def cutPassword (password : Bytes) : Bytes := password.take maxPasswdLen

/-- `valuser`. -/
def valuser (user password : Bytes) : W Int := do
  let v ← dbGet user "password"
  pure (if password = [] then -1
        else if v = none then -1
        else if v = some (cutPassword password) then 0 else -1)

/-- `setsecure`; the callers pass 0 or 1. -/
def setsecure (n : Int) (secure : Bool) : W Unit := do
  let u ← getU n
  if u.realname = [] then senderror n (str "You must be registered to change your security.")
  else if secure then do
    dbSet u.nickname "secure" (str "SECURED")
    sendsCmdout n (str "Security set to password required.")
  else do
    dbDelete u.nickname "secure"
    sendsCmdout n (str "Security set to automatic.")

/-! ## §2 — the record -/

/-- The attributes `nickdelete` removes beside the mailbox. -/
def recordKeys : List String :=
  ["secure", "realname", "email", "signon", "signoff", "nick", "password", "phone", "text", "home",
   "addr", "nummsg", "www"]

/-- `nickdelete`. -/
def nickdelete (n : Int) (password : Bytes) : W Unit := do
  let u ← getU n
  let v ← dbGet u.nickname "password"
  if password = [] then senderror n (str "Password cannot be null")
  else if u.realname = [] then senderror n (str "You must be registered to delete your entry.")
  else if v = none then senderror n (str "You don't have a password.")
  else if v ≠ some (cutPassword password) then senderror n (str "Password incorrect.")
  else do
    each recordKeys fun k => dbDelete u.nickname k
    each (slots maxWrites) fun i => do
      dbDelete u.nickname (numbered "header" (i + 1))
      dbDelete u.nickname (numbered "message" (i + 1))
      dbDelete u.nickname (numbered "from" (i + 1))
    sendsCmdout n (str "Record Deleted")

/-- `nickwritetime`: class 0 is a sign-on, any other a sign-off. A sign-off is stored only for a nick
that is still in the database. -/
def nickwritetime (n : Int) (signoff : Bool) : W Unit := do
  let w ← getW
  let u ← getU n
  let known ← dbGet u.nickname "nick"
  let time := (Env.strftime w.sys.now).take 254
  whenever (u.realname ≠ []) do
    if signoff then whenever known.isSome (dbSet u.nickname "signoff" time)
    else dbSet u.nickname "signon" time

/-- `nickchinfo`. -/
def nickchinfo (n : Int) (tag : String) (data : Bytes) (max : Nat) (message : Bytes) : W Unit := do
  let u ← getU n
  if u.realname = [] then
    senderror n (str "Setting your name requites that you be registered.")
  else do
    let kept := data.take max
    whenever (data.length > max)
      (senderror n (snprintf 255 (message.take 80 ++ str " truncated to " ++ decimal max ++
        str " characters")))
    dbSet u.nickname tag kept
    sendsCmdout n (snprintf 255 (message.take 80 ++ str " set to '" ++ kept.take 160 ++ str "'"))

/-- `nickchpass`. -/
def nickchpass (n : Int) (oldpw newpw : Bytes) : W Unit := do
  let u ← getU n
  let v ← dbGet u.nickname "password"
  if v ≠ some (cutPassword oldpw) then senderror n (str "Authorization failure")
  else if newpw = [] then senderror n (str "Missing paramater")
  else do
    dbSet u.nickname "password" (cutPassword newpw)
    sendstatus n (str "Pass") (str "Password changed")
    dbSet u.nickname "home" (snprintf 255 (address u))

/-! ## §3 — the mailbox -/

/-- `nickwritemsg`. -/
def nickwritemsg (n : Int) (user message : Bytes) : W Unit := do
  let w ← getW
  let u ← getU n
  let known ← dbGet user "nick"
  let stored ← dbGet user "nummsg"
  let count : Int := toInt32 (atoi (stored.getD (str "0")) + 1)
  if user = [] ∨ message = [] then sendsCmdout n (str "Usage: write nickname message text")
  else if u.realname = [] then senderror n (str "You must be registered to write a message.")
  else if known = none then senderror n (user ++ str " is not registered")
  else if count > maxWrites then senderror n (str "User mailbox full")
  else do
    let time := (Env.strftime w.sys.now).take 127
    dbSet user (numbered "header" count)
      (snprintf 255 (str "Message left at " ++ time ++ str ":"))
    dbSet user (numbered "from" count) u.nickname
    dbSet user (numbered "message" count) (filtertext message (4096 - 1))
    dbSet user "nummsg" (decimal count)
    sendstatus n (str "Message") (str "Text saved to file")
    let i := findUser w user
    whenever (i > 0) do
      let other ← getU i
      sendstatus n (str "Warning") (other.nickname ++ str " is logged in now.")
      sendstatus i (str "Message") (str "You have " ++ decimal count ++ str " message" ++
        (if count > 1 then str "s" else []))

/-- `nickckmsg`. -/
def nickckmsg (n : Int) : W Int := do
  let u ← getU n
  let stored ← dbGet u.nickname "nummsg"
  if u.realname = [] then pure (-1)
  else do
    whenever (stored = none) (dbSet u.nickname "nummsg" (str "0"))
    pure (atoi (stored.getD (str "0")))

/-- The notice about waiting mail after `nickckmsg`. -/
def mailNotice (n : Int) : W Unit := do
  let i ← nickckmsg n
  whenever (i > 0)
    (sendstatus n (str "Message")
      (if i = 1 then str "You have 1 message"
       else str "You have " ++ decimal i ++ str " messages"))

/-! ## §4 — moderatorship that waits for its owner -/

/-- The loop in `nickwrite`, `loginmsg` and `s_name` that gives a nick the groups it had when it
signed off. -/
def regainMods (n : Int) : W Unit :=
  each ((slots maxGroups).drop 1) fun i => do
    let u ← getU n
    let g ← getG i
    whenever (g.modtimeout > 0 ∧ g.missingmod = u.nickname) do
      setMissing i [] 0
      setMod i n
      each ((slots maxRealUsers).drop 1) fun j => do
        let v ← getU j
        whenever (strcaseEq v.group g.name ∧ j ≠ n)
          (sendstatus j (str "Mod") (u.nickname ++ str " is the active moderator again."))
      sendstatus n (str "Mod") (str "You are the moderator of group " ++ g.name)

/-- The groups whose missing moderator has this nick. -/
def missingGroups (w : World) (nick : Bytes) : List Int :=
  (slots maxGroups).filter fun i => strcaseEq nick (w.gTab i).missingmod

/-- The notices in `loginmsg` and `s_name` for a nick that still has to send its password. -/
def offerMods (n : Int) : W Unit := do
  let w ← getW
  let u ← getU n
  sendstatus n (str "Register") (str "Send password to authenticate your nickname.")
  let waiting := missingGroups w u.nickname
  each waiting fun i => do
    let g ← getG i
    sendstatus n (str "Mod") (str "You are moderator of group " ++ g.name)
  whenever (waiting.length = 1)
    (sendstatus n (str "Mod")
      (str "You must register using /p <password> to regain mod of the above group."))
  whenever (waiting.length > 1)
    (sendstatus n (str "Mod")
      (str "You must register using /p <password> to regain mod of the above groups."))

/-- `talk_report`. -/
def talkReport (n i : Int) : W Unit := do
  let u ← getU n
  let g ← getG i
  whenever (nlpresent u.nickname g.nTalk ∨ nlpresent u.nickname g.nrTalk ∧ u.realname ≠ [])
    (sendsCmdout n (str "Talk permission in: " ++ g.name))

/-! ## §5 — registration -/

/-- The word `realname` holds for an authenticated nick. -/
def registered : Bytes := str "registered"

/-- `strcpy(u_tab[n].password, password)`. -/
def setPassword (n : Int) (password : Bytes) : W Unit := do
  let u ← getU n
  setIdent n u.loginid u.nodeid password

/-- `nickwrite`: create the record of a nick, or check the password against it. The answer is whether
it returned 0. -/
def nickwrite (n : Int) (password : Bytes) (verifyOnly : Bool) : W Bool := do
  let u ← getU n
  let v ← dbGet u.nickname "password"
  if password = [] then do
    senderror n (str "Password cannot be null")
    pure false
  else if v = none then
    if verifyOnly then do
      senderror n (str "[ERROR] Nick " ++ u.nickname ++ str " not found")
      pure false
    else do
      dbSet u.nickname "password" (cutPassword password)
      dbSet u.nickname "nick" u.nickname
      dbSet u.nickname "home" (snprintf 255 (address u))
      sendstatus n (str "Register") (str "Nick registered")
      setRealname n registered
      nickwritetime n false
      setPassword n (cutPassword password)
      pure true
  else if v ≠ some (cutPassword password) then do
    senderror n (str "Authorization failure")
    setRealname n []
    pure false
  else do
    sendstatus n (str "Register") (str "Nick registered")
    setRealname n registered
    nickwritetime n false
    setPassword n (cutPassword password)
    regainMods n
    mailNotice n
    each ((slots maxGroups).drop 1) (talkReport n)
    pure true

/-! ## §6 — `nicklookup` -/

/-- One line of the reply, filled to its second column. -/
def twoColumns (left : Bytes) (right : Bytes) : Bytes := padRight 36 left ++ right

/-- The lines of the street address. `temp` is left with the last of them. -/
def addrLines : Bytes → Bytes → List Bytes × Bytes
  | temp, [] => ([temp], temp)
  | temp, b :: bs =>
      if b = 124 then
        let r := addrLines (str "  ") bs
        (temp :: r.1, r.2)
      else addrLines (temp ++ [b]) bs

/-- The bytes of `line` from `i` up to `j`. -/
def between (line : Bytes) (i j : Nat) : Bytes := (line.take j).drop i

/-- The word-wrapping loop: `s`, `p` and `lastw` are positions in `line`, `temp` is the line buffer. -/
def textLines (line : Bytes) : Nat → Nat → Nat → Nat → Nat → Bytes → List Bytes
  | 0, _, _, _, _, _ => []
  | fuel + 1, s, p, lastw, count, temp =>
      if line.length ≤ p then
        [(if count > 0 then str "Text: " else temp) ++ line.drop s]
      else if line.getD p 0 = 10 then
        let t := str "Text: " ++ between line s p
        t :: textLines line fuel (p + 1) (p + 1) (p + 1) 0 t
      else
        let lastw := if line.getD p 0 = 32 then p else lastw
        if count = maxTextLen - 1 then
          if p - lastw > 40 then
            let t := str "Text: " ++ between line s (p - 1) ++ str "-"
            t :: textLines line fuel (p - 1) (p - 1) (p - 1) 0 t
          else
            let t := str "Text: " ++ between line s lastw
            t :: textLines line fuel (lastw + 1) (lastw + 1) (lastw + 1) 0 t
        else textLines line fuel s (p + 1) lastw (count + 1) temp

/-- The reply of `nicklookup` to a user: the record under a nick. -/
def showRecord (n : Int) (nick home : Bytes) : W Unit := do
  let name ← dbGet nick "nick"
  let phone ← dbGet nick "phone"
  let realname ← dbGet nick "realname"
  let signon ← dbGet nick "signon"
  let signoff ← dbGet nick "signoff"
  let email ← dbGet nick "email"
  let www ← dbGet nick "www"
  let addr ← dbGet nick "addr"
  let text ← dbGet nick "text"
  sendsCmdout n (twoColumns (str "Nickname:     " ++ (name.getD []).take maxNickLen)
    (str "Address:   " ++ home))
  sendsCmdout n (twoColumns (str "Phone Number: " ++ phone.getD (str "(None)"))
    (str "Real Name: " ++ realname.getD (str "(None)")))
  sendsCmdout n (twoColumns (str "Last signon:  " ++ signon.getD (str "(unknown)"))
    (str "Last signoff:  " ++ signoff.getD (str "(unknown)")))
  whenever email.isSome (sendsCmdout n (str "E-mail addr:  " ++ email.getD []))
  whenever www.isSome (sendsCmdout n (str "WWW:  " ++ www.getD []))
  let lines := addrLines (str "  ") ((addr.getD []).take 254)
  whenever addr.isSome do
    sendsCmdout n (str "Street Address:")
    each lines.1 (sendsCmdout n)
  -- the buffer the text is wrapped in still holds the last address line
  let temp := if addr.isSome then lines.2 else []
  let line := (text.getD []).take 254
  whenever text.isSome
    (each (textLines line (64 * (line.length + 1)) 0 0 0 0 temp) (sendsCmdout n))

/-- The silent check of `nicklookup`: does the record let this address in without a password? -/
def homeAdmits (home : Bytes) (secure : Option Bytes) (u : User) : Bool :=
  strcaseEq home (address u) && secure.isNone

/-- `nicklookup`. A negative `forWhom` asks for a silent check on behalf of slot `-forWhom`. -/
def nicklookup (forWhom : Int) (theNick : Bytes) : W Int := do
  let home ← dbGet theNick "home"
  if theNick = [] then do
    whenever (forWhom > 0 ∧ forWhom < maxRealUsers)
      (sendsCmdout forWhom (str "Usage: whois nickname"))
    pure (-1)
  else if theNick.length > maxNickLen then do
    senderror forWhom (str "nickname too long")
    pure (-1)
  else if home.isSome then
    if forWhom ≥ 0 then do
      showRecord forWhom theNick (home.getD [])
      pure 0
    else do
      let u ← getU (-forWhom)
      let secure ← dbGet theNick "secure"
      pure (if homeAdmits (home.getD []) secure u then 0 else -2)
  else do
    whenever (forWhom ≥ 0) (senderror forWhom (theNick ++ str " is not in the database."))
    pure (-1)

/-! ## §7 — leaving -/

/-- `clear_user_item`. -/
def clearUserItem (n : Int) : W Unit := do
  let u ← getU n
  whenever (u.login ≠ .no) (nickwritetime n true)
  setIdent n [] [] []
  setNickname n []
  setRealname n []
  setUserGroup n []
  setLogin n .no
  modUOpts n fun u =>
    { u with
      awaymsg := [], lastaway := 0, lastawaytime := 0, echoback := 0, nobeep := 0, perms := 0
      tOn := 0, tSent := 0, tRecv := 0, tGroup := 0, secure := false
      priNHushed := nlclear u.priNHushed, pubNHushed := nlclear u.pubNHushed
      priSHushed := nlclear u.priSHushed, pubSHushed := nlclear u.pubSHushed
      nNotifies := nlclear u.nNotifies, sNotifies := nlclear u.sNotifies }
  -- nobody keeps this slot as the last private message or as a pending pong
  modMisc fun m =>
    { m with
      sKill := Function.update m.sKill n 0
      lprivId := fun i =>
        if i = n ∨ inUsers i ∧ m.lprivId i = n then -1 else m.lprivId i
      pongReq := fun i =>
        if i = n ∨ inUsers i ∧ m.pongReq i = n then -1 else m.pongReq i
      pingTime := Function.update m.pingTime n (0, 0) }

end Icbd.Server
