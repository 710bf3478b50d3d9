/-
# Icbd.Server.Group — the commands about groups (`s_group.c`).

A handler takes the caller's slot and the text of `fields[1]`; the test on the number of fields is
made where the field is read. `s_change` is asked for the group in its second argument, which in the
source stands in `fields[1]` too.
-/
import Icbd.Server.Access

namespace Icbd.Server

open Icbd.Lib

variable [Env]

/-! ## §1 — flags in front of an argument -/

/-- One flag letter. A letter may be given once, and `n` and `s` exclude each other. -/
def addFlag (allowed seen : Bytes) (c : UInt8) : Option Bytes :=
  if allowed.contains c ∧ ¬ seen.contains c ∧
      ¬ ((c = 110 ∨ c = 115) ∧ (seen.contains 110 ∨ seen.contains 115)) then
    some (c :: seen)
  else none

/-- The words that start with a hyphen: the letters seen and what is left, or a usage error. -/
def parseFlags (allowed : Bytes) : Nat → Bytes → Bytes → Option (Bytes × Bytes)
  | 0, seen, who => some (seen, who)
  | fuel + 1, seen, who =>
      if who.head? = some 45 then
        match (getword who).tail.foldlM (addFlag allowed) seen with
        | none => none
        | some seen => parseFlags allowed fuel seen (getTail who)
      else some (seen, who)

/-- The flags of an argument and the word behind them. -/
structure Flags where
  q : Bool
  s : Bool
  r : Bool
  a : Bool
  d : Bool
  p : Bool
  o : Bool
  who : Bytes
  deriving DecidableEq, Repr

/-- The argument of a command with flags, or `none` for a usage error. -/
def flagsOf (allowed : String) (arg : Bytes) : Option Flags :=
  (parseFlags (str allowed) (arg.length + 1) [] arg).map fun r =>
    { q := r.1.contains 113, s := r.1.contains 115, r := r.1.contains 114, a := r.1.contains 97
      d := r.1.contains 100, p := r.1.contains 112, o := r.1.contains 111, who := r.2 }

/-- A command with flags: the usage message, or the command proper. -/
def withFlags (n : Int) (allowed : String) (usage : Bytes) (arg : Bytes) (body : Flags → W Unit) :
    W Unit :=
  match flagsOf allowed arg with
  | none => senderror n usage
  | some f => body f

/-! ## §2 — invitations -/

/-- Is this user invited, as `s_change` and `loginmsg` ask? -/
def isInvited (u : User) (g : Group) : Bool :=
  let addr := ucaseit (address u)
  nlpresent u.nickname g.nInvites || nlmatch addr g.sInvites ||
    (nlpresent u.nickname g.nrInvites && u.realname ≠ []) ||
    (nlmatch addr g.srInvites && u.realname ≠ [])

/-- `nldelete` from the first list, else from the second: whether the name was in the list tried
last. -/
def deleteFrom (name : Bytes) (l₁ l₂ : NamList) : Bool × NamList × NamList :=
  let r₁ := nldelete l₁ name
  if r₁.1 then (true, r₁.2, l₂)
  else
    let r₂ := nldelete l₂ name
    (r₂.1, r₁.2, r₂.2)

/-- A nickname leaves the invite lists. -/
def cancelNick (name : Bytes) (g : GroupOpts) : Bool × GroupOpts :=
  let r := deleteFrom name g.nInvites g.nrInvites
  (r.1, { g with nInvites := r.2.1, nrInvites := r.2.2 })

/-- An address leaves the invite lists. -/
def cancelAddr (name : Bytes) (g : GroupOpts) : Bool × GroupOpts :=
  let r := deleteFrom name g.sInvites g.srInvites
  (r.1, { g with sInvites := r.2.1, srInvites := r.2.2 })

/-- `s_cancel` behind its flags. -/
def cancelBody (n : Int) (f : Flags) : W Unit := do
  let w ← getW
  let gi := groupOf w n
  let g ← getG gi
  let who := if f.s then ucaseit f.who else f.who
  if g.control = .restricted ∧ g.mod = n then do
    let r := if f.s then cancelAddr who g.toGroupOpts else cancelNick who g.toGroupOpts
    modGOpts gi fun _ => r.2
    if r.1 then do
      whenever (f.q = false) (sendstatus n (str "FYI") (who ++ str " cancelled"))
      whenever (f.s = false ∧ findUser w who < 0)
        (sendstatus n (str "Warning") (who ++ str " is not signed on"))
    else sendstatus n (str "Warning") (who ++ str " was not invited")
  else do
    whenever (g.control ≠ .restricted) (senderror n (str "The group isn't restricted."))
    whenever (g.mod ≠ n) (senderror n (str "You aren't the moderator."))

/-- `s_cancel`. -/
def sCancel (n : Int) (arg : Bytes) : W Unit :=
  withFlags n "qsn" (str "Usage: cancel {-q} {-n nickname | -s address}") arg (cancelBody n)

/-- `MAX_LINE`. -/
def maxLine : Nat := 75

/-- `add_item`: the buffer after the item. -/
def addItem (n : Int) (item buf : Bytes) : W Bytes :=
  if item.length + 1 ≥ maxLine then pure buf
  else if item.length + buf.length + 1 ≥ maxLine then do
    sendsCmdout n buf
    pure (if item = str ", " then [] else item)
  else pure (buf ++ item)

/-- One of the loops that list names. The heading goes in front of the first name, or in front of the
first name that finds the buffer empty. -/
def addNames (n : Int) (heading : Bytes) (byIndex : Bool) (suffix : Bytes) :
    Nat → List Bytes → Bytes → W Bytes
  | _, [], line => pure line
  | i, x :: xs, line => do
      let first := if byIndex then i = 0 else line = []
      let line ← addItem n (if first then heading else str ", ") line
      let line ← (if x = [] then pure line else addItem n (x ++ suffix) line)
      addNames n heading byIndex suffix (i + 1) xs line

/-- Two lists on one run of lines, the second marked as registered only. -/
def listTwo (n : Int) (heading : Bytes) (l₁ l₂ : NamList) : W Unit := do
  let line ← addNames n heading true [] 0 (nlgetAll l₁) []
  let line ← addNames n heading false (str "(r)") 0 (nlgetAll l₂) line
  whenever (line ≠ []) (sendsCmdout n line)

/-- `list_invites`: how many names there are. -/
def listInvites (n gi : Int) : W Nat := do
  let g ← getG gi
  listTwo n (str "Nicks invited: ") g.nInvites g.nrInvites
  listTwo n (str "Addrs invited: ") g.sInvites g.srInvites
  pure (g.nInvites.count + g.nrInvites.count + g.sInvites.count + g.srInvites.count)

/-- The list an invitation goes to. -/
def putInvite (site reg : Bool) (who : Bytes) (g : GroupOpts) : GroupOpts :=
  if site then
    if reg then { g with srInvites := nlput g.srInvites who }
    else { g with sInvites := nlput g.sInvites who }
  else
    if reg then { g with nrInvites := nlput g.nrInvites who }
    else { g with nInvites := nlput g.nInvites who }

/-- `s_invite` behind its flags. -/
def inviteBody (n : Int) (f : Flags) : W Unit := do
  let w ← getW
  let u ← getU n
  let gi := groupOf w n
  let g ← getG gi
  let who := if f.s then ucaseit f.who else f.who
  if f.who = [] then
    if g.control ≠ .restricted then
      sendstatus n (str "Invite") (str "Invite lists only function in restricted groups.")
    else do
      let k ← listInvites n gi
      whenever (k < 1) (sendstatus n (str "Invite") (str "No one on invite list"))
  else do
    whenever (g.control = .restricted ∧ g.mod = n) do
      modGOpts gi (putInvite f.s f.r who)
      whenever (f.q = false)
        (sendstatus n (str "FYI")
          (who ++ (if f.r then str " invited (registered only)" else str " invited")))
    whenever (f.s = false ∧ (g.control ≠ .restricted ∨ g.mod = n)) do
      let dest := findUser w who
      if dest ≥ 0 then do
        let v ← getU dest
        whenever (v.realname ≠ [] ∨ f.r = false)
          (sendstatus dest (str "RSVP")
            (str "You are invited to group " ++ u.group ++ str " by " ++ u.nickname))
      else sendstatus n (str "Warning") (who ++ str " is not signed on.")
    whenever (f.s ∧ g.control ≠ .restricted) (senderror n (str "The group isn't restricted."))
    whenever (g.mod ≠ n ∧ g.control = .restricted) (senderror n (str "You aren't the moderator."))

/-- `s_invite`. -/
def sInvite (n : Int) (arg : Bytes) : W Unit :=
  withFlags n "qsnr" (str "Usage: invite {-q} {-r} {-n nickname | -s address}") arg (inviteBody n)

/-! ## §3 — `s_change` -/

/-- The group behind a name of the form `@nick`. A chain of such names longer than the user table
comes back to a user it has met and never ends. -/
def resolveAt (n : Int) : Nat → Bytes → W (Option Bytes)
  | 0, _ => do
      modMisc fun m => { m with diverged := true }
      pure none
  | fuel + 1, target =>
      if target.head? = some 64 then do
        let w ← getW
        let t := findUser w target.tail
        if t < 0 then do
          senderror n (str "User not found.")
          pure none
        else do
          let v ← getU t
          let g ← getG (findGroup w v.group)
          if g.visibility ≠ .visible then do
            senderror n (str "User not found.")
            pure none
          else resolveAt n fuel v.group
      else pure (some target)

/-- The name in a target and the visibility its dots ask for. -/
def parseTarget (target : Bytes) : Bytes × Visibility :=
  if target.head? = some 46 then
    if target.tail.head? = some 46 then ((target.drop 2).take maxGroupLen, .supersecret)
    else (target.tail.take maxGroupLen, .secret)
  else (target.take maxGroupLen, .visible)

/-- An empty slot becomes a new group. -/
def createGroup (n ngi : Int) (name : Bytes) (visibility : Visibility) : W Unit := do
  setGroupName ngi name
  modGOpts ngi fun g => { g with visibility := visibility }
  if strcaseEq bootGroup name then
    modGOpts ngi fun g =>
      { g with control := .pub, visibility := .secret, volume := .loud, idleboot := 3600
               topic := str "Boot-ees" }
  else if strcaseEq idleGroup name then
    modGOpts ngi fun g =>
      { g with control := .pub, visibility := .visible, volume := .quiet, idleboot := 0
               topic := str "Idlers" }
  else if strcaseEq (str "1") name then
    modGOpts ngi fun g => { g with control := .pub }
  else do
    modGOpts ngi fun g => { g with control := .moderated }
    setMod ngi n
  modGOpts ngi fun g =>
    { g with
      nInvites := nlinit maxInvites, nrInvites := nlinit maxInvites
      sInvites := nlinit maxInvites, srInvites := nlinit maxInvites
      nBars := nlinit maxInvites, nNrBars := nlinit maxInvites
      sBars := nlinit maxInvites, sNrBars := nlinit maxInvites }

/-- Somebody was turned away: the moderator of a loud group hears of it, unless he has hushed them.
It counts as a private message. -/
def probe (n ngi : Int) (text : Bytes) : W Unit := do
  let u ← getU n
  let g ← getG ngi
  whenever (g.mod > 0 ∧ g.volume = .loud) do
    let m ← getU g.mod
    whenever (¬ nlmatch (ucaseit (address u)) m.priSHushed ∧
        ¬ nlmatch (ucaseit u.nickname) m.priNHushed) do
      sendstatus g.mod (str "Probe") (u.nickname ++ text)
      modMisc fun x => { x with lprivId := Function.update x.lprivId g.mod n }

/-- May the user pass the door of a restricted group? -/
def mayEnter (w : World) (n ngi : Int) : Bool :=
  (w.gTab ngi).control ≠ .restricted || checkAuth w n || (w.gTab ngi).mod = n ||
    isInvited (w.uTab n) (w.gTab ngi) || w.isBooting

/-- Is a moderated or controlled group full for this user? -/
def isFull (w : World) (n ngi : Int) : Bool :=
  let g := w.gTab ngi
  g.control ≠ .restricted && g.control ≠ .pub && g.size > 0 &&
    ((slots maxRealUsers).filter fun i => strcaseEq (w.uTab i).group g.name).length ≥ g.size &&
    g.mod ≠ n

/-- `nick (loginid@nodeid)`. -/
def fullId (u : User) : Bytes := u.nickname ++ str " (" ++ address u ++ str ")"

/-- The move itself, from group slot `ogi` (negative at login) to `ngi`. -/
def moveTo (n ngi ogi : Int) (loginStatus : Bool) : W Unit := do
  let g ← getG ngi
  setUserGroup n g.name
  let u ← getU n
  whenever (g.volume ≠ .quiet)
    (sStatusGroup 1 false n
      (if u.login ≠ .complete ∨ loginStatus then str "Sign-on" else str "Arrive")
      (fullId u ++ str " entered group"))
  sendstatus n (str "Status")
    (str "You are now in group " ++ g.name ++ (if g.mod = n then str " as moderator" else []))
  let w ← getW
  modUOpts n fun o => { o with tGroup := w.sys.now }
  whenever (ogi ≥ 0) do
    let og ← getG ogi
    if countUsersInGroup w og.name > 0 then
      whenever (og.volume ≠ .quiet) do
        sStatusGroup 2 false ogi (str "Depart") (fullId u ++ str " just left")
        whenever (og.mod = n)
          (sendimport n (str "Mod") (str "You are still mod of group " ++ og.name))
    else clearGroupItem ogi

/-- `s_change` once the destination exists. -/
def joinGroup (n ngi : Int) (name : Bytes) (loginStatus : Bool) : W Bool := do
  let w ← getW
  let u ← getU n
  if ¬ mayEnter w n ngi then do
    senderror n (name ++ str " is restricted.")
    probe n ngi (str " tried to enter the group.")
    pure false
  else if isFull w n ngi then do
    probe n ngi (str " tried to enter the group, but it's full.")
    senderror n (str "Group " ++ name ++ str " is full.")
    pure false
  else if ngi = findGroup w u.group then do
    senderror n (str "You are already in that group!")
    pure false
  else do
    moveTo n ngi (findGroup w u.group) loginStatus
    pure true

/-- `s_change` for a target that names a group. -/
def enterGroup (n : Int) (target : Bytes) (loginStatus : Bool) : W Bool := do
  let w ← getW
  let name := filtergroupname (parseTarget target).1
  let found := findGroup w name
  let empty := findEmptyGroup w
  if target = [] then do
    senderror n (str "Null groupnames are not allowed.")
    pure false
  else if name = [] then do
    senderror n (str "Group name too short.")
    pure false
  else if found < 0 ∧ empty < 0 then do
    senderror n (str "Too many groups!")
    pure false
  else do
    whenever (found < 0) (createGroup n empty name (parseTarget target).2)
    joinGroup n (if found < 0 then empty else found) name loginStatus

/-- `s_change`, from its argument on. The answer is whether it returned 0. A name of the form `@nick`
starts over with the group found, and no longer as a login. -/
def sChange (n : Int) (target : Bytes) (atLogin : Bool) : W Bool := do
  let t ← resolveAt n (Env.maxUsers + 1) target
  if t.isSome then enterGroup n (t.getD []) (atLogin && target.head? ≠ some 64)
  else pure false

/-- `s_change` with `is_booting` set around it. -/
def bootTo (n : Int) (target : Bytes) : W Unit := do
  modMisc fun m => { m with isBooting := true }
  let _ ← sChange n target false
  modMisc fun m => { m with isBooting := false }

/-! ## §4 — moderation -/

/-- `s_pass`. -/
def sPass (n : Int) (arg : Bytes) : W Unit := do
  let w ← getW
  let u ← getU n
  let gi := groupOf w n
  let g ← getG gi
  let cp := getword arg
  let dest := findUser w cp
  if ¬ (checkAuth w n ∨ g.mod = n) then senderror n (str "You aren't the moderator.")
  else if arg = [] then do
    setMod gi (-1)
    whenever (g.volume ≠ .quiet)
      (sStatusGroup 1 true n (str "Pass") (u.nickname ++ str " just relinquished the mod."))
    whenever (g.control = .controlled) do
      modGOpts gi fun o => { o with control := .pub }
      whenever (g.volume ≠ .quiet)
        (sStatusGroup 1 true n (str "Change") (str "Group is now public."))
  else if cp = [] then pure ()
  else if strcaseEq cp (str "server") then senderror n (str "Cannot pass to Server.")
  else if dest ≥ 0 then do
    setMod gi dest
    sendstatus dest (str "Pass")
      (u.nickname ++ str " just passed you moderation of group " ++ g.name)
    let v ← getU dest
    whenever (g.volume ≠ .quiet)
      (sStatusGroup 1 true n (str "Pass")
        (u.nickname ++ str " has passed moderation to " ++ v.nickname))
  else senderror n (cp ++ str " is not on!")

/-- The text of a boot, or the error in its format. -/
def bootText (msg nick : Bytes) : Except Bytes Bytes :=
  if msg = [] then .ok (nick ++ str " was booted.")
  else
    let r := filterfmt msg 1
    if r.2 = 0 then .ok (nick ++ str " " ++ msg)
    else match r.1 with
      | some e => .error e
      | none => .ok (applyFmt msg nick)

/-- `s_boot` for a signed-on target, once the message is known. -/
def bootUser (n dest : Int) (arg text : Bytes) : W Unit := do
  let w ← getW
  let u ← getU n
  let v ← getU dest
  let gi := groupOf w dest
  let g ← getG gi
  if groupOf w n = gi then do
    let r := cancelNick v.nickname g.toGroupOpts
    modGOpts gi fun _ => r.2
    whenever r.1 (sendstatus n (str "FYI") (v.nickname ++ str " cancelled"))
    whenever (g.volume ≠ .quiet) (sStatusGroup 1 true n (str "Boot") text)
    sendstatus dest (str "Boot") (u.nickname ++ str " booted you.")
    bootTo dest bootGroup
    modMisc fun m => { m with stats := { m.stats with boots := m.stats.boots + 1 } }
  else senderror n (arg ++ str " is not in your group")

/-- `s_boot`. -/
def sBoot (n : Int) (arg : Bytes) : W Unit := do
  let w ← getW
  let u ← getU n
  let g ← getG (groupOf w n)
  let user := getword arg
  let dest := findUser w user
  if ¬ (checkAuth w n ∨ g.mod = n) then senderror n (str "You aren't the moderator.")
  else if dest < 0 then sendstatus n (str "Warning") (user ++ str " is not signed on")
  else if strcaseEq user (str "ADMIN") then do
    senderror n (str "You nobk! You can't boot the admin!")
    sendstatus dest (str "Boot Attempt!") (u.nickname ++ str " tried to boot you!")
  else
    match bootText (getTail arg) (w.uTab dest).nickname with
    | .error e => senderror n e
    | .ok text => bootUser n dest arg text

end Icbd.Server
