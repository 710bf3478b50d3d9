/-
# Icbd.Server.Status — `s_status`, `s_topic`, `s_talk` and open messages (`s_group.c`).

`MAX_IDLE` is not defined in `icb_config.h`, so the branches under it are left out.
-/
import Icbd.Server.Group

namespace Icbd.Server

open Icbd.Lib

variable [Env]

/-! ## §1 — the options of a group -/

/-- `status_table`, in its order. -/
def statusTable : List String :=
  ["r", "m", "p", "i", "s", "v", "q", "n", "l", "name", "?", "c", "#", "b", "idlebootmsg", "im"]

/-- The options of `s_status`. -/
inductive SetOpt
  | restrict | moderate | pub | invisible | secret | visible | quiet | normal | loud | name | question
  | control | size | idleboot | idlebootMsg | idlemod | unknown
  deriving DecidableEq, Repr

/-- The option at an index of the table. -/
def SetOpt.ofIndex (i : Int) : SetOpt :=
  if i < 0 then .unknown
  else
    [.restrict, .moderate, .pub, .invisible, .secret, .visible, .quiet, .normal, .loud, .name,
      .question, .control, .size, .idleboot, .idlebootMsg, .idlemod].getD i.toNat .unknown

/-- What a group without a moderator is told it cannot do, for the options it cannot use. -/
def SetOpt.needsMod : SetOpt → Option Bytes
  | .restrict => some (str "become restricted")
  | .moderate => some (str "become moderated")
  | .control => some (str "become controlled")
  | .idleboot => some (str "have idleboot changed")
  | .idlemod => some (str "have idlemod changed")
  | .quiet => some (str "be changed to quiet")
  | _ => none

/-- A plural ending. -/
def plural (i : Int) : Bytes := if i = 1 then [] else str "s"

/-- Hours and minutes of a number of seconds. -/
def hoursMinutes (secs : Int) : Bytes :=
  let hours := secs.tdiv 3600
  let mins := (secs.tmod 3600).tdiv 60
  decimal hours ++ str " hour" ++ plural hours ++ str ", " ++ decimal mins ++ str " minute" ++
    plural mins

/-- The duration in the message after a change: minutes only below an hour. -/
def duration (secs : Int) : Bytes :=
  if secs > 59 * 60 then hoursMinutes secs
  else decimal (secs.tdiv 60) ++ str " minute" ++ plural (secs.tdiv 60)

/-- No invitations. -/
def clearInvites (g : GroupOpts) : GroupOpts :=
  { g with nInvites := nlinit maxInvites, nrInvites := nlinit maxInvites
           sInvites := nlinit maxInvites, srInvites := nlinit maxInvites }

/-- No bars. -/
def clearBars (g : GroupOpts) : GroupOpts :=
  { g with nBars := nlinit maxInvites, nNrBars := nlinit maxInvites
           sBars := nlinit maxInvites, sNrBars := nlinit maxInvites }

/-- `dump_table`. -/
def dumpTable (n : Int) : W Unit :=
  each [str "Table Of Status Commands",
    str "r - restricted c - controlled m - moderated p - public",
    str "i - invisible s - secret v - visible",
    str "q - quiet n - normal l - loud",
    str "name - change group name",
    str "? -- this table",
    str "# - change the number of allowed users",
    str "b - change the idleboot setting",
    str "idlebootmsg - change the idleboot message",
    str "im - change the idlemod setting"] (sendstatus n (str "Information"))

/-- `set_name`: whether it returned 0. -/
def setName (n gi : Int) (name : Bytes) : W Bool := do
  let w ← getW
  let g ← getG gi
  let new := name.take maxGroupLen
  if name = [] then do
    senderror n (str "New name may not be null.")
    pure false
  else if new = str "1" then do
    senderror n (str "Cannot change name to group 1.")
    pure false
  else if findGroup w new ≥ 0 ∧ findGroup w new ≠ gi then do
    senderror n (str "That group already exists.")
    pure false
  else do
    each (slots maxRealUsers) fun i => do
      let u ← getU i
      whenever (strcaseEq u.group g.name) (setUserGroup i new)
    setGroupName gi new
    pure true

/-- `SET_RESTRICT`: the members are invited by default. -/
def setRestrict (gi : Int) : W Unit := do
  modGOpts gi fun o => clearBars { o with control := .restricted }
  let g ← getG gi
  each (slots Env.maxUsers) fun i => do
    let u ← getU i
    whenever (strcaseEq u.group g.name) do
      modGOpts gi (putInvite false (u.realname ≠ []) u.nickname)
      whenever (g.mod > 0) (sendstatus g.mod (str "FYI") (u.nickname ++ str " invited"))
      sendstatus i (str "FYI") (str "You are invited to group " ++ g.name ++ str " by default.")

/-- `SET_SIZE`. -/
def setSize (n gi : Int) (word : Bytes) : W Bytes := do
  let u ← getU n
  let size := atoi word
  if word = [] ∨ size < 0 ∨ size > maxRealUsers then do
    senderror n (str "Size must be between 0 and " ++ decimal maxRealUsers ++ str ".")
    pure []
  else do
    modGOpts gi fun o => { o with size := size }
    pure (if size = 0 then u.nickname ++ str " removed group size limit."
          else u.nickname ++ str " made group limited to " ++ decimal size ++ str " users.")

/-- `SET_IDLEBOOT`. -/
def setIdleboot (n gi : Int) (word : Bytes) : W Bytes := do
  let u ← getU n
  let secs := toInt32 (atoi word * 60)
  if word = [] then do
    senderror n (str "Idle-Boot must be specified in number of minutes (0=disabled).")
    pure []
  else if secs < 0 then do
    senderror n (str "Idle-Boot must be > 0 (or 0 to disable).")
    pure []
  else do
    modGOpts gi fun o => { o with idleboot := secs }
    pure (if secs = 0 then u.nickname ++ str " disabled idle-boot."
          else u.nickname ++ str " set idle-boot to " ++ duration secs ++ str ".")

/-- `SET_IDLEBOOT_MSG`. -/
def setIdlebootMsg (n gi : Int) (msg : Bytes) : W Unit :=
  if msg = [] ∨ msg.length > idlebootMsgLen then
    senderror n (str "Idle-Boot message length must be between 1 and " ++ decimal idlebootMsgLen ++
      str " (yours was " ++ decimal msg.length ++ str ").")
  else if (filterfmt msg 1).1.isSome then senderror n ((filterfmt msg 1).1.getD [])
  else do
    modGOpts gi fun o => { o with idlebootMsg := msg }
    sendstatus n (str "Change") (str "Idle-boot msg: " ++ msg)

/-- `SET_IDLEMOD`. -/
def setIdlemod (n gi : Int) (word : Bytes) : W Bytes := do
  let u ← getU n
  let asked := toInt32 (atoi word * 60)
  let secs := if asked = 0 then maxIdleMod else asked
  whenever (word ≠ [] ∧ asked = 0) (sendstatus n (str "Info") (str "Using maximum value allowed"))
  if word = [] ∨ secs < 1 ∨ secs > maxIdleMod then do
    senderror n (str "Idle-Mod must be between 0 and " ++ decimal (maxIdleMod / 60) ++ str ".")
    pure []
  else do
    modGOpts gi fun o => { o with idlemod := secs }
    pure (u.nickname ++ str " set idle-mod to " ++ duration secs ++ str ".")

/-- The other options change a field and say so. -/
def setAndSay (n gi : Int) (f : GroupOpts → GroupOpts) (what : String) : W Bytes := do
  let u ← getU n
  modGOpts gi f
  pure (u.nickname ++ str " made group " ++ str what ++ str ".")

/-- One option: the message for the group (empty for none) and the text behind the option and its
arguments. `p1` starts with the option. -/
def statusOpt (n gi : Int) (opt : SetOpt) (p1 : Bytes) : W (Bytes × Bytes) :=
  let next := getTail p1
  let word := getword next
  match opt with
  | .restrict => do
      setRestrict gi
      pure (str "Group is now restricted.", p1)
  | .moderate => do
      modGOpts gi fun o => clearInvites { o with control := .moderated }
      pure (str "Group is now moderated.", p1)
  | .control => do
      modGOpts gi fun o => clearInvites { o with control := .controlled }
      pure (str "Group is now controlled.", p1)
  | .size => do
      let msg ← setSize n gi word
      pure (msg, next)
  | .idleboot => do
      let msg ← setIdleboot n gi word
      pure (msg, next)
  | .idlebootMsg => do
      setIdlebootMsg n gi next
      pure ([], [])
  | .idlemod => do
      let msg ← setIdlemod n gi word
      pure (msg, next)
  | .pub => do
      let msg ← setAndSay n gi (fun o => clearBars (clearInvites { o with control := .pub })) "public"
      pure (msg, p1)
  | .invisible => do
      let msg ← setAndSay n gi (fun o => { o with visibility := .supersecret }) "invisible"
      pure (msg, p1)
  | .secret => do
      let msg ← setAndSay n gi (fun o => { o with visibility := .secret }) "secret"
      pure (msg, p1)
  | .visible => do
      let msg ← setAndSay n gi (fun o => { o with visibility := .visible }) "visible"
      pure (msg, p1)
  | .quiet => do
      let msg ← setAndSay n gi (fun o => { o with volume := .quiet }) "quiet"
      pure (msg, p1)
  | .normal => do
      let msg ← setAndSay n gi (fun o => { o with volume := .normal }) "normal"
      pure (msg, p1)
  | .loud => do
      let msg ← setAndSay n gi (fun o => { o with volume := .loud }) "loud"
      pure (msg, p1)
  | .name => do
      let u ← getU n
      let new := filtergroupname word
      let ok ← setName n gi new
      pure (if ok then u.nickname ++ str " renamed group to " ++ new else [], next)
  | .question => do
      dumpTable n
      pure ([], p1)
  | .unknown => do
      senderror n (str "Option " ++ getword p1 ++ str " unknown.")
      pure ([], p1)

/-- The loop over the options. Each turn drops at least the option's own word. -/
def statusLoop (n gi : Int) (hasMod : Bool) : Nat → Bytes → W Unit
  | 0, _ => pure ()
  | fuel + 1, p1 => do
      let opt := SetOpt.ofIndex (lookup (getword p1) statusTable)
      whenever (getword p1 ≠ []) do
        if opt.needsMod.isSome ∧ hasMod = false then do
          senderror n (str "Groups without a moderator cannot " ++ opt.needsMod.getD [] ++ str ".")
          -- idleboot and idlemod have an argument to skip
          statusLoop n gi hasMod fuel
            (if opt = .idleboot ∨ opt = .idlemod then getTail (getTail p1) else getTail p1)
        else do
          let r ← statusOpt n gi opt p1
          whenever (r.1 ≠ []) (sStatusGroup 1 true n (str "Change") r.1)
          statusLoop n gi hasMod fuel (getTail r.2)

/-! ## §2 — `s_status` -/

/-- The words for the settings. -/
def Visibility.text : Visibility → Bytes
  | .visible => str "Visible"
  | .secret => str "Secret"
  | .supersecret => str "Invisible"

def Control.text : Control → Bytes
  | .pub => str "Public"
  | .moderated => str "Moderated"
  | .restricted => str "Restricted"
  | .controlled => str "Controlled"

def Volume.text : Volume → Bytes
  | .quiet => str "Quiet"
  | .normal => str "Normal"
  | .loud => str "Loud"

/-- `s_status` without an argument: the settings of the caller's group. -/
def showStatus (n : Int) : W Unit := do
  let w ← getW
  let gi := groupOf w n
  let g ← getG gi
  let m ← (if g.mod ≥ 0 then do let v ← getU g.mod; pure v.nickname else pure [])
  let mod := if g.mod ≥ 0 then m else if g.modtimeout = 0 then str "None" else g.missingmod
  sendsCmdout n (str "Name: " ++ g.name ++ str " Mod: " ++ mod ++ str " (" ++ g.visibility.text ++
    str " / " ++ g.control.text ++ str " / " ++ g.volume.text ++ str ")")
  let _ ← listInvites n gi
  listTwo n (str "Nicks who can talk: ") g.nTalk g.nrTalk
  sendsCmdout n
    (if g.size = 0 then str "Size: no limit"
     else str "Size: " ++ decimal g.size ++ str " user" ++ plural g.size ++ str " limit")
  sendsCmdout n
    (if g.idleboot = 0 then str "Idle-Boot: no limit"
     else str "Idle-Boot: " ++ hoursMinutes g.idleboot)
  whenever (g.idlebootMsg ≠ []) (sendsCmdout n (str "Idle-Boot Message: " ++ g.idlebootMsg))
  whenever (g.control ≠ .pub)
    (sendsCmdout n
      (if g.idlemod = 0 then str "Idle-Mod: no limit"
       else str "Idle-Mod: " ++ hoursMinutes g.idlemod))

/-- `s_status`. -/
def sStatus (n : Int) (arg : Bytes) : W Unit :=
  if arg = [] then showStatus n
  else do
    let w ← getW
    let gi := groupOf w n
    let g ← getG gi
    let hasMod : Bool := g.mod ≠ -1 ∨ g.modtimeout > 0
    if strcaseEq g.name (str "1") then senderror n (str "Can't change group 1!")
    else if strcaseEq g.name idleGroup then
      senderror n (str "Can't change group " ++ idleGroup ++ str "!")
    else if strcaseEq g.name bootGroup then
      senderror n (str "Can't change group " ++ bootGroup ++ str "!")
    else if g.mod ≠ n ∧ hasMod ∧ g.control ≠ .pub then
      senderror n (str "You aren't the moderator.")
    else statusLoop n gi hasMod (arg.length + 1) arg

/-- `s_topic`. -/
def sTopic (n : Int) (arg : Bytes) : W Unit := do
  let w ← getW
  let u ← getU n
  let gi := groupOf w n
  let g ← getG gi
  if arg = [] then
    sendsCmdout n (if g.topic = [] then str "The topic is not set."
                   else str "The topic is: " ++ g.topic)
  else if g.mod ≥ 0 ∧ g.mod ≠ n then senderror n (str "You aren't the moderator.")
  else if g.name = str "1" ∨ g.name = idleGroup ∨ g.name = bootGroup then
    senderror n (str "You can't change this group's topic.")
  else do
    let topic := arg.take maxTopicLen
    modGOpts gi fun o => { o with topic := topic }
    whenever (g.volume ≠ .quiet)
      (sStatusGroup 1 true n (str "Topic")
        (u.nickname ++ str " changed the topic to \"" ++ topic ++ str "\""))

/-! ## §3 — open messages -/

/-- Does `n`'s open message reach `i`, apart from who they are? -/
def hears (w : World) (n i : Int) : Bool :=
  let u := w.uTab n
  let v := w.uTab i
  (i ≠ n || u.echoback ≠ 0) && strcaseEq u.group v.group &&
    !nlmatch (ucaseit (address u)) v.pubSHushed && !nlmatch (ucaseit u.nickname) v.pubNHushed &&
    v.login = .complete

/-- `s_send_group`. -/
def sSendGroup (n : Int) (text : Bytes) : W Unit := do
  let w ← getW
  each (slots maxRealUsers) fun i => whenever (hears w n i) (sendopen n i text)

/-- `s_exclude`. -/
def sExclude (n : Int) (arg : Bytes) : W Unit := do
  let w ← getW
  let u ← getU n
  let gi := groupOf w n
  let who := getword arg
  let text := getTail arg
  let j := findUser w who
  if text = [] then senderror n (str "Empty message.")
  else if gi ≠ -1 ∧ (w.gTab gi).volume = .quiet then
    senderror n (str "Open messages not permitted in quiet groups.")
  else
    each (slots maxRealUsers) fun i =>
      whenever (hears w n i ∧ ¬ strcaseEq (w.uTab i).nickname who) do
        sendstatus i (str "Exclude") (u.nickname ++ str "'s next message excludes " ++
          (if j > 0 then (w.uTab j).nickname else who) ++ str ":")
        sendopen n i text

/-! ## §4 — `s_talk` -/

/-- `talk_delete`: how many lists the name was in. -/
def talkDelete (who : Bytes) (gi : Int) : W Nat := do
  let w ← getW
  let g ← getG gi
  let normal := nlpresent who g.nTalk
  let reg := nlpresent who g.nrTalk
  modGOpts gi fun o =>
    { o with nTalk := (nldelete o.nTalk who).2, nrTalk := (nldelete o.nrTalk who).2 }
  let dest := findUser w who
  whenever ((normal ∨ reg) ∧ dest ≥ 0) do
    let v ← getU dest
    whenever (normal ∨ v.realname ≠ []) do
      let m ← getU g.mod
      sendstatus dest (str "TALK") (str "You no longer can talk in group " ++ m.group ++
        str " (no thanks to " ++ m.nickname ++ str ")")
  pure (normal.toNat + reg.toNat)

/-- One of the loops that empty a talk list: `nlget` as often as the list was long. -/
def talkClear (n gi : Int) (reg quiet : Bool) : Nat → W Unit
  | 0 => pure ()
  | k + 1 => do
      let g ← getG gi
      let r := nlget (if reg then g.nrTalk else g.nTalk)
      modGOpts gi fun o => if reg then { o with nrTalk := r.2 } else { o with nTalk := r.2 }
      whenever (r.1 ≠ []) do
        let deleted ← talkDelete r.1 gi
        whenever (deleted > 0 ∧ quiet = false)
          (sendstatus n (str "FYI") (r.1 ++ (if reg then str " removed from registered talk list"
                                             else str " removed from talk list")))
      talkClear n gi reg quiet k

/-- The usage of `s_talk`. -/
def talkUsage : Bytes := str "Usage: talk {-a} {-q} {-r} {-d} nickname"

/-- A name joins a talk list. -/
def talkAdd (n gi : Int) (f : Flags) : W Unit := do
  let u ← getU n
  modGOpts gi fun o =>
    if f.r then { o with nrTalk := nlput o.nrTalk f.who } else { o with nTalk := nlput o.nTalk f.who }
  whenever (f.q = false)
    (sendstatus n (str "FYI")
      (f.who ++ (if f.r then str " can talk (registered only)" else str " can talk")))
  let w ← getW
  let dest := findUser w f.who
  if dest ≥ 0 then do
    let v ← getU dest
    whenever (v.realname ≠ [] ∨ f.r = false)
      (sendstatus dest (str "TALK") (str "You can talk in group " ++ u.group ++
        str " (courtesy of " ++ u.nickname ++ str ")"))
  else sendstatus n (str "Warning") (f.who ++ str " is not signed on.")

/-- `s_talk` behind its flags. -/
def talkBody (n : Int) (f : Flags) : W Unit := do
  let w ← getW
  let gi := groupOf w n
  let g ← getG gi
  if f.who = [] then senderror n talkUsage
  else if g.control = .pub then senderror n (str "The group is public.")
  else if g.mod ≠ n then senderror n (str "You aren't the moderator.")
  else if f.d then do
    let deleted ← talkDelete f.who gi
    if deleted = 0 then senderror n (f.who ++ str " is not in talk list")
    else do
      whenever (f.q = false)
        (sendstatus n (str "FYI") (f.who ++ str " removed from talk list"))
  else do
    whenever (f.a = false) do
      talkClear n gi false f.q g.nTalk.count
      -- the second count is taken after the first loop
      let g ← getG gi
      talkClear n gi true f.q g.nrTalk.count
    talkAdd n gi f

/-- `s_talk`. -/
def sTalk (n : Int) (arg : Bytes) : W Unit := withFlags n "qadr" talkUsage arg (talkBody n)

end Icbd.Server
