/-
# Icbd.Server.Poll — the life of the server (`ipcf.c`, `main.c`).

The callbacks of the packet layer are the events: a client is accepted, a packet is dispatched, a
client is lost, the poll comes round. A run starts from the tables `main` sets up. The clock, the
files and the database's readability may change between events, not during one.
-/
import Icbd.Server.Msgs

namespace Icbd.Server

open Icbd.Lib

variable [Env]

/-! ## §1 — accepting a client -/

/-- `s_new_user`; `remote` is what `getremotename` answers. -/
def sNewUser (n : Int) (secure : Bool) (remote : Option Bytes) : W Unit :=
  if ¬ inUsers n then pktservDisconnect n
  else do
    doSend n (packet pktProto (decimal protoLevel ++ sep ++ Env.thishost ++ sep ++ version))
    whenever (remote.getD [] ≠ []) do
      let u ← getU n
      setIdent n u.loginid ((remote.getD []).take maxNodeLen) u.password
      modUOpts n fun o => { o with secure := secure }

/-! ## §2 — `s_didpoll` -/

/-- The one who was heard from last among the slots that pass a test, the first of them if several
were; -1 if there is none. -/
def leastIdle (w : World) (p : Int → Bool) : Int :=
  (slots Env.maxUsers).foldl (fun newmod j =>
    if p j then
      if newmod = -1 ∨ (w.uTab j).tRecv > (w.uTab newmod).tRecv then j else newmod
    else newmod) (-1)

/-- A logged-in member of a group. -/
def isMember (w : World) (gi j : Int) : Bool :=
  (w.uTab j).login = .complete && strcaseEq (w.uTab j).group (w.gTab gi).name

/-- A group member without an away message who was heard from more recently than `idle` seconds. -/
def lessIdle (w : World) (gi : Int) (idle : Int) (j : Int) : Bool :=
  (w.uTab j).login = .complete && (w.uTab j).awaymsg = [] && groupOf w j = gi &&
    w.sys.now - (w.uTab j).tRecv < idle

/-- `IDLE_MOD_MSG`. -/
def idleModMsg (who group : Bytes) : Bytes :=
  str "A piano suddenly falls on " ++ who ++ str ", dislodging moderatorship of " ++ group ++ str "."

/-- `IDLE_BOOT_MSG`. -/
def idleBootMsg : Bytes := str "A swarm of bats swoops down and carries %s away."

/-- A moderator who idles in a group with somebody less idle gives the group up. -/
def idleMod (i : Int) : W Unit := do
  let w ← getW
  let g ← getG i
  whenever (g.control ≠ .pub ∧ g.mod ≥ 0) do
    let m ← getU g.mod
    let idle := toInt32 (w.sys.now - m.tRecv)
    whenever (idle > g.idlemod ∧
        (slots maxRealUsers).any fun j => j ≠ g.mod && lessIdle w i idle j) do
      sendstatus g.mod (str "Idle-Mod") (idleModMsg (str "you") g.name)
      whenever (g.volume ≠ .quiet)
        (if groupOf w g.mod = i then
          sStatusGroup 1 false g.mod (str "Idle-Mod") (idleModMsg m.nickname g.name)
         else sStatusGroup 2 false i (str "Idle-Mod") (idleModMsg m.nickname g.name))
      -- this triggers the assignment of a new moderator below
      setMissing i g.missingmod 1
      modMisc fun x => { x with stats := { x.stats with idlemods := x.stats.idlemods + 1 } }

/-- A moderator timeout that has passed: the least idle member who is not away takes over. -/
def passTimeout (i : Int) : W Unit := do
  let w ← getW
  let g ← getG i
  let newmod := leastIdle w fun j => isMember w i j && (w.uTab j).awaymsg = []
  whenever (g.modtimeout > 0 ∧ g.modtimeout < w.sys.now ∧ newmod ≠ -1) do
    setMod i newmod
    setMissing i [] 0
    let v ← getU newmod
    sStatusGroup 2 false i (str "Timeout") (v.nickname ++ str " is now mod.")

/-- The group `j` of an idle moderator `i` goes to its least idle member, himself included. -/
def idleBootMod (i j : Int) : W Unit := do
  let w ← getW
  let u ← getU i
  let g ← getG j
  let newmod := leastIdle w (isMember w j)
  whenever (g.mod = i) do
    setMod j newmod
    whenever (newmod ≥ 0) do
      let v ← getU newmod
      if g.name = u.group then
        sStatusGroup 1 false i (str "Pass") (v.nickname ++ str " is now mod.")
      else sStatusGroup 2 false j (str "Pass") (v.nickname ++ str " is now mod.")

/-- A user who idles too long for his group goes to `IDLE_GROUP`. -/
def idleBoot (i : Int) : W Unit := do
  let w ← getW
  let u ← getU i
  let gi := groupOf w i
  whenever (u.login = .complete ∧ gi ≥ 0) do
    let g ← getG gi
    let msg := if g.idlebootMsg ≠ [] then g.idlebootMsg else idleBootMsg
    whenever (¬ strcaseEq u.group idleGroup ∧ g.idleboot > 0 ∧ w.sys.now - u.tRecv > g.idleboot) do
      sendstatus i (str "Idle-Boot") (applyFmt msg (str "you"))
      whenever (g.volume ≠ .quiet)
        (sStatusGroup 1 false i (str "Idle-Boot") (applyFmt msg u.nickname))
      each (slots maxGroups) (idleBootMod i)
      bootTo i idleGroup
      modMisc fun x => { x with stats := { x.stats with idleboots := x.stats.idleboots + 1 } }

/-- A warning before the shutdown, once `ShutdownNotify` has reached `k`. -/
def warnShutdown (k : Int) (secs : Int) (msg : Bytes) : W Unit := do
  let w ← getW
  whenever (w.sys.now ≥ w.timeToDie - secs ∧ w.timeToDie > 0 ∧ w.shutdownNotify = k) do
    importAll (str "Shutdown") msg
    modMisc fun m => { m with shutdownNotify := m.shutdownNotify + 1 }

/-- Connections marked for it are dropped. -/
def killMarked (i : Int) : W Unit := do
  let w ← getW
  let u ← getU i
  whenever (u.login ≠ .no ∧ w.sKill i > 0) do
    modMisc fun m => { m with stats := { m.stats with drops := m.stats.drops + 1 } }
    pktservDisconnect i

/-- `s_didpoll`, on a poll that is not one of the frequent ones. -/
def sDidpoll : W Unit := do
  let w ← getW
  if w.sys.now ≥ w.timeToDie ∧ w.timeToDie > 0 then
    modMisc fun m => { m with halted := true }
  else do
    warnShutdown 0 300 (str "Server shutting down in 5 minutes!")
    warnShutdown 1 60 (str "Server shutting down in 1 minute!")
    each (slots maxRealUsers) killMarked
    each (slots maxGroups) fun i => do
      idleMod i
      passTimeout i
    each (slots maxRealUsers) idleBoot

/-! ## §3 — `s_lost_user` -/

/-- Those who asked to be told hear of the departure, unless his group is invisible. -/
def notifyOff (n : Int) : W Unit := do
  let u ← getU n
  each (slots Env.maxUsers) fun j => do
    let v ← getU j
    whenever (n ≠ j ∧ v.login ≠ .no ∧
        (nlmatch (ucaseit u.nickname) v.nNotifies ∨ nlmatch (ucaseit (address u)) v.sNotifies)) do
      let w ← getW
      let g ← getG (findGroup w u.group)
      whenever (g.visibility ≠ .supersecret)
        (sendstatus j (str "Notify-Off")
          (snprintf 255 (u.nickname ++ str " (" ++ ucaseit (address u) ++
            str ") has just signed off")))

/-- The group `i` loses its moderator. A registered one may claim it back for a while, otherwise it
goes to the least idle member. -/
def lostMod (i : Int) (wasRegistered : Bool) (name : Bytes) : W Unit := do
  let w ← getW
  let g ← getG i
  let newmod := leastIdle w (isMember w i)
  if wasRegistered then do
    sStatusGroup 2 false i (str "Mod") (str "Your group moderator signed off. (" ++
      decimal modTimeout ++ str " second timeout)")
    setMod i (-1)
    setMissing i name (w.sys.now + modTimeout)
  else do
    whenever (g.volume ≠ .quiet)
      (sStatusGroup 2 false i (str "Sign-off")
        (str "Your group moderator signed off. (No timeout)"))
    setMod i newmod
    whenever (newmod ≥ 0) do
      let v ← getU newmod
      sStatusGroup 2 false i (str "Pass") (v.nickname ++ str " is now mod.")

/-- The loop over the groups the user moderated. A group without members is left as it is, and the
loop finds it again. -/
def lostMods (n : Int) (wasRegistered : Bool) (name : Bytes) : Nat → W Unit
  | 0 => modMisc fun m => { m with diverged := true }
  | fuel + 1 => do
      let w ← getW
      let i := checkMods w n
      whenever (i ≠ -1) do
        whenever (countUsersInGroup w (w.gTab i).name > 0) (lostMod i wasRegistered name)
        lostMods n wasRegistered name fuel

/-- The group of a lost user: it is told, or it goes with its last member. -/
def leaveGroup (ogi : Int) (group : Bytes) (text : Bytes) : W Unit := do
  let w ← getW
  let g ← getG ogi
  if countUsersInGroup w group > 0 then
    whenever (g.volume ≠ .quiet) (sStatusGroup 2 false ogi (str "Sign-off") text)
  else clearGroupItem ogi

/-- `s_lost_user`. -/
def sLostUser (n : Int) : W Unit := do
  let w ← getW
  let u ← getU n
  let group := u.group.take maxGroupLen
  if n ≥ maxRealUsers then pure ()
  else if u.login = .no then clearUserItem n
  else do
    notifyOff n
    clearUserItem n
    let ogi := findGroup w group
    whenever (ogi ≥ 0) do
      leaveGroup ogi group
        (fullId u ++ (if w.sKill n > 0 then str " has been disconnected." else str " has signed off."))
      lostMods n (u.realname ≠ []) (u.nickname.take maxNickLen) (maxGroups + 1)

/-! ## §4 — runs -/

/-- The tables at start-up, with an open database `db`. -/
def startup (sys : Sys) (db : Bytes → Option Bytes) : World :=
  ((do
    fillUserEntry nickserv (str "server") Env.thishost (str "Server") [] (str "ICB") [] .complete 0 1 0
    modUOpts nickserv fun o => { o with tOn := sys.now, tRecv := sys.now }
    setRealname nickserv registered
    fillGroupEntry 0 (str "ICB") (str "...here to serve you!") .supersecret .restricted nickserv .quiet
    nickwritetime nickserv false : W Unit)
    { db := db, sys := sys, stats := { startTime := sys.now } }).2

/-- A callback of the packet layer. -/
inductive Event
  | connect (n : Int) (secure : Bool) (remote : Option Bytes)
  | packet (n : Int) (contents : Bytes)
  | lost (n : Int)
  | didpoll

/-- The callback's program. -/
def Event.prog : Event → M Unit
  | .connect n secure remote => onWorld (sNewUser n secure remote)
  | .packet n contents => dispatch n contents
  | .lost n => onWorld (sLostUser n)
  | .didpoll => onWorld sDidpoll

/-- The server and the connections that are open. -/
structure Host extends Daemon where
  opened : Int → Bool := fun _ => false

/-- May the packet layer raise this event? -/
def Event.enabled (h : Host) : Event → Prop
  | .connect n _ _ => inUsers n ∧ h.opened n = false
  | .packet n _ => h.opened n
  | .lost n => h.opened n
  | .didpoll => True

/-- The open connections after an event. -/
def Event.opens (opened : Int → Bool) : Event → Int → Bool
  | .connect n _ _ => Function.update opened n true
  | .lost n => Function.update opened n false
  | _ => opened

/-- The daemon as it meets the next event: the system has moved on. -/
def Daemon.at (d : Daemon) (sys : Sys) : Daemon := { d with w := { d.w with sys := sys } }

/-- The host after an event. -/
def Host.after (h : Host) (sys : Sys) (e : Event) : Host :=
  { toDaemon := (e.prog (h.toDaemon.at sys)).2, opened := e.opens h.opened }

/-- The process is there and comes back from its callbacks. -/
def World.live (w : World) : Prop := w.diverged = false ∧ w.halted = false

/-- One event of a live server. -/
structure Step (h : Host) (sys : Sys) (e : Event) (h' : Host) : Prop where
  live : h.w.live
  enabled : e.enabled h
  after : h' = h.after sys e

/-- The states reached from start-up by events that all satisfy a condition, and that come back. -/
inductive Reachable (P : Host → Sys → Event → Prop) : Host → Prop
  | start (sys : Sys) (db : Bytes → Option Bytes) :
      Reachable P { w := startup sys db }
  | step {h h' : Host} {sys : Sys} {e : Event} :
      Reachable P h → P h sys e → Step h sys e h' → h'.w.live → Reachable P h'

/-! ## §5 — a small server -/

/-- Four slots, the last of them the automatic user's. -/
@[reducible] def smallEnv : Env where
  maxUsers := 4
  two_le_maxUsers := by decide
  adminPwd := str "secret"
  thishost := str "icb.example"
  strftime _ := str " 1-Jan-1990 00:00 UTC"
  hour _ := 0
  minute _ := 0
  ctime _ := str "Mon Jan  1 00:00:00 1990"
  inetAddr _ := 0

/-- A login packet: the id, the nickname, the group and the password. -/
def loginPkt (loginid nick group password : String) : Bytes :=
  str "a" ++ str loginid ++ sep ++ str nick ++ sep ++ str group ++ sep ++ str "login" ++ sep ++
    str password

/-- A command packet with its argument. -/
def cmdPkt (name arg : String) : Bytes := str "h" ++ str name ++ sep ++ str arg

/-- The host after a list of events, under one unchanging system. -/
def Host.run (sys : Sys) (h : Host) (es : List Event) : Host := es.foldl (fun h e => h.after sys e) h

instance (w : World) : Decidable w.live := inferInstanceAs (Decidable (_ ∧ _))

instance (h : Host) : (e : Event) → Decidable (e.enabled h)
  | .connect .. | .packet .. | .lost _ | .didpoll => by dsimp only [Event.enabled]; infer_instance

/-- Every event of a list meets the condition when its turn comes, and comes back. -/
def Host.follows (P : Host → Sys → Event → Prop) (sys : Sys) : Host → List Event → Prop
  | _, [] => True
  | h, e :: es => P h sys e ∧ h.w.live ∧ e.enabled h ∧ (h.after sys e).w.live ∧
      (h.after sys e).follows P sys es

/-- The condition can be checked if it is decidable for each event. -/
def Host.decidableFollows {P : Host → Sys → Event → Prop} [∀ h sys e, Decidable (P h sys e)]
    (sys : Sys) : (es : List Event) → (h : Host) → Decidable (h.follows P sys es)
  | [], _ => .isTrue trivial
  | e :: es, h =>
      have := decidableFollows (P := P) sys es (h.after sys e)
      inferInstanceAs (Decidable (_ ∧ _))

instance {P : Host → Sys → Event → Prop} [∀ h sys e, Decidable (P h sys e)] (sys : Sys)
    (es : List Event) (h : Host) : Decidable (h.follows P sys es) := Host.decidableFollows sys es h

/-- The list can be followed, and the host satisfies `Q` at its end: one evaluation for both. -/
def Host.leads (P : Host → Sys → Event → Prop) (sys : Sys) (Q : Host → Prop) : Host → List Event → Prop
  | h, [] => Q h
  | h, e :: es => P h sys e ∧ h.w.live ∧ e.enabled h ∧ (h.after sys e).w.live ∧
      (h.after sys e).leads P sys Q es

def Host.decidableLeads {P : Host → Sys → Event → Prop} [∀ h sys e, Decidable (P h sys e)]
    {Q : Host → Prop} [DecidablePred Q] (sys : Sys) : (es : List Event) → (h : Host) →
    Decidable (h.leads P sys Q es)
  | [], h => inferInstanceAs (Decidable (Q h))
  | e :: es, h =>
      have := decidableLeads (P := P) (Q := Q) sys es (h.after sys e)
      inferInstanceAs (Decidable (_ ∧ _))

instance {P : Host → Sys → Event → Prop} [∀ h sys e, Decidable (P h sys e)] {Q : Host → Prop}
    [DecidablePred Q] (sys : Sys) (es : List Event) (h : Host) : Decidable (h.leads P sys Q es) :=
  Host.decidableLeads sys es h

theorem Host.leads_iff {P : Host → Sys → Event → Prop} {sys : Sys} {Q : Host → Prop} {h : Host}
    {es : List Event} : h.leads P sys Q es ↔ h.follows P sys es ∧ Q (h.run sys es) := by
  induction es generalizing h with
  | nil => exact (true_and _).to_iff.symm
  | cons e es ih =>
    show _ ∧ _ ∧ _ ∧ _ ∧ (h.after sys e).leads P sys Q es ↔ (_ ∧ _ ∧ _ ∧ _ ∧ _) ∧ Q ((h.after sys e).run sys es)
    rw [ih]
    simp only [and_assoc]

/-- A list of events is a run. -/
theorem Reachable.run {P : Host → Sys → Event → Prop} {sys : Sys} {h : Host} {es : List Event}
    (hr : Reachable P h) (hf : h.follows P sys es) : Reachable P (h.run sys es) := by
  induction es generalizing h with
  | nil => exact hr
  | cons e es ih =>
    obtain ⟨hp, hl, he, hl', hf⟩ := hf
    exact ih (hr.step hp ⟨hl, he, rfl⟩ hl') hf

/-- The end of such a run is reached. -/
theorem Reachable.leads_run {P : Host → Sys → Event → Prop} {sys : Sys} {Q : Host → Prop} {h h' : Host}
    {es : List Event} (hr : Reachable P h) (he : h' = h.run sys es) (hl : h.leads P sys Q es) :
    Reachable P h' ∧ Q h' := by
  obtain ⟨hf, hq⟩ := Host.leads_iff.mp hl
  rw [he]
  exact ⟨hr.run hf, hq⟩

theorem Reachable.leads {P : Host → Sys → Event → Prop} {sys : Sys} {Q : Host → Prop} {h : Host}
    {es : List Event} (hr : Reachable P h) (hl : h.leads P sys Q es) : ∃ h', Reachable P h' ∧ Q h' :=
  ⟨h.run sys es, hr.leads_run rfl hl⟩

end Icbd.Server
