/-
# Icbd.Server.State — the tables of the server and the operations on them.

`u_tab`, `g_tab` and the other globals of `globals.c` are one record, the `World`; `users.c`,
`groups.c` and the accessors of the database are operations on it. The split fields of the current
packet are not part of the world: handlers that read `fields[]` run over a `Daemon`.

Entries are records in two parts. The identity part holds what other parts of the server look users
and groups up by; the options part holds everything else. A write to an options part cannot change
an identity, which is what most handlers are known for.

Log output is not modelled. Arrays are total functions on the index, and an access outside the table
raises the `fault` flag.
-/
import Icbd.NameList
import Icbd.Lib.StateRel
import Mathlib.Data.List.Find
import Mathlib.Data.List.Nodup
import Mathlib.Logic.Function.Basic

namespace Icbd.Server

open Icbd.Lib

/-! ## §1 — the environment of the program -/

/-- What is fixed when the server is built and started. -/
class Env where
  /-- `MAX_USERS`. -/
  maxUsers : Nat
  two_le_maxUsers : 2 ≤ maxUsers
  /-- `ADMIN_PWD`. -/
  adminPwd : Bytes
  /-- `thishost`. -/
  thishost : Bytes
  /-- `strftime` with `"%e-%h-%Y %H:%M %Z"` of the local time. -/
  strftime : Int → Bytes
  /-- The hour and the minute of the local time. -/
  hour : Int → Fin 24
  minute : Int → Fin 60
  /-- `ctime` without its newline. -/
  ctime : Int → Bytes
  /-- `inet_addr`. -/
  inetAddr : Bytes → Nat

section
variable [Env]

/-- `MAX_REAL_USERS`. -/
def maxRealUsers : Nat := Env.maxUsers - 1

/-- `NICKSERV`, the slot of the automatic user. -/
def nickserv : Int := Env.maxUsers - 1

end

/-- The slots below `k`. -/
def slots (k : Nat) : List Int := (List.range k).map Int.ofNat

/-- `IDLE_GROUP`. -/
def idleGroup : Bytes := str "~IDLE~"
/-- `BOOT_GROUP`. -/
def bootGroup : Bytes := str "~RESEDA~"

/-- What the operating system would answer during one step. -/
structure Sys where
  /-- `time(NULL)`, and the microseconds of `gettimeofday`. -/
  now : Int := 0
  usec : Int := 0
  /-- Does `icbdb_open` succeed? -/
  dbOpens : Bool := true
  motd : Option Bytes := none
  help : Option Bytes := none
  /-- The file `news.X`. -/
  news : Bytes → Option Bytes := fun _ => none
  /-- `ACCESS_FILE`. -/
  access : Option Bytes := none
  /-- `PERM_FILE`. -/
  perms : Option Bytes := none
  /-- `getpeername` succeeds, and the peer's IPv4 address if it has one. -/
  peer : Int → Option (Option Nat) := fun _ => some none
  /-- The numeric address `getnameinfo` gives, or `(unknown)`. -/
  peerName : Int → Bytes := fun _ => str "(unknown)"
  /-- `strerror(errno)`. -/
  strerror : Bytes := []

/-! ## §2 — table entries -/

/-- `LOGIN_FALSE`, `LOGIN_PENDING`, `LOGIN_COMPLETE`. -/
inductive Login
  | no
  | pending
  | complete
  deriving DecidableEq, Repr

/-- `visibility`. -/
inductive Visibility
  | visible
  | secret
  | supersecret
  deriving DecidableEq, Repr

/-- `control`. -/
inductive Control
  | pub
  | moderated
  | restricted
  | controlled
  deriving DecidableEq, Repr

/-- `volume`. -/
inductive Volume
  | quiet
  | normal
  | loud
  deriving DecidableEq, Repr

/-- The identity part of a `USER_ITEM`. -/
structure UserId where
  loginid : Bytes := []
  nodeid : Bytes := []
  nickname : Bytes := []
  password : Bytes := []
  realname : Bytes := []
  group : Bytes := []
  login : Login := .no
  deriving DecidableEq, Repr

/-- The rest of a `USER_ITEM`. -/
structure UserOpts where
  awaymsg : Bytes := []
  lastaway : Int := 0
  lastawaytime : Int := 0
  echoback : Int := 0
  nobeep : Int := 0
  perms : Nat := 0
  tNotify : Int := 0
  tOn : Int := 0
  tSent : Int := 0
  tRecv : Int := 0
  tGroup : Int := 0
  secure : Bool := false
  priNHushed : NamList := nlinit maxHushed
  pubNHushed : NamList := nlinit maxHushed
  priSHushed : NamList := nlinit maxHushed
  pubSHushed : NamList := nlinit maxHushed
  nNotifies : NamList := nlinit maxHushed
  sNotifies : NamList := nlinit maxHushed
  deriving DecidableEq, Repr

/-- `USER_ITEM`. -/
structure User extends UserId, UserOpts
  deriving DecidableEq, Repr

/-- The identity part of a `GROUP_ITEM`: its name and who moderates it. -/
structure GroupId where
  name : Bytes := []
  mod : Int := -1
  missingmod : Bytes := []
  modtimeout : Int := 0
  deriving DecidableEq, Repr

/-- The rest of a `GROUP_ITEM`. -/
structure GroupOpts where
  topic : Bytes := []
  visibility : Visibility := .visible
  control : Control := .pub
  volume : Volume := .loud
  nInvites : NamList := nlinit maxInvites
  nrInvites : NamList := nlinit maxInvites
  sInvites : NamList := nlinit maxInvites
  srInvites : NamList := nlinit maxInvites
  nBars : NamList := nlinit maxInvites
  nNrBars : NamList := nlinit maxInvites
  sBars : NamList := nlinit maxInvites
  sNrBars : NamList := nlinit maxInvites
  nTalk : NamList := nlinit maxInvites
  nrTalk : NamList := nlinit maxInvites
  size : Int := 0
  idleboot : Int := defIdleBoot
  idlebootMsg : Bytes := []
  idlemod : Int := defIdleMod
  deriving DecidableEq, Repr

/-- `GROUP_ITEM`. -/
structure Group extends GroupId, GroupOpts
  deriving DecidableEq, Repr

/-! ## §3 — the world -/

/-- `server_stats`. -/
structure Stats where
  startTime : Int := 0
  signons : Int := 0
  boots : Int := 0
  idleboots : Int := 0
  idlemods : Int := 0
  drops : Int := 0
  deriving DecidableEq, Repr

/-- A call into the packet layer: the bytes after the length byte, or a request to disconnect. -/
inductive Out
  | send (dest : Int) (content : Bytes)
  | disconnect (n : Int)
  deriving DecidableEq, Repr

/-- The globals of the server. -/
structure World where
  uTab : Int → User := fun _ => {}
  gTab : Int → Group := fun _ => {}
  /-- The user database, key by key. -/
  db : Bytes → Option Bytes := fun _ => none
  /-- `S_kill`. -/
  sKill : Int → Int := fun _ => 0
  lprivId : Int → Int := fun _ => -1
  pongReq : Int → Int := fun _ => -1
  /-- `ping_time`, in seconds and microseconds. -/
  pingTime : Int → Int × Int := fun _ => (0, 0)
  /-- `u_recv_count`. -/
  uRecvCount : Int → Int := fun _ => 0
  isBooting : Bool := false
  timeToDie : Int := -1
  shutdownNotify : Int := 0
  stats : Stats := {}
  logLevel : Int := 0
  sys : Sys := {}
  /-- The calls into the packet layer, latest first. -/
  out : List Out := []
  /-- A table was accessed outside its bounds. -/
  fault : Bool := false
  /-- A loop or a recursion did not come back. -/
  diverged : Bool := false
  /-- The process has ended (`icbexit`, or the `exec` of a restart). -/
  halted : Bool := false

/-- A program over the world. -/
abbrev W := StateM World

/-- A world and the global `fields[]`. -/
structure Daemon where
  w : World
  fields : Nat → Bytes := fun _ => []

/-- A program that may read and write `fields[]`. -/
abbrev M := StateM Daemon

/-- A program over the world, run inside the daemon. -/
def onWorld {α : Type} (x : W α) : M α := fun s => ((x s.w).1, { s with w := (x s.w).2 })

@[simp] theorem onWorld_fst {α : Type} (x : W α) (d : Daemon) : (onWorld x d).1 = (x d.w).1 := rfl

@[simp] theorem onWorld_w {α : Type} (x : W α) (d : Daemon) : (onWorld x d).2.w = (x d.w).2 := rfl

@[simp] theorem onWorld_fields {α : Type} (x : W α) (d : Daemon) :
    (onWorld x d).2.fields = d.fields := rfl

/-- `fields[i]`. -/
def getField (i : Nat) : M Bytes := fun s => (s.fields i, s)

@[simp] theorem getField_apply (i : Nat) (d : Daemon) : getField i d = (d.fields i, d) := rfl

/-- `strcpy(fields[i], v)`. -/
def setField (i : Nat) (v : Bytes) : M Unit :=
  fun s => ((), { s with fields := Function.update s.fields i v })

/-- `split`: the pieces go to the front of `fields[]`, what is behind them stays. -/
def split (pkt : Bytes) : M Nat := fun s =>
  (splitCount pkt, { s with fields := fun i => (splitFields pkt).getD i (s.fields i) })

@[simp] theorem split_fst (pkt : Bytes) (d : Daemon) : (split pkt d).1 = splitCount pkt := rfl

@[simp] theorem split_w (pkt : Bytes) (d : Daemon) : (split pkt d).2.w = d.w := rfl

/-- A field of the packet that was just split. -/
theorem split_fields {pkt : Bytes} {d : Daemon} {i : Nat} (h : i < (splitFields pkt).length) :
    (split pkt d).2.fields i = (splitFields pkt).getD i [] := by
  simp [split, List.getD_eq_getElem?_getD, List.getElem?_eq_getElem h]

/-! ## §4 — reading and writing the tables -/

section
variable [Env]

/-- A slot of `u_tab`. -/
def inUsers (n : Int) : Bool := 0 ≤ n ∧ n < Env.maxUsers

/-- A slot of `g_tab`. -/
def inGroups (i : Int) : Bool := 0 ≤ i ∧ i < maxGroups

/-- `u_tab[n]`. -/
def getU (n : Int) : W User :=
  fun w => (w.uTab n, { w with fault := w.fault || !inUsers n })

/-- `g_tab[i]`. -/
def getG (i : Int) : W Group :=
  fun w => (w.gTab i, { w with fault := w.fault || !inGroups i })

@[simp] theorem getU_fst (n : Int) (w : World) : (getU n w).1 = w.uTab n := rfl

omit [Env] in
@[simp] theorem getG_fst (i : Int) (w : World) : (getG i w).1 = w.gTab i := rfl

end

/-- The world itself. -/
def getW : W World := fun w => (w, w)

@[simp] theorem getW_apply (w : World) : getW w = (w, w) := rfl

/-- A table with one entry changed. -/
def World.modU (w : World) (n : Int) (f : User → User) : World :=
  { w with uTab := Function.update w.uTab n (f (w.uTab n)) }

/-- A table with one entry changed. -/
def World.modG (w : World) (i : Int) (f : Group → Group) : World :=
  { w with gTab := Function.update w.gTab i (f (w.gTab i)) }

/-- Change the options of a user. -/
def modUOpts (n : Int) (f : UserOpts → UserOpts) : W Unit :=
  fun w => ((), w.modU n fun u => { u with toUserOpts := f u.toUserOpts })

/-- Change the options of a group. -/
def modGOpts (i : Int) (f : GroupOpts → GroupOpts) : W Unit :=
  fun w => ((), w.modG i fun g => { g with toGroupOpts := f g.toGroupOpts })

/-- `u_tab[n].loginid`, `nodeid` and `password` are filled in. -/
def setIdent (n : Int) (loginid nodeid password : Bytes) : W Unit :=
  fun w => ((), w.modU n fun u =>
    { u with loginid := loginid, nodeid := nodeid, password := password })

/-- `strcpy(u_tab[n].nickname, v)`. -/
def setNickname (n : Int) (v : Bytes) : W Unit :=
  fun w => ((), w.modU n fun u => { u with nickname := v })

/-- `strcpy(u_tab[n].realname, v)`. -/
def setRealname (n : Int) (v : Bytes) : W Unit :=
  fun w => ((), w.modU n fun u => { u with realname := v })

/-- `strcpy(u_tab[n].group, v)`. -/
def setUserGroup (n : Int) (v : Bytes) : W Unit :=
  fun w => ((), w.modU n fun u => { u with group := v })

/-- `u_tab[n].login = v`. -/
def setLogin (n : Int) (v : Login) : W Unit :=
  fun w => ((), w.modU n fun u => { u with login := v })

/-- `g_tab[i].mod = v`. -/
def setMod (i v : Int) : W Unit :=
  fun w => ((), w.modG i fun g => { g with mod := v })

/-- `g_tab[i].missingmod` and `g_tab[i].modtimeout`. -/
def setMissing (i : Int) (nick : Bytes) (timeout : Int) : W Unit :=
  fun w => ((), w.modG i fun g => { g with missingmod := nick, modtimeout := timeout })

/-- `strcpy(g_tab[i].name, v)`. -/
def setGroupName (i : Int) (v : Bytes) : W Unit :=
  fun w => ((), w.modG i fun g => { g with name := v })

/-- The globals beside the two tables and the database. -/
structure Misc where
  sKill : Int → Int
  lprivId : Int → Int
  pongReq : Int → Int
  pingTime : Int → Int × Int
  uRecvCount : Int → Int
  isBooting : Bool
  timeToDie : Int
  shutdownNotify : Int
  stats : Stats
  logLevel : Int
  fault : Bool
  diverged : Bool
  halted : Bool

/-- The other globals of a world. -/
def World.misc (w : World) : Misc :=
  { sKill := w.sKill, lprivId := w.lprivId, pongReq := w.pongReq, pingTime := w.pingTime
    uRecvCount := w.uRecvCount, isBooting := w.isBooting, timeToDie := w.timeToDie
    shutdownNotify := w.shutdownNotify, stats := w.stats, logLevel := w.logLevel
    fault := w.fault, diverged := w.diverged, halted := w.halted }

/-- A world with other globals. -/
def World.withMisc (w : World) (m : Misc) : World :=
  { w with
    sKill := m.sKill, lprivId := m.lprivId, pongReq := m.pongReq, pingTime := m.pingTime
    uRecvCount := m.uRecvCount, isBooting := m.isBooting, timeToDie := m.timeToDie
    shutdownNotify := m.shutdownNotify, stats := m.stats, logLevel := m.logLevel
    fault := m.fault, diverged := m.diverged, halted := m.halted }

/-- Change the other globals. -/
def modMisc (f : Misc → Misc) : W Unit := fun w => ((), w.withMisc (f w.misc))

/-- A call into the packet layer. -/
def emit (o : Out) : W Unit := fun w => ((), { w with out := o :: w.out })

section
variable {α : Type} {w : World} {d : Daemon}

theorem wp_getW {Q : World → World → Prop} (h : Q w w) : wp getW Q w := h

theorem wp_getU [Env] {n : Int} {Q : User → World → Prop} (h : Q (w.uTab n) (getU n w).2) :
    wp (getU n) Q w := h

theorem wp_getG [Env] {i : Int} {Q : Group → World → Prop} (h : Q (w.gTab i) (getG i w).2) :
    wp (getG i) Q w := h

theorem wp_onWorld {x : W α} {Q : α → Daemon → Prop}
    (h : wp x (fun a w' => Q a { d with w := w' }) d.w) : wp (onWorld x) Q d := h

theorem wp_getField {i : Nat} {Q : Bytes → Daemon → Prop} (h : Q (d.fields i) d) :
    wp (getField i) Q d := h

theorem wp_split {pkt : Bytes} {Q : Nat → Daemon → Prop} (h : Q (splitCount pkt) (split pkt d).2) :
    wp (split pkt) Q d := h

end

/-! ## §5 — `users.c` and `groups.c` -/

/-- The first slot of a list that satisfies a test, -1 if there is none. -/
def firstSlot (xs : List Int) (p : Int → Bool) : Int := (xs.find? p).getD (-1)

section
variable [Env]

/-- `find_user`. -/
def findUser (w : World) (name : Bytes) : Int :=
  if name = [] then -1
  else firstSlot (slots Env.maxUsers) fun i => strcaseEq (w.uTab i).nickname name

/-- `count_users_in_group`. -/
def countUsersInGroup (w : World) (group : Bytes) : Nat :=
  if group = [] then 0
  else ((slots Env.maxUsers).filter fun i => strcaseEq (w.uTab i).group group).length

/-- `find_group`. -/
def findGroup (w : World) (name : Bytes) : Int :=
  if name = [] then -1
  else firstSlot (slots maxGroups) fun i => strcaseEq (w.gTab i).name name

/-- `find_empty_group`. -/
def findEmptyGroup (w : World) : Int :=
  firstSlot (slots maxGroups) fun i => (w.gTab i).name = []

/-- `check_mods`. -/
def checkMods (w : World) (n : Int) : Int :=
  firstSlot (slots maxGroups) fun i => (w.gTab i).mod = n

/-- The slot of `n`'s group. -/
def groupOf (w : World) (n : Int) : Int := findGroup w (w.uTab n).group

/-- `loginid@nodeid`. -/
def address (u : User) : Bytes := u.loginid ++ str "@" ++ u.nodeid

omit [Env] in
/-- `firstSlot` finds a slot of its list, or nothing passes the test. -/
theorem firstSlot_spec (xs : List Int) (p : Int → Bool) :
    (firstSlot xs p ∈ xs ∧ p (firstSlot xs p)) ∨ (firstSlot xs p = -1 ∧ ∀ i ∈ xs, ¬ p i) := by
  unfold firstSlot
  cases h : xs.find? p with
  | none => exact .inr ⟨rfl, by simpa using List.find?_eq_none.mp h⟩
  | some i => exact .inl ⟨List.mem_of_find?_eq_some h, List.find?_some h⟩

omit [Env] in
/-- A stronger test that the first slot passes has the same first slot. -/
theorem firstSlot_of_imp {xs : List Int} {p q : Int → Bool} (himp : ∀ i ∈ xs, q i → p i)
    (hfound : firstSlot xs p ∈ xs) (hq : q (firstSlot xs p)) : firstSlot xs q = firstSlot xs p := by
  unfold firstSlot at hfound hq ⊢
  induction xs with
  | nil => rfl
  | cons i xs ih =>
    by_cases hp : p i
    · simp only [List.find?_cons, hp, Option.getD_some] at hq ⊢
      simp [hq]
    · have hqi : q i = false := by simpa using mt (himp i List.mem_cons_self) hp
      have hpi : p i = false := by simpa using hp
      simp only [List.find?_cons, hpi, hqi] at hfound hq ⊢
      refine ih (fun j hj => himp j (List.mem_cons_of_mem i hj)) ?_ hq
      rcases List.mem_cons.mp hfound with heq | hmem
      · rw [heq] at hq
        exact absurd hq (by simp [hqi])
      · exact hmem

omit [Env] in
theorem mem_slots {k : Nat} {i : Int} : i ∈ slots k ↔ 0 ≤ i ∧ i < k := by
  simp only [slots, List.mem_map, List.mem_range]
  constructor
  · rintro ⟨a, ha, rfl⟩
    exact ⟨Int.natCast_nonneg a, by simpa using ha⟩
  · rintro ⟨h₁, h₂⟩
    exact ⟨i.toNat, by omega, Int.toNat_of_nonneg h₁⟩

omit [Env] in
theorem slots_nodup (k : Nat) : (slots k).Nodup :=
  List.Nodup.map (fun _ _ h => Int.ofNat.inj h) List.nodup_range

theorem inUsers_iff {i : Int} : inUsers i = true ↔ i ∈ slots Env.maxUsers := by
  simp [inUsers, mem_slots]

theorem inUsers_nickserv : inUsers nickserv := by
  have := Env.two_le_maxUsers
  simp [inUsers, nickserv]
  omega

/-- The automatic user's slot is the one behind those for connections. -/
theorem eq_nickserv {n : Int} (hn : inUsers n) (hbig : n ≥ maxRealUsers) : n = nickserv := by
  have := (mem_slots.mp (inUsers_iff.mp hn)).2
  have := Env.two_le_maxUsers
  unfold maxRealUsers at hbig
  unfold nickserv
  omega

theorem lt_nickserv {n : Int} (hn : n < maxRealUsers) : n < nickserv := by
  have := Env.two_le_maxUsers
  unfold maxRealUsers at hn
  unfold nickserv
  omega

/-- A name `find_user` does not find is held by no slot. -/
theorem findUser_neg {w : World} {name : Bytes} (hname : name ≠ []) (h : findUser w name < 0) {j : Int}
    (hj : inUsers j) : ¬ strcaseEq (w.uTab j).nickname name := by
  rw [findUser, if_neg hname] at h
  obtain ⟨hm, -⟩ | ⟨-, hnone⟩ :=
    firstSlot_spec (slots Env.maxUsers) fun i => strcaseEq (w.uTab i).nickname name
  · have := (mem_slots.mp hm).1
    omega
  · exact hnone j (inUsers_iff.mp hj)

/-- The slot `find_user` finds holds the name. -/
theorem findUser_nonneg {w : World} {name : Bytes} (h : 0 ≤ findUser w name) :
    inUsers (findUser w name) ∧ strcaseEq (w.uTab (findUser w name)).nickname name := by
  unfold findUser at h ⊢
  split at h
  · omega
  · next hname =>
    rw [if_neg hname]
    obtain ⟨hm, hp⟩ | ⟨heq, -⟩ :=
      firstSlot_spec (slots Env.maxUsers) fun i => strcaseEq (w.uTab i).nickname name
    · exact ⟨inUsers_iff.mpr hm, hp⟩
    · omega

section
variable {w : World} {name : Bytes} {i : Int}

omit [Env]

/-- The slot `find_group` finds holds the name. -/
theorem findGroup_nonneg (h : 0 ≤ findGroup w name) :
    findGroup w name ∈ slots maxGroups ∧ strcaseEq (w.gTab (findGroup w name)).name name := by
  unfold findGroup at h ⊢
  split at h
  · omega
  · next hname =>
    rw [if_neg hname]
    obtain hfound | ⟨heq, -⟩ :=
      firstSlot_spec (slots maxGroups) fun i => strcaseEq (w.gTab i).name name
    · exact hfound
    · omega

theorem ne_nil_of_findGroup (h : 0 ≤ findGroup w name) : name ≠ [] := by
  rintro rfl
  simp [findGroup] at h

/-- Nor is it an empty name. -/
theorem findGroup_named (h : 0 ≤ findGroup w name) : (w.gTab (findGroup w name)).name ≠ [] := by
  intro hnil
  have heq := (findGroup_nonneg h).2
  rw [hnil, strcaseEq_comm] at heq
  exact ne_nil_of_findGroup h (strcaseEq_nil heq)

/-- A name `find_group` does not find is no group's. -/
theorem findGroup_neg (hname : name ≠ []) (h : findGroup w name < 0) (hi : i ∈ slots maxGroups) :
    ¬ strcaseEq (w.gTab i).name name := by
  rw [findGroup, if_neg hname] at h
  obtain ⟨hm, -⟩ | ⟨-, hnone⟩ :=
    firstSlot_spec (slots maxGroups) fun i => strcaseEq (w.gTab i).name name
  · have := (mem_slots.mp hm).1
    omega
  · exact hnone i hi

/-- What `find_group` does not find has no slot. -/
theorem findGroup_eq_neg_one (h : findGroup w name < 0) : findGroup w name = -1 := by
  unfold findGroup at h ⊢
  split
  · rfl
  · next hname =>
    rw [if_neg hname] at h
    obtain ⟨hm, -⟩ | ⟨heq, -⟩ :=
      firstSlot_spec (slots maxGroups) fun i => strcaseEq (w.gTab i).name name
    · have := (mem_slots.mp hm).1
      omega
    · exact heq

/-- A group with the name is found. -/
theorem findGroup_of_mem (hname : name ≠ []) (hi : i ∈ slots maxGroups)
    (heq : strcaseEq (w.gTab i).name name) : 0 ≤ findGroup w name := by
  by_contra hneg
  exact findGroup_neg hname (by omega) hi heq

/-- The only group with the name is the one that is found. -/
theorem findGroup_eq (hname : name ≠ []) (hi : i ∈ slots maxGroups)
    (heq : strcaseEq (w.gTab i).name name)
    (honly : ∀ j ∈ slots maxGroups, j ≠ i → ¬ strcaseEq (w.gTab j).name name) :
    findGroup w name = i := by
  obtain ⟨hmem, hfound⟩ := findGroup_nonneg (findGroup_of_mem hname hi heq)
  by_contra hne
  exact honly _ hmem hne hfound

/-- `find_group` only asks which names match. -/
theorem findGroup_congr {w' : World}
    (h : ∀ i ∈ slots maxGroups, strcaseEq (w'.gTab i).name name = strcaseEq (w.gTab i).name name) :
    findGroup w' name = findGroup w name := by
  simp only [findGroup, firstSlot, List.find?_congr h]

/-- `find_empty_group` finds a slot with an empty name. -/
theorem findEmptyGroup_nonneg (h : 0 ≤ findEmptyGroup w) :
    findEmptyGroup w ∈ slots maxGroups ∧ (w.gTab (findEmptyGroup w)).name = [] := by
  unfold findEmptyGroup at h ⊢
  obtain ⟨hm, hp⟩ | ⟨heq, -⟩ := firstSlot_spec (slots maxGroups) fun i => (w.gTab i).name = []
  · exact ⟨hm, by simpa using hp⟩
  · omega

end

/-- Nobody is counted in a group if and only if no slot is in it. -/
theorem countUsersInGroup_eq_zero {w : World} {group : Bytes} (hgroup : group ≠ []) :
    countUsersInGroup w group = 0 ↔ ∀ j ∈ slots Env.maxUsers, ¬ strcaseEq (w.uTab j).group group := by
  rw [countUsersInGroup, if_neg hgroup, List.length_eq_zero_iff, List.filter_eq_nil_iff]

/-- `clear_group_item`. -/
def clearGroupItem (i : Int) : W Unit := do
  setGroupName i []
  setMod i (-1)
  setMissing i [] 0
  modGOpts i fun g =>
    { g with
      topic := [], visibility := .visible, control := .pub, volume := .loud
      nInvites := nlclear g.nInvites, nrInvites := nlclear g.nrInvites
      sInvites := nlclear g.sInvites, srInvites := nlclear g.srInvites
      nBars := nlclear g.nBars, nNrBars := nlclear g.nNrBars
      sBars := nlclear g.sBars, sNrBars := nlclear g.sNrBars
      nTalk := nlclear g.nTalk, nrTalk := nlclear g.nrTalk
      size := 0, idleboot := defIdleBoot, idlebootMsg := [], idlemod := defIdleMod }

/-- `fill_group_entry`. -/
def fillGroupEntry (i : Int) (name topic : Bytes) (visibility : Visibility) (control : Control)
    (mod : Int) (volume : Volume) : W Unit := do
  setGroupName i name
  setMod i mod
  modGOpts i fun g =>
    { g with topic := topic, visibility := visibility, control := control, volume := volume }

/-- `fill_user_entry`. Every string is cut to its array. -/
def fillUserEntry (n : Int) (loginid nodeid nickname password group awaymsg : Bytes)
    (login : Login) (echoback nobeep : Int) (perms : Nat) : W Unit := do
  setIdent n (loginid.take maxIdLen) (nodeid.take maxNodeLen) (password.take maxPasswdLen)
  setNickname n (nickname.take maxNickLen)
  setUserGroup n (group.take maxGroupLen)
  setLogin n login
  modUOpts n fun u =>
    { u with
      awaymsg := awaymsg.take maxAwayLen
      echoback := echoback, tNotify := 0, nobeep := nobeep, perms := perms }

end

/-! ## §6 — the database -/

/-- `icbdb_make_key` for the short names the server uses: `nick.attribute` in lower case. -/
def dbKey (nick : Bytes) (key : String) : Bytes := lcaseit (nick ++ str "." ++ str key)

/-- What is behind the last dot. -/
theorem append_dot_inj {a a' k k' : Bytes} (hk : 46 ∉ k) (hk' : 46 ∉ k')
    (h : a ++ 46 :: k = a' ++ 46 :: k') : a = a' ∧ k = k' := by
  simp only [List.append_eq_append_iff, List.cons_eq_append_iff, List.cons.injEq] at h
  rcases h with ⟨c, rfl, ⟨rfl, -, rfl⟩ | ⟨d, rfl, rfl⟩⟩ | ⟨c, rfl, ⟨rfl, -, rfl⟩ | ⟨d, rfl, rfl⟩⟩
  · simp
  · simp at hk
  · simp
  · simp at hk'

theorem dot_notMem_lcaseit {k : Bytes} (h : 46 ∉ k) : 46 ∉ lcaseit k := by
  intro hm
  obtain ⟨b, hb, heq⟩ := List.mem_map.mp hm
  have hdot : b = 46 := by
    unfold lower at heq
    split at heq
    next hup =>
      have hle : b.toNat ≤ (b ||| 32).toNat := UInt8.toNat_or b 32 ▸ Nat.left_le_or
      have hge : 65 ≤ b.toNat := UInt8.le_iff_toNat_le.mp hup.1
      rw [heq] at hle
      exact absurd (Nat.le_trans hge hle) (by decide)
    · exact heq
  exact h (hdot ▸ hb)

/-- Different attributes have different keys, whatever the nicknames. -/
theorem dbKey_inj {nick nick' : Bytes} {key key' : String} (hk : 46 ∉ str key) (hk' : 46 ∉ str key')
    (h : dbKey nick key = dbKey nick' key') :
    lcaseit nick = lcaseit nick' ∧ lcaseit (str key) = lcaseit (str key') := by
  have hsplit (nick : Bytes) (key : String) :
      dbKey nick key = lcaseit nick ++ 46 :: lcaseit (str key) := by
    simp only [dbKey, lcaseit, List.map_append, List.append_assoc]
    rfl
  rw [hsplit, hsplit] at h
  exact append_dot_inj (dot_notMem_lcaseit hk) (dot_notMem_lcaseit hk') h

/-- `icbdb_get` of a string. -/
def dbGet (nick : Bytes) (key : String) : W (Option Bytes) :=
  fun w => (if w.sys.dbOpens then w.db (dbKey nick key) else none, w)

/-- What is read from a database that opens. -/
theorem wp_dbGet {w : World} {nick : Bytes} {key : String} {Q : Option Bytes → World → Prop}
    (hopen : w.sys.dbOpens = true) (h : Q (w.db (dbKey nick key)) w) : wp (dbGet nick key) Q w := by
  have hget : dbGet nick key w = (w.db (dbKey nick key), w) := by simp [dbGet, hopen]
  rw [wp, hget]
  exact h

/-- Nothing is read from a database that does not. -/
theorem wp_dbGet_closed {w : World} {nick : Bytes} {key : String} {Q : Option Bytes → World → Prop}
    (hclosed : w.sys.dbOpens = false) (h : Q none w) : wp (dbGet nick key) Q w := by
  have hget : dbGet nick key w = (none, w) := by simp [dbGet, hclosed]
  rw [wp, hget]
  exact h

/-- `icbdb_set` of a string. -/
def dbSet (nick : Bytes) (key : String) (value : Bytes) : W Unit :=
  fun w => ((), if w.sys.dbOpens then
    { w with db := Function.update w.db (dbKey nick key) (some value) } else w)

/-- `icbdb_delete`. -/
def dbDelete (nick : Bytes) (key : String) : W Unit :=
  fun w => ((), if w.sys.dbOpens then
    { w with db := Function.update w.db (dbKey nick key) none } else w)

/-- `headerK`, `fromK`, `messageK`. -/
def numbered (base : String) (k : Int) : String := base ++ toString k

end Icbd.Server
