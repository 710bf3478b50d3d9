/-
# Icbd.Server.Dump — `icbdump` and `icbload`.

The state is written as text and read back in the same order: the descriptors that are polled, `S_kill`,
and each entry of the two tables field by field. `fscanf` and `fgets` take turns, so what comes back
depends on the strings and on what stands in front of them.

`pktserv_loadsockets` sets `g_pollsetsize` before the first descriptor is in `g_pollset`, and `add_pollfd`
looks for the descriptor among that many: in a process that has not polled anything the array is not even
there. A restart ends at this point; only a process that still polls what it has dumped comes through.
-/
import Icbd.Server.Poll
import Icbd.TextFile
import Mathlib.Data.List.Nodup

namespace Icbd.Server

section
variable [Env]

/-! ## §1 — the fields -/

/-- `LOGIN_FALSE`, `LOGIN_PENDING` and `LOGIN_COMPLETE`. -/
def Login.code : Login → Int
  | .no => 0
  | .pending => 1
  | .complete => 2

def Login.ofCode (i : Int) : Login := if i = 2 then .complete else if i = 1 then .pending else .no

/-- `VISIBLE`, `SECRET` and `SUPERSECRET`. -/
def Visibility.code : Visibility → Int
  | .visible => 1
  | .secret => 2
  | .supersecret => 3

def Visibility.ofCode (i : Int) : Visibility :=
  if i = 3 then .supersecret else if i = 2 then .secret else .visible

/-- `PUBLIC`, `MODERATED`, `RESTRICTED` and `CONTROLLED`. -/
def Control.code : Control → Int
  | .pub => 1
  | .moderated => 2
  | .restricted => 3
  | .controlled => 4

def Control.ofCode (i : Int) : Control :=
  if i = 4 then .controlled else if i = 3 then .restricted else if i = 2 then .moderated else .pub

/-- `QUIET`, `NORMAL` and `LOUD`. -/
def Volume.code : Volume → Int
  | .quiet => 1
  | .normal => 2
  | .loud => 3

def Volume.ofCode (i : Int) : Volume := if i = 3 then .loud else if i = 2 then .normal else .quiet

/-- The fields of a user, in the order of the file. `lastawaytime` is read into `k` and stored from `j`. -/
def userFields : List (Field User) :=
  [.text (·.loginid) fun v u => { u with loginid := v },
   .text (·.nodeid) fun v u => { u with nodeid := v },
   .text (·.nickname) fun v u => { u with nickname := v },
   .text (·.password) fun v u => { u with password := v },
   .text (·.realname) fun v u => { u with realname := v },
   .text (·.group) fun v u => { u with group := v },
   .text (·.awaymsg) fun v u => { u with awaymsg := v },
   .int (·.lastaway) fun v u => { u with lastaway := v },
   .long (·.lastawaytime) (fun j _ => j) fun v u => { u with lastawaytime := v },
   .int (·.login.code) fun v u => { u with login := .ofCode v },
   .int (·.echoback) fun v u => { u with echoback := v },
   .int (·.nobeep) fun v u => { u with nobeep := v },
   .long (·.perms) (fun _ k => k) fun v u => { u with perms := v.toNat },
   .int (·.tNotify) fun v u => { u with tNotify := v },
   .long (·.tOn) (fun _ k => k) fun v u => { u with tOn := v },
   .long (·.tSent) (fun _ k => k) fun v u => { u with tSent := v },
   .long (·.tRecv) (fun _ k => k) fun v u => { u with tRecv := v },
   .long (·.tGroup) (fun _ k => k) fun v u => { u with tGroup := v },
   .names (nlgetAll ·.priNHushed) fun v u => { u with priNHushed := nlput u.priNHushed v },
   .names (nlgetAll ·.pubNHushed) fun v u => { u with pubNHushed := nlput u.pubNHushed v },
   .names (nlgetAll ·.priSHushed) fun v u => { u with priSHushed := nlput u.priSHushed v },
   .names (nlgetAll ·.pubSHushed) fun v u => { u with pubSHushed := nlput u.pubSHushed v },
   .names (nlgetAll ·.nNotifies) fun v u => { u with nNotifies := nlput u.nNotifies v },
   .names (nlgetAll ·.sNotifies) fun v u => { u with sNotifies := nlput u.sNotifies v }]

/-- The fields of a group, in the order of the file. -/
def groupFields : List (Field Group) :=
  [.text (·.name) fun v g => { g with name := v },
   .text (·.topic) fun v g => { g with topic := v },
   .int (·.visibility.code) fun v g => { g with visibility := .ofCode v },
   .int (·.control.code) fun v g => { g with control := .ofCode v },
   .int (·.mod) fun v g => { g with mod := v },
   .long (·.modtimeout) (fun _ k => k) fun v g => { g with modtimeout := v },
   .text (·.missingmod) fun v g => { g with missingmod := v },
   .int (·.volume.code) fun v g => { g with volume := .ofCode v },
   .names (nlgetAll ·.nInvites) fun v g => { g with nInvites := nlput g.nInvites v },
   .names (nlgetAll ·.nrInvites) fun v g => { g with nrInvites := nlput g.nrInvites v },
   .names (nlgetAll ·.sInvites) fun v g => { g with sInvites := nlput g.sInvites v },
   .names (nlgetAll ·.srInvites) fun v g => { g with srInvites := nlput g.srInvites v },
   .names (nlgetAll ·.nBars) fun v g => { g with nBars := nlput g.nBars v },
   .names (nlgetAll ·.nNrBars) fun v g => { g with nNrBars := nlput g.nNrBars v },
   .names (nlgetAll ·.sBars) fun v g => { g with sBars := nlput g.sBars v },
   .names (nlgetAll ·.sNrBars) fun v g => { g with sNrBars := nlput g.sNrBars v },
   .names (nlgetAll ·.nTalk) fun v g => { g with nTalk := nlput g.nTalk v },
   .names (nlgetAll ·.nrTalk) fun v g => { g with nrTalk := nlput g.nrTalk v },
   .int (·.size) fun v g => { g with size := v },
   .int (·.idleboot) fun v g => { g with idleboot := v },
   .text (·.idlebootMsg) fun v g => { g with idlebootMsg := v },
   .int (·.idlemod) fun v g => { g with idlemod := v }]

/-- `S_kill[i]`, a `short`. -/
def killField (i : Int) : Field World :=
  .long (·.sKill i) (fun _ k => toInt16 k) fun v w => { w with sKill := Function.update w.sKill i v }

/-- The entries of `u_tab` and of `g_tab`. -/
def tableFields : List (Field World) :=
  ((slots Env.maxUsers).flatMap fun i => userFields.map (.lift (·.uTab i) fun f w => w.modU i f)) ++
    (slots maxGroups).flatMap fun i => groupFields.map (.lift (·.gTab i) fun f w => w.modG i f)

/-! ## §2 — the descriptors -/

/-- The globals of `pktserv.c` that are dumped. A process starts without the array. -/
structure Pktserv where
  pollset : List Int := []
  pollsetsize : Nat := 0
  portFd : Int := 0
  sslportFd : Int := 0

/-- The globals of a server that runs: the used part of the array is there, and a socket is listened on. The
first one is put in by `pktserv_addport`, and only those of clients are ever taken out. -/
structure Running extends Pktserv where
  used : pollsetsize ≤ pollset.length
  listens : 0 < pollsetsize

/-- The descriptors that are polled. -/
def Pktserv.polled (p : Pktserv) : List Int := p.pollset.take p.pollsetsize

/-- `pktserv_dumpsockets`. -/
def dumpsockets (p : Pktserv) : Bytes :=
  num p.pollsetsize ++ p.polled.flatMap num ++ num p.portFd ++ num p.sslportFd

/-- `add_pollfd`, unless the search runs past the array. -/
def addPollfd (p : Pktserv) (fd : Int) : Option Pktserv :=
  if fd ∈ p.polled then some p
  else if p.pollset.length < p.pollsetsize then none
  else some { p with pollset := p.polled ++ [fd], pollsetsize := p.pollsetsize + 1 }

/-- The loop of `pktserv_loadsockets`, from `i` on. The size may grow on the way, but only by a descriptor that
has just been read: the bound is never reached. -/
def loadFds : Nat → Nat → Int → Pktserv → Bytes → Option (Pktserv × Bytes)
  | 0, _, _, _, _ => none
  | fuel + 1, i, k, p, s =>
      if i < p.pollsetsize then
        let r := fscanfNum k s
        (addPollfd p r.1).bind fun p => loadFds fuel (i + 1) r.1 p r.2
      else some (p, s)

/-- `pktserv_loadsockets`. -/
def loadsockets (p : Pktserv) (s : Bytes) : Option (Pktserv × Bytes) :=
  let r := fscanfNum 0 s
  (loadFds (r.1.toNat + s.length + 1) 0 r.1 { p with pollsetsize := r.1.toNat } r.2).map fun (p, s) =>
    let port := fscanfNum p.portFd s
    let ssl := fscanfNum p.sslportFd port.2
    ({ p with portFd := port.1, sslportFd := ssl.1 }, ssl.2)

/-! ## §3 — the state -/

/-- `icbdump`. -/
def icbdump (p : Pktserv) (w : World) : Bytes :=
  dumpsockets p ++ writeAll ((slots Env.maxUsers).map killField) w ++ writeAll tableFields w

/-- `init_groups` and `clear_users`: new lists, and everything cleared but the time of the last notice. -/
def clearTables (w : World) : World :=
  { w with uTab := fun i => { tNotify := (w.uTab i).tNotify }, gTab := fun _ => {}, sKill := fun _ => 0 }

/-- `icbload` in a process with these globals. -/
def icbload (p : Pktserv) (w : World) (dump : Bytes) : Option (Pktserv × World) :=
  (loadsockets p dump).bind fun (p, s) =>
    (readAll ((slots Env.maxUsers).map killField ++ tableFields) (clearTables w, { input := s })).map
      fun (w, _) => (p, w)

/-- After a load, every number and every string of the tables is what it was. -/
def FieldsKept (w : World) (r : Option (Pktserv × World)) : Prop :=
  ∃ p' w', r = some (p', w') ∧
    (∀ i ∈ slots Env.maxUsers, ∀ f ∈ userFields, f.Same (w.uTab i) (w'.uTab i)) ∧
    ∀ i ∈ slots maxGroups, ∀ f ∈ groupFields, f.Same (w.gTab i) (w'.gTab i)

/-- The lists of a user. -/
def userLists : List (User → NamList) :=
  [(·.priNHushed), (·.pubNHushed), (·.priSHushed), (·.pubSHushed), (·.nNotifies), (·.sNotifies)]

/-- The lists of a group. -/
def groupLists : List (Group → NamList) :=
  [(·.nInvites), (·.nrInvites), (·.sInvites), (·.srInvites), (·.nBars), (·.nNrBars), (·.sBars), (·.sNrBars),
   (·.nTalk), (·.nrTalk)]

/-- Two lists have the same entries, up to case. -/
def SameEntries (l l' : NamList) : Prop := ∀ e, nlpresent e l' = nlpresent e l

/-- After a load, every list has the entries it had. -/
def ListsKept (w : World) (r : Option (Pktserv × World)) : Prop :=
  ∃ p' w', r = some (p', w') ∧
    (∀ i ∈ slots Env.maxUsers, ∀ l ∈ userLists, SameEntries (l (w.uTab i)) (l (w'.uTab i))) ∧
    ∀ i ∈ slots maxGroups, ∀ l ∈ groupLists, SameEntries (l (w.gTab i)) (l (w'.gTab i))

/-! ## §4 — the fields do not get in each other's way -/

omit [Env] in
theorem userFields_apart : userFields.Pairwise Field.Apart := by
  simp [userFields, Field.Apart, Field.Spares]

omit [Env] in
theorem groupFields_apart : groupFields.Pairwise Field.Apart := by
  simp [groupFields, Field.Apart, Field.Spares]

omit [Env] in
theorem userFields_lawful : ∀ f ∈ userFields, f.Lawful := by
  have hlogin (u : User) : Login.code (.ofCode u.login.code) = u.login.code := by
    cases u.login <;> rfl
  simp [userFields, Field.Lawful, hlogin]

omit [Env] in
theorem groupFields_lawful : ∀ f ∈ groupFields, f.Lawful := by
  have hvis (g : Group) : Visibility.code (.ofCode g.visibility.code) = g.visibility.code := by
    cases g.visibility <;> rfl
  have hctl (g : Group) : Control.code (.ofCode g.control.code) = g.control.code := by
    cases g.control <;> rfl
  have hvol (g : Group) : Volume.code (.ofCode g.volume.code) = g.volume.code := by
    cases g.volume <;> rfl
  simp [groupFields, Field.Lawful, hvis, hctl, hvol]

section
variable {σ : Type} {get : Int → World → σ} {mod : Int → (σ → σ) → World → World} {fs : List (Field σ)}

omit [Env] in
/-- The fields of the entries of a table. -/
theorem table_apart (hself : ∀ i f w, get i (mod i f w) = f (get i w))
    (hother : ∀ i j f w, i ≠ j → get i (mod j f w) = get i w) (hfs : fs.Pairwise Field.Apart)
    {is : List Int} (his : is.Nodup) :
    (is.flatMap fun i => fs.map (.lift (get i) (mod i))).Pairwise Field.Apart := by
  rw [List.pairwise_flatMap]
  refine ⟨fun i _ => ?_, his.imp fun {i j} hij => ?_⟩
  · rw [List.pairwise_map]
    exact hfs.imp fun h => h.lift (hself i)
  · intro f hf g hg
    obtain ⟨f, -, rfl⟩ := List.mem_map.mp hf
    obtain ⟨g, -, rfl⟩ := List.mem_map.mp hg
    exact Field.apart_lift fun k w => hother i j k w hij

end

omit [Env] in
theorem modU_self (i : Int) (f : User → User) (w : World) : (w.modU i f).uTab i = f (w.uTab i) := by
  simp [World.modU]

omit [Env] in
theorem modU_other (i j : Int) (f : User → User) (w : World) (h : i ≠ j) :
    (w.modU j f).uTab i = w.uTab i := by
  simp [World.modU, h]

omit [Env] in
theorem modG_self (i : Int) (f : Group → Group) (w : World) : (w.modG i f).gTab i = f (w.gTab i) := by
  simp [World.modG]

omit [Env] in
theorem modG_other (i j : Int) (f : Group → Group) (w : World) (h : i ≠ j) :
    (w.modG j f).gTab i = w.gTab i := by
  simp [World.modG, h]

theorem tableFields_apart : tableFields.Pairwise Field.Apart := by
  rw [tableFields, List.pairwise_append]
  refine ⟨table_apart modU_self modU_other userFields_apart (slots_nodup _),
    table_apart modG_self modG_other groupFields_apart (slots_nodup _), fun f hf g hg => ?_⟩
  obtain ⟨i, -, hf⟩ := List.mem_flatMap.mp hf
  obtain ⟨f, -, rfl⟩ := List.mem_map.mp hf
  obtain ⟨j, -, hg⟩ := List.mem_flatMap.mp hg
  obtain ⟨g, -, rfl⟩ := List.mem_map.mp hg
  exact Field.apart_lift fun _ _ => rfl

theorem tableFields_lawful : ∀ f ∈ tableFields, f.Lawful := by
  intro f hf
  rcases List.mem_append.mp hf with hf | hf
  · obtain ⟨i, -, hf⟩ := List.mem_flatMap.mp hf
    obtain ⟨f, hmem, rfl⟩ := List.mem_map.mp hf
    exact (userFields_lawful f hmem).lift fun k w => modU_self i k w
  · obtain ⟨i, -, hf⟩ := List.mem_flatMap.mp hf
    obtain ⟨f, hmem, rfl⟩ := List.mem_map.mp hf
    exact (groupFields_lawful f hmem).lift fun k w => modG_self i k w

theorem fieldsKept_iff {w : World} {r : Option (Pktserv × World)} :
    FieldsKept w r ↔ ∃ p' w', r = some (p', w') ∧ ∀ f ∈ tableFields, f.Same w w' := by
  refine exists_congr fun p' => exists_congr fun w' => and_congr_right fun _ => ?_
  simp only [tableFields, List.forall_mem_append, List.mem_flatMap, List.mem_map, forall_exists_index, and_imp]
  refine and_congr ?_ ?_
  · exact ⟨fun h f i hi g hg hf => hf ▸ Field.same_lift.mpr (h i hi g hg),
      fun h i hi g hg => Field.same_lift.mp (h _ i hi g hg rfl)⟩
  · exact ⟨fun h f i hi g hg hf => hf ▸ Field.same_lift.mpr (h i hi g hg),
      fun h i hi g hg => Field.same_lift.mp (h _ i hi g hg rfl)⟩

/-! ## §5 — the descriptors -/

section
variable {p : Pktserv} {rest : Bytes}

omit [Env] in
/-- Descriptors that are already polled change nothing. -/
theorem loadFds_polled {fds : List Int} {fuel i : Nat} {k : Int} (hmem : ∀ fd ∈ fds, fd ∈ p.polled)
    (hlen : i + fds.length = p.pollsetsize) (hfuel : fds.length < fuel) :
    loadFds fuel i k p (eat true (fds.flatMap num ++ rest)) = some (p, eat true rest) := by
  induction fds generalizing fuel i k with
  | nil =>
    obtain ⟨fuel, rfl⟩ : ∃ m, fuel = m + 1 := ⟨fuel - 1, by simp at hfuel; omega⟩
    rw [loadFds, if_neg (by simp at hlen; omega)]
    rfl
  | cons fd fds ih =>
    obtain ⟨fuel, rfl⟩ : ∃ m, fuel = m + 1 := ⟨fuel - 1, by simp at hfuel; omega⟩
    rw [List.length_cons] at hlen hfuel
    rw [loadFds, if_pos (by omega), List.flatMap_cons, List.append_assoc]
    simp only [fscanfNum_num, addPollfd, if_pos (hmem fd List.mem_cons_self), Option.bind_some]
    exact ih (fun x hx => hmem x (List.mem_cons_of_mem fd hx)) (by omega) (by omega)

omit [Env] in
theorem fscanfNum_first (x i : Int) (rest : Bytes) : fscanfNum x (num i ++ rest) = (i, skipSpace rest) :=
  fscanfNum_num x i false rest

omit [Env] in
/-- The process that has dumped its descriptors takes them back. -/
theorem loadsockets_same (hused : p.pollsetsize ≤ p.pollset.length) :
    loadsockets p (dumpsockets p ++ rest) = some (p, eat true rest) := by
  have hlen : p.polled.length = p.pollsetsize := by
    rw [Pktserv.polled, List.length_take]
    omega
  simp only [loadsockets, dumpsockets, List.append_assoc, fscanfNum_first, Int.toNat_natCast]
  have hfds (n : Nat) : loadFds (p.pollsetsize + n + 1) 0 p.pollsetsize p
      (skipSpace (p.polled.flatMap num ++ (num p.portFd ++ (num p.sslportFd ++ rest)))) =
        some (p, eat true (num p.portFd ++ (num p.sslportFd ++ rest))) :=
    loadFds_polled (fun _ h => h) (by omega) (by omega)
  rw [hfds]
  simp only [Option.map_some, fscanfNum_num]
  rw [show skipSpace (num p.sslportFd ++ rest) = eat true (num p.sslportFd ++ rest) from rfl, fscanfNum_num]
  rfl

omit [Env] in
/-- **A process without the array does not get past the first descriptor.** -/
theorem loadsockets_restart (hsome : 0 < p.pollsetsize) : loadsockets {} (dumpsockets p ++ rest) = none := by
  obtain ⟨n, hn⟩ : ∃ n, p.pollsetsize = n + 1 := ⟨p.pollsetsize - 1, by omega⟩
  simp only [loadsockets, dumpsockets, List.append_assoc, fscanfNum_first, Int.toNat_natCast, hn, loadFds,
    Nat.zero_lt_succ, ↓reduceIte, addPollfd, Pktserv.polled, List.take_nil, List.not_mem_nil, List.length_nil,
    Option.bind_none, Option.map_none]

end

/-! ## §6 — what comes back -/

/-- A restart reads nothing of what its predecessor has dumped. -/
theorem icbload_restart (p : Running) (w w₀ : World) : icbload {} w₀ (icbdump p.toPktserv w) = none := by
  rw [icbload, icbdump, List.append_assoc, loadsockets_restart p.listens]
  rfl

/-- **No list comes back.** Whatever is in the lists of a server, a new process that loads its dump does not
have them: it does not come to the tables. -/
theorem lists_lost (p : Running) (w w₀ : World) : ¬ ListsKept w (icbload {} w₀ (icbdump p.toPktserv w)) := by
  rintro ⟨p', w', hload, -⟩
  rw [icbload_restart] at hload
  cases hload

/-- The entries of all lists are single lines. -/
def SingleLines (w : World) : Prop :=
  (∀ i ∈ slots Env.maxUsers, ∀ l ∈ userLists, ∀ e ∈ nlgetAll (l (w.uTab i)), OneLine e) ∧
    ∀ i ∈ slots maxGroups, ∀ l ∈ groupLists, ∀ e ∈ nlgetAll (l (w.gTab i)), OneLine e

omit [Env] in
theorem userFields_lines {u : User} (h : ∀ l ∈ userLists, ∀ e ∈ nlgetAll (l u), OneLine e) :
    ∀ f ∈ userFields, f.Lines u := by
  simpa [userFields, userLists, Field.Lines] using h

omit [Env] in
theorem groupFields_lines {g : Group} (h : ∀ l ∈ groupLists, ∀ e ∈ nlgetAll (l g), OneLine e) :
    ∀ f ∈ groupFields, f.Lines g := by
  simpa [groupFields, groupLists, Field.Lines] using h

theorem SingleLines.fields {w : World} (h : SingleLines w) : ∀ f ∈ tableFields, f.Lines w := by
  intro f hf
  rcases List.mem_append.mp hf with hf | hf
  · obtain ⟨i, hi, hf⟩ := List.mem_flatMap.mp hf
    obtain ⟨f, hmem, rfl⟩ := List.mem_map.mp hf
    exact Field.lines_lift.mpr (userFields_lines (h.1 i hi) f hmem)
  · obtain ⟨i, hi, hf⟩ := List.mem_flatMap.mp hf
    obtain ⟨f, hmem, rfl⟩ := List.mem_map.mp hf
    exact Field.lines_lift.mpr (groupFields_lines (h.2 i hi) f hmem)

/-- A user comes back. `lead` says that the entry is behind a number. -/
structure UserReloads (lead : Bool) (u : User) : Prop where
  lines : ∀ s ∈ [u.loginid, u.nodeid, u.nickname, u.password, u.realname, u.group, u.awaymsg], OneLine s
  first : eat lead u.loginid = u.loginid
  time : u.lastaway = u.lastawaytime

/-- A group comes back. -/
structure GroupReloads (lead : Bool) (g : Group) : Prop where
  lines : ∀ s ∈ [g.name, g.topic, g.missingmod, g.idlebootMsg], OneLine s
  first : eat lead g.name = g.name
  missing : skipSpace g.missingmod = g.missingmod
  message : skipSpace g.idlebootMsg = g.idlebootMsg

/-- The entry of user `i` is behind a number: it is the first one, or the last list of the user before has no
entries. -/
def behindNumber (w : World) (i : Int) : Bool := i = 0 || (nlgetAll (w.uTab (i - 1)).sNotifies).isEmpty

/-- The state comes back when its own process loads it: every string of the tables is a single line that fits
the reader's buffer; a string behind a number does not begin with white space; and the time of everybody's last
away message is the number of the user it went to. -/
structure Reloads (w : World) : Prop where
  users : ∀ i ∈ slots Env.maxUsers, UserReloads (behindNumber w i) (w.uTab i)
  groups : ∀ i ∈ slots maxGroups, GroupReloads (i ≠ 0 || behindNumber w Env.maxUsers) (w.gTab i)

omit [Env] in
theorem userFields_survive (lead : Bool) (j : Int) (u : User) :
    Survives lead j userFields u ↔ UserReloads lead u := by
  simp only [userFields, Survives, eat, Bool.false_eq_true, ↓reduceIte, true_and, and_true]
  constructor
  · rintro ⟨h₁, hfirst, h₂, h₃, h₄, h₅, h₆, h₇, htime⟩
    exact ⟨by simp only [List.forall_mem_cons]; exact ⟨h₁, h₂, h₃, h₄, h₅, h₆, h₇, by simp⟩, hfirst, htime⟩
  · rintro ⟨hlines, hfirst, htime⟩
    simp only [List.forall_mem_cons] at hlines
    obtain ⟨h₁, h₂, h₃, h₄, h₅, h₆, h₇, -⟩ := hlines
    exact ⟨h₁, hfirst, h₂, h₃, h₄, h₅, h₆, h₇, htime⟩

omit [Env] in
theorem groupFields_survive (lead : Bool) (j : Int) (g : Group) :
    Survives lead j groupFields g ↔ GroupReloads lead g := by
  simp only [groupFields, Survives, eat, Bool.false_eq_true, ↓reduceIte, true_and, and_true]
  constructor
  · rintro ⟨h₁, hfirst, h₂, h₃, hmissing, h₄, hmessage⟩
    exact ⟨by simp only [List.forall_mem_cons]; exact ⟨h₁, h₂, h₃, h₄, by simp⟩, hfirst, hmissing, hmessage⟩
  · rintro ⟨hlines, hfirst, hmissing, hmessage⟩
    simp only [List.forall_mem_cons] at hlines
    obtain ⟨h₁, h₂, h₃, h₄, -⟩ := hlines
    exact ⟨h₁, hfirst, h₂, h₃, hmissing, h₄, hmessage⟩

omit [Env] in
theorem slots_succ (n : Nat) : slots (n + 1) = slots n ++ [(n : Int)] := by
  simp [slots, List.range_succ]

omit [Env] in
theorem users_survive (w : World) (n : Nat) (j : Int) :
    let fs := (slots n).flatMap fun i => userFields.map (.lift (·.uTab i) fun f w => w.modU i f)
    (Survives true j fs w ↔ ∀ i ∈ slots n, UserReloads (behindNumber w i) (w.uTab i)) ∧
      leadAfter true fs w = behindNumber w n := by
  induction n with
  | zero => simp [slots, Survives, leadAfter, behindNumber]
  | succ n ih =>
    obtain ⟨hsurvive, hlead⟩ := ih
    have hsucc : behindNumber w (n + 1 : Nat) = (nlgetAll (w.uTab n).sNotifies).isEmpty := by
      have hpos : ((n + 1 : Nat) : Int) ≠ 0 := by omega
      have hpred : ((n + 1 : Nat) : Int) - 1 = n := by omega
      simp only [behindNumber, hpos, decide_false, Bool.false_or, hpred]
    simp only [slots_succ, List.flatMap_append, List.flatMap_singleton, List.forall_mem_append]
    refine ⟨?_, ?_⟩
    · rw [survives_append, hsurvive, hlead, survives_lift, userFields_survive]
      simp
    · rw [leadAfter_append, hlead, leadAfter_lift, hsucc]
      rfl

omit [Env] in
theorem groups_survive (w : World) (n : Nat) (lead : Bool) (j : Int) :
    let fs := (slots n).flatMap fun i => groupFields.map (.lift (·.gTab i) fun f w => w.modG i f)
    (Survives lead j fs w ↔ ∀ i ∈ slots n, GroupReloads (i ≠ 0 || lead) (w.gTab i)) ∧
      leadAfter lead fs w = ((n : Int) ≠ 0 || lead : Bool) := by
  induction n with
  | zero => simp [slots, Survives, leadAfter]
  | succ n ih =>
    obtain ⟨hsurvive, hlead⟩ := ih
    have hpos : ((n + 1 : Nat) : Int) ≠ 0 := by omega
    simp only [slots_succ, List.flatMap_append, List.flatMap_singleton, List.forall_mem_append]
    refine ⟨?_, ?_⟩
    · rw [survives_append, hsurvive, hlead, survives_lift, groupFields_survive]
      simp
    · rw [leadAfter_append, leadAfter_lift]
      simp only [hpos, ne_eq, not_false_eq_true, decide_true, Bool.true_or]
      rfl

theorem tableFields_survive (w : World) : Survives true 0 tableFields w ↔ Reloads w := by
  obtain ⟨husers, hlead⟩ := users_survive w Env.maxUsers 0
  rw [tableFields, survives_append, husers, hlead, (groups_survive w maxGroups _ _).1]
  exact ⟨fun h => ⟨h.1, h.2⟩, fun h => ⟨h.users, h.groups⟩⟩

theorem icbload_same (p : Running) (w w₀ : World) (hlines : SingleLines w) :
    FieldsKept w (icbload p.toPktserv w₀ (icbdump p.toPktserv w)) ↔ Reloads w := by
  rw [fieldsKept_iff, icbload, icbdump, List.append_assoc, loadsockets_same p.used]
  simp only [Option.bind_some]
  have hlongs : ∀ f ∈ (slots Env.maxUsers).map killField, ∃ get pick set, f = .long get pick set := by
    intro f hf
    obtain ⟨i, -, rfl⟩ := List.mem_map.mp hf
    exact ⟨_, _, _, rfl⟩
  obtain ⟨⟨w₁, s₁⟩, hkill, hin, hj⟩ := readAll_longs (b := clearTables w₀) (u := w)
    (s := { input := eat true (writeAll ((slots Env.maxUsers).map killField) w ++ writeAll tableFields w) })
    hlongs rfl
  have hsplit (r : World × Scan) : readAll ((slots Env.maxUsers).map killField ++ tableFields) r =
      (readAll ((slots Env.maxUsers).map killField) r).bind (readAll tableFields) := readAll_append ..
  have hin : s₁.input = eat true (writeAll tableFields w ++ []) := by
    rw [List.append_nil]
    exact hin
  have hiff := readAll_iff (b := w₁) tableFields_apart tableFields_lawful hlines.fields hin
  rw [hj] at hiff
  rw [← tableFields_survive, ← hiff, hsplit, hkill, Option.bind_some]
  constructor
  · rintro ⟨p', w', hload, hsame⟩
    obtain ⟨r, hr, heq⟩ := Option.map_eq_some_iff.mp hload
    obtain ⟨rfl, rfl⟩ := Prod.mk.inj heq
    exact ⟨r, hr, hsame⟩
  · rintro ⟨r, hr, hsame⟩
    exact ⟨p.toPktserv, r.1, by rw [hr]; rfl, hsame⟩

/-- **When numbers and strings come back.** If the entries of the lists are single lines, a dump that is loaded
gives every number and every string of the tables back if and only if it is not a restart and the state is
one that comes back. -/
theorem fields_kept_iff (p : Running) (w w₀ : World) (restart : Bool) (hlines : SingleLines w) :
    FieldsKept w (icbload (if restart then {} else p.toPktserv) w₀ (icbdump p.toPktserv w)) ↔
      restart = false ∧ Reloads w := by
  cases restart with
  | false => simpa using icbload_same p w w₀ hlines
  | true =>
    simp only [↓reduceIte, reduceCtorEq, false_and, iff_false]
    rintro ⟨p', w', hload, -⟩
    rw [icbload_restart] at hload
    cases hload

end

section

/-- A server that listens on descriptor 3. -/
def listening : Running where
  pollset := [3]
  pollsetsize := 1
  portFd := 3
  used := by decide
  listens := by decide

instance (v : Bytes) : Decidable (OneLine v) := inferInstanceAs (Decidable (_ ∧ _))

instance (lead : Bool) (u : User) : Decidable (UserReloads lead u) :=
  decidable_of_iff (_ ∧ _ ∧ _) ⟨fun h => ⟨h.1, h.2.1, h.2.2⟩, fun h => ⟨h.lines, h.first, h.time⟩⟩

instance (lead : Bool) (g : Group) : Decidable (GroupReloads lead g) :=
  decidable_of_iff (_ ∧ _ ∧ _ ∧ _)
    ⟨fun h => ⟨h.1, h.2.1, h.2.2.1, h.2.2.2⟩, fun h => ⟨h.lines, h.first, h.missing, h.message⟩⟩

attribute [local instance] smallEnv

instance (w : World) : Decidable (SingleLines w) := inferInstanceAs (Decidable (_ ∧ _))

instance (w : World) : Decidable (Reloads w) :=
  decidable_of_iff (_ ∧ _) ⟨fun h => ⟨h.1, h.2⟩, fun h => ⟨h.users, h.groups⟩⟩

/-- The state at start-up comes back. -/
theorem fields_kept_startup :
    FieldsKept (startup {} fun _ => none)
      (icbload listening.toPktserv (startup {} fun _ => none) (icbdump listening.toPktserv (startup {} fun _ => none))) := by
  have hlines : SingleLines (startup {} fun _ => none) := by decide +kernel
  have hreloads : Reloads (startup {} fun _ => none) := by decide +kernel
  exact (fields_kept_iff listening _ _ false hlines).mpr ⟨rfl, hreloads⟩

/-- `al` goes away, and `bo` is told so. -/
def awayAl : List Event :=
  [.connect 1 false none, .packet 1 (loginPkt "one" "al" "x" ""),
   .connect 2 false none, .packet 2 (loginPkt "two" "bo" "x" ""),
   .packet 1 (cmdPkt "away" "gone, %s"), .packet 2 (cmdPkt "m" "al hi")]

/-- The time of the away message is lost, although the process that loads the dump has written it. -/
theorem away_time_lost : ∃ h : Host, Reachable (fun _ _ _ => True) h ∧
    ¬ FieldsKept h.w (icbload listening.toPktserv h.w (icbdump listening.toPktserv h.w)) := by
  have hrun : Host.leads (fun _ _ _ => True) { now := 5 } (fun h => SingleLines h.w ∧ ¬ Reloads h.w)
      { w := startup { now := 5 } fun _ => none } awayAl := by
    decide +kernel
  obtain ⟨h, hr, hlines, hno⟩ := Reachable.leads (.start { now := 5 } fun _ => none) hrun
  refine ⟨h, hr, fun hkept => hno ?_⟩
  exact ((fields_kept_iff listening _ _ false hlines).mp hkept).2

/-- `al` hushes `bo`. -/
def hushBo : List Event :=
  [.connect 1 false none, .packet 1 (loginPkt "one" "al" "x" ""), .packet 1 (cmdPkt "hush" "bo")]

/-- A server with single lines in its lists, and one entry that a restart does not have. -/
theorem hushed_lost : ∃ h : Host, Reachable (fun _ _ _ => True) h ∧ SingleLines h.w ∧
    (h.w.uTab 1).pubNHushed.count = 1 ∧
    ¬ ListsKept h.w (icbload {} {} (icbdump listening.toPktserv h.w)) := by
  have hrun : Host.leads (fun _ _ _ => True) {} (fun h => SingleLines h.w ∧ (h.w.uTab 1).pubNHushed.count = 1)
      { w := startup {} fun _ => none } hushBo := by
    decide +kernel
  obtain ⟨h, hr, hlines, hone⟩ := Reachable.leads (.start {} fun _ => none) hrun
  refine ⟨h, hr, hlines, hone, ?_⟩
  rintro ⟨p', w', hload, -⟩
  rw [icbload_restart] at hload
  cases hload

end

end Icbd.Server
