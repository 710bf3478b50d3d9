/-
# Icbd.Server.AutoGroup — the group of the automatic user.

`ICB` is entry 0, made at start-up, and its moderator never leaves it. No connection may enter it of
its own accord, but the boot of a spammer puts one there; and once somebody is in it who was heard
from more recently than the automatic user, the poll passes the group on like that of any idle
moderator. So the group stays his as long as no poll finds it in that state, and nobody uses his slot.
-/
import Icbd.Server.Foreign

-- every bind doubles the size of the search's argument
set_option synthInstance.maxSize 1000000000000000000000000000000000000000000000000
set_option synthInstance.maxHeartbeats 200000

namespace Icbd.Server

open Icbd.Lib

section
variable [Env]

/-! ## §1 — the group and its moderator's seat -/

/-- Entry 0 is the group `ICB`, restricted, moderated by the automatic user, who is in it. -/
structure AutoGroup (w : World) : Prop where
  name : (w.gTab 0).name = str "ICB"
  control : (w.gTab 0).control = .restricted
  mod : (w.gTab 0).mod = nickserv
  timeout : (w.gTab 0).modtimeout = 0
  seat : w.seats nickserv = (str "ICB", .complete)

/-- What leaves the entry and the seat alone. -/
abbrev KeptAuto : World → World → Prop := Kept (· = nickserv) 0

section
variable {w w' : World} {n : Int}

theorem AutoGroup.kept (h : AutoGroup w) (hk : KeptAuto w w') : AutoGroup w' := by
  obtain ⟨hentry, hseat⟩ := hk h.timeout
  refine ⟨?_, ?_, ?_, ?_, (hseat nickserv rfl).trans h.seat⟩ <;> rw [hentry]
  · exact h.name
  · exact h.control
  · exact h.mod
  · exact h.timeout

theorem AutoGroup.named (h : AutoGroup w) : (w.gTab 0).name ≠ [] := by
  rw [h.name]
  decide

/-- The automatic user is a member whoever else comes and goes. -/
theorem AutoGroup.peopled (h : AutoGroup w) (hn : n ≠ nickserv) : Peopled w n 0 where
  slot := mem_slots.mpr (by decide)
  named := h.named
  timeout := h.timeout
  member := by
    have hgroup : (w.uTab nickserv).group = str "ICB" := congrArg Prod.fst h.seat
    refine ⟨nickserv, inUsers_iff.mp inUsers_nickserv, hn.symm, ?_⟩
    rw [hgroup, h.name, strcaseEq_refl]

theorem AutoGroup.foreign (h : AutoGroup w) (hn : n < maxRealUsers) (hauth : ¬ checkAuth w n) :
    Foreign w n 0 where
  toPeopled := h.peopled (lt_nickserv hn).ne
  auth := hauth
  moderated := by
    rw [h.mod]
    exact (mem_slots.mp (inUsers_iff.mp inUsers_nickserv)).1
  other := by
    rw [h.mod]
    exact (lt_nickserv hn).ne'
  control := by
    rw [h.control]
    decide

theorem AutoGroup.groupOf (h : AutoGroup w) : Server.groupOf w nickserv = 0 := by
  have hgroup : (w.uTab nickserv).group = str "ICB" := congrArg Prod.fst h.seat
  show findGroup w (w.uTab nickserv).group = 0
  rw [hgroup, findGroup, if_neg (by decide)]
  show firstSlot (0 :: _) _ = 0
  rw [firstSlot, List.find?_cons_of_pos (by rw [h.name, strcaseEq_refl])]
  rfl

theorem KeptAuto.ugroupTo (hn : n ≠ nickserv) : UGroupTo KeptAuto n := ⟨fun w v => by
  refine .same rfl fun j hj => ?_
  subst hj
  simp [World.seats, World.modU, Function.update_of_ne hn.symm]⟩

theorem KeptAuto.loginTo (hn : n ≠ nickserv) (l : Login) : LoginTo KeptAuto n l := ⟨fun w => by
  refine .same rfl fun j hj => ?_
  subst hj
  simp [World.seats, World.modU, Function.update_of_ne hn.symm]⟩

/-- What keeps the group, if it is there. -/
def KeepsAuto (w w' : World) : Prop := AutoGroup w → AutoGroup w'

instance : Base KeepsAuto where
  refl _ := id
  trans _ _ _ h₁ h₂ := h₂ ∘ h₁
  misc w m h := h.kept (Base.misc w m)

instance : SendsTo KeepsAuto n := ⟨fun w c h => h.kept (SendsTo.sends w c)⟩
instance : Drops KeepsAuto := ⟨fun w k h => h.kept (Drops.drops w k)⟩

/-- A group change of anybody else. -/
theorem sChange_auto (h : AutoGroup w) (hn : n ≠ nickserv) (target : Bytes) (atLogin : Bool) :
    AutoGroup (sChange n target atLogin w).2 :=
  h.kept ((sChange_cases n target atLogin w).kept hn le_rfl h.named (.inr (h.peopled hn).member))

theorem bootTo_auto (h : AutoGroup w) (hn : n ≠ nickserv) (target : Bytes) :
    AutoGroup (bootTo n target w).2 := by
  have hboot : AutoGroup (modMisc (fun m => { m with isBooting := true }) w).2 :=
    h.kept (Within.within (R := KeptAuto) w)
  exact (sChange_auto hboot hn target false).kept (Base.misc _ _)

/-! ## §2 — packets -/

theorem enterServer_auto (h : AutoGroup w) (hn : n ≠ nickserv) (group : Bytes) :
    AutoGroup (enterServer n group w).2 := by
  have (l : Login) := KeptAuto.loginTo hn l
  show wp (enterServer n group) (fun _ w' => AutoGroup w') w
  refine wp_bind (Within.wp KeptAuto fun _ w₁ h₁ => wp_bind (Within.wp KeptAuto fun _ w₂ h₂ => ?_))
  refine wp_bind (Within.wp KeptAuto fun _ w₃ h₃ => wp_bind (Within.wp KeptAuto fun _ w₄ h₄ => ?_))
  refine wp_bind (Within.wp KeptAuto fun _ w₅ h₅ => wp_after ?_)
  have hin : AutoGroup w₅ := ((((h.kept h₁).kept h₂).kept h₃).kept h₄).kept h₅
  have hchange := sChange_auto hin hn group true
  exact wp_ite (fun _ => Within.wp KeptAuto fun _ _ hk => hchange.kept hk) fun _ => hchange

theorem login_auto {a b c p : Bytes} (h : AutoGroup w) (hn : n ≠ nickserv) :
    AutoGroup (login n a b c p w).2 := by
  have (l : Login) := KeptAuto.loginTo hn l
  have := KeptAuto.ugroupTo hn
  apply login_post (R := KeptAuto) (I := AutoGroup) (Q := AutoGroup)
  · exact fun _ _ hk h => h.kept hk
  · exact fun _ h => h
  · exact fun w v m h => h.kept (Within.within (R := KeptAuto) w)
  · exact fun _ g h => enterServer_auto h hn g
  · exact h

/-- **A packet leaves the automatic user his group**, if it is no command of the administrator and no
command on his slot. -/
theorem dispatch_auto {d : Daemon} {contents : Bytes} (h : AutoGroup d.w) (hn : inUsers n)
    (hout : (d.w.uTab (-1)).login ≠ .complete)
    (hcmd : (cstr contents).head? = some pktCommand → n < maxRealUsers ∧ ¬ checkAuth d.w n) :
    AutoGroup (dispatch n contents d).2.w := by
  have hkeep {x : M Unit} [Within (OnWorld KeptAuto) x] : wp x (fun _ d' => AutoGroup d'.w) d :=
    h.kept (Within.within (R := OnWorld KeptAuto) d)
  show wp (dispatch n contents) (fun _ d' => AutoGroup d'.w) d
  refine wp_ite (fun htype => ?_) fun _ => ?_
  · refine loginCase_rel (R := KeepsAuto) htype (fun hlogin p h => ?_) h
    exact login_auto h (lt_nickserv hlogin.2.1).ne
  refine wp_ite (fun _ => ?_) fun _ => wp_ite (fun htype => ?_) fun _ => ?_
  · -- the automatic user is not in group 1, so his own messages boot nobody
    have hone : (d.w.uTab n).group = str "1" → n ≠ nickserv := by
      rintro hone rfl
      have hgroup : (d.w.uTab nickserv).group = str "ICB" := congrArg Prod.fst h.seat
      exact absurd (hone.symm.trans hgroup) (by decide)
    refine openmsg_post (R := KeptAuto) (fun _ h₁ => h.kept h₁.1)
      (fun w₁ body h₁ => (h.kept h₁.1).kept (Within.within w₁)) fun hgroup w₁ w₂ h₁ h₂ => ?_
    have hbooted := (bootTo_auto (h.kept h₁.1) (hone hgroup) (str "ICB")).kept h₂.1
    exact ⟨hbooted, fun body => hbooted.kept (Within.within w₂)⟩
  · obtain ⟨hreal, hauth⟩ := hcmd htype
    refine h.kept (cmdmsg_last (R := KeptAuto) hn hout fun d' _ hS _ _ => ?_)
    have h' : AutoGroup d'.w := h.kept (.same (congrFun hS.groups 0) fun j _ => congrFun hS.seats j)
    refine runCommand_kept (h'.foreign hreal (by rwa [hS.calmly.checkAuth])) ⟨?_, ?_, ?_⟩ _ _
    · rintro _ rfl
      exact (lt_or_ge _ _).resolve_left fun hlt => (lt_nickserv hlt).false
    · exact (lt_nickserv hreal).ne
    · rintro _ rfl
      exact h'.groupOf
  · exact wp_ite (fun _ => hkeep) fun _ => wp_ite (fun _ => hkeep) fun _ => hkeep

/-! ## §3 — departures -/

theorem lostMods_auto {wasRegistered : Bool} {name : Bytes} (hn : n ≠ nickserv) (fuel : Nat)
    (h : AutoGroup w) : AutoGroup (lostMods n wasRegistered name fuel w).2 := by
  induction fuel generalizing w with
  | zero => exact h.kept (Base.misc w _)
  | succ fuel ih =>
    show wp (lostMods n wasRegistered name (fuel + 1)) (fun _ w' => AutoGroup w') w
    refine wp_bind (wp_getW (wp_whenever (fun hfound => wp_bind ?_) fun _ => h))
    -- a group he moderated is another one
    have hother : checkMods w n ≠ 0 := by
      intro hzero
      rcases firstSlot_spec (slots maxGroups) fun i => (w.gTab i).mod = n with ⟨-, hmod⟩ | ⟨hnone, -⟩
      · have hmod : (w.gTab (checkMods w n)).mod = n := by simpa [checkMods] using hmod
        rw [hzero, h.mod] at hmod
        exact hn hmod.symm
      · exact hfound hnone
    have (v : Int) := Kept.modAt (S := (· = nickserv)) hother v
    have := Kept.missAt (S := (· = nickserv)) hother
    exact Within.wp KeptAuto fun _ w₁ h₁ => ih (h.kept h₁)

theorem sLostUser_auto (h : AutoGroup w) (hn : n < maxRealUsers) : AutoGroup (sLostUser n w).2 := by
  have hserv := (lt_nickserv hn).ne
  have (l : Login) := KeptAuto.loginTo hserv l
  have := KeptAuto.ugroupTo hserv
  show wp (sLostUser n) (fun _ w' => AutoGroup w') w
  refine wp_bind (wp_getW (wp_bind (wp_getU (wp_ite (fun hbig => absurd hn (by omega)) fun _ => ?_))))
  have h : AutoGroup (getU n w).2 := h.kept (Within.within w)
  refine wp_ite (fun _ => h.kept (Within.within _)) fun _ => ?_
  refine wp_bind (Within.wp KeptAuto fun _ w₁ h₁ => wp_bind (Within.wp KeptAuto fun _ w₂ h₂ => ?_))
  have h₂ : AutoGroup w₂ := (h.kept h₁).kept h₂
  refine wp_whenever (fun hfound => wp_bind ?_) fun _ => h₂
  obtain ⟨-, heq⟩ := findGroup_nonneg hfound
  suffices hleave : ∀ text, AutoGroup (leaveGroup (findGroup w ((w.uTab n).group.take maxGroupLen))
      ((w.uTab n).group.take maxGroupLen) text w₂).2 from lostMods_auto hserv _ (hleave _)
  intro text
  show wp (leaveGroup _ _ text) (fun _ w' => AutoGroup w') w₂
  refine wp_bind (wp_getW (wp_bind (wp_getG (wp_ite (fun _ => ?_) fun hlast => ?_))))
  · exact Within.wp KeptAuto fun _ w' hk => h₂.kept (trans_of KeptAuto (Within.within w₂) hk)
  · -- the automatic user is left in his group, so it is another one that goes
    have hother : findGroup w ((w.uTab n).group.take maxGroupLen) ≠ 0 := by
      intro hzero
      rw [hzero, show (w.gTab 0).name = str "ICB" from h.name] at heq
      have hgroup : (w₂.uTab nickserv).group = str "ICB" := congrArg Prod.fst h₂.seat
      have hnone := (countUsersInGroup_eq_zero (ne_nil_of_findGroup hfound)).mp
        (Nat.eq_zero_of_not_pos hlast)
      exact hnone nickserv (inUsers_iff.mp inUsers_nickserv) (hgroup ▸ heq)
    show AutoGroup (clearGroupItem _ (getG _ w₂).2).2
    rw [clearGroupItem_eq]
    exact h₂.kept (.modG hother)

/-! ## §4 — polls -/

/-- The poll takes group `i` from a moderator who idles in it: he was not heard from for longer than the
group allows, and a connection in the group that is not away was heard from more recently. -/
def idleModFires (w : World) (i : Int) : Prop :=
  let g := w.gTab i
  let idle := toInt32 (w.sys.now - (w.uTab g.mod).tRecv)
  g.control ≠ .pub ∧ g.mod ≥ 0 ∧ idle > g.idlemod ∧
    (slots maxRealUsers).any fun j => j ≠ g.mod && lessIdle w i idle j

instance (i : Int) : Decidable (idleModFires w i) := inferInstanceAs (Decidable (_ ∧ _))

/-- Packets and globals apart, nothing has happened. -/
structure Mutely (w w' : World) : Prop where
  users : w'.uTab = w.uTab
  groups : w'.gTab = w.gTab
  sys : w'.sys = w.sys

instance : Base Mutely where
  refl _ := ⟨rfl, rfl, rfl⟩
  trans _ _ _ h₁ h₂ := ⟨h₂.users.trans h₁.users, h₂.groups.trans h₁.groups, h₂.sys.trans h₁.sys⟩
  misc _ _ := ⟨rfl, rfl, rfl⟩

instance : Posts Mutely := ⟨fun _ => ⟨fun _ _ _ => ⟨rfl, rfl, rfl⟩⟩⟩
instance : Drops Mutely := ⟨fun _ _ => ⟨rfl, rfl, rfl⟩⟩

theorem Mutely.idleModFires (hM : Mutely w w') (i : Int) : idleModFires w' i ↔ idleModFires w i := by
  have hgroup (j : Int) : groupOf w' j = groupOf w j := by
    simp only [groupOf, findGroup, hM.users, hM.groups]
  have hless (idle j : Int) : lessIdle w' i idle j = lessIdle w i idle j := by
    simp only [lessIdle, hgroup, hM.users, hM.sys]
  simp only [Server.idleModFires, hless, hM.users, hM.groups, hM.sys]

theorem Mutely.auto (hM : Mutely w w') (h : AutoGroup w) : AutoGroup w' :=
  h.kept (.same (congrFun hM.groups 0) fun j _ => by simp only [World.seats, hM.users])

/-- Unless his idling shows, the automatic user keeps his group for the next turn. -/
theorem idleMod_auto (h : AutoGroup w) (hidle : ¬ idleModFires w 0) : AutoGroup (idleMod 0 w).2 := by
  show wp (idleMod 0) (fun _ w' => AutoGroup w') w
  refine wp_bind (wp_getW (wp_bind (wp_getG (wp_whenever (fun hc => ?_) fun _ => ?_))))
  · refine wp_bind (wp_getU (wp_whenever (fun hfires => ?_) fun _ => ?_))
    · exact absurd ⟨hc.1, hc.2, hfires⟩ hidle
    · exact h.kept (Within.within (R := KeptAuto) (x := getG 0 >>= fun _ => getU (w.gTab 0).mod) w)
  · exact h.kept (Within.within (R := KeptAuto) (x := getG 0) w)

theorem passTimeout_auto (h : AutoGroup w) : AutoGroup (passTimeout 0 w).2 := by
  show wp (passTimeout 0) (fun _ w' => AutoGroup w') w
  refine wp_bind (wp_getW (wp_bind (wp_getG (wp_whenever (fun hc => ?_) fun _ => ?_))))
  · have := h.timeout
    omega
  · exact h.kept (Within.within (R := KeptAuto) (x := getG 0) w)

/-- The first loop of the poll: only his idling could cost the automatic user his group. -/
theorem groups_auto (h : AutoGroup w) (hidle : ¬ idleModFires w 0) :
    wp (each (slots maxGroups) fun i => do
      idleMod i
      passTimeout i) (fun _ => AutoGroup) w := by
  obtain ⟨rest, hslots, hrest⟩ : ∃ rest, slots maxGroups = 0 :: rest ∧ 0 ∉ rest :=
    ⟨(slots maxGroups).tail, rfl, by decide⟩
  have hzero : AutoGroup (passTimeout 0 (idleMod 0 w).2).2 := passTimeout_auto (idleMod_auto h hidle)
  rw [hslots]
  refine wp_bind (wp_bind (wp_mono (Q := fun _ t => t = (idleMod 0 w).2) rfl ?_))
  rintro _ _ rfl
  refine wp_mono (Q := fun _ => AutoGroup) hzero fun _ w₁ h₁ => wp_each (fun i hi w' h' => ?_) h₁
  have hother : i ≠ 0 := fun heq => hrest (heq ▸ hi)
  have (v : Int) := Kept.modAt (S := (· = nickserv)) hother v
  have := Kept.missAt (S := (· = nickserv)) hother
  exact Within.wp KeptAuto fun _ _ hk => h'.kept hk

theorem idleBootMod_auto (h : AutoGroup w) (hn : n ≠ nickserv) (k : Int) :
    AutoGroup (idleBootMod n k w).2 := by
  by_cases hk : k = 0
  · subst hk
    show wp (idleBootMod n 0) (fun _ w' => AutoGroup w') w
    refine wp_bind (wp_getW (wp_bind (wp_getU (wp_bind (wp_getG (wp_whenever (fun hc => ?_) fun _ => ?_))))))
    · exact absurd (hc.symm.trans h.mod) hn
    · exact h.kept (Within.within (R := KeptAuto) (x := getU n >>= fun _ => getG 0) w)
  · have (v : Int) := Kept.modAt (S := (· = nickserv)) hk v
    exact h.kept (Within.within w)

theorem idleBoot_auto (h : AutoGroup w) (hn : n < maxRealUsers) : AutoGroup (idleBoot n w).2 := by
  have hserv := (lt_nickserv hn).ne
  show wp (idleBoot n) (fun _ w' => AutoGroup w') w
  refine wp_bind (wp_getW (wp_bind (wp_getU (wp_whenever (fun _ => ?_) fun _ => ?_))))
  · have h : AutoGroup (getU n w).2 := h.kept (Within.within w)
    refine wp_bind (Within.wp KeptAuto fun _ w₁ h₁ => wp_whenever (fun _ => ?_) fun _ => h.kept h₁)
    refine wp_bind (Within.wp KeptAuto fun _ w₂ h₂ => wp_bind (Within.wp KeptAuto fun _ w₃ h₃ => ?_))
    have h₃ : AutoGroup w₃ := ((h.kept h₁).kept h₂).kept h₃
    refine wp_bind (wp_mono (wp_each (I := AutoGroup) (fun k _ _ h' => idleBootMod_auto h' hserv k) h₃) ?_)
    intro _ w₄ h₄
    exact (bootTo_auto h₄ hserv idleGroup).kept (Base.misc _ _)
  · exact h.kept (Within.within w)

/-- **A poll leaves the automatic user his group**, if it does not find him idling in company. -/
theorem sDidpoll_auto (h : AutoGroup w) (hidle : ¬ idleModFires w 0) : AutoGroup (sDidpoll w).2 := by
  show wp sDidpoll (fun _ w' => AutoGroup w') w
  refine wp_bind (wp_getW (wp_ite (fun _ => h.kept (Base.misc _ _)) fun _ => ?_))
  refine wp_bind (Within.wp Mutely fun _ w₁ h₁ => wp_bind (Within.wp Mutely fun _ w₂ h₂ => ?_))
  refine wp_bind (Within.wp Mutely fun _ w₃ h₃ => wp_bind ?_)
  have hM : Mutely w w₃ := trans_of Mutely (trans_of Mutely h₁ h₂) h₃
  have hgroups := groups_auto (hM.auto h) (by rwa [hM.idleModFires])
  refine wp_mono hgroups fun _ w₄ h₄ => ?_
  exact wp_each (fun i hi _ h' => idleBoot_auto h' (mem_slots.mp hi).2) h₄

end

/-! ## §5 — runs -/

theorem startup_auto (sys : Sys) (db : Bytes → Option Bytes) : AutoGroup (startup sys db) := by
  show wp (do
    fillUserEntry nickserv (str "server") Env.thishost (str "Server") [] (str "ICB") [] .complete 0 1 0
    modUOpts nickserv fun o => { o with tOn := sys.now, tRecv := sys.now }
    setRealname nickserv registered
    fillGroupEntry 0 (str "ICB") (str "...here to serve you!") .supersecret .restricted nickserv .quiet
    nickwritetime nickserv false) (fun _ w => AutoGroup w) _
  refine wp_after (wp_after (wp_after (wp_after (Within.wp KeptAuto fun _ _ hk => AutoGroup.kept ?_ hk))))
  refine ⟨rfl, rfl, rfl, rfl, ?_⟩
  simp [World.seats, fillUserEntry, fillGroupEntry, setIdent, setNickname, setUserGroup, setLogin,
    setRealname, modUOpts, setGroupName, setMod, modGOpts, World.modU, World.modG]
  decide

/-- What could cost the automatic user his group is left out: commands of the administrator and on his
own slot, and a poll that finds him idling in company. -/
def AutoKept (h : Host) (sys : Sys) : Event → Prop
  | .packet n contents =>
      (cstr contents).head? = some pktCommand → n < maxRealUsers ∧ ¬ checkAuth h.w n
  | .didpoll => ¬ idleModFires (h.toDaemon.at sys).w 0
  | _ => True

/-- Commands of the administrator are left out. -/
def Unprivileged (h : Host) (_ : Sys) : Event → Prop
  | .packet n contents => (cstr contents).head? = some pktCommand → ¬ checkAuth h.w n
  | _ => True

theorem auto_step {h : Host} {sys : Sys} {e : Event} (hi : HostInside h) (ha : AutoGroup h.w)
    (he : e.enabled h) (hp : AutoKept h sys e) : AutoGroup (h.after sys e).w := by
  obtain ⟨hinside, hopen⟩ := hi
  have hat : AutoGroup (h.toDaemon.at sys).w := ⟨ha.name, ha.control, ha.mod, ha.timeout, ha.seat⟩
  cases e with
  | connect n secure remote =>
    exact hat.kept (Within.within (R := KeptAuto) (x := sNewUser n secure remote) _)
  | packet n contents =>
    have hout : (h.w.uTab (-1)).login ≠ .complete := fun hc =>
      absurd (hinside (-1) (by rw [hc]; decide)) (by simp [inUsers])
    exact dispatch_auto (d := h.toDaemon.at sys) hat (hopen n he) hout hp
  | lost n =>
    by_cases hn : n < maxRealUsers
    · exact sLostUser_auto hat hn
    · show wp (sLostUser n) (fun _ w => AutoGroup w) _
      refine wp_bind (wp_getW (wp_bind (wp_getU (wp_ite (fun _ => ?_) fun hlt => absurd hlt (by omega)))))
      exact hat.kept (Within.within (R := KeptAuto) (x := getU n) _)
  | didpoll => exact sDidpoll_auto hat hp

/-- **The automatic user's group stays his own** in every run without commands of the administrator, if
nobody commands from his slot and no poll finds him idling in company. -/
theorem auto_group_kept {h : Host} (hr : Reachable AutoKept h) :
    0 ≤ findGroup h.w (str "ICB") ∧
      (h.w.gTab (findGroup h.w (str "ICB"))).control = .restricted ∧
      (h.w.gTab (findGroup h.w (str "ICB"))).mod = nickserv := by
  have hauto : AutoGroup h.w ∧ HostInside h :=
    hr.invariant (I := fun h => AutoGroup h.w ∧ HostInside h)
      (fun sys db => ⟨startup_auto sys db, startup_inside sys db⟩)
      fun _ _ _ hi hp he _ => ⟨auto_step hi.2 hi.1 he hp, inside_step hi.2 he⟩
  have hzero : findGroup h.w (str "ICB") = 0 := by
    have hgroup : (h.w.uTab nickserv).group = str "ICB" := congrArg Prod.fst hauto.1.seat
    rw [← hgroup]
    exact hauto.1.groupOf
  rw [hzero]
  exact ⟨le_rfl, hauto.1.control, hauto.1.mod⟩

end

section
attribute [local instance] smallEnv

instance (h : Host) (sys : Sys) : (e : Event) → Decidable (AutoKept h sys e)
  | .connect .. | .packet .. | .lost _ | .didpoll => by dsimp only [AutoKept]; infer_instance

instance (h : Host) (sys : Sys) : (e : Event) → Decidable (Unprivileged h sys e)
  | .connect .. | .packet .. | .lost _ | .didpoll => by dsimp only [Unprivileged]; infer_instance

/-- A client says three things in group 1 within a second. -/
def spamming : List Event :=
  [.connect 1 false none, .packet 1 (loginPkt "one" "first" "1" ""),
   .packet 1 (str "ba"), .packet 1 (str "bb"), .packet 1 (str "bc"), .packet 1 (str "bd")]

/-- What has become of a new server by then. -/
def spammed : Host := Host.run { now := 10 } { w := startup { now := 10 } fun _ => none } spamming

/-- He is booted to the automatic user's group, which stays as it is. -/
theorem auto_group_kept_spammer : (spammed.w.uTab 1).group = str "ICB" ∧
    0 ≤ findGroup spammed.w (str "ICB") ∧
      (spammed.w.gTab (findGroup spammed.w (str "ICB"))).control = .restricted ∧
      (spammed.w.gTab (findGroup spammed.w (str "ICB"))).mod = nickserv := by
  obtain ⟨hr, hgroup⟩ := Reachable.leads_run (P := AutoKept) (Q := fun h => (h.w.uTab 1).group = str "ICB")
    (.start { now := 10 } fun _ => none) (rfl : spammed = Host.run _ _ spamming) (by decide +kernel)
  exact ⟨hgroup, auto_group_kept hr⟩

/-- Two hours later he says something, and the next poll makes the group his. -/
theorem auto_group_passed : ∃ h, Reachable Unprivileged h ∧
    ¬ (h.w.gTab (findGroup h.w (str "ICB"))).mod = nickserv := by
  have hspam : Host.follows Unprivileged { now := 10 } { w := startup { now := 10 } fun _ => none }
      spamming := by decide +kernel
  have hlater : Host.leads Unprivileged { now := 7300 }
      (fun h => ¬ (h.w.gTab (findGroup h.w (str "ICB"))).mod = nickserv) spammed
      [.packet 1 (str "bhello"), .didpoll] := by decide +kernel
  have hr : Reachable Unprivileged spammed := (Reachable.start { now := 10 } fun _ => none).run hspam
  exact hr.leads hlater

end

end Icbd.Server
