/-
# Icbd.Server.IdleMod — the poll replaces idle moderators.

The second loop of `s_didpoll` makes two searches for each group, and they talk to each other by the
moderator timeout. The first one looks for a connection in the group that is less idle than the
moderator, and sets a timeout of one second after the epoch; the second one finds that timeout passed
and gives the group to its least idle member. The old moderator is never picked again, since somebody
was heard from after him.

Two representations stand in the way. The idle time is computed in an `int`, and the clock must be past
its first second.
-/
import Icbd.Server.AutoGroup
import Icbd.Server.Boot

namespace Icbd.Server

open Icbd.Lib

section
variable [Env]

/-! ## §1 — the loop and its promise -/

/-- The loop of `s_didpoll` over the groups. -/
def passMods : W Unit :=
  each (slots maxGroups) fun i => do
    idleMod i
    passTimeout i

theorem sDidpoll_eq : sDidpoll = (do
    let w ← getW
    if w.sys.now ≥ w.timeToDie ∧ w.timeToDie > 0 then
      modMisc fun m => { m with halted := true }
    else do
      warnShutdown 0 300 (str "Server shutting down in 5 minutes!")
      warnShutdown 1 60 (str "Server shutting down in 1 minute!")
      each (slots maxRealUsers) killMarked
      passMods
      each (slots maxRealUsers) idleBoot) := rfl

/-- For how long nothing was heard from somebody. -/
def idleTime (w : World) (j : Int) : Int := w.sys.now - (w.uTab j).tRecv

/-- Logged in, in group `i`, and not away. -/
def Present (w : World) (i j : Int) : Prop :=
  (w.uTab j).login = .complete ∧ (w.uTab j).awaymsg = [] ∧ groupOf w j = i

/-- Somebody present was heard from more recently than the moderator. -/
def Livelier (w : World) (i : Int) : Prop :=
  ∃ j ∈ slots maxRealUsers, Present w i j ∧ (w.uTab (w.gTab i).mod).tRecv < (w.uTab j).tRecv

/-- The group has another moderator: of those present, one who was heard from last. -/
structure Replaced (w : World) (i : Int) (w' : World) : Prop where
  other : (w'.gTab i).mod ≠ (w.gTab i).mod
  slot : (w'.gTab i).mod ∈ slots Env.maxUsers
  present : Present w' i (w'.gTab i).mod
  latest : ∀ j ∈ slots Env.maxUsers, Present w' i j → (w'.uTab j).tRecv ≤ (w'.uTab (w'.gTab i).mod).tRecv
  settled : (w'.gTab i).modtimeout = 0

/-- The moderator's idle time shows in an `int` as well, and the timeout set for it has passed. -/
def Shows (w : World) (i : Int) : Prop :=
  let idle := toInt32 (idleTime w (w.gTab i).mod)
  1 < w.sys.now ∧ (w.gTab i).idlemod < idle ∧
    ∃ j ∈ slots maxRealUsers, Present w i j ∧ idleTime w j < idle

/-- A timeout is pending, and has passed. -/
def Overdue (w : World) (i : Int) : Prop := 0 < (w.gTab i).modtimeout ∧ (w.gTab i).modtimeout < w.sys.now

instance (w : World) (i : Int) : Decidable (Overdue w i) := inferInstanceAs (Decidable (_ ∧ _))

/-! ## §2 — one turn -/

/-- Users and names as they were, and group `i` whole. -/
structure Aside (i : Int) (w w' : World) : Prop where
  users : w'.uTab = w.uTab
  names : ∀ k, (w'.gTab k).name = (w.gTab k).name
  group : w'.gTab i = w.gTab i
  sys : w'.sys = w.sys

section
variable {i k n : Int} {w w' : World}

instance : Base (Aside i) where
  refl _ := ⟨rfl, fun _ => rfl, rfl, rfl⟩
  trans _ _ _ h₁ h₂ := ⟨h₂.users.trans h₁.users, fun k => (h₂.names k).trans (h₁.names k),
    h₂.group.trans h₁.group, h₂.sys.trans h₁.sys⟩
  misc _ _ := ⟨rfl, fun _ => rfl, rfl, rfl⟩

instance : Posts (Aside i) := ⟨fun _ => ⟨fun _ _ _ => ⟨rfl, fun _ => rfl, rfl, rfl⟩⟩⟩

omit [Env] in
/-- A write to another group that keeps its name. -/
theorem Aside.write {f : Group → Group} (hk : k ≠ i) (hf : (f (w.gTab k)).name = (w.gTab k).name) :
    Aside i w (w.modG k f) where
  users := rfl
  names j := by
    by_cases hj : j = k
    · subst hj
      simpa [World.modG] using hf
    · simp [World.modG, Function.update_of_ne hj]
  group := by simp [World.modG, Function.update_of_ne hk.symm]
  sys := rfl

omit [Env] in
theorem Aside.modAt (hk : k ≠ i) (v : Int) : ModAt (Aside i) k v := ⟨fun _ => .write hk rfl⟩

omit [Env] in
theorem Aside.missAt (hk : k ≠ i) : MissAt (Aside i) k := ⟨fun _ _ _ => .write hk rfl⟩

omit [Env] in
theorem Aside.groupOf (h : Aside i w w') (j : Int) : groupOf w' j = groupOf w j := by
  simp only [Server.groupOf, findGroup, h.users, h.names]

omit [Env] in
theorem Aside.present (h : Aside i w w') (j : Int) : Present w' i j ↔ Present w i j := by
  simp only [Present, h.users, h.groupOf]

theorem Aside.fires (h : Aside i w w') : idleModFires w' i ↔ idleModFires w i := by
  have hless (idle j : Int) : lessIdle w' i idle j = lessIdle w i idle j := by
    simp only [lessIdle, h.groupOf, h.users, h.sys]
  simp only [idleModFires, hless, h.users, h.group, h.sys]

omit [Env] in
/-- The same write of group `i` on both sides. -/
theorem Aside.both {f : Group → Group} (h : Aside i w w') (hf : (f (w.gTab i)).name = (w.gTab i).name) :
    Aside i (w.modG i f) (w'.modG i f) where
  users := h.users
  names k := by
    by_cases hk : k = i
    · subst hk
      simp [World.modG, h.group]
    · simpa [World.modG, Function.update_of_ne hk] using h.names k
  group := by simp [World.modG, h.group]
  sys := h.sys

/-- The first search: the timeout is set if the moderator's idling shows. -/
def warned (w : World) (i : Int) : World :=
  if idleModFires w i then w.modG i fun g => { g with modtimeout := 1 } else w

/-- Whom the second search finds. -/
def successor (w : World) (i : Int) : Int :=
  leastIdle w fun j => isMember w i j && (w.uTab j).awaymsg = []

/-- The second search: a timeout that has passed ends with the least idle member, if there is one. -/
def passed (w : World) (i : Int) : World :=
  if Overdue w i ∧ successor w i ≠ -1 then
    w.modG i fun g => { g with mod := successor w i, missingmod := [], modtimeout := 0 }
  else w

theorem idleMod_turn (i : Int) (w : World) : Aside i (warned w i) (idleMod i w).2 := by
  show wp (idleMod i) (fun _ w' => Aside i (warned w i) w') w
  unfold warned
  refine wp_bind (wp_getW (wp_bind (wp_getG (wp_whenever (fun hc => ?_) fun hc => ?_))))
  · refine wp_bind (wp_getU (wp_whenever (fun hf => ?_) fun hf => ?_))
    · rw [if_pos (show idleModFires w i from ⟨hc.1, hc.2, hf⟩)]
      have hget : Aside i w (getU (w.gTab i).mod (getG i w).2).2 :=
        trans_of (Aside i) (Within.within w) (Within.within _)
      refine wp_bind (Within.wp (Aside i) fun _ w₁ h₁ => wp_bind (Within.wp (Aside i) fun _ w₂ h₂ => ?_))
      have hsent : Aside i w w₂ := trans_of (Aside i) (trans_of (Aside i) hget h₁) h₂
      have hset := hsent.both (f := fun g => { g with missingmod := (w.gTab i).missingmod, modtimeout := 1 }) rfl
      exact trans_of (Aside i) hset (Base.misc _ _)
    · rw [if_neg fun hfires : idleModFires w i => hf hfires.2.2]
      exact Within.within (R := Aside i) (x := getG i >>= fun _ => getU (w.gTab i).mod) w
  · rw [if_neg fun hfires : idleModFires w i => hc ⟨hfires.1, hfires.2.1⟩]
    exact Within.within (R := Aside i) (x := getG i) w

theorem passTimeout_turn (i : Int) (w : World) : Aside i (passed w i) (passTimeout i w).2 := by
  show wp (passTimeout i) (fun _ w' => Aside i (passed w i) w') w
  unfold passed
  refine wp_bind (wp_getW (wp_bind (wp_getG (wp_whenever (fun hc => ?_) fun hc => ?_))))
  · rw [if_pos (show Overdue w i ∧ successor w i ≠ -1 from ⟨⟨hc.1, hc.2.1⟩, hc.2.2⟩)]
    have hget : Aside i w (getG i w).2 := Within.within w
    have hmod := hget.both (f := fun g => { g with mod := successor w i }) rfl
    have hset := hmod.both (f := fun g => { g with missingmod := [], modtimeout := 0 }) rfl
    have hone : (w.modG i fun g => { g with mod := successor w i }).modG i
        (fun g => { g with missingmod := [], modtimeout := 0 }) =
          w.modG i fun g => { g with mod := successor w i, missingmod := [], modtimeout := 0 } := by
      simp [World.modG]
    rw [hone] at hset
    exact wp_after (wp_after (Within.wp (Aside i) fun _ _ h => trans_of (Aside i) hset h))
  · rw [if_neg fun h : Overdue w i ∧ successor w i ≠ -1 => hc ⟨h.1.1, h.1.2, h.2⟩]
    exact Within.within (R := Aside i) (x := getG i) w

theorem Aside.warned (h : Aside i w w') : Aside i (warned w i) (Server.warned w' i) := by
  unfold Server.warned
  by_cases hf : idleModFires w i
  · rw [if_pos hf, if_pos (h.fires.mpr hf)]
    exact h.both rfl
  · rw [if_neg hf, if_neg fun hf' => hf (h.fires.mp hf')]
    exact h

theorem Aside.successor (h : Aside i w w') : successor w' i = Server.successor w i := by
  simp only [Server.successor, leastIdle, isMember, h.users, h.names]
  rfl

theorem Aside.passed (h : Aside i w w') : Aside i (passed w i) (Server.passed w' i) := by
  have hover : Overdue w' i ↔ Overdue w i := by simp only [Overdue, h.group, h.sys]
  unfold Server.passed
  rw [h.successor]
  by_cases hp : Overdue w i ∧ Server.successor w i ≠ -1
  · rw [if_pos hp, if_pos ⟨hover.mpr hp.1, hp.2⟩]
    exact h.both rfl
  · rw [if_neg hp, if_neg fun hp' => hp ⟨hover.mp hp'.1, hp'.2⟩]
    exact h

/-- **The loop over the groups**, seen from one of them: its own turn counts, and it begins as the loop
did. -/
theorem passMods_turn (hi : i ∈ slots maxGroups) (w : World) :
    Aside i (passed (warned w i) i) (passMods w).2 := by
  have hother {v : World} (k : Int) (hk : k ≠ i) (t : World) (h : Aside i v t) :
      wp (do idleMod k; passTimeout k) (fun _ => Aside i v) t := by
    have := Aside.missAt hk
    have (v : Int) := Aside.modAt hk v
    exact Within.wp (Aside i) fun _ _ h' => trans_of (Aside i) h h'
  have hown (t : World) (h : Aside i w t) :
      wp (do idleMod i; passTimeout i) (fun _ => Aside i (passed (warned w i) i)) t :=
    trans_of (Aside i) (trans_of (Aside i) h.warned (idleMod_turn i t)).passed (passTimeout_turn i _)
  exact wp_each_turn hi (slots_nodup _) hown (fun k _ => hother k) (fun k _ => hother k) (refl_of (Aside i) w)

/-! ## §3 — what the turn does to the group -/

omit [Env] in
theorem toInt32_le {x : Int} (hx : -2 ^ 31 ≤ x) : toInt32 x ≤ x := by
  unfold toInt32
  omega

omit [Env] in
/-- Where somebody is present, membership by name is membership. -/
theorem present_iff (hi : i ∈ slots maxGroups) (hn : Present w i n) (j : Int) :
    (isMember w i j && (w.uTab j).awaymsg = []) ↔ Present w i j := by
  have hslot := (mem_slots.mp hi).1
  have hown : 0 ≤ groupOf w n := hn.2.2 ▸ hslot
  have hname : strcaseEq (w.gTab i).name (w.uTab n).group := by
    have h := (findGroup_nonneg hown).2
    rwa [show findGroup w (w.uTab n).group = i from hn.2.2] at h
  have hin : strcaseEq (w.uTab j).group (w.gTab i).name ↔ groupOf w j = i := by
    constructor
    · intro heq
      exact (findGroup_of_own hown (strcaseEq_trans heq hname)).trans hn.2.2
    · intro heq
      have h := (findGroup_nonneg (show 0 ≤ groupOf w j from heq ▸ hslot)).2
      rwa [show findGroup w (w.uTab j).group = i from heq, strcaseEq_comm] at h
  simp only [isMember, Bool.and_eq_true, decide_eq_true_eq, Present, hin]
  tauto

/-- The moderator's idling shows just where the first search finds somebody. -/
theorem fires_iff (hcontrol : (w.gTab i).control ≠ .pub) (hmod : 0 ≤ (w.gTab i).mod)
    (hint : -2 ^ 31 ≤ idleTime w (w.gTab i).mod) :
    idleModFires w i ↔ (w.gTab i).idlemod < toInt32 (idleTime w (w.gTab i).mod) ∧
      ∃ j ∈ slots maxRealUsers, Present w i j ∧ idleTime w j < toInt32 (idleTime w (w.gTab i).mod) := by
  have hle := toInt32_le hint
  have hself (j : Int) (hj : idleTime w j < toInt32 (idleTime w (w.gTab i).mod)) : j ≠ (w.gTab i).mod := by
    rintro rfl
    omega
  simp only [idleModFires, List.any_eq_true, Bool.and_eq_true, decide_eq_true_eq, lessIdle, Present]
  constructor
  · rintro ⟨-, -, hidle, j, hj, -, ⟨⟨hlogin, haway⟩, hgroup⟩, hless⟩
    exact ⟨hidle, j, hj, ⟨hlogin, haway, hgroup⟩, hless⟩
  · rintro ⟨hidle, j, hj, ⟨hlogin, haway, hgroup⟩, hless⟩
    exact ⟨hcontrol, hmod, hidle, j, hj, hself j hless, ⟨⟨hlogin, haway⟩, hgroup⟩, hless⟩

/-- The first search writes nothing but the timeout. -/
theorem warned_spec (w : World) (i : Int) : (warned w i).uTab = w.uTab ∧ (warned w i).sys = w.sys ∧
    (∀ k, ((warned w i).gTab k).name = (w.gTab k).name) ∧ ((warned w i).gTab i).mod = (w.gTab i).mod ∧
    ((warned w i).gTab i).modtimeout = if idleModFires w i then 1 else (w.gTab i).modtimeout := by
  unfold warned
  split_ifs
  · refine ⟨rfl, rfl, fun k => ?_, by simp [World.modG], by simp [World.modG]⟩
    by_cases hk : k = i
    · subst hk
      simp [World.modG]
    · simp [World.modG, Function.update_of_ne hk]
  · exact ⟨rfl, rfl, fun _ => rfl, rfl, rfl⟩

theorem successor_warned (w : World) (i : Int) : successor (warned w i) i = successor w i := by
  obtain ⟨husers, -, hnames, -⟩ := warned_spec w i
  simp only [successor, leastIdle, isMember, husers, hnames]
  rfl

theorem overdue_warned (w : World) (i : Int) :
    Overdue (warned w i) i ↔ if idleModFires w i then 1 < w.sys.now else Overdue w i := by
  obtain ⟨-, hsys, -, -, htimeout⟩ := warned_spec w i
  unfold Overdue
  rw [hsys, htimeout]
  split_ifs <;> simp

/-- The group after the loop. -/
theorem passMods_spec (hi : i ∈ slots maxGroups) (w : World) :
    ((passMods w).2.gTab i).mod =
        (if Overdue (warned w i) i ∧ successor w i ≠ -1 then successor w i else (w.gTab i).mod) ∧
      (Overdue (warned w i) i ∧ successor w i ≠ -1 → ((passMods w).2.gTab i).modtimeout = 0) ∧
      (passMods w).2.uTab = w.uTab ∧ ∀ j, groupOf (passMods w).2 j = groupOf w j := by
  have hturn := passMods_turn hi w
  obtain ⟨husers, -, hnames, hmod, -⟩ := warned_spec w i
  rw [← successor_warned w i]
  have hp : (passed (warned w i) i).uTab = (warned w i).uTab ∧
      ∀ k, ((passed (warned w i) i).gTab k).name = ((warned w i).gTab k).name := by
    unfold passed
    split_ifs
    · refine ⟨rfl, fun k => ?_⟩
      by_cases hk : k = i
      · subst hk
        simp [World.modG]
      · simp [World.modG, Function.update_of_ne hk]
    · exact ⟨rfl, fun _ => rfl⟩
  refine ⟨?_, fun h => ?_, hturn.users.trans (hp.1.trans husers), fun j => ?_⟩
  · rw [hturn.group]
    unfold passed
    split_ifs
    · simp [World.modG]
    · exact hmod
  · rw [hturn.group, passed, if_pos h]
    simp [World.modG]
  · rw [hturn.groupOf]
    simp only [groupOf, findGroup, hp.1, hp.2, husers, hnames]

/-- A timeout that has passed with somebody livelier there ends with a replacement. -/
theorem passMods_replaced (hi : i ∈ slots maxGroups) (hlively : Livelier w i)
    (hover : Overdue (warned w i) i) : Replaced w i (passMods w).2 := by
  obtain ⟨j, hj, hpresent, hrecv⟩ := hlively
  have htest := present_iff hi hpresent
  have hfound : successor w i ≠ -1 := fun hnone =>
    leastIdle_eq_neg_one.mp hnone j (real_mem_users hj) ((htest j).mpr hpresent)
  obtain ⟨hslot, hpasses, hlatest⟩ := leastIdle_picks hfound
  obtain ⟨hmod, htimeout, husers, hgroups⟩ := passMods_spec hi w
  rw [if_pos ⟨hover, hfound⟩] at hmod
  have hpresence (k : Int) : Present (passMods w).2 i k ↔ Present w i k := by
    simp only [Present, husers, hgroups]
  constructor
  case other =>
    rw [hmod]
    intro hsame
    have := hlatest j (real_mem_users hj) ((htest j).mpr hpresent)
    rw [show leastIdle w _ = (w.gTab i).mod from hsame] at this
    omega
  case slot => exact hmod ▸ hslot
  case present =>
    rw [hmod, hpresence]
    exact (htest _).mp hpasses
  case latest =>
    intro k hk hin
    rw [hmod, husers]
    exact hlatest k hk ((htest k).mpr ((hpresence k).mp hin))
  case settled => exact htimeout ⟨hover, hfound⟩

/-- Without such a timeout he stays. -/
theorem passMods_stays (hi : i ∈ slots maxGroups) (hover : ¬ Overdue (warned w i) i) :
    ((passMods w).2.gTab i).mod = (w.gTab i).mod := by
  rw [(passMods_spec hi w).1, if_neg fun h => hover h.1]

/-- **Idle moderators are replaced** by the least idle one present, just where their idling shows or a
timeout has passed; without anybody livelier they stay. -/
theorem idle_moderator_replaced_iff (hi : i ∈ slots maxGroups) (hcontrol : (w.gTab i).control ≠ .pub)
    (hmod : 0 ≤ (w.gTab i).mod) (hint : -2 ^ 31 ≤ (w.gTab i).idlemod)
    (hidle : (w.gTab i).idlemod < idleTime w (w.gTab i).mod) :
    ((Livelier w i → Replaced w i (passMods w).2) ∧
      (¬ Livelier w i → (w.gTab i).modtimeout = 0 → ((passMods w).2.gTab i).mod = (w.gTab i).mod)) ↔
    (Livelier w i → Shows w i ∨ Overdue w i) := by
  have hfires := fires_iff hcontrol hmod (by omega)
  have hover := overdue_warned w i
  constructor
  · rintro ⟨hreplaced, -⟩ hlively
    by_contra hnot
    rw [not_or] at hnot
    refine (hreplaced hlively).other (passMods_stays hi fun h => ?_)
    rw [hover] at h
    split_ifs at h with hf
    · exact hnot.1 ⟨h, hfires.mp hf⟩
    · exact hnot.2 h
  · intro hcond
    refine ⟨fun hlively => passMods_replaced hi hlively (hover.mpr ?_), fun hnone hzero => ?_⟩
    · split_ifs with hf
      · obtain hshows | hdue := hcond hlively
        · exact hshows.1
        · have := hdue.1
          have := hdue.2
          omega
      · exact (hcond hlively).resolve_left fun hshows => hf (hfires.mpr hshows.2)
    · refine passMods_stays hi fun h => ?_
      rw [hover, if_neg fun hf => hnone ?_] at h
      · have := h.1
        omega
      · obtain ⟨-, j, hj, hpresent, hless⟩ := hfires.mp hf
        have := toInt32_le (x := idleTime w (w.gTab i).mod) (by omega)
        refine ⟨j, hj, hpresent, ?_⟩
        unfold idleTime at *
        omega

end

end

/-! ## §4 — one second too many -/

section
attribute [local instance] smallEnv

/-- A moderator at the epoch, and a connection that waits. -/
def bidesTime : List Event :=
  [.connect 1 false none, .packet 1 (loginPkt "one" "bo" "x" ""), .packet 1 (cmdPkt "status" "c"),
   .connect 2 false none]

/-- The other one joins the group later. -/
abbrev joinedAt (now : Int) (h : Host) : Host :=
  h.after { now := now } (.packet 2 (loginPkt "two" "al" "x" ""))

/-- The moderator has been silent since the epoch, and the other one has just come. -/
def SilentSince (now : Int) (h : Host) : Prop :=
  (h.w.live ∧ h.opened 2) ∧ let h' := joinedAt now h
    h'.w.live ∧ ((h'.w.gTab 1).control = .controlled ∧ (h'.w.gTab 1).mod = 1 ∧ (h'.w.gTab 1).modtimeout = 0 ∧
      (h'.w.gTab 1).idlemod = 3600 ∧ (h'.w.uTab 1).tRecv = 0) ∧
    ((h'.w.uTab 2).login = .complete ∧ (h'.w.uTab 2).awaymsg = []) ∧ groupOf h'.w 2 = 1 ∧
      (h'.w.uTab 2).tRecv = now

instance (now : Int) : DecidablePred (SilentSince now) := fun _ => inferInstanceAs (Decidable (_ ∧ _))

/-- What the poll meets. -/
abbrev polledAt (now : Int) (h : Host) : World := ((joinedAt now h).toDaemon.at { now := now }).w

section
variable {now : Int} {h : Host}

theorem SilentSince.reachable (hs : SilentSince now h) (hr : Reachable (fun _ _ _ => True) h) :
    Reachable (fun _ _ _ => True) (joinedAt now h) := by
  obtain ⟨⟨hlive, hopen⟩, hlive', -⟩ := hs
  have hstep : Step h { now := now } (.packet 2 (loginPkt "two" "al" "x" "")) (joinedAt now h) :=
    ⟨hlive, hopen, rfl⟩
  exact hr.step trivial hstep hlive'

theorem SilentSince.idleTime (hs : SilentSince now h) : idleTime (polledAt now h) 1 = now := by
  obtain ⟨-, -, ⟨-, -, -, -, hrecv⟩, -⟩ := hs
  show now - ((joinedAt now h).w.uTab 1).tRecv = now
  rw [hrecv, Int.sub_zero]

/-- The newcomer is livelier as soon as the clock moves. -/
theorem SilentSince.livelier (hs : SilentSince now h) (hnow : 0 < now) : Livelier (polledAt now h) 1 := by
  obtain ⟨-, -, ⟨-, hmod, -, -, hrecv⟩, ⟨hlogin, haway⟩, hgroup, hrecv'⟩ := hs
  refine ⟨2, by decide, ⟨hlogin, haway, hgroup⟩, ?_⟩
  show ((joinedAt now h).w.uTab ((joinedAt now h).w.gTab 1).mod).tRecv < ((joinedAt now h).w.uTab 2).tRecv
  rw [hmod, hrecv, hrecv']
  exact hnow

theorem silent_both : ∃ h : Host, Reachable (fun _ _ _ => True) h ∧ SilentSince 5000 h ∧
    SilentSince (2 ^ 31) h := by
  have hrun : Host.leads (fun _ _ _ => True) {} (fun h => SilentSince 5000 h ∧ SilentSince (2 ^ 31) h)
      { w := startup {} fun _ => none } bidesTime := by
    decide +kernel
  exact Reachable.leads (.start {} fun _ => none) hrun

end

/-- After an hour and more the newcomer gets the group. -/
theorem idle_moderator_replaced_al : ∃ w : World, Livelier w 1 ∧ Replaced w 1 (passMods w).2 := by
  obtain ⟨h, -, hs, -⟩ := silent_both
  have hlively := hs.livelier (by decide)
  have hidle := hs.idleTime
  obtain ⟨-, -, ⟨hcontrol, hmod, -, hidlemod, -⟩, ⟨hlogin, haway⟩, hgroup, hrecv⟩ := hs
  have hmod' : ((polledAt 5000 h).gTab 1).mod = 1 := hmod
  have hidlemod' : ((polledAt 5000 h).gTab 1).idlemod = 3600 := hidlemod
  have hless : Server.idleTime (polledAt 5000 h) 2 = 0 := by
    show (5000 : Int) - ((joinedAt 5000 h).w.uTab 2).tRecv = 0
    rw [hrecv, Int.sub_self]
  have hshows : Shows (polledAt 5000 h) 1 := by
    have hpast : (1 : Int) < 5000 := by decide
    unfold Shows
    rw [hmod', hidle, hidlemod']
    exact ⟨hpast, by decide, 2, by decide, ⟨hlogin, haway, hgroup⟩, by rw [hless]; decide⟩
  have hiff := idle_moderator_replaced_iff (w := polledAt 5000 h) (i := 1) (by decide)
    (fun hpub => nomatch hcontrol.symm.trans hpub) (by rw [hmod']; decide) (by rw [hidlemod']; decide)
    (by rw [hmod', hidle, hidlemod']; decide)
  exact ⟨_, hlively, (hiff.mpr fun _ => .inl hshows).1 hlively⟩

/-- In an `int` the idle time turns negative, and nothing happens. -/
theorem idle_moderator_stays : ∃ (h : Host) (sys : Sys) (i : Int), Reachable (fun _ _ _ => True) h ∧
    i ∈ slots maxGroups ∧ let w := (h.toDaemon.at sys).w
    (w.gTab i).control ≠ .pub ∧ 0 ≤ (w.gTab i).mod ∧
      (w.gTab i).idlemod < idleTime w (w.gTab i).mod ∧ Livelier w i ∧ ¬ Replaced w i (passMods w).2 := by
  obtain ⟨h, hr, -, hs⟩ := silent_both
  have hlively := hs.livelier (by decide)
  have hidle := hs.idleTime
  have hr' := hs.reachable hr
  obtain ⟨-, -, ⟨hcontrol, hmod, htimeout, hidlemod, -⟩, -⟩ := hs
  have hmod' : ((polledAt (2 ^ 31) h).gTab 1).mod = 1 := hmod
  have hidlemod' : ((polledAt (2 ^ 31) h).gTab 1).idlemod = 3600 := hidlemod
  refine ⟨joinedAt (2 ^ 31) h, { now := 2 ^ 31 }, 1, hr', by decide, fun hpub => ?_, ?_, ?_, hlively, fun hrep => ?_⟩
  · exact nomatch hcontrol.symm.trans hpub
  · rw [hmod']
    decide
  · rw [hmod', hidle, hidlemod']
    decide
  · refine hrep.other (passMods_stays (by decide) fun hover => ?_)
    rw [overdue_warned, if_neg fun hf => ?_] at hover
    · exact absurd (show 0 < ((joinedAt (2 ^ 31) h).w.gTab 1).modtimeout from hover.1) (by rw [htimeout]; decide)
    · have hshows : ((polledAt (2 ^ 31) h).gTab 1).idlemod <
          toInt32 (Server.idleTime (polledAt (2 ^ 31) h) ((polledAt (2 ^ 31) h).gTab 1).mod) := hf.2.2.1
      rw [hmod', hidle, hidlemod'] at hshows
      exact absurd hshows (by decide)

end

end Icbd.Server
