/-
# Icbd.Server.Invitations — invitations and what becomes of them.

Who is invited is asked in four places, by hand each time: two of them leave out the list of addresses that
are invited when registered. An invitation is taken back from the first of two lists that has it, so it
stays in the second if it was in both.
-/
import Icbd.Server.Boot
import Icbd.Server.Drop

-- every bind doubles the size of the search's argument
set_option synthInstance.maxSize 1000000000000000000000000000000000000000000000000
set_option synthInstance.maxHeartbeats 200000

namespace Icbd.Server

open Icbd.Lib

section
variable [Env]

/-! ## §1 — the invite lists are lists -/

/-- Something that holds of the options of every group. -/
def EachGroup (J : GroupOpts → Prop) (w : World) : Prop := ∀ i, J (w.gTab i).toGroupOpts

/-- Every group's invite lists have their capacity and hold no name twice. -/
def SoundInvites (w : World) : Prop := ∀ i, (w.gTab i).toGroupOpts.Sound

section
variable {w : World} {n i j dest : Int} {arg text : Bytes} {key : String} {v : Bytes} {lg : Login} {f : Flags}
  {J : GroupOpts → Prop}

omit [Env] in
theorem EachGroup.modG (h : EachGroup J w) {g : Group → Group}
    (hg : J (w.gTab i).toGroupOpts → J (g (w.gTab i)).toGroupOpts) : EachGroup J (w.modG i g) := by
  intro j
  by_cases hj : j = i
  · subst hj
    simpa [World.modG] using hg (h j)
  · simpa [World.modG, hj] using h j

omit [Env] in
theorem EachGroup.modGOpts (h : EachGroup J w) {g : GroupOpts → GroupOpts}
    (hg : J (w.gTab i).toGroupOpts → J (g (w.gTab i).toGroupOpts)) : EachGroup J (modGOpts i g w).2 :=
  h.modG (g := fun x => { x with toGroupOpts := g x.toGroupOpts }) hg

instance : Still (Keep (EachGroup J)) where
  misc _ _ := id
  drops _ _ := id
  toPlain _ := ⟨fun _ _ _ => id⟩
  toUOpts _ := ⟨fun _ _ => id⟩

/-- Writes to anything but the options of groups. -/
instance : Callbacks (Keep (EachGroup J)) where
  drops := Drops.drops
  toPlain _ := inferInstance
  toUNeat _ := inferInstance
  toOpens _ := ⟨fun _ _ => id⟩
  toDb _ := ⟨fun _ _ _ => id⟩
  toNick _ _ := ⟨fun _ => id⟩
  toReal _ _ := ⟨fun _ => id⟩
  toIdent _ := ⟨fun _ _ _ _ => id⟩
  toUGroup _ := ⟨fun _ _ => id⟩
  toLogin _ _ := ⟨fun _ => id⟩
  toMod _ := ⟨fun _ _ h => h.modG id⟩
  miss _ _ _ _ h := h.modG id
  gname _ _ _ h := h.modG id

instance : Still (Keep SoundInvites) := inferInstanceAs (Still (Keep (EachGroup GroupOpts.Sound)))

instance : Callbacks (Keep SoundInvites) := inferInstanceAs (Callbacks (Keep (EachGroup GroupOpts.Sound)))

omit [Env] in
theorem SoundInvites.modGOpts (h : SoundInvites w) {g : GroupOpts → GroupOpts}
    (hg : (w.gTab i).toGroupOpts.Sound → (g (w.gTab i).toGroupOpts).Sound) : SoundInvites (modGOpts i g w).2 :=
  EachGroup.modGOpts h hg

instance (i : Int) : GSoundAt (Keep SoundInvites) i where
  gsound _ _ hf h := EachGroup.modG h (hf.soundly _)

omit [Env] in
/-- The second list is tried when the first does not have the name. -/
theorem deleteFrom_eq (name : Bytes) (l₁ l₂ : NamList) :
    deleteFrom name l₁ l₂ =
      if nlpresent name l₁ then (true, (nldelete l₁ name).2, l₂)
      else (nlpresent name l₂, (nldelete l₁ name).2, (nldelete l₂ name).2) := by
  simp only [deleteFrom, nldelete_fst]

section
variable {l₁ l₂ : NamList} {name : Bytes}

omit [Env] in
variable (name l₁ l₂) in
theorem deleteFrom_fst : (deleteFrom name l₁ l₂).1 = (nlpresent name l₁ || nlpresent name l₂) := by
  rw [deleteFrom_eq]
  cases h : nlpresent name l₁ <;> rfl

omit [Env] in
variable (l₂) in
/-- The first list loses the name. -/
theorem not_nlpresent_deleteFrom (h : l₁.keys.Nodup) : ¬ nlpresent name (deleteFrom name l₁ l₂).2.1 := by
  rw [deleteFrom_eq]
  split <;> exact not_nlpresent_nldelete h

omit [Env] in
variable (l₁) in
/-- The second list loses it only if the first did not have it. -/
theorem nlpresent_deleteFrom (h : l₂.keys.Nodup) :
    nlpresent name (deleteFrom name l₁ l₂).2.2 = (nlpresent name l₁ && nlpresent name l₂) := by
  rw [deleteFrom_eq]
  cases nlpresent name l₁ with
  | true => rfl
  | false => exact Bool.eq_false_iff.mpr (not_nlpresent_nldelete h)

end

omit [Env] in
theorem cancelNick_sound {g : GroupOpts} (h : g.Sound) (name : Bytes) : (cancelNick name g).2.Sound := by
  simp only [cancelNick, deleteFrom_eq]
  split
  · exact ⟨h.n.nldelete, h.nr, h.s, h.sr⟩
  · exact ⟨h.n.nldelete, h.nr.nldelete, h.s, h.sr⟩

omit [Env] in
theorem cancelAddr_sound {g : GroupOpts} (h : g.Sound) (name : Bytes) : (cancelAddr name g).2.Sound := by
  simp only [cancelAddr, deleteFrom_eq]
  split
  · exact ⟨h.n, h.nr, h.s.nldelete, h.sr⟩
  · exact ⟨h.n, h.nr, h.s.nldelete, h.sr.nldelete⟩

instance : Within (Keep SoundInvites) (setIdlebootMsg n i arg) := by
  have : Within (Keep SoundInvites) (modGOpts i fun o => { o with idlebootMsg := arg }) :=
    ⟨fun _ h => h.modGOpts fun hg => ⟨hg.n, hg.nr, hg.s, hg.sr⟩⟩
  unfold setIdlebootMsg
  infer_instance

instance : Within (Keep SoundInvites) (cancelBody n f) where
  within w h := by
    show wp (cancelBody n f) (fun _ => SoundInvites) w
    have hget : SoundInvites (getG (groupOf w n) w).2 := h
    refine wp_bind (wp_getW (wp_bind (wp_getG (wp_ite (fun _ => wp_bind ?_) fun _ => ?_))))
    · -- the entry that was read is written back, with other lists
      refine Within.within (R := Keep SoundInvites) _ (hget.modGOpts fun _ => ?_)
      split
      · exact cancelAddr_sound (h _) _
      · exact cancelNick_sound (h _) _
    · exact Within.within (R := Keep SoundInvites) _ hget

instance : Within (Keep SoundInvites) (bootUser n dest arg text) where
  within w h := by
    show wp (bootUser n dest arg text) (fun _ => SoundInvites) w
    have hget : SoundInvites (getG (groupOf w dest) (getU dest (getU n w).2).2).2 := h
    refine wp_bind (wp_getW (wp_bind (wp_getU (wp_bind (wp_getU (wp_bind (wp_getG ?_)))))))
    refine wp_ite (fun _ => wp_bind ?_) fun _ => ?_
    · exact Within.within (R := Keep SoundInvites) _ (hget.modGOpts fun _ => cancelNick_sound (h _) _)
    · exact Within.within (R := Keep SoundInvites) _ hget

end

/-- In every state reached the invite lists are lists. -/
theorem reachable_invites {P : Host → Sys → Event → Prop} {h : Host} (hr : Reachable P h) : SoundInvites h.w := by
  refine hr.keep (fun _ => inferInstance) (fun _ _ => id) fun sys db => ?_
  refine startup_rel (R := Keep SoundInvites) sys db fun _ => ?_
  exact ⟨nlinit_sound _, nlinit_sound _, nlinit_sound _, nlinit_sound _⟩

/-! ## §2 — who is invited -/

/-- The places that ask whether a user is invited to a group: the door of a restricted group (`s_change`),
the sign-on (`loginmsg`), the list of all groups (`doAll`) and the header of a group
(`print_group_header`). -/
inductive Asking
  | door
  | signOn
  | list
  | header

/-- What each of them asks. -/
def Asking.invited : Asking → User → Group → Bool
  | .door => isInvited
  | .signOn => isInvited
  | .list => isInvitedListed
  | .header => isInvitedListed

/-- On a list that every one of them reads. -/
def onCommonList (u : User) (g : Group) : Bool :=
  nlpresent u.nickname g.nInvites || nlmatch (ucaseit (address u)) g.sInvites ||
    (nlpresent u.nickname g.nrInvites && u.realname ≠ [])

/-- Registered and on the list of addresses that are invited when registered. -/
def onRegisteredAddresses (u : User) (g : Group) : Bool :=
  nlmatch (ucaseit (address u)) g.srInvites && u.realname ≠ []

/-- The name that sees everything. -/
def isAdminName (u : User) : Bool := strncmpEq (str "ADMIN") u.nickname maxNickLen

omit [Env] in
theorem isInvited_eq (u : User) (g : Group) :
    isInvited u g = (onCommonList u g || onRegisteredAddresses u g) := by
  simp only [isInvited, onCommonList, onRegisteredAddresses, Bool.or_assoc]

omit [Env] in
theorem isInvitedListed_eq (u : User) (g : Group) :
    isInvitedListed u g = (onCommonList u g || isAdminName u) := by
  have hcomm (a b c d e : Bool) : (a || b || c || (c && d) || e) = (a || c || b || e) := by
    cases a <;> cases b <;> cases c <;> rfl
  exact hcomm ..

omit [Env] in
/-- **When the four agree.** A user is on one of the lists that all of them read, or he is on the list of
addresses for the registered if and only if his name is the administrator's. -/
theorem invitations_agree_iff (w : World) (n gi : Int) :
    (∀ a b : Asking, a.invited (w.uTab n) (w.gTab gi) = b.invited (w.uTab n) (w.gTab gi)) ↔
      onCommonList (w.uTab n) (w.gTab gi) ∨
        (onRegisteredAddresses (w.uTab n) (w.gTab gi) ↔ isAdminName (w.uTab n)) := by
  have htwo : (∀ a b : Asking, a.invited (w.uTab n) (w.gTab gi) = b.invited (w.uTab n) (w.gTab gi)) ↔
      isInvited (w.uTab n) (w.gTab gi) = isInvitedListed (w.uTab n) (w.gTab gi) := by
    refine ⟨fun h => h .door .list, fun h a b => ?_⟩
    cases a <;> cases b <;> first | rfl | exact h | exact h.symm
  rw [htwo, isInvited_eq, isInvitedListed_eq]
  cases onCommonList (w.uTab n) (w.gTab gi) with
  | false =>
    simp only [Bool.false_or, Bool.false_eq_true, false_or]
    exact Bool.eq_iff_iff
  | true => simp

/-! ## §3 — an invitation is taken back -/

/-- A command that takes an invitation back: `s_cancel`, or `s_boot` on the way. -/
inductive TakesBack
  | cancel (arg : Bytes)
  | boot (arg : Bytes)

def TakesBack.prog (n : Int) : TakesBack → W Unit
  | .cancel arg => sCancel n arg
  | .boot arg => sBoot n arg

/-- What a call takes back and would report, if it gets past its checks: a nickname, or an address. -/
def TakesBack.whom (w : World) (n : Int) : TakesBack → Option (Bool × Bytes)
  | .cancel arg =>
      match flagsOf "qsn" arg with
      | none => none
      | some f =>
          if (w.gTab (groupOf w n)).control = .restricted ∧ (w.gTab (groupOf w n)).mod = n ∧ f.q = false then
            some (f.s, if f.s then ucaseit f.who else f.who)
          else none
  | .boot arg =>
      let t := findUser w (getword arg)
      if (checkAuth w n ∨ (w.gTab (groupOf w n)).mod = n) ∧ 0 ≤ t ∧ ¬ strcaseEq (getword arg) (str "ADMIN") ∧
          (bootText (getTail arg) (w.uTab t).nickname).isOk ∧ groupOf w t = groupOf w n then
        some (false, (w.uTab t).nickname)
      else none

/-- The list of a kind that is tried first. -/
def onFirst (site : Bool) (who : Bytes) (g : GroupOpts) : Bool :=
  if site then nlpresent who g.sInvites else nlpresent who g.nInvites

/-- The list of a kind for the registered. -/
def onSecond (site : Bool) (who : Bytes) (g : GroupOpts) : Bool :=
  if site then nlpresent who g.srInvites else nlpresent who g.nrInvites

/-- What a call reports as cancelled is on neither list afterwards. -/
def TakesBack.Clears (w : World) (n : Int) (c : TakesBack) : Prop :=
  ∀ site who, c.whom w n = some (site, who) →
    onFirst site who (w.gTab (groupOf w n)).toGroupOpts ∨ onSecond site who (w.gTab (groupOf w n)).toGroupOpts →
    let g := ((c.prog n w).2.gTab (groupOf w n)).toGroupOpts
    ¬ onFirst site who g ∧ ¬ onSecond site who g

/-- A boot after which nobody is left in the group. -/
def TakesBack.Empties (w : World) : TakesBack → Prop
  | .cancel _ => False
  | .boot arg => leavesEmpty w (findUser w (getword arg)) bootGroup

/-- Both kinds of cancelling. -/
def cancelFrom (site : Bool) (who : Bytes) (g : GroupOpts) : Bool × GroupOpts :=
  if site then cancelAddr who g else cancelNick who g

section
variable {w : World} {n : Int} {site : Bool} {who arg : Bytes} {g : GroupOpts}

omit [Env] in
/-- The answer is whether it was on one of the lists. -/
theorem cancelFrom_fst : (cancelFrom site who g).1 = (onFirst site who g || onSecond site who g) := by
  cases site
  · exact deleteFrom_fst g.nInvites g.nrInvites who
  · exact deleteFrom_fst g.sInvites g.srInvites who

omit [Env] in
/-- The first list loses the entry. -/
theorem not_onFirst_cancelFrom (h : g.Sound) : ¬ onFirst site who (cancelFrom site who g).2 := by
  cases site
  · exact not_nlpresent_deleteFrom g.nrInvites h.n.nodup
  · exact not_nlpresent_deleteFrom g.srInvites h.s.nodup

omit [Env] in
/-- The second list loses it only if the first did not have it. -/
theorem onSecond_cancelFrom (h : g.Sound) :
    onSecond site who (cancelFrom site who g).2 = (onFirst site who g && onSecond site who g) := by
  cases site
  · exact nlpresent_deleteFrom g.nInvites h.nr.nodup
  · exact nlpresent_deleteFrom g.sInvites h.sr.nodup

/-- What `s_cancel` leaves of the group's options. -/
theorem cancelBody_opts {f : Flags} (hmay : (w.gTab (groupOf w n)).control = .restricted ∧
    (w.gTab (groupOf w n)).mod = n) :
    ((cancelBody n f w).2.gTab (groupOf w n)).toGroupOpts =
      (cancelFrom f.s (if f.s then ucaseit f.who else f.who) (w.gTab (groupOf w n)).toGroupOpts).2 := by
  show wp (cancelBody n f) (fun _ w' => (w'.gTab (groupOf w n)).toGroupOpts = _) w
  refine wp_bind (wp_getW (wp_bind (wp_getG (wp_ite (fun _ => wp_after ?_) fun hno => absurd hmay hno))))
  refine Within.wp Stilly fun _ w' hS => ?_
  rw [hS.groups]
  simp [modGOpts, World.modG, cancelFrom]

omit [Env] in
/-- After the deletion neither list has the entry, unless both had it. -/
theorem cancelFrom_clears_iff (site : Bool) (h : g.Sound) :
    (onFirst site who g ∨ onSecond site who g →
      ¬ onFirst site who (cancelFrom site who g).2 ∧ ¬ onSecond site who (cancelFrom site who g).2) ↔
    ¬ (onFirst site who g ∧ onSecond site who g) := by
  have hfirst : ¬ onFirst site who (cancelFrom site who g).2 := not_onFirst_cancelFrom h
  rw [onSecond_cancelFrom h]
  cases onFirst site who g <;> cases onSecond site who g <;> simp [hfirst]

theorem whom_cancel (h : TakesBack.whom w n (.cancel arg) = some (site, who)) :
    ∃ f, TakesBack.prog n (.cancel arg) = cancelBody n f ∧
      ((w.gTab (groupOf w n)).control = .restricted ∧ (w.gTab (groupOf w n)).mod = n) ∧ f.q = false ∧
      f.s = site ∧ (if f.s then ucaseit f.who else f.who) = who := by
  simp only [TakesBack.whom] at h
  cases hflags : flagsOf "qsn" arg with
  | none => simp [hflags] at h
  | some f =>
    simp only [hflags, Option.ite_none_right_eq_some, Option.some.injEq, Prod.mk.injEq] at h
    obtain ⟨⟨hcontrol, hmod, hq⟩, hsite, hwho⟩ := h
    exact ⟨f, by simp only [TakesBack.prog, sCancel, withFlags, hflags], ⟨hcontrol, hmod⟩, hq, hsite, hwho⟩

theorem whom_boot (h : TakesBack.whom w n (.boot arg) = some (site, who)) :
    (checkAuth w n ∨ (w.gTab (groupOf w n)).mod = n) ∧ 0 ≤ findUser w (getword arg) ∧
      ¬ strcaseEq (getword arg) (str "ADMIN") ∧
      (bootText (getTail arg) (w.uTab (findUser w (getword arg))).nickname).isOk ∧
      groupOf w (findUser w (getword arg)) = groupOf w n ∧ false = site ∧
      (w.uTab (findUser w (getword arg))).nickname = who := by
  simp only [TakesBack.whom, Option.ite_none_right_eq_some, Option.some.injEq, Prod.mk.injEq] at h
  tauto

/-- A cancelled invitation. -/
theorem sCancel_clears_iff (h : SoundInvites w) :
    TakesBack.Clears w n (.cancel arg) ↔ ∀ site who, TakesBack.whom w n (.cancel arg) = some (site, who) →
      ¬ (onFirst site who (w.gTab (groupOf w n)).toGroupOpts ∧
        onSecond site who (w.gTab (groupOf w n)).toGroupOpts) := by
  refine forall₃_congr fun site who hwhom => ?_
  obtain ⟨f, hprog, hmay, -, rfl, rfl⟩ := whom_cancel hwhom
  simp only [hprog, cancelBody_opts hmay]
  exact cancelFrom_clears_iff _ (h _)

/-- A booted user's invitation. -/
theorem sBoot_clears_iff (h : SoundInvites w) :
    TakesBack.Clears w n (.boot arg) ↔ ∀ site who, TakesBack.whom w n (.boot arg) = some (site, who) →
      ¬ (onFirst site who (w.gTab (groupOf w n)).toGroupOpts ∧
        onSecond site who (w.gTab (groupOf w n)).toGroupOpts) ∨ TakesBack.Empties w (.boot arg) := by
  refine forall₃_congr fun site who hwhom => ?_
  obtain ⟨hauth, hfound, hadmin, htext, hsame, rfl, rfl⟩ := whom_boot hwhom
  obtain ⟨w₁, m, hdoors, hmod, hopts, heq⟩ := sBoot_before hauth rfl hfound hadmin htext hsame
  have hgroup : groupOf w₁ (findUser w (getword arg)) = groupOf w n := (hdoors.groupOf _).trans hsame
  obtain ⟨hclear, hkeep⟩ := bootTo_oldGroup (w := w₁) (t := findUser w (getword arg)) bootGroup (.inl rfl)
  have hafter : ((TakesBack.prog n (.boot arg) w).2.gTab (groupOf w n)) =
      (bootTo (findUser w (getword arg)) bootGroup w₁).2.gTab (groupOf w₁ (findUser w (getword arg))) := by
    show (sBoot n arg w).2.gTab _ = _
    rw [heq, hgroup]
    rfl
  rw [hdoors.leavesEmpty hmod] at hclear hkeep
  rw [hsame] at hopts
  simp only [hafter]
  by_cases hlast : leavesEmpty w (findUser w (getword arg)) bootGroup
  · rw [hclear hlast]
    exact iff_of_true (fun _ => ⟨Bool.false_ne_true, Bool.false_ne_true⟩) (.inr hlast)
  · rw [hkeep hlast, hgroup, hopts]
    exact (cancelFrom_clears_iff false (h _)).trans (or_iff_left hlast).symm

/-- What the client is told. -/
def cancelledPkt (who : Bytes) : Bytes := packet pktStatus (classText (str "FYI") (who ++ str " cancelled"))

/-- A status message goes out to a connection that is not marked. -/
theorem sendstatus_called {w₁ : World} {cls msg : Bytes} (hn : n ∈ slots maxRealUsers) (hkill : w.sKill n ≤ 0)
    (hout : w₁.out = w.out) (hmarks : w₁.sKill = w.sKill) :
    wp (sendstatus n cls msg) (fun _ => Called (.send n (packet pktStatus (classText cls msg))) w) w₁ := by
  obtain ⟨h0, hmax⟩ := mem_slots.mp hn
  refine wp_bind (wp_getW (wp_whenever (fun _ => ?_) fun hno => absurd ⟨h0, hmax, by rwa [hmarks]⟩ hno))
  exact ⟨[_], congrArg (_ :: ·) hout, List.mem_singleton.mpr rfl⟩

omit [Env] in
/-- What comes after a call does not take it back. -/
theorem Called.wp {α : Type} {o : Out} {w' : World} {x : W α} [Within (Undropped 0) x]
    (h : Called o w w') : wp x (fun _ => Called o w) w' :=
  h.later (Undropped.grows (n := 0) (Within.within w'))

theorem cancelBody_told {f : Flags} (hmay : (w.gTab (groupOf w n)).control = .restricted ∧
      (w.gTab (groupOf w n)).mod = n) (hq : f.q = false) (hn : n ∈ slots maxRealUsers) (hkill : w.sKill n ≤ 0)
    (hon : (cancelFrom f.s (if f.s then ucaseit f.who else f.who) (w.gTab (groupOf w n)).toGroupOpts).1 = true) :
    Called (.send n (cancelledPkt (if f.s then ucaseit f.who else f.who))) w (cancelBody n f w).2 := by
  show wp (cancelBody n f) (fun _ w' => Called _ w w') w
  refine wp_bind (wp_getW (wp_bind (wp_getG (wp_ite (fun _ => wp_after ?_) fun hno => absurd hmay hno))))
  refine wp_ite (fun _ => wp_bind ?_) fun hno => absurd (by simpa [cancelFrom] using hon) hno
  refine wp_whenever (fun _ => ?_) fun hno => absurd hq hno
  exact wp_mono (sendstatus_called hn hkill rfl rfl) fun _ _ h => h.wp

theorem bootUser_told {t : Int} {text : Bytes} (hsame : groupOf w n = groupOf w t) (hn : n ∈ slots maxRealUsers)
    (hkill : w.sKill n ≤ 0)
    (hon : (cancelNick (w.uTab t).nickname (w.gTab (groupOf w t)).toGroupOpts).1 = true) :
    Called (.send n (cancelledPkt (w.uTab t).nickname)) w (bootUser n t arg text w).2 := by
  show wp (bootUser n t arg text) (fun _ w' => Called _ w w') w
  refine wp_bind (wp_getW (wp_bind (wp_getU (wp_bind (wp_getU (wp_bind (wp_getG ?_)))))))
  refine wp_ite (fun _ => wp_after (wp_bind ?_)) fun hno => absurd hsame hno
  refine wp_whenever (fun _ => ?_) fun hno => absurd hon hno
  exact wp_mono (sendstatus_called hn hkill rfl rfl) fun _ _ h => h.wp

/-- **A report is sent** for what is on one of the two lists, if packets reach the client at all. -/
theorem TakesBack.told {c : TakesBack} (hwhom : c.whom w n = some (site, who)) (hn : n ∈ slots maxRealUsers)
    (hkill : w.sKill n ≤ 0) (hon : onFirst site who (w.gTab (groupOf w n)).toGroupOpts ∨
      onSecond site who (w.gTab (groupOf w n)).toGroupOpts) :
    Called (.send n (cancelledPkt who)) w (c.prog n w).2 := by
  have hon : (cancelFrom site who (w.gTab (groupOf w n)).toGroupOpts).1 = true := by
    rw [cancelFrom_fst]
    simpa using hon
  cases c with
  | cancel arg =>
    obtain ⟨f, hprog, hmay, hq, rfl, rfl⟩ := whom_cancel hwhom
    rw [hprog]
    exact cancelBody_told hmay hq hn hkill hon
  | boot arg =>
    obtain ⟨hauth, hfound, hadmin, htext, hsame, rfl, rfl⟩ := whom_boot hwhom
    show wp (sBoot n arg) (fun _ w' => Called _ w w') w
    refine wp_bind (wp_getW (wp_bind (wp_getU (wp_bind (wp_getG ?_)))))
    refine wp_ite (fun hno => absurd hauth hno) fun _ => wp_ite (fun hno => absurd hfound (by omega))
      fun _ => wp_ite (fun hno => absurd hno hadmin) fun _ => ?_
    cases hb : bootText (getTail arg) (w.uTab (findUser w (getword arg))).nickname with
    | error e =>
      rw [hb] at htext
      cases htext
    | ok text =>
      rw [← hsame] at hon
      exact bootUser_told (w := (getG (groupOf w n) (getU n w).2).2) hsame.symm hn hkill hon

/-- **When an invitation that is taken back is gone.** It was not on both lists of its kind, or the group
has gone with its last member. -/
theorem taken_back_iff {h : Host} (hr : Reachable (fun _ _ _ => True) h) (sys : Sys) (n : Int) (c : TakesBack) :
    let w := (h.toDaemon.at sys).w
    c.Clears w n ↔ ∀ site who, c.whom w n = some (site, who) →
      ¬ (onFirst site who (w.gTab (groupOf w n)).toGroupOpts ∧
        onSecond site who (w.gTab (groupOf w n)).toGroupOpts) ∨ c.Empties w := by
  intro w
  have hsound : SoundInvites w := reachable_invites hr
  cases c with
  | cancel arg => simpa [TakesBack.Empties] using sCancel_clears_iff hsound
  | boot arg => exact sBoot_clears_iff hsound

end

end

section
attribute [local instance] smallEnv

/-- The second client's nickname is registered from his address. -/
def boRecord : Bytes → Option Bytes :=
  Function.update (fun _ => none) (dbKey (str "bo") "home") (some (str "two@"))

/-- The first client invites every address, when registered, to an invisible group. -/
def innerCircle : List Event :=
  [.connect 1 false none, .packet 1 (loginPkt "one" "al" "x" ""), .packet 1 (cmdPkt "status" "r i"),
   .packet 1 (cmdPkt "invite" "-r -s *"), .connect 2 false none, .packet 2 (loginPkt "two" "bo" "1" "")]

/-- The door of the invisible group is open to the second client, and the list of groups hides it from
him. -/
theorem invited_unlisted : ∃ h : Host, Reachable (fun _ _ _ => True) h ∧ (h.w.uTab 2).login = .complete ∧
    ¬ checkAuth h.w 2 ∧ ¬ isAdminName (h.w.uTab 2) ∧
    Asking.door.invited (h.w.uTab 2) (h.w.gTab 1) = true ∧
    Asking.list.invited (h.w.uTab 2) (h.w.gTab 1) = false := by
  have hrun : Host.leads (fun _ _ _ => True) {} (fun h => (h.w.uTab 2).login = .complete ∧
      ¬ checkAuth h.w 2 ∧ ¬ isAdminName (h.w.uTab 2) ∧
      Asking.door.invited (h.w.uTab 2) (h.w.gTab 1) = true ∧
      Asking.list.invited (h.w.uTab 2) (h.w.gTab 1) = false) { w := startup {} boRecord } innerCircle := by
    decide +kernel
  exact Reachable.leads (.start {} boRecord) hrun

/-- A moderator restricts his group and invites. -/
def invites (args : List String) : List Event :=
  [.connect 1 false none, .packet 1 (loginPkt "one" "al" "x" ""), .packet 1 (cmdPkt "status" "r")] ++
    args.map fun arg => .packet 1 (cmdPkt "invite" arg)

theorem taken_back_iff_bo : ∃ h : Host, Reachable (fun _ _ _ => True) h ∧
    let w := (h.toDaemon.at {}).w
    TakesBack.whom w 1 (.cancel (str "bo")) = some (false, str "bo") ∧
      onFirst false (str "bo") (w.gTab (groupOf w 1)).toGroupOpts ∧ TakesBack.Clears w 1 (.cancel (str "bo")) := by
  have hrun : Host.leads (fun _ _ _ => True) {} (fun h =>
      let w := (h.toDaemon.at {}).w
      TakesBack.whom w 1 (.cancel (str "bo")) = some (false, str "bo") ∧
        onFirst false (str "bo") (w.gTab (groupOf w 1)).toGroupOpts ∧
        ¬ onSecond false (str "bo") (w.gTab (groupOf w 1)).toGroupOpts)
      { w := startup {} fun _ => none } (invites ["bo"]) := by
    decide +kernel
  obtain ⟨h, hr, hwhom, hfirst, hsecond⟩ := Reachable.leads (.start {} fun _ => none) hrun
  refine ⟨h, hr, hwhom, hfirst, (taken_back_iff hr {} 1 _).mpr fun site who h => .inl ?_⟩
  obtain ⟨rfl, rfl⟩ : false = site ∧ str "bo" = who := by simpa using hwhom.symm.trans h
  exact fun hboth => hsecond hboth.2

/-- Invited both ways and cancelled, and still invited when registered. -/
theorem cancelled_stays : ∃ h : Host, Reachable (fun _ _ _ => True) h ∧
    ¬ TakesBack.Clears h.w 1 (.cancel (str "bo")) ∧
    .send 1 (cancelledPkt (str "bo")) ∈ (sCancel 1 (str "bo") h.w).2.out ∧
    .send 1 (cancelledPkt (str "bo")) ∉ h.w.out ∧
    nlpresent (str "bo") ((sCancel 1 (str "bo") h.w).2.gTab (groupOf h.w 1)).nrInvites := by
  have hrun : Host.leads (fun _ _ _ => True) {} (fun h =>
      TakesBack.whom h.w 1 (.cancel (str "bo")) = some (false, str "bo") ∧
        onFirst false (str "bo") (h.w.gTab (groupOf h.w 1)).toGroupOpts ∧
        .send 1 (cancelledPkt (str "bo")) ∈ (sCancel 1 (str "bo") h.w).2.out ∧
        .send 1 (cancelledPkt (str "bo")) ∉ h.w.out ∧
        nlpresent (str "bo") ((sCancel 1 (str "bo") h.w).2.gTab (groupOf h.w 1)).nrInvites)
      { w := startup {} fun _ => none } (invites ["bo", "-r bo"]) := by
    decide +kernel
  obtain ⟨h, hr, hwhom, hfirst, hsent, hfresh, hleft⟩ := Reachable.leads (.start {} fun _ => none) hrun
  exact ⟨h, hr, fun hclears => (hclears false (str "bo") hwhom (.inl hfirst)).2 hleft, hsent, hfresh, hleft⟩

end

end Icbd.Server
