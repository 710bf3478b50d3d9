/-
# Icbd.Server.Guests — invitations do not outlive a restriction.

The control of a group is written by six options of `s_status`, by `s_pass`, and when a slot is cleared or
filled again. What leaves restricted control behind empties the four invite lists, what enters it finds them
empty, and nobody but the moderator of a restricted group puts a name on one.
-/
import Icbd.Server.Invitations

-- every bind doubles the size of the search's argument
set_option synthInstance.maxSize 1000000000000000000000000000000000000000000000000
set_option synthInstance.maxHeartbeats 200000

namespace Icbd.Server

open Icbd.Lib

section
variable [Env]

/-! ## §1 — what keeps the groups in order -/

/-- Only restricted groups have invitations. -/
abbrev OrderlyGroups : World → Prop := EachGroup GroupOpts.Orderly

section
variable {w : World} {n i j : Int} {arg text name : Bytes} {vis : Visibility} {f : Flags} {o : GroupOpts}

instance (i : Int) : GOrderlyAt (Keep OrderlyGroups) i where
  gorderly _ _ hf h := h.modG (hf.orderly _)

omit [Env] in
theorem nldelete_nil {nl : NamList} (h : nl.names = []) : (nldelete nl name).2.names = [] := by
  unfold nldelete
  rw [h]
  exact h

omit [Env] in
/-- Nothing is deleted from lists that are empty. -/
theorem GroupOpts.Orderly.cancelNick (h : o.Orderly) : (cancelNick name o).2.Orderly := by
  refine ⟨fun hopen => ?_, h.topic, h.nTalk, h.nrTalk⟩
  have hguests := h.guests hopen
  have hcancel : (Server.cancelNick name o).2.Guestless := by
    simp only [Server.cancelNick, deleteFrom_eq]
    split
    · exact ⟨nldelete_nil hguests.n, hguests.nr, hguests.s, hguests.sr⟩
    · exact ⟨nldelete_nil hguests.n, nldelete_nil hguests.nr, hguests.s, hguests.sr⟩
  exact hcancel

omit [Env] in
theorem GroupOpts.Orderly.cancelAddr (h : o.Orderly) : (cancelAddr name o).2.Orderly := by
  refine ⟨fun hopen => ?_, h.topic, h.nTalk, h.nrTalk⟩
  have hguests := h.guests hopen
  have hcancel : (Server.cancelAddr name o).2.Guestless := by
    simp only [Server.cancelAddr, deleteFrom_eq]
    split
    · exact ⟨hguests.n, hguests.nr, nldelete_nil hguests.s, hguests.sr⟩
    · exact ⟨hguests.n, hguests.nr, nldelete_nil hguests.s, nldelete_nil hguests.sr⟩
  exact hcancel

omit [Env] in
theorem putInvite_control (site reg : Bool) (who : Bytes) (o : GroupOpts) :
    (putInvite site reg who o).control = o.control := by
  cases site <;> cases reg <;> rfl

omit [Env] in
/-- In a restricted group anybody may be invited. -/
theorem GroupOpts.Orderly.putInvite (h : o.Orderly) (hcontrol : o.control = .restricted) (site reg : Bool)
    (who : Bytes) : (putInvite site reg who o).Orderly := by
  cases site <;> cases reg <;> exact ⟨fun hopen => absurd hcontrol hopen, h.topic, h.nTalk, h.nrTalk⟩

instance : Within (Keep OrderlyGroups) (setControl i) where
  within _ h := h.modGOpts fun hi => ⟨fun _ => ⟨rfl, rfl, rfl, rfl⟩, hi.topic, hi.nTalk, hi.nrTalk⟩

instance : Within (Keep OrderlyGroups) (setIdlebootMsg n i arg) := by
  have : Within (Keep OrderlyGroups) (modGOpts i fun o => { o with idlebootMsg := arg }) :=
    ⟨fun _ h => h.modGOpts fun hi => hi.congr rfl rfl rfl rfl rfl hi.topic hi.nTalk hi.nrTalk⟩
  unfold setIdlebootMsg
  infer_instance

instance : Within (Keep OrderlyGroups) (cancelBody n f) where
  within w h := by
    show wp (cancelBody n f) (fun _ => OrderlyGroups) w
    have hget : OrderlyGroups (getG (groupOf w n) w).2 := h
    refine wp_bind (wp_getW (wp_bind (wp_getG (wp_ite (fun _ => wp_bind ?_) fun _ => ?_))))
    · refine Within.within (R := Keep OrderlyGroups) _ (hget.modGOpts fun _ => ?_)
      split
      · exact (h _).cancelAddr
      · exact (h _).cancelNick
    · exact Within.within (R := Keep OrderlyGroups) _ hget

instance : Within (Keep OrderlyGroups) (inviteBody n f) where
  within w h := by
    show wp (inviteBody n f) (fun _ => OrderlyGroups) w
    have hget : OrderlyGroups (getG (groupOf w n) (getU n w).2).2 := h
    refine wp_bind (wp_getW (wp_bind (wp_getU (wp_bind (wp_getG (wp_ite (fun _ => ?_) fun _ => ?_))))))
    · exact Within.within (R := Keep OrderlyGroups) _ hget
    · refine wp_bind (wp_whenever (fun hmay => wp_bind ?_) fun _ => ?_)
      · -- a name is put on a list of a restricted group only
        refine Within.within (R := Keep OrderlyGroups) _ (Within.within (R := Keep OrderlyGroups) _
          (hget.modGOpts fun hi => hi.putInvite hmay.1 ..))
      · exact Within.within (R := Keep OrderlyGroups) _ hget

/-- `s_pass` opens a controlled group, which has no invitations. -/
instance : Within (Keep OrderlyGroups) (sPass n arg) where
  within w h := by
    show wp (sPass n arg) (fun _ => OrderlyGroups) w
    have hget : OrderlyGroups (getG (groupOf w n) (getU n w).2).2 := h
    have hrest {x : W Unit} [Within (Keep OrderlyGroups) x] :
        wp x (fun _ => OrderlyGroups) (getG (groupOf w n) (getU n w).2).2 :=
      Within.within (R := Keep OrderlyGroups) _ hget
    refine wp_bind (wp_getW (wp_bind (wp_getU (wp_bind (wp_getG (wp_ite (fun _ => hrest) fun _ =>
      wp_ite (fun _ => wp_after (wp_bind ?_)) fun _ => hrest))))))
    have hmod : OrderlyGroups (setMod (groupOf w n) (-1) (getG (groupOf w n) (getU n w).2).2).2 :=
      Within.within (R := Keep OrderlyGroups) _ hget
    refine Within.wp_both (Keep OrderlyGroups) Stilly fun _ w' hkeep hS => ?_
    refine wp_whenever (fun hcontrol => wp_after ?_) fun _ => hkeep hmod
    have hcontrol' : (w'.gTab (groupOf w n)).control = .controlled := by
      simpa [hS.groups, setMod, World.modG, getG, getU] using hcontrol
    refine Within.within (R := Keep OrderlyGroups) _ ((hkeep hmod).modGOpts fun hi => ?_)
    have hguests := hi.guests (by rw [hcontrol']; nofun)
    exact ⟨fun _ => ⟨hguests.n, hguests.nr, hguests.s, hguests.sr⟩, hi.topic, hi.nTalk, hi.nrTalk⟩

omit [Env] in
theorem modGOpts_opts (g : GroupOpts → GroupOpts) (w : World) :
    ((modGOpts i g w).2.gTab i).toGroupOpts = g (w.gTab i).toGroupOpts := by
  simp [modGOpts, World.modG]

/-- **`SET_RESTRICT`.** The group is restricted before the first member is invited. -/
instance : Within (Keep OrderlyGroups) (setRestrict i) where
  within w h := by
    let Restricted (w : World) : Prop := OrderlyGroups w ∧ (w.gTab i).control = .restricted
    show wp (setRestrict i) (fun _ => OrderlyGroups) w
    have hfirst : Restricted (modGOpts i (fun o => clearBars { o with control := .restricted }) w).2 :=
      ⟨h.modGOpts fun hi => ⟨fun hopen => absurd rfl hopen, hi.topic, hi.nTalk, hi.nrTalk⟩, by simp [modGOpts, World.modG, clearBars]⟩
    refine wp_after (wp_bind (wp_getG ?_))
    refine wp_mono (wp_each (I := Restricted) (fun b _ t ht => ?_) hfirst) fun _ _ ht => ht.1
    have hget : Restricted (getU b t).2 := ht
    refine wp_bind (wp_getU (wp_whenever (fun _ => wp_after ?_) fun _ => hget))
    refine Within.wp_both (Keep OrderlyGroups) Stilly fun _ w' hkeep hS => ?_
    refine ⟨hkeep (hget.1.modGOpts fun hi => hi.putInvite ht.2 ..), ?_⟩
    rw [hS.groups, modGOpts_opts]
    exact (putInvite_control ..).trans ht.2

omit [Env] in
/-- The lists of a new group are cleared, and its topic is one of two or that of the slot. -/
theorem createGroup_opts (n i : Int) (name : Bytes) (vis : Visibility) {w : World}
    (h : (w.gTab i).topic.length ≤ maxTopicLen) :
    let o := ((createGroup n i name vis w).2.gTab i).toGroupOpts
    o.Guestless ∧ o.topic.length ≤ maxTopicLen ∧ o.nTalk = (w.gTab i).nTalk ∧ o.nrTalk = (w.gTab i).nrTalk := by
  unfold createGroup
  by_cases hboot : strcaseEq bootGroup name
  · simp only [hboot, ↓reduceIte]
    refine ⟨by constructor <;> simp [modGOpts, World.modG, nlinit], by simp [modGOpts, World.modG]; decide, ?_⟩
    simp [setGroupName, modGOpts, World.modG]
  by_cases hidle : strcaseEq idleGroup name
  · simp only [hboot, hidle, ↓reduceIte]
    refine ⟨by constructor <;> simp [modGOpts, World.modG, nlinit], by simp [modGOpts, World.modG]; decide, ?_⟩
    simp [setGroupName, modGOpts, World.modG]
  by_cases hone : strcaseEq (str "1") name
  · simp only [hboot, hidle, hone, ↓reduceIte]
    refine ⟨by constructor <;> simp [modGOpts, World.modG, nlinit], ?_⟩
    simpa [setGroupName, modGOpts, World.modG] using h
  · simp only [hboot, hidle, hone]
    refine ⟨by constructor <;> simp [modGOpts, World.modG, nlinit], ?_⟩
    simpa [setGroupName, modGOpts, setMod, World.modG] using h

/-- **A new group** may take any control. -/
instance : Within (Keep OrderlyGroups) (createGroup n i name vis) where
  within w h j := by
    by_cases hj : j = i
    · subst hj
      obtain ⟨hguests, htopic, hn, hnr⟩ := createGroup_opts n j name vis (h j).topic
      exact ⟨fun _ => hguests, htopic, hn ▸ (h j).nTalk, hnr ▸ (h j).nrTalk⟩
    · rw [(createGroup_created n i name vis w).others j hj]
      exact h j

instance : Within (Keep OrderlyGroups) (bootUser n j arg text) where
  within w h := by
    show wp (bootUser n j arg text) (fun _ => OrderlyGroups) w
    have hget : OrderlyGroups (getG (groupOf w j) (getU j (getU n w).2).2).2 := h
    refine wp_bind (wp_getW (wp_bind (wp_getU (wp_bind (wp_getU (wp_bind (wp_getG ?_)))))))
    refine wp_ite (fun _ => wp_bind ?_) fun _ => ?_
    · exact Within.within (R := Keep OrderlyGroups) _ (hget.modGOpts fun _ => (h _).cancelNick)
    · exact Within.within (R := Keep OrderlyGroups) _ hget

/-- The turns of a loop over a talk list write back the list that was read. -/
theorem talkClear_orderly {m : Nat} {reg quiet : Bool} : Within (Keep OrderlyGroups) (talkClear n i reg quiet m) := by
  induction m with
  | zero =>
    unfold talkClear
    infer_instance
  | succ m ih =>
    refine ⟨fun w h => ?_⟩
    show wp (talkClear n i reg quiet (m + 1)) (fun _ => OrderlyGroups) w
    have hget : OrderlyGroups (getG i w).2 := h
    refine wp_bind (wp_getG (wp_after ?_))
    refine Within.within (R := Keep OrderlyGroups) _ (hget.modGOpts fun hi => ?_)
    cases reg
    · exact hi.congr rfl rfl rfl rfl rfl hi.topic (h i).nTalk.nlget.2.1 hi.nrTalk
    · exact hi.congr rfl rfl rfl rfl rfl hi.topic hi.nTalk (h i).nrTalk.nlget.2.1

theorem talkAdd_orderly (hwho : f.who ≠ []) : Within (Keep OrderlyGroups) (talkAdd n i f) := by
  have : Within (Keep OrderlyGroups) (modGOpts i fun o =>
      if f.r then { o with nrTalk := nlput o.nrTalk f.who } else { o with nTalk := nlput o.nTalk f.who }) := by
    refine ⟨fun _ h => h.modGOpts fun hi => ?_⟩
    cases f.r
    · exact hi.congr rfl rfl rfl rfl rfl hi.topic (hi.nTalk.nlput hwho) hi.nrTalk
    · exact hi.congr rfl rfl rfl rfl rfl hi.topic hi.nTalk (hi.nrTalk.nlput hwho)
  unfold talkAdd
  infer_instance

instance : Within (Keep OrderlyGroups) (talkBody n f) := by
  have (i : Int) (reg quiet : Bool) (m : Nat) : Within (Keep OrderlyGroups) (talkClear n i reg quiet m) :=
    talkClear_orderly
  by_cases hwho : f.who = []
  · unfold talkBody
    simp only [if_pos hwho]
    infer_instance
  · have (i : Int) : Within (Keep OrderlyGroups) (talkAdd n i f) := talkAdd_orderly hwho
    unfold talkBody
    infer_instance

instance : Within (Keep OrderlyGroups)
    (fillGroupEntry 0 (str "ICB") (str "...here to serve you!") .supersecret .restricted nickserv .quiet) where
  within w h := by
    have hnamed : OrderlyGroups (setMod 0 nickserv (setGroupName 0 (str "ICB") w).2).2 :=
      Within.within (R := Keep OrderlyGroups) (x := setMod 0 nickserv) _
        (Within.within (R := Keep OrderlyGroups) (x := setGroupName 0 (str "ICB")) _ h)
    exact hnamed.modGOpts
      (g := fun o => { o with topic := str "...here to serve you!", visibility := .supersecret, control := .restricted, volume := .quiet })
      fun hi => ⟨fun hopen => absurd rfl hopen, show (str "...here to serve you!").length ≤ maxTopicLen by decide, hi.nTalk,
        hi.nrTalk⟩

end

/-- In every state reached the groups are in order. -/
theorem reachable_orderly {P : Host → Sys → Event → Prop} {h : Host} (hr : Reachable P h) : OrderlyGroups h.w := by
  refine hr.keep (fun _ => inferInstance) (fun _ _ => id) fun sys db => ?_
  refine startup_rel (R := Keep OrderlyGroups) sys db fun _ => ?_
  exact ⟨fun _ => ⟨rfl, rfl, rfl, rfl⟩, Nat.zero_le _, .nil, .nil⟩

/-! ## §2 — who is invited when a group is restricted again -/

/-- The nicknames of the members of group `i`. -/
def memberNames (w : World) (i : Int) : List Bytes :=
  ((slots Env.maxUsers).filter fun j => strcaseEq (w.uTab j).group (w.gTab i).name).map fun j => (w.uTab j).nickname

/-- Nobody is invited but by one of these nicknames. -/
structure GroupOpts.InvitesOnly (names : List Bytes) (o : GroupOpts) : Prop where
  n : ∀ name ∈ o.nInvites.names, name ∈ names
  nr : ∀ name ∈ o.nrInvites.names, name ∈ names
  s : o.sInvites.names = []
  sr : o.srInvites.names = []

section
variable {w : World} {i : Int} {o : GroupOpts} {names : List Bytes}

omit [Env] in
theorem GroupOpts.InvitesOnly.putInvite (h : o.InvitesOnly names) {who : Bytes} (hwho : who ∈ names) (reg : Bool) :
    (putInvite false reg who o).InvitesOnly names := by
  have hput {nl : NamList} (hnl : ∀ name ∈ nl.names, name ∈ names) : ∀ name ∈ (nlput nl who).names, name ∈ names :=
    fun name hname => (mem_of_mem_nlput hname).elim (fun heq => heq ▸ hwho) (hnl name)
  cases reg
  · exact ⟨hput h.n, h.nr, h.s, h.sr⟩
  · exact ⟨h.n, hput h.nr, h.s, h.sr⟩

omit [Env] in
theorem GroupOpts.Guestless.invitesOnly (h : o.Guestless) :
    (clearBars { o with control := .restricted }).InvitesOnly names :=
  ⟨fun _ hname => absurd (h.n ▸ hname) List.not_mem_nil,
    fun _ hname => absurd (h.nr ▸ hname) List.not_mem_nil, h.s, h.sr⟩

/-- The members are invited one after the other, and nobody else is. -/
theorem setRestrict_members (h : (w.gTab i).Guestless) :
    ((setRestrict i w).2.gTab i).InvitesOnly (memberNames w i) := by
  show wp (setRestrict i) (fun _ w' => (w'.gTab i).InvitesOnly (memberNames w i)) w
  let Turn (t : World) : Prop := (t.gTab i).InvitesOnly (memberNames w i) ∧ ∀ j, (t.uTab j).toUserId = (w.uTab j).toUserId
  refine wp_after (wp_bind (wp_getG ?_))
  refine wp_mono (wp_each (I := Turn) (fun b hb t ht => ?_) ⟨?_, fun _ => rfl⟩) fun _ _ ht => ht.1
  · have hget : Turn (getU b t).2 := ht
    refine wp_bind (wp_getU (wp_whenever (fun hmember => wp_after ?_) fun _ => hget))
    refine Within.wp Stilly fun _ w' hS => ?_
    refine ⟨?_, fun j => (hS.users j).trans (ht.2 j)⟩
    rw [hS.groups, modGOpts_opts]
    refine ht.1.putInvite ?_ _
    have hid := ht.2 b
    refine List.mem_map.mpr ⟨b, List.mem_filter.mpr ⟨hb, ?_⟩, (congrArg UserId.nickname hid).symm⟩
    rw [← congrArg UserId.group hid]
    simpa [modGOpts, World.modG] using hmember
  · show ((modGOpts i (fun o => clearBars { o with control := .restricted }) w).2.gTab i).InvitesOnly _
    rw [modGOpts_opts]
    exact h.invitesOnly

end

/-! ## §3 — in every run -/

/-- **Invitations end with the restriction**, in every state reached. A group that is restricted again has its
members for guests and nobody else, and a slot that is filled again has none. -/
theorem invitations_end {P : Host → Sys → Event → Prop} {h : Host} (hr : Reachable P h) (i : Int) :
    ((h.w.gTab i).control ≠ .restricted →
      (h.w.gTab i).Guestless ∧ ((setRestrict i h.w).2.gTab i).InvitesOnly (memberNames h.w i)) ∧
    ∀ n name vis, ((createGroup n i name vis h.w).2.gTab i).Guestless := by
  have horderly := reachable_orderly hr i
  exact ⟨fun hopen => ⟨horderly.guests hopen, setRestrict_members (horderly.guests hopen)⟩,
    fun n name vis => (createGroup_opts n i name vis horderly.topic).1⟩

end

section
attribute [local instance] smallEnv

/-- A group is restricted, somebody is invited, and the group is opened again. -/
def opensUp : List Event :=
  [.connect 1 false none, .packet 1 (loginPkt "one" "al" "x" ""), .packet 1 (cmdPkt "status" "r"),
   .packet 1 (cmdPkt "invite" "bo"), .packet 1 (cmdPkt "status" "m")]

/-- The group after it. -/
def Opened (h : Host) : Prop := (h.w.gTab 1).name = str "x" ∧ (h.w.gTab 1).control = .moderated

instance : DecidablePred Opened := fun _ => inferInstanceAs (Decidable (_ ∧ _))

theorem invitations_end_al : ∃ h : Host, Opened h ∧ (h.w.gTab 1).Guestless ∧
    ((setRestrict 1 h.w).2.gTab 1).InvitesOnly (memberNames h.w 1) := by
  have hrun : Host.leads (fun _ _ _ => True) {} Opened { w := startup {} fun _ => none } opensUp := by
    decide +kernel
  obtain ⟨h, hr, hopened⟩ := Reachable.leads (.start {} fun _ => none) hrun
  exact ⟨h, hopened, (invitations_end hr 1).1 (by rw [hopened.2]; nofun)⟩

end

end Icbd.Server
