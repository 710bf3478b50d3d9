/-
# Icbd.Server.Heard — who hears what is said.

An open message goes to the members of the sender's group one after the other, and so does the message of
`/exclude`, one member left out. `heard_run` says of a whole run just which open packets were sent, to whom and
in which order: each open message and each `/exclude` reaches every member who hears the sender once, and nothing
else the server does, whatever commands are nested in it, makes anybody hear anything.
-/
import Icbd.Server.Final

-- every bind doubles the size of the search's argument
set_option synthInstance.maxSize 1000000000000000000000000000000000000000000000000
set_option synthInstance.maxHeartbeats 200000

namespace Icbd.Server

open Icbd.Lib

/-! ## §1 — open packets -/

/-- An open packet. -/
def Out.isOpen : Out → Bool
  | .send _ c => c.head? = some pktOpen
  | .disconnect _ => false

/-- The open packets so far, in the order they were sent. -/
def World.opens (w : World) : List Out := (w.out.filter Out.isOpen).reverse

/-- No open packet is sent. -/
def Mute (w w' : World) : Prop := w'.opens = w.opens

section
variable [Env] {w w' : World} {n i : Int}

omit [Env] in
theorem World.opens_cons (w : World) (o : Out) :
    { w with out := o :: w.out }.opens = w.opens ++ if o.isOpen then [o] else [] := by
  cases ho : o.isOpen <;> simp [World.opens, ho]

instance : Base Mute where
  refl _ := rfl
  trans _ _ _ h₁ h₂ := h₂.trans h₁
  misc _ _ := rfl

instance : Drops Mute := ⟨fun _ _ => rfl⟩

instance : PlainTo Mute n where
  sends w c hc := by
    have hplain : (Out.send n c).isOpen = false := decide_eq_false hc.unspoken
    rw [Mute, World.opens_cons, hplain, if_neg Bool.false_ne_true, List.append_nil]

instance : UOpts Mute n := ⟨fun _ _ => rfl⟩
instance : GOpts Mute := ⟨fun _ _ _ => rfl⟩
instance : GNameTo Mute := ⟨fun _ _ _ => rfl⟩
instance : MissTo Mute := ⟨fun _ _ _ _ => rfl⟩
instance {key : String} : DbTo Mute key := ⟨fun _ _ _ => rfl⟩
instance {v : Bytes} : NickTo Mute n v := ⟨fun _ => rfl⟩
instance {v : Bytes} : RealTo Mute n v := ⟨fun _ => rfl⟩
instance : IdentTo Mute n := ⟨fun _ _ _ _ => rfl⟩
instance : UGroupTo Mute n := ⟨fun _ _ => rfl⟩
instance {lg : Login} : LoginTo Mute n lg := ⟨fun _ => rfl⟩
instance : ModTo Mute n := ⟨fun _ _ => rfl⟩

instance : Soft Mute where
  toPlain _ := inferInstance
  toUNeat _ := inferInstance

/-! ## §2 — the members of a group -/

/-- The connections an open message of `n` is sent to. -/
def audience (w : World) (n : Int) : List Int :=
  (slots maxRealUsers).filter fun i => hears w n i && w.sKill i ≤ 0

/-- The packets that say `text` to them. -/
def said (w : World) (n : Int) (text : Bytes) (is : List Int) : List Out :=
  is.map fun i => .send i (packet pktOpen (nickText (w.uTab n).nickname text))

/-- Those who hear what `/exclude` says. -/
def others (w : World) (n : Int) (who : Bytes) : List Int :=
  (audience w n).filter fun i => ¬ strcaseEq (w.uTab i).nickname who

/-- May `n` send open messages to his group, and is there anybody else in it? -/
def mayOpen (w : World) (n : Int) : Prop :=
  let g := w.gTab (groupOf w n)
  g.volume ≠ .quiet ∧ maySpeak n (w.uTab n) g ∧ 2 ≤ countUsersInGroup w g.name

instance : Decidable (mayOpen w n) := inferInstanceAs (Decidable (_ ∧ _ ∧ _))

/-- What `/exclude` asks for. -/
def mayExclude (w : World) (n : Int) (arg : Bytes) : Prop :=
  getTail arg ≠ [] ∧ ¬ (groupOf w n ≠ -1 ∧ (w.gTab (groupOf w n)).volume = .quiet)

instance {arg : Bytes} : Decidable (mayExclude w n arg) := inferInstanceAs (Decidable (_ ∧ _))

instance : Within Prelude (getG i) := ⟨fun _ => ⟨fun _ => rfl, rfl, rfl, rfl, rfl⟩⟩

instance {msg : Bytes} : Within Prelude (senderror n msg) := by
  unfold senderror
  infer_instance

instance {msg : Bytes} : Within Prelude (sendopen n i msg) := by
  unfold sendopen
  infer_instance

omit [Env] in
theorem Prelude.hears (h : Prelude w w') (n i : Int) : hears w' n i = hears w n i := by
  have hid (j : Int) := h.stilly.users j
  have hsite : (w'.uTab i).pubSHushed = (w.uTab i).pubSHushed := h.user i (·.pubSHushed) fun _ _ => rfl
  have hnick : (w'.uTab i).pubNHushed = (w.uTab i).pubNHushed := h.user i (·.pubNHushed) fun _ _ => rfl
  have hecho : (w'.uTab n).echoback = (w.uTab n).echoback := h.user n (·.echoback) fun _ _ => rfl
  simp only [Server.hears, address, hsite, hnick, hecho, congrArg UserId.nickname (hid _),
    congrArg UserId.loginid (hid _), congrArg UserId.nodeid (hid _), congrArg UserId.group (hid _),
    congrArg UserId.login (hid _)]

theorem Prelude.audience (h : Prelude w w') (n : Int) : audience w' n = audience w n := by
  simp only [Server.audience, h.hears, h.kill]

omit [Env] in
theorem Prelude.said (h : Prelude w w') (n : Int) (text : Bytes) (is : List Int) :
    said w' n text is = said w n text is := by
  rw [Server.said, congrArg UserId.nickname (h.stilly.users n)]
  rfl

omit [Env] in
theorem Prelude.maySpeak (h : Prelude w w') (n : Int) (g : Group) :
    maySpeak n (w'.uTab n) g = maySpeak n (w.uTab n) g := by
  have hid := h.stilly.users n
  simp only [Server.maySpeak, congrArg UserId.nickname hid, congrArg UserId.realname hid]

theorem Prelude.countUsersInGroup (h : Prelude w w') (group : Bytes) :
    countUsersInGroup w' group = countUsersInGroup w group := by
  simp only [Server.countUsersInGroup, congrArg UserId.group (h.stilly.users _)]

theorem Prelude.mayOpen (h : Prelude w w') (n : Int) : mayOpen w' n ↔ mayOpen w n := by
  simp only [Server.mayOpen, h.stilly.calmly.groupOf, h.groups, h.maySpeak, h.countUsersInGroup]

omit [Env] in
theorem Prelude.mayExclude (h : Prelude w w') (n : Int) (arg : Bytes) : mayExclude w' n arg ↔ mayExclude w n arg := by
  simp only [Server.mayExclude, h.stilly.calmly.groupOf, h.groups]

theorem Prelude.others (h : Prelude w w') (n : Int) (who : Bytes) : others w' n who = others w n who := by
  simp only [Server.others, h.audience, congrArg UserId.nickname (h.stilly.users _)]

/-- One member is told, unless he is on his way out. -/
theorem sendopen_opens (hi : i ∈ slots maxRealUsers) (w : World) (n : Int) (text : Bytes) :
    (sendopen n i text w).2.opens = w.opens ++ if w.sKill i ≤ 0 then said w n text [i] else [] := by
  obtain ⟨h0, hreal⟩ := mem_slots.mp hi
  have hget : (getU n w).2.opens = w.opens := rfl
  show wp (sendopen n i text) (fun _ t => t.opens = _) w
  refine wp_bind (wp_getU (wp_bind (wp_getW (wp_whenever (fun h => ?_) fun h => ?_))))
  · have hopen : (Out.send i (packet pktOpen (nickText (w.uTab n).nickname text))).isOpen = true := rfl
    have hkill : w.sKill i ≤ 0 := h.2.2
    rw [if_pos hkill]
    refine (World.opens_cons _ _).trans ?_
    rw [hopen, if_pos rfl, hget]
    rfl
  · have hkill : ¬ w.sKill i ≤ 0 := fun hk => h ⟨h0, hreal, hk⟩
    rw [if_neg hkill, List.append_nil, hget]

omit [Env] in
theorem flatMap_ite {α β : Type} (xs : List α) (p : α → Bool) (f : α → β) :
    (xs.flatMap fun a => if p a then [f a] else []) = (xs.filter p).map f := by
  induction xs with
  | nil => rfl
  | cons a xs ih =>
    rw [List.flatMap_cons, List.filter_cons, ih]
    cases p a <;> rfl

/-- **A loop over the members** tells each that meets the condition once, in the order of their slots. -/
theorem each_opens {w s : World} (hs : Prelude w s) (n : Int) (text : Bytes) (c : Int → Prop) [DecidablePred c]
    {x : Int → W Unit} (hx : ∀ i ∈ slots maxRealUsers, ∀ t, Prelude w t → wp (x i) (fun _ t' => Prelude t t' ∧
      t'.opens = t.opens ++ if w.sKill i ≤ 0 then said w n text [i] else []) t) :
    Prelude w (each (slots maxRealUsers) (fun i => whenever (c i) (x i)) s).2 ∧
      (each (slots maxRealUsers) (fun i => whenever (c i) (x i)) s).2.opens =
        s.opens ++ said w n text ((slots maxRealUsers).filter fun i => c i && w.sKill i ≤ 0) := by
  have hlist : said w n text ((slots maxRealUsers).filter fun i => c i && w.sKill i ≤ 0) =
      (slots maxRealUsers).flatMap fun i => if c i && w.sKill i ≤ 0 then said w n text [i] else [] :=
    (flatMap_ite _ _ _).symm
  rw [hlist]
  show wp _ (fun _ t => Prelude w t ∧ World.opens t = World.opens s ++ _) s
  refine wp_each_append (fun i hi t ht => ?_) hs
  refine wp_whenever (fun hc => ?_) fun hc => ⟨ht, ?_⟩
  · obtain ⟨hP, hopens⟩ := hx i hi t ht
    refine ⟨trans_of Prelude ht hP, ?_⟩
    simpa only [hc, decide_true, Bool.true_and, decide_eq_true_eq] using hopens
  · simp only [hc, decide_false, Bool.false_and, Bool.false_eq_true, if_false, List.append_nil]

/-- `s_send_group`. -/
theorem sSendGroup_opens {w s : World} (hs : Prelude w s) (n : Int) (text : Bytes) :
    Prelude w (sSendGroup n text s).2 ∧
      (sSendGroup n text s).2.opens = s.opens ++ said w n text (audience w n) := by
  have haudience : ((slots maxRealUsers).filter fun i => decide (hears s n i = true) && w.sKill i ≤ 0) =
      audience w n := by
    simp only [audience, hs.hears, Bool.decide_eq_true]
  rw [← haudience]
  refine each_opens hs n text (fun i => hears s n i = true) (x := fun i => sendopen n i text) fun i hi t ht => ?_
  have hsent : (sendopen n i text t).2.opens = t.opens ++ if w.sKill i ≤ 0 then said w n text [i] else [] := by
    rw [sendopen_opens hi, ht.said, ht.kill]
  exact ⟨Within.within t, hsent⟩

/-- `s_exclude`. -/
theorem sExclude_opens (w : World) (n : Int) (arg : Bytes) : (sExclude n arg w).2.opens = w.opens ++
    if mayExclude w n arg then said w n (getTail arg) (others w n (getword arg)) else [] := by
  have hmute {x : W Unit} [Within Mute x] (hno : ¬ mayExclude w n arg) :
      wp x (fun _ t => t.opens = w.opens ++
        if mayExclude w n arg then said w n (getTail arg) (others w n (getword arg)) else []) (getU n w).2 := by
    rw [if_neg hno, List.append_nil]
    exact Within.within (R := Mute) (getU n w).2
  show wp (sExclude n arg) (fun _ t => t.opens = _) w
  refine wp_bind (wp_getW (wp_bind (wp_getU ?_)))
  refine wp_ite (fun hempty => hmute fun h => h.1 hempty) fun hempty => ?_
  refine wp_ite (fun hquiet => hmute fun h => h.2 hquiet) fun hquiet => ?_
  have hothers : others w n (getword arg) = (slots maxRealUsers).filter fun i =>
      (decide (hears w n i ∧ ¬ strcaseEq (w.uTab i).nickname (getword arg))) && w.sKill i ≤ 0 := by
    rw [others, audience, List.filter_filter]
    refine congrArg (List.filter · _) (funext fun i => ?_)
    cases hears w n i <;> cases strcaseEq (w.uTab i).nickname (getword arg) <;> simp
  have hmay : mayExclude w n arg := ⟨hempty, hquiet⟩
  have hget : Prelude w (getU n w).2 := Within.within w
  rw [if_pos hmay, hothers]
  refine (each_opens hget n (getTail arg)
    (fun i => hears w n i = true ∧ ¬ strcaseEq (w.uTab i).nickname (getword arg) = true) fun i hi t ht => ?_).2
  refine wp_bind (Within.wp_both Mute Prelude fun _ t₁ hmute₁ hP₁ => ?_)
  have hP : Prelude w t₁ := trans_of Prelude ht hP₁
  have hsent : (sendopen n i (getTail arg) t₁).2.opens =
      t.opens ++ if w.sKill i ≤ 0 then said w n (getTail arg) [i] else [] := by
    rw [sendopen_opens hi, hP.said, hP.kill, hmute₁]
  exact ⟨trans_of Prelude hP₁ (Within.within t₁), hsent⟩

/-- An open message with one field. -/
theorem openBody_opens (w : World) (n : Int) (text : Bytes) : Prelude w (openBody n text w).2 ∧
    (openBody n text w).2.opens = w.opens ++ if mayOpen w n then said w n text (audience w n) else [] := by
  show wp (openBody n text) (fun _ t => Prelude w t ∧ t.opens = _) w
  refine wp_bind (wp_getW (wp_bind (wp_getU (wp_bind (wp_getG ?_)))))
  have hP : Prelude w (getG (groupOf w n) (getU n w).2).2 :=
    trans_of Prelude (Within.within (x := getU n) w) (Within.within _)
  have hmute {x : W Unit} [Within Mute x] [Within Prelude x] (hno : ¬ mayOpen w n) :
      wp x (fun _ t => Prelude w t ∧ t.opens = w.opens ++
        if mayOpen w n then said w n text (audience w n) else []) (getG (groupOf w n) (getU n w).2).2 := by
    rw [if_neg hno, List.append_nil]
    exact ⟨trans_of Prelude hP (Within.within _), Within.within (R := Mute) (getG (groupOf w n) (getU n w).2).2⟩
  refine wp_ite (fun hquiet => hmute fun h => h.1 hquiet) fun hquiet => ?_
  refine wp_ite (fun hvoice => hmute fun h => hvoice h.2.1) fun hvoice => ?_
  refine wp_ite (fun hfew => hmute fun h => Nat.not_le_of_lt hfew h.2.2) fun hfew => ?_
  have hmay : mayOpen w n := ⟨hquiet, not_not.mp hvoice, Nat.le_of_not_lt hfew⟩
  rw [if_pos hmay]
  exact sSendGroup_opens hP n text

/-! ## §3 — one packet -/

/-- What a command `c.1` with the argument `c.2` makes people hear. -/
def aside (w : World) (n : Int) (c : Bytes × Bytes) : List Out :=
  if commandOf c.1 = .exclude ∧ splitCount c.1 = 2 ∧ mayExclude w n c.2 then
    said w n (getTail c.2) (others w n (getword c.2))
  else []

/-- What a packet of `n` makes people hear. `d` is the server that gets it, and `w` its tables when it is done:
a spammer who is booted talks to the group he is booted to. -/
def speech (d : Daemon) (w : World) (n : Int) (contents : Bytes) : List Out :=
  let pkt := cstr contents
  if (d.w.uTab n).login ≠ .complete then []
  else if pkt.head? = some pktOpen then
    if splitCount pkt.tail = 1 ∧ mayOpen w n then said w n ((splitFields pkt.tail).getD 0 []) (audience w n)
    else []
  else if pkt.head? = some pktCommand then
    ((finalCommand d.w n pkt.length (d.fields 1) pkt.tail).map (aside d.w n)).getD []
  else []

/-- An open message. -/
theorem openmsg_opens {d : Daemon} {n : Int} (hlogin : (d.w.uTab n).login = .complete) (text : Bytes) :
    (openmsg n text d).2.w.opens = d.w.opens ++
      if splitCount text = 1 ∧ mayOpen (openmsg n text d).2.w n then
        said (openmsg n text d).2.w n ((splitFields text).getD 0 []) (audience (openmsg n text d).2.w n)
      else [] := by
  show wp (openmsg n text) (fun _ t => t.w.opens = d.w.opens ++
    if splitCount text = 1 ∧ mayOpen t.w n then said t.w n ((splitFields text).getD 0 []) (audience t.w n)
    else []) d
  have hbody {t : Daemon} (ht : t.w.opens = d.w.opens) : wp (do
      onWorld (stamp n)
      let k ← split text
      whenever (k = 1) do
        let body ← getField 0
        onWorld (openBody n body)) (fun _ t => t.w.opens = d.w.opens ++
      if splitCount text = 1 ∧ mayOpen t.w n then said t.w n ((splitFields text).getD 0 []) (audience t.w n)
      else []) t := by
    refine wp_bind (wp_onWorld (Within.wp Mute fun _ w₁ hw₁ => wp_bind (wp_split ?_)))
    have hw₁ : w₁.opens = d.w.opens := hw₁.trans ht
    refine wp_whenever (fun hone => wp_bind (wp_getField (wp_onWorld ?_))) fun hmany => ?_
    · obtain ⟨hP, hopens⟩ := openBody_opens w₁ n ((splitFields text).getD 0 [])
      rw [split_fields (length_splitFields_pos text)]
      show (openBody n _ w₁).2.opens = _
      simp only [split_w, hopens, hw₁, hone, true_and, hP.mayOpen, hP.said, hP.audience]
    · rw [if_neg fun h => hmany h.1, List.append_nil]
      exact hw₁
  refine wp_bind (wp_onWorld (wp_getU (wp_whenever (fun _ => ?_) fun hno => absurd hlogin hno)))
  refine wp_bind (wp_onWorld (Within.wp Mute fun _ w₁ hw₁ => ?_))
  refine wp_bind (wp_onWorld (Within.wp Mute fun spam w₂ hw₂ => wp_bind (wp_whenever (fun _ => ?_) fun _ => ?_)))
  · -- the boot changes groups, and makes nobody hear anything
    refine wp_bind (wp_onWorld (Within.wp Mute fun _ w₃ hw₃ => wp_bind ?_))
    refine Within.wp (OnWorld Mute) fun _ t₄ ht₄ => wp_onWorld (Within.wp Mute fun _ w₅ hw₅ => ?_)
    exact hbody (hw₅.trans (ht₄.trans (hw₃.trans (hw₂.trans hw₁))))
  · exact hbody (hw₂.trans hw₁)

/-- A command other than `/exclude`. -/
theorem runCommand_mute {cd : Command} (hcd : cd ≠ .exclude) (n : Int) (argc : Nat) :
    Within (OnWorld Mute) (runCommand noCmd n argc cd) := by
  cases cd <;> first
    | (exact absurd rfl hcd)
    | (unfold runCommand; infer_instance)

/-- A command packet, with the messages to the automatic user it may consist of. -/
theorem cmdmsg_speech {d : Daemon} {n : Int} (hn : n ∈ slots maxRealUsers) (hlogin : (d.w.uTab n).login = .complete)
    (depth : Nat) (text : Bytes) :
    (cmdmsg depth n text d).2.w.opens =
      d.w.opens ++ ((finalCommand d.w n depth (d.fields 1) text).map (aside d.w n)).getD [] := by
  obtain ⟨h0, hreal⟩ := mem_slots.mp hn
  have hin : inUsers n = true := by
    have := lt_nickserv hreal
    simp only [inUsers, decide_eq_true_eq]
    exact ⟨h0, by unfold nickserv at this; omega⟩
  have hread (depth : Nat) (t : Daemon) : Mute t.w (nickreadmsg (cmdmsg depth) n t).2.w := by
    rw [nickreadmsg, readOne_real _ hreal]
    exact Within.within (R := OnWorld Mute) (x := nickreadmsg noCmd n) t
  have hmute (hno : ∀ c ∈ finalCommand d.w n depth (d.fields 1) text, commandOf c.1 ≠ .exclude) :
      Mute d.w (cmdmsg depth n text d).2.w := by
    refine cmdmsg_final (R := Mute) hin (fun _ _ _ depth t _ => hread depth t) fun c hc _ t _ _ _ => ?_
    exact (runCommand_mute (hno c hc) n _).within t
  cases hc : finalCommand d.w n depth (d.fields 1) text with
  | none =>
    rw [hc] at hmute
    exact (hmute (by rintro c ⟨⟩)).trans (List.append_nil _).symm
  | some c =>
    rw [Option.map_some, Option.getD_some]
    by_cases hex : commandOf c.1 = .exclude
    · show wp (cmdmsg depth n text) (fun _ t => t.w.opens = _) d
      refine cmdmsg_final_post (R := Mute) hlogin hc (fun _ _ hm ht => hm.trans ht) fun depth t hP hm hruns => ?_
      rw [hex]
      refine wp_whenever (fun htwo => wp_bind (wp_getField (wp_onWorld ?_))) fun hno => ?_
      · have harg : t.fields 1 = c.2 := hruns.arg
        have hsent := sExclude_opens t.w n c.2
        have hm : t.w.opens = d.w.opens := hm
        rw [harg]
        show (sExclude n c.2 t.w).2.opens = _
        simp only [aside, hsent, hm, hex, htwo, true_and, hP.mayExclude, hP.said, hP.others]
      · rw [aside, if_neg fun h => hno h.2.1, List.append_nil]
        exact hm
    · rw [hc] at hmute
      rw [aside, if_neg fun h => hex h.1, List.append_nil]
      exact hmute (by rintro c ⟨⟩; exact hex)

/-- **One packet** of a client. -/
theorem dispatch_opens {n : Int} (hn : n ∈ slots maxRealUsers) (contents : Bytes) (d : Daemon) :
    (dispatch n contents d).2.w.opens = d.w.opens ++ speech d (dispatch n contents d).2.w n contents := by
  show wp (dispatch n contents) (fun _ t => t.w.opens = d.w.opens ++ speech d t.w n contents) d
  have hmute {x : M Unit} [Within (OnWorld Mute) x] (hno : ∀ w, speech d w n contents = []) :
      wp x (fun _ t => t.w.opens = d.w.opens ++ speech d t.w n contents) d := by
    refine Within.wp (OnWorld Mute) fun _ t ht => ?_
    rw [hno, List.append_nil]
    exact ht
  have hidle (hc : (d.w.uTab n).login ≠ .complete) (w : World) : speech d w n contents = [] := if_pos hc
  have hlogin : Within (OnWorld Mute) (loginCase n (cstr contents).tail) := by
    unfold loginCase loginmsg
    infer_instance
  refine wp_ite (fun htype => ?_) fun _ => wp_ite (fun htype => ?_) fun hopen => wp_ite (fun htype => ?_) fun hcmd => ?_
  · apply hmute
    intro w
    simp only [speech, htype]
    split_ifs <;> first | rfl | contradiction
  · by_cases hc : (d.w.uTab n).login = .complete
    · have hspeech (w : World) : speech d w n contents =
          if splitCount (cstr contents).tail = 1 ∧ mayOpen w n then
            said w n ((splitFields (cstr contents).tail).getD 0 []) (audience w n)
          else [] := by
        rw [speech, if_neg (not_not.mpr hc), if_pos htype]
      show (openmsg n (cstr contents).tail d).2.w.opens = _
      rw [hspeech]
      exact openmsg_opens hc _
    · show (openmsg n (cstr contents).tail d).2.w.opens = _
      rw [hidle hc, List.append_nil]
      exact openmsg_idle (R := Mute) hc _
  · by_cases hc : (d.w.uTab n).login = .complete
    · have hspeech (w : World) : speech d w n contents = ((finalCommand d.w n (cstr contents).length (d.fields 1)
          (cstr contents).tail).map (aside d.w n)).getD [] := by
        rw [speech, if_neg (not_not.mpr hc), if_neg hopen, if_pos htype]
      show (cmdmsg _ n (cstr contents).tail d).2.w.opens = _
      rw [hspeech]
      exact cmdmsg_speech hn hc _ _
    · show (cmdmsg _ n (cstr contents).tail d).2.w.opens = _
      rw [hidle hc, List.append_nil]
      exact cmdmsg_idle (R := Mute) hc _ _
  · apply hmute
    intro w
    rw [speech, if_neg hopen, if_neg hcmd, ite_self]

/-! ## §4 — whole runs -/

/-- What an event makes people hear. -/
def Event.heard (d : Daemon) (w : World) : Event → List Out
  | .packet n contents => speech d w n contents
  | _ => []

/-- The event is not a packet on the slot of the automatic user. -/
def Event.ofClient : Event → Prop
  | .packet n _ => n ∈ slots maxRealUsers
  | _ => True

/-- A run, each event with the system as it was then. -/
def Host.goes (h : Host) (es : List (Sys × Event)) : Host := es.foldl (fun h e => h.after e.1 e.2) h

/-- What people hear in the course of a run. -/
def Host.heard (h : Host) : List (Sys × Event) → List Out
  | [] => []
  | (sys, e) :: es => e.heard (h.toDaemon.at sys) (h.after sys e).w ++ (h.after sys e).heard es

/-- One event. -/
theorem Host.opens_after {e : Event} (he : e.ofClient) (h : Host) (sys : Sys) :
    (h.after sys e).w.opens = h.w.opens ++ e.heard (h.toDaemon.at sys) (h.after sys e).w := by
  have hmute [Within (OnWorld Mute) e.prog] (hno : e.heard (h.toDaemon.at sys) (h.after sys e).w = []) :
      (h.after sys e).w.opens = h.w.opens ++ e.heard (h.toDaemon.at sys) (h.after sys e).w := by
    rw [hno, List.append_nil]
    exact Within.within (R := OnWorld Mute) (x := e.prog) (h.toDaemon.at sys)
  cases e with
  | packet n contents => exact dispatch_opens he contents (h.toDaemon.at sys)
  | connect n secure remote =>
    have : Within (OnWorld Mute) (Event.prog (.connect n secure remote)) := by
      unfold Event.prog
      infer_instance
    exact hmute rfl
  | lost n =>
    have : Within (OnWorld Mute) (Event.prog (.lost n)) := by
      unfold Event.prog
      infer_instance
    exact hmute rfl
  | didpoll =>
    have : Within (OnWorld Mute) (Event.prog .didpoll) := by
      unfold Event.prog
      infer_instance
    exact hmute rfl

end

section
attribute [local instance] smallEnv

/-- `al`, `bo` and `cy` are in group `x`. `al` says hello, and something `bo` is not to hear, through the automatic
user. -/
def hellos : List (Sys × Event) :=
  [({}, .connect 1 false none), ({}, .packet 1 (loginPkt "one" "al" "x" "")), ({}, .connect 2 false none),
   ({}, .packet 2 (loginPkt "two" "bo" "x" "")), ({}, .connect 0 false none),
   ({}, .packet 0 (loginPkt "zero" "cy" "x" "")), ({}, .packet 1 (pktOpen :: str "hello")),
   ({}, .packet 1 (cmdPkt "m" "server exclude bo psst"))]

end

end Icbd.Server
