/-
# Icbd.Server.Leftover — what earlier packets leave in `fields[]`.

`split` fills as many entries of `fields[]` as the packet has. A handler that reads an entry without
asking for that many fields finds the text of some earlier packet. The fifth field of a login, and the
first argument of a handful of commands, are read like this.
-/
import Icbd.Server.Nested

-- every bind doubles the size of the search's argument
set_option synthInstance.maxSize 1000000000000000000000000000000000000000000000000
set_option synthInstance.maxHeartbeats 200000

namespace Icbd.Server

open Icbd.Lib

section
variable [Env]

/-! ## §1 — two runs -/

/-- The same world, and the same first `k` fields. -/
def SameFields (k : Nat) (d d' : Daemon) : Prop :=
  d.w = d'.w ∧ ∀ i < k, d.fields i = d'.fields i

section
variable {k : Nat} {n src dst i : Int} {text nick msg arg : Bytes} {argc : Nat}

omit [Env] in
theorem SameFields.mono {k' : Nat} {d d' : Daemon} (h : SameFields k d d') (hk : k' ≤ k) :
    SameFields k' d d' :=
  ⟨h.1, fun i hi => h.2 i (by omega)⟩

omit [Env] in
/-- After `split` the fields of the packet are the same. -/
theorem SameFields.split (text : Bytes) {d d' : Daemon} (h : d.w = d'.w) :
    SameFields (splitFields text).length (split text d).2 (split text d').2 :=
  ⟨h, fun i hi => by rw [split_fields hi, split_fields hi]⟩

omit [Env] in
theorem wp₂_getField {j : Nat} {d d' : Daemon} {Q : Bytes → Daemon → Daemon → Prop}
    (hj : d.fields j = d'.fields j) (h : Q (d.fields j) d d') : wp₂ (getField j) Q d d' := ⟨hj, h⟩

omit [Env] in
theorem wp₂_split {d d' : Daemon} {Q : Nat → Daemon → Daemon → Prop}
    (h : Q (splitCount text) (Server.split text d).2 (Server.split text d').2) :
    wp₂ (Server.split text) Q d d' := ⟨rfl, h⟩

instance {α : Type} (x : W α) : Agree (SameFields k) (onWorld x) where
  agree d d' h := by
    simp only [onWorld, h.1]
    exact ⟨trivial, rfl, h.2⟩

instance : Agree (SameFields k) (split text) where
  agree d d' h := by
    refine ⟨rfl, h.1, fun i hi => ?_⟩
    simp only [Server.split, h.2 i hi]

instance : Agree (SameFields (k + 1)) (getField 0) where
  agree _ _ h := ⟨h.2 0 (by omega), h⟩

instance : Agree (SameFields (k + 2)) (getField 1) where
  agree _ _ h := ⟨h.2 1 (by omega), h⟩

instance : Agree (SameFields k) (setField argc text) where
  agree _ _ h := by
    refine ⟨rfl, h.1, fun i hi => ?_⟩
    simp only [setField, Function.update, h.2 i hi]

end

/-! ## §2 — commands with an argument -/

section
variable {cmd : Int → Bytes → M Unit} [hcmd : ∀ src text, Agree (SameFields 2) (cmd src text)]
  {k : Nat} {n src dst i : Int} {text nick msg arg : Bytes} {argc : Nat}

/-- The command in a message to the automatic user is a field of its own packet. -/
theorem deliver_agree (hk : k ≤ 2) :
    Agree (SameFields k) (deliver cmd src dst (packet pktPersonal (nickText nick msg))) where
  agree d d' h := by
    unfold deliver
    split
    · have hsplit : SameFields 2 (Server.split (str " " ++ packet pktPersonal (nickText nick msg)) d).2
          (Server.split (str " " ++ packet pktPersonal (nickText nick msg)) d').2 :=
        (SameFields.split _ h.1).mono (two_le_message_fields nick msg)
      simp only [bind_apply, getField_apply, hsplit.2 1 (by omega)]
      obtain ⟨-, hend⟩ := (hcmd _ _).agree _ _ hsplit
      exact ⟨trivial, hend.mono hk⟩
    · exact Agree.agree _ _ h

instance : Agree (SameFields 1) (deliver cmd src dst (packet pktPersonal (nickText nick msg))) :=
  deliver_agree (by omega)

instance : Agree (SameFields 2) (deliver cmd src dst (packet pktPersonal (nickText nick msg))) :=
  deliver_agree (by omega)

instance [∀ nick msg, Agree (SameFields k) (deliver cmd src dst (packet pktPersonal (nickText nick msg)))] :
    Agree (SameFields k) (sendperson cmd src dst arg) := by
  unfold sendperson
  infer_instance

instance [∀ nick msg, Agree (SameFields k) (deliver cmd (-1) dst (packet pktPersonal (nickText nick msg)))] :
    Agree (SameFields k) (sendPersonStored cmd dst nick arg) := by
  unfold sendPersonStored
  infer_instance

instance : Agree (SameFields 2) (sendbeep cmd n dst) := by
  unfold sendbeep autoBeep
  infer_instance

instance : Agree (SameFields 2) (sPersonal cmd n arg) := by
  unfold sPersonal
  infer_instance

instance : Agree (SameFields 2) (sBeep cmd n arg) := by
  unfold sBeep
  infer_instance

instance [∀ nick msg, Agree (SameFields k) (deliver cmd (-1) n (packet pktPersonal (nickText nick msg)))] :
    Agree (SameFields k) (readOne cmd n nick i) := by
  unfold readOne
  infer_instance

instance [∀ src nick msg,
    Agree (SameFields k) (deliver cmd src n (packet pktPersonal (nickText nick msg)))]
    {auto : AutoCmd} : Agree (SameFields k) (autoPlain cmd n auto) := by
  cases auto <;> (simp only [autoPlain, nickreadmsg]; infer_instance)

instance : Agree (SameFields 2) (sAuto cmd n) := by
  unfold sAuto
  infer_instance

instance {f : Bytes → W Unit} : Agree (SameFields 2) (withArg argc f) := by
  unfold withArg
  infer_instance

instance {x : M Unit} [Agree (SameFields k) x] : Agree (SameFields k) (asAdmin n x) := by
  unfold asAdmin
  infer_instance

instance {c : Command} : Agree (SameFields 2) (runCommand cmd n argc c) := by
  cases c <;> (unfold runCommand; infer_instance)

instance : Agree (SameFields 2) (cmdmsgWith cmd n text) := by
  unfold cmdmsgWith
  infer_instance

end

instance {depth : Nat} {n : Int} {text : Bytes} : Agree (SameFields 2) (cmdmsg depth n text) := by
  induction depth generalizing n text with
  | zero =>
    unfold cmdmsg
    infer_instance
  | succ depth ih =>
    unfold cmdmsg
    infer_instance

/-! ## §3 — what reads a leftover -/

/-- The command of the automatic user a text names. -/
def autoOf (text : Bytes) : AutoCmd :=
  AutoCmd.ofIndex (lookup (getword ((splitFields text).getD 0 [])) autoTable)

/-- A command without an argument that looks for one. What `news` and `whois` find shows in the answer
only, and the automatic user's slot gets none. -/
def bareReads (n : Int) (text : Bytes) : Prop :=
  splitCount text = 1 ∧ match commandOf text with
    | .away => True
    | .news => n ∈ slots maxRealUsers
    | .other => lookup ((splitFields text).getD 0 []) autoTable ≥ 0 ∧ (autoOf text).readsArg ∧
        (autoOf text = .whois → n ∈ slots maxRealUsers)
    | _ => False

/-- A login without a password, with a nickname and a login id that will do. -/
def shortLogin (n : Int) (contents : Bytes) : Prop :=
  n < maxRealUsers ∧ splitCount (pktText contents) = 4 ∧
    strcaseEq (pktField contents 3) (str "login") ∧
    (pktField contents 1 ≠ [] ∧ (pktField contents 1).length ≤ maxNickLen) ∧
    pktField contents 0 ≠ [] ∧ (pktField contents 0).length ≤ maxIdLen ∧
    (pktField contents 0).all isalnum

/-- A packet that makes a handler read an entry of `fields[]` it has not filled. -/
def readsLeftover (n : Int) (contents : Bytes) : Prop :=
  (cstr contents).head? = some pktLogin ∧ shortLogin n contents ∨
    (cstr contents).head? = some pktCommand ∧ bareReads n (pktText contents)

/-! ## §4 — answers that nobody gets -/

/-- The tables, the database and the outgoing messages. -/
def World.outcome (w : World) : (Int → User) × (Int → Group) × (Bytes → Option Bytes) × List Out :=
  (w.uTab, w.gTab, w.db, w.out)

/-- Worlds with the same outcome, under the same system. -/
def SameOutcome (w w' : World) : Prop := w'.outcome = w.outcome ∧ w'.sys = w.sys

instance : Base SameOutcome where
  refl _ := ⟨rfl, rfl⟩
  trans _ _ _ h₁ h₂ := ⟨h₂.1.trans h₁.1, h₂.2.trans h₁.2⟩
  misc _ _ := ⟨rfl, rfl⟩

omit [Env] in
theorem SameOutcome.symm {w w' : World} (h : SameOutcome w w') : SameOutcome w' w :=
  ⟨h.1.symm, h.2.symm⟩

omit [Env] in
theorem SameFields.outcome {k : Nat} {d d' : Daemon} (h : SameFields k d d') : SameOutcome d.w d'.w :=
  ⟨congrArg World.outcome h.1.symm, congrArg World.sys h.1.symm⟩

omit [Env] in
theorem SameOutcome.stamp {w w' : World} {n : Int} (h : SameOutcome w w') :
    SameOutcome (stamp n w).2 (stamp n w').2 := by
  obtain ⟨ho, hs⟩ := h
  simp only [World.outcome, Prod.mk.injEq] at ho
  refine ⟨?_, hs⟩
  change (w'.modU n fun u => _).outcome = (w.modU n fun u => _).outcome
  simp only [World.outcome, World.modU, ho, hs]

section
variable {n : Int} (hn : n ∉ slots maxRealUsers) {w : World} {arg : Bytes}

include hn

theorem doSend_unreal (c : Bytes) : doSend n c = pure () := by
  funext w
  change (whenever (0 ≤ n ∧ n < maxRealUsers ∧ w.sKill n ≤ 0) (emit (.send n c))) w = ((), w)
  rw [whenever_neg fun h => hn (mem_slots.mpr ⟨h.1, h.2.1⟩)]
  rfl

theorem senderror_unreal (msg : Bytes) : Within SameOutcome (senderror n msg) := by
  rw [senderror, doSend_unreal hn]
  infer_instance

theorem sendsCmdout_unreal (msg : Bytes) : Within SameOutcome (sendsCmdout n msg) := by
  rw [sendsCmdout, doSend_unreal hn]
  infer_instance

theorem sNews_unreal : SameOutcome w (sNews n arg w).2 := by
  have herror := senderror_unreal hn
  have hout := sendsCmdout_unreal hn
  have hstatus (cls msg : Bytes) : Within SameOutcome (sendstatus n cls msg) := by
    rw [sendstatus, doSend_unreal hn]
    infer_instance
  have : Within SameOutcome (sNews n arg) := by
    unfold sNews
    infer_instance
  exact this.within w

theorem nicklookup_unreal : SameOutcome w (nicklookup n arg w).2 := by
  have herror := senderror_unreal hn
  have hout := sendsCmdout_unreal hn
  have : Within SameOutcome (nicklookup n arg) := by
    unfold nicklookup showRecord
    infer_instance
  exact this.within w

end

/-! ## §5 — packets that do not -/

section
variable {n : Int} {text contents : Bytes} {d d' : Daemon}

/-- The runs end with the same outcome. -/
abbrev EndsSame (_ : Unit) (d d' : Daemon) : Prop := SameOutcome d.w d'.w

/-- A command without an argument that does not look for one. -/
theorem runCommand_bare {cmd : Int → Bytes → M Unit}
    [hcmd : ∀ src text, Agree (SameFields 2) (cmd src text)] (h : SameFields 1 d d')
    (hd : d.holds text) (hcount : splitCount text = 1) (hbare : ¬ bareReads n text) :
    wp₂ (runCommand cmd n (splitCount text) (commandOf text)) EndsSame d d' := by
  have hagree {x : M Unit} [Agree (SameFields 1) x] : wp₂ x EndsSame d d' :=
    Agree.wp₂ h fun _ _ _ h => h.outcome
  have hf0 : d.fields 0 = (splitFields text).getD 0 [] := hd 0 (length_splitFields_pos text)
  have h12 : ¬ 1 = 2 := by decide
  have h13 : ¬ 1 = 3 := by decide
  have h21 : ¬ 1 ≥ 2 := by decide
  have hlt : 1 < 2 := by decide
  have hle : 1 ≤ 2 := by decide
  rw [hcount]
  unfold bareReads at hbare
  cases hc : commandOf text with
  | away => simp [hcount, hc] at hbare
  | news =>
    have hn : n ∉ slots maxRealUsers := by simpa [hcount, hc] using hbare
    refine ⟨rfl, ?_⟩
    change SameOutcome (sNews n (d.fields 1) d.w).2 (sNews n (d'.fields 1) d'.w).2
    rw [← h.1]
    exact trans_of SameOutcome (sNews_unreal hn).symm (sNews_unreal hn)
  | other =>
    refine wp₂_bind (wp₂_getField (h.2 0 (by omega)) ?_)
    refine wp₂_ite (fun hauto => wp₂_bind (wp₂_getField (h.2 0 (by omega)) ?_)) fun _ => hagree
    refine wp₂_ite (fun hreads => ?_) fun _ => hagree
    have hwhois : AutoCmd.ofIndex (lookup (getword (d.fields 0)) autoTable) = .whois ∧
        n ∉ slots maxRealUsers := by
      rw [hf0] at hauto hreads ⊢
      simp only [hc, hcount, true_and, not_and, Classical.not_imp] at hbare
      exact hbare hauto hreads
    rw [hwhois.1]
    refine ⟨rfl, SameOutcome.stamp ?_⟩
    change SameOutcome (nicklookup n _ d.w).2 (nicklookup n _ d'.w).2
    rw [← h.1]
    exact trans_of SameOutcome (nicklookup_unreal hwhois.2).symm (nicklookup_unreal hwhois.2)
  | _ =>
    simp only [runCommand, withArg, whenever, h12, h13, h21, hlt, hle, or_self, ↓reduceIte]
    exact hagree

/-- A command packet. -/
theorem cmdmsg_same (h : d.w = d'.w) (hbare : ¬ bareReads n text) (depth : Nat) :
    wp₂ (cmdmsg depth n text) EndsSame d d' := by
  have h : SameFields 0 d d' := ⟨h, nofun⟩
  cases depth with
  | zero => exact Agree.wp₂ (x := onWorld _) h fun _ _ _ h => h.outcome
  | succ depth =>
    have hpos := length_splitFields_pos text
    refine wp₂_bind (Agree.wp₂ h fun u s t h => wp₂_whenever (fun _ => ?_) fun _ => h.outcome)
    refine wp₂_bind (Agree.wp₂ h fun _ s t h => wp₂_bind (wp₂_split ?_))
    have hsplit := SameFields.split text h.1
    refine wp₂_bind (wp₂_getField (hsplit.2 0 hpos) ?_)
    rw [split_fields hpos]
    change wp₂ (runCommand (cmdmsg depth) n (splitCount text) (commandOf text)) EndsSame _ _
    by_cases hlen : 2 ≤ (splitFields text).length
    · exact Agree.wp₂ (hsplit.mono hlen) fun _ _ _ h => h.outcome
    · refine runCommand_bare (hsplit.mono hpos) (fun i hi => split_fields hi) ?_ hbare
      unfold splitCount maxFields
      omega

/-- An open message. -/
theorem openmsg_same (h : d.w = d'.w) : wp₂ (openmsg n text) EndsSame d d' := by
  have h : SameFields 0 d d' := ⟨h, nofun⟩
  refine wp₂_bind (Agree.wp₂ h fun u s t h => wp₂_whenever (fun _ => ?_) fun _ => h.outcome)
  refine wp₂_bind (Agree.wp₂ h fun _ s t h => wp₂_bind (Agree.wp₂ h fun spam s t h => ?_))
  refine wp₂_bind (Agree.wp₂ h fun _ s t h => wp₂_bind (Agree.wp₂ h fun _ s t h => ?_))
  refine wp₂_bind (wp₂_split ?_)
  have hsplit := (SameFields.split text h.1).mono (length_splitFields_pos text)
  exact Agree.wp₂ hsplit fun _ _ _ h => h.outcome

/-- A nickname or a login id that will not do is refused whatever the tables say. -/
theorem login_refused_fields {a b : Bytes}
    (h : ¬ ((b ≠ [] ∧ b.length ≤ maxNickLen) ∧ a ≠ [] ∧ a.length ≤ maxIdLen ∧ a.all isalnum))
    (c p p' : Bytes) : login n a b c p = login n a b c p' := by
  funext w
  have hchecks : ∃ e, loginChecks w n a b = .error e := by
    unfold loginChecks
    by_cases hfound : findUser w b ≥ 0
    · exact ⟨_, if_pos hfound⟩
    rw [if_neg hfound]
    by_cases hnick : b = [] ∨ b.length > maxNickLen
    · exact ⟨_, if_pos hnick⟩
    rw [if_neg hnick]
    by_cases hid : a = [] ∨ a.length > maxIdLen
    · exact ⟨_, if_pos hid⟩
    rw [if_neg hid]
    rw [not_or, Nat.not_lt] at hnick hid
    exact ⟨_, if_pos fun hall => h ⟨hnick, hid.1, hid.2, hall⟩⟩
  obtain ⟨e, he⟩ := hchecks
  simp only [login, bind_apply, getW_apply, he]

/-- A login packet. -/
theorem loginmsg_same (h : d.w = d'.w) (hn : n < maxRealUsers) (hshort : ¬ shortLogin n contents) :
    wp₂ (loginmsg n (pktText contents)) (fun _ => SameFields 0) d d' := by
  have h : SameFields 0 d d' := ⟨h, nofun⟩
  refine wp₂_bind (Agree.wp₂ h fun u s t h => wp₂_ite (fun _ => ?_) fun _ => wp₂_bind (wp₂_split ?_))
  · exact Agree.wp₂ h fun _ _ _ h => h
  have hsplit := SameFields.split (pktText contents) h.1
  have hend {x : M Int} [Agree (SameFields 0) x] : wp₂ x (fun _ => SameFields 0)
      (split (pktText contents) s).2 (split (pktText contents) t).2 :=
    Agree.wp₂ (hsplit.mono (Nat.zero_le _)) fun _ _ _ h => h
  refine wp₂_ite (fun _ => hend) fun hcount => ?_
  have hlen : 4 ≤ (splitFields (pktText contents)).length := by
    unfold splitCount at hcount
    omega
  refine wp₂_bind (wp₂_getField (hsplit.2 0 (by omega)) ?_)
  refine wp₂_bind (wp₂_getField (hsplit.2 1 (by omega)) ?_)
  refine wp₂_bind (wp₂_getField (hsplit.2 2 (by omega)) ?_)
  refine wp₂_bind (wp₂_getField (hsplit.2 3 (by omega)) ?_)
  rw [split_fields (by omega), split_fields (by omega), split_fields (by omega),
    split_fields (by omega)]
  refine wp₂_ite (fun _ => hend) fun _ => wp₂_ite (fun _ => hend) fun _ => ?_
  refine wp₂_ite (fun htype => ?_) fun _ => hend
  by_cases hfive : 5 ≤ (splitFields (pktText contents)).length
  · exact wp₂_bind (wp₂_getField (hsplit.2 4 (by omega)) hend)
  · have hfour : splitCount (pktText contents) = 4 := by
      unfold splitCount maxFields
      omega
    have hrefused (p : Bytes) := login_refused_fields (n := n) (a := pktField contents 0)
      (b := pktField contents 1) (fun hok => hshort ⟨hn, hfour, htype, hok⟩) (pktField contents 2) p []
    have hw : (split (pktText contents) s).2.w = (split (pktText contents) t).2.w := hsplit.1
    have hsame : login n (pktField contents 0) (pktField contents 1) (pktField contents 2)
        ((split (pktText contents) s).2.fields 4) (split (pktText contents) s).2.w =
      login n (pktField contents 0) (pktField contents 1) (pktField contents 2)
        ((split (pktText contents) t).2.fields 4) (split (pktText contents) t).2.w := by
      rw [hw, hrefused ((split (pktText contents) t).2.fields 4), hrefused]
    have hanswer := congrArg Prod.fst hsame
    have hworld := congrArg Prod.snd hsame
    exact ⟨hanswer, hworld, nofun⟩

/-- A packet that reads no leftover. -/
theorem dispatch_same (h : d.w = d'.w) (hread : ¬ readsLeftover n contents) :
    wp₂ (dispatch n contents) EndsSame d d' := by
  have h0 : SameFields 0 d d' := ⟨h, nofun⟩
  have hsame {x : M Unit} [Agree (SameFields 0) x] : wp₂ x EndsSame d d' :=
    Agree.wp₂ h0 fun _ _ _ h => h.outcome
  unfold readsLeftover at hread
  refine wp₂_ite (fun htype => ?_) fun _ => wp₂_ite (fun _ => openmsg_same h) fun _ => ?_
  · refine wp₂_ite (fun _ => hsame) fun hfull => wp₂_bind ?_
    have hshort : ¬ shortLogin n contents := fun hshort => hread (.inl ⟨htype, hshort⟩)
    obtain ⟨hr, hend⟩ := loginmsg_same h (by omega) hshort
    exact ⟨hr, Agree.wp₂ hend fun _ _ _ h => h.outcome⟩
  refine wp₂_ite (fun htype => ?_) fun _ => ?_
  · exact cmdmsg_same h (fun hbare => hread (.inr ⟨htype, hbare⟩)) _
  · exact wp₂_ite (fun _ => hsame) fun _ => wp₂_ite (fun _ => hsame) fun _ => hsame

end

/-! ## §6 — packets that do -/

/-- Worlds that an outsider can tell apart by the database, the messages or the entry of `n`. -/
def Tells (n : Int) (w w' : World) : Prop :=
  w.db ≠ w'.db ∨ w.out ≠ w'.out ∨ (w.uTab n).password ≠ (w'.uTab n).password ∨
    (w.uTab n).awaymsg ≠ (w'.uTab n).awaymsg

section
variable {n m : Int} {w w' : World}

omit [Env] in
theorem Tells.outcome (h : Tells n w w') : w.outcome ≠ w'.outcome := by
  intro he
  simp only [World.outcome, Prod.mk.injEq] at he
  obtain ⟨hu, -, hdb, ho⟩ := he
  rw [Tells, hdb, ho, hu] at h
  simp at h

omit [Env] in
theorem Tells.stamp (h : Tells n w w') : Tells n (stamp m w).2 (stamp m w').2 := by
  have hpass (w : World) : ((Server.stamp m w).2.uTab n).password = (w.uTab n).password := by
    by_cases hnm : n = m <;> simp [Server.stamp, modUOpts, World.modU, Function.update, hnm]
  have haway (w : World) : ((Server.stamp m w).2.uTab n).awaymsg = (w.uTab n).awaymsg := by
    by_cases hnm : n = m <;> simp [Server.stamp, modUOpts, World.modU, Function.update, hnm]
  rw [Tells, hpass, hpass, haway, haway]
  exact h

end

/-- A server with this database, where everybody is logged in and registered. -/
def everybodyIn (db : Bytes → Option Bytes) : World :=
  { uTab := fun _ => { login := .complete, realname := registered }, db := db }

/-- What a handler finds there. -/
structure FindsIn (n : Int) (db : Bytes → Option Bytes) (w : World) : Prop where
  user : (w.uTab n).toUserId = { login := .complete, realname := registered }
  awaymsg : (w.uTab n).awaymsg = []
  db : w.db = db
  sys : w.sys = {}
  sKill : ∀ i, w.sKill i = 0
  out : w.out = []

section
variable {n : Int} {contents : Bytes} {db : Bytes → Option Bytes}

/-- A command without an argument, run by somebody who is logged in, sees the second field of an
earlier packet. -/
theorem dispatch_bare (db : Bytes → Option Bytes) (htype : (cstr contents).head? = some pktCommand)
    (hcount : splitCount (pktText contents) = 1) :
    ∃ cmd w, FindsIn n db w ∧ ∀ f : Nat → Bytes, ∃ s : Daemon, s.w = w ∧
      s.fields 0 = (splitFields (pktText contents)).getD 0 [] ∧ s.fields 1 = f 1 ∧
      (dispatch n contents { w := everybodyIn db, fields := f }).2.w =
        (runCommand cmd n 1 (commandOf (pktText contents)) s).2.w := by
  obtain ⟨b, bs, hcstr⟩ : ∃ b bs, cstr contents = b :: bs := by
    cases hc : cstr contents with
    | nil => simp [hc] at htype
    | cons b bs => exact ⟨b, bs, rfl⟩
  refine ⟨cmdmsg bs.length, (stamp n (getU n (everybodyIn db)).2).2, ?_, fun f => ?_⟩
  · constructor <;> simp [stamp, modUOpts, World.modU, getU, everybodyIn]
  refine ⟨(split (pktText contents)
    { w := (stamp n (getU n (everybodyIn db)).2).2, fields := f }).2, rfl, ?_, ?_, ?_⟩
  · exact split_fields (length_splitFields_pos _)
  · have hlen : (splitFields (pktText contents)).length = 1 := by
      unfold splitCount maxFields at hcount
      omega
    simp only [split, List.getD_eq_getElem?_getD, List.getElem?_eq_none (Nat.le_of_eq hlen)]
    rfl
  · have hcmd : dispatch n contents = cmdmsgWith (cmdmsg bs.length) n (pktText contents) := by
      unfold dispatch otherCase
      rw [htype, if_neg (by decide), if_neg (by decide), if_pos rfl, pktText, hcstr]
      rfl
    rw [hcmd]
    change wp (cmdmsgWith (cmdmsg bs.length) n (pktText contents)) (fun _ d => d.w = _) _
    refine wp_bind (wp_onWorld (wp_getU (wp_whenever (fun _ => ?_) fun hno => absurd rfl hno)))
    refine wp_after (wp_bind (wp_split (wp_bind (wp_getField ?_))))
    rw [split_fields (length_splitFields_pos _), hcount]
    rfl

section
variable {w : World}

/-- Nothing is sent to anybody who is to be dropped, and nobody is. -/
theorem doSend_out (hn : n ∈ slots maxRealUsers) (hkill : w.sKill n = 0) (c : Bytes) :
    (doSend n c w).2 = { w with out := .send n c :: w.out } := by
  change (whenever (0 ≤ n ∧ n < maxRealUsers ∧ w.sKill n ≤ 0) (emit (.send n c)) w).2 = _
  rw [whenever_pos ⟨(mem_slots.mp hn).1, (mem_slots.mp hn).2, by omega⟩]
  rfl

/-- Tables, database and system stay. -/
def OnlySends (w w' : World) : Prop := w'.uTab = w.uTab ∧ w'.db = w.db ∧ w'.sys = w.sys

instance : Base OnlySends where
  refl _ := ⟨rfl, rfl, rfl⟩
  trans _ _ _ h₁ h₂ := ⟨h₂.1.trans h₁.1, h₂.2.1.trans h₁.2.1, h₂.2.2.trans h₁.2.2⟩
  misc _ _ := ⟨rfl, rfl, rfl⟩

instance (m : Int) : SendsTo OnlySends m := ⟨fun _ _ => ⟨rfl, rfl, rfl⟩⟩

/-- The system stays. -/
def SysSame (w w' : World) : Prop := w'.sys = w.sys

instance : Base SysSame where
  refl _ := rfl
  trans _ _ _ h₁ h₂ := h₂.trans h₁
  misc _ _ := rfl

instance (key : String) : DbTo SysSame key := ⟨fun _ _ _ => rfl⟩

omit [Env] in
/-- A record is stored. -/
theorem dbSet_open (ho : w.sys.dbOpens = true) (nick : Bytes) (key : String) (v : Bytes) :
    (dbSet nick key v w).2 = { w with db := Function.update w.db (dbKey nick key) (some v) } :=
  if_pos ho

theorem away_tells (h : FindsIn n db w) : Tells n (sAway n [] w).2 (sAway n (str "%s") w).2 := by
  have hshow : ((sAway n [] w).2.uTab n).awaymsg = [] := by
    change wp (sAway n []) (fun _ w' => (w'.uTab n).awaymsg = []) w
    refine wp_bind (wp_getW (wp_bind (wp_getU (wp_ite (fun _ => ?_) fun hne => absurd rfl hne))))
    exact Within.wp OnlySends fun _ w' hw' => by rw [hw'.1]; exact h.awaymsg
  have hset : ((sAway n (str "%s") w).2.uTab n).awaymsg ≠ [] := by
    change wp (sAway n (str "%s")) (fun _ w' => (w'.uTab n).awaymsg ≠ []) w
    refine wp_bind (wp_getW (wp_bind (wp_getU (wp_ite (fun h => absurd h (by decide)) fun _ => ?_))))
    refine wp_ite (fun h => absurd h (by decide)) fun _ => wp_after ?_
    refine Within.wp OnlySends fun _ w' hw' => ?_
    rw [hw'.1]
    simp [modUOpts, World.modU, snprintf, maxAwayLen, maxInputStr, maxNickLen, str]
  exact .inr (.inr (.inr (by rw [hshow]; exact hset.symm)))

omit [Env] in
/-- An answer and an error are different messages. -/
theorem packet_ne_error {type : UInt8} {a b : Bytes} (h : type ≠ pktError) :
    packet type a ≠ packet pktError b := by
  intro he
  exact h (Option.some.inj (congrArg List.head? he))

theorem news_tells (hn : n ∈ slots maxRealUsers) (h : FindsIn n db w) :
    Tells n (sNews n [] w).2 (sNews n (str "x") w).2 := by
  have hitems : ((slots 10).drop 1).filterMap (fun i => w.sys.news (decimal i)) = [] := by
    rw [h.sys]
    rfl
  have hnone : (sNews n [] w).2.out =
      [.send n (packet pktStatus (classText (str "News") (str "No news.")))] := by
    change wp (sNews n []) (fun _ w' => w'.out = _) w
    refine wp_bind (wp_getW (wp_ite (fun _ => ?_) fun hne => absurd (.inl rfl) hne))
    refine wp_bind (wp_whenever (fun hne => absurd hitems hne) fun _ => wp_bind ?_)
    refine wp_mono (wp_each (I := fun w' => w' = w) (fun b hb => ?_) rfl) fun _ w' hw' => ?_
    · rw [hitems] at hb
      cases hb
    · subst hw'
      refine wp_whenever (fun _ => ?_) fun hne => absurd hitems hne
      exact (congrArg World.out (doSend_out hn (h.sKill n) _)).trans (by rw [h.out])
  have herror : (sNews n (str "x") w).2.out =
      [.send n (packet pktError (filtertext (str "Entry not found.") maxPktData))] := by
    change wp (sNews n (str "x")) (fun _ w' => w'.out = _) w
    refine wp_bind (wp_getW (wp_ite (fun h => absurd h (by decide)) fun _ => ?_))
    refine wp_ite (fun hsome => ?_) fun _ => ?_
    · rw [h.sys] at hsome
      cases hsome
    · exact (congrArg World.out (doSend_out hn (h.sKill n) _)).trans (by rw [h.out])
  refine .inr (.inl ?_)
  rw [hnone, herror]
  intro he
  exact packet_ne_error (by decide) (Out.send.inj (List.cons.inj he).1).2

theorem whois_tells (hn : n ∈ slots maxRealUsers) (h : FindsIn n db w) :
    Tells n (autoArg n [] .whois w).2 (autoArg n (List.replicate 13 97) .whois w).2 := by
  have hnone (c : Bytes) : (autoArg n [] .whois w).2.out ≠ [.send n (packet pktError c)] := by
    change wp (nicklookup n []) (fun _ w' => w'.out ≠ _) w
    refine wp_after (wp_ite (fun _ => wp_bind ?_) fun hne => absurd rfl hne)
    refine wp_whenever (fun _ => ?_) fun _ => ?_
    · change (doSend n _ w).2.out ≠ _
      rw [doSend_out hn (h.sKill n)]
      intro he
      exact packet_ne_error (by decide) (Out.send.inj (List.cons.inj he).1).2
    · change w.out ≠ _
      rw [h.out]
      exact nofun
  have herror : (autoArg n (List.replicate 13 97) .whois w).2.out =
      [.send n (packet pktError (filtertext (str "nickname too long") maxPktData))] := by
    change wp (nicklookup n (List.replicate 13 97)) (fun _ w' => w'.out = _) w
    refine wp_after (wp_ite (fun h => absurd h (by decide)) fun _ => ?_)
    refine wp_ite (fun _ => wp_after ?_) fun h => absurd (by decide) h
    exact (congrArg World.out (doSend_out hn (h.sKill n) _)).trans (by rw [h.out])
  refine .inr (.inl ?_)
  rw [herror]
  exact hnone _

omit [Env] in
theorem FindsIn.realname (h : FindsIn n db w) : (w.uTab n).realname ≠ [] := by
  rw [show (w.uTab n).realname = registered from congrArg UserId.realname h.user]
  decide

omit [Env] in
theorem FindsIn.nickname (h : FindsIn n db w) : (w.uTab n).nickname = [] :=
  congrArg UserId.nickname h.user

omit [Env] in
theorem FindsIn.opens (h : FindsIn n db w) : w.sys.dbOpens = true := by
  rw [h.sys]

theorem setInfo_tells {tag message usage : String} {max : Nat} (hdb : db (dbKey [] tag) = none)
    (h : FindsIn n db w) :
    Tells n (setInfo n tag max message usage [] w).2 (setInfo n tag max message usage (str "v") w).2 := by
  have hnone : (setInfo n tag max message usage [] w).2.db (dbKey [] tag) = none := by
    change wp (setInfo n tag max message usage []) (fun _ w' => w'.db (dbKey [] tag) = none) w
    refine wp_ite (fun _ => ?_) fun hne => absurd rfl hne
    exact Within.wp OnlySends fun _ w' hw' => by rw [hw'.2.1, h.db, hdb]
  have hsome : (setInfo n tag max message usage (str "v") w).2.db (dbKey [] tag) ≠ none := by
    change wp (setInfo n tag max message usage (str "v")) (fun _ w' => w'.db (dbKey [] tag) ≠ none) w
    refine wp_ite (fun h => absurd h (by decide)) fun _ => wp_bind (wp_getU ?_)
    refine wp_ite (fun hno => absurd hno h.realname) fun _ => ?_
    refine wp_bind (Within.wp OnlySends fun _ w₁ h₁ => wp_after ?_)
    refine Within.wp OnlySends fun _ w₂ h₂ => ?_
    rw [h₂.2.1, h.nickname, dbSet_open (by rw [h₁.2.2]; exact h.opens)]
    simp
  exact .inl fun he => hsome (by rw [← he, hnone])

theorem register_tells (hdb : db (dbKey [] "password") = none) (h : FindsIn n db w) :
    Tells n (autoArg n [] .register w).2 (autoArg n (str "v") .register w).2 := by
  have hnone : ((autoArg n [] .register w).2.uTab n).password = [] := by
    change wp (nickwrite n [] false) (fun _ w' => (w'.uTab n).password = []) w
    refine wp_bind (wp_getU (wp_after (wp_ite (fun _ => ?_) fun hne => absurd rfl hne)))
    refine Within.wp OnlySends fun _ w' hw' => ?_
    rw [hw'.1]
    exact congrArg UserId.password h.user
  have hsome : ((autoArg n (str "v") .register w).2.uTab n).password = str "v" := by
    change wp (nickwrite n (str "v") false) (fun _ w' => (w'.uTab n).password = str "v") w
    refine wp_bind (wp_getU (wp_after (wp_ite (fun h => absurd h (by decide)) fun _ => ?_)))
    refine wp_ite (fun _ => wp_ite (fun h => absurd h (by decide)) fun _ => ?_) fun hsome => ?_
    · refine wp_after (wp_after (wp_after (wp_after (wp_after (wp_after (wp_after ?_))))))
      simp [setPassword, setIdent, World.modU, cutPassword, maxPasswdLen, wp, str]
    · refine absurd ?_ hsome
      change (if w.sys.dbOpens then w.db _ else none) = none
      rw [h.nickname, h.db, hdb, ite_self]
  refine .inr (.inr (.inl ?_))
  rw [hnone, hsome]
  decide

theorem write_tells (hknown : (db (dbKey (str "u") "nick")).isSome)
    (hdb : db (dbKey (str "u") "nummsg") = none) (h : FindsIn n db w) :
    Tells n (autoArg n [] .write w).2 (autoArg n (str "u m") .write w).2 := by
  have hnone : (autoArg n [] .write w).2.db (dbKey (str "u") "nummsg") = none := by
    change wp (nickwritemsg n [] []) (fun _ w' => w'.db (dbKey (str "u") "nummsg") = none) w
    refine wp_bind (wp_getW (wp_bind (wp_getU (wp_after (wp_after ?_)))))
    refine wp_ite (fun _ => ?_) fun hne => absurd (.inl rfl) hne
    exact Within.wp OnlySends fun _ w' hw' => by rw [hw'.2.1]; exact h.db ▸ hdb
  have hsome : (autoArg n (str "u m") .write w).2.db (dbKey (str "u") "nummsg") ≠ none := by
    change wp (nickwritemsg n (str "u") (str "m"))
      (fun _ w' => w'.db (dbKey (str "u") "nummsg") ≠ none) w
    have hstored : (dbGet (str "u") "nummsg" (getU n w).2).1 = none := by
      change (if w.sys.dbOpens then w.db _ else none) = none
      rw [h.db, hdb, ite_self]
    refine wp_bind (wp_getW (wp_bind (wp_getU (wp_after (wp_after ?_)))))
    refine wp_ite (fun h => absurd h (by decide)) fun _ => ?_
    refine wp_ite (fun hno => absurd hno h.realname) fun _ => wp_ite (fun hno => ?_) fun _ => ?_
    · change (if w.sys.dbOpens then w.db _ else none) = none at hno
      rw [if_pos h.opens, h.db] at hno
      rw [hno] at hknown
      cases hknown
    refine wp_ite (fun hfull => ?_) fun _ => wp_bind (Within.wp SysSame fun _ w₁ h₁ => ?_)
    · change toInt32 (atoi (Option.getD (dbGet (str "u") "nummsg" (getU n w).2).1 (str "0")) + 1) > _
        at hfull
      rw [hstored] at hfull
      exact absurd hfull (by decide)
    · refine wp_bind (Within.wp SysSame fun _ w₂ h₂ => wp_bind (Within.wp SysSame fun _ w₃ h₃ => ?_))
      have hsys : w₃.sys = w.sys := h₃.trans (h₂.trans h₁)
      refine wp_after (Within.wp OnlySends fun _ w' hw' => ?_)
      rw [hw'.2.1, dbSet_open (by rw [hsys]; exact h.opens)]
      simp
  exact .inl fun he => hsome (by rw [← he, hnone])

/-- What is not in the database stays out of it when records are deleted. -/
instance {k : Bytes} : Base (Keep fun w => w.db k = none) where
  refl _ := id
  trans _ _ _ h₁ h₂ := h₂ ∘ h₁
  misc _ _ := id

instance {k : Bytes} {m : Int} : SendsTo (Keep fun w => w.db k = none) m := ⟨fun _ _ => id⟩

instance {k nick : Bytes} {key : String} :
    Within (Keep fun w : World => w.db k = none) (dbDelete nick key) where
  within w h := by
    unfold dbDelete
    split
    · by_cases hk : k = dbKey nick key <;> simp [Function.update, hk, h]
    · exact h

theorem delete_tells (hpass : db (dbKey [] "password") = some (str "x"))
    (hdb : db (dbKey [] "secure") ≠ none) (h : FindsIn n db w) :
    Tells n (autoArg n [] .delete w).2 (autoArg n (str "x") .delete w).2 := by
  have hsome : (autoArg n [] .delete w).2.db (dbKey [] "secure") ≠ none := by
    change wp (sendsCmdout n _) (fun _ w' => w'.db (dbKey [] "secure") ≠ none) w
    exact Within.wp OnlySends fun _ w' hw' => by rw [hw'.2.1]; exact h.db ▸ hdb
  have hnone : (autoArg n (str "x") .delete w).2.db (dbKey [] "secure") = none := by
    change wp (nickdelete n (str "x")) (fun _ w' => w'.db (dbKey [] "secure") = none) w
    have hstored : (dbGet (w.uTab n).nickname "password" (getU n w).2).1 = some (str "x") := by
      change (if w.sys.dbOpens then w.db _ else none) = _
      rw [if_pos h.opens, h.nickname, h.db, hpass]
    refine wp_bind (wp_getU (wp_after (wp_ite (fun h => absurd h (by decide)) fun _ => ?_)))
    refine wp_ite (fun hno => absurd hno h.realname) fun _ => ?_
    rw [hstored]
    refine wp_ite (fun h => absurd h (by decide)) fun _ => ?_
    refine wp_ite (fun h => absurd h (by decide)) fun _ => wp_bind ?_
    have hfirst : (dbDelete [] "secure" (getU n w).2).2.db (dbKey [] "secure") = none := by
      have ho : (getU n w).2.sys.dbOpens = true := h.opens
      simp [dbDelete, ho]
    rw [h.nickname]
    refine wp_after (Within.wp (Keep fun w : World => w.db (dbKey [] "secure") = none) fun _ w₁ h₁ => ?_)
    exact Within.wp (Keep fun w : World => w.db (dbKey [] "secure") = none) fun _ _ h₂ => h₂ (h₁ hfirst)
  exact .inl fun he => hsome (by rw [he, hnone])

theorem cp_tells (hpass : db (dbKey [] "password") = some (str "x")) (h : FindsIn n db w) :
    Tells n (autoArg n [] .cp w).2 (autoArg n (str "x y") .cp w).2 := by
  have hstored : (dbGet (w.uTab n).nickname "password" (getU n w).2).1 = some (str "x") := by
    change (if w.sys.dbOpens then w.db _ else none) = _
    rw [if_pos h.opens, h.nickname, h.db, hpass]
  have hold : (autoArg n [] .cp w).2.db (dbKey [] "password") = some (str "x") := by
    change wp (nickchpass n [] []) (fun _ w' => w'.db (dbKey [] "password") = some (str "x")) w
    refine wp_bind (wp_getU (wp_after ?_))
    rw [hstored]
    refine wp_ite (fun _ => ?_) fun h => absurd (by decide) h
    exact Within.wp OnlySends fun _ w' hw' => by rw [hw'.2.1]; exact h.db ▸ hpass
  have hnew : (autoArg n (str "x y") .cp w).2.db (dbKey [] "password") = some (str "y") := by
    change wp (nickchpass n (str "x") (str "y"))
      (fun _ w' => w'.db (dbKey [] "password") = some (str "y")) w
    refine wp_bind (wp_getU (wp_after ?_))
    rw [hstored]
    refine wp_ite (fun h => absurd h (by decide)) fun _ => wp_ite (fun h => absurd h (by decide)) fun _ => ?_
    have ho : (getU n w).2.sys.dbOpens = true := h.opens
    refine wp_after (wp_bind (Within.wp OnlySends fun _ w₁ h₁ => ?_))
    rw [h.nickname, dbSet_open (by exact ho)] at h₁
    change (dbSet _ _ _ w₁).2.db _ = _
    rw [dbSet_open (by rw [h₁.2.2]; exact ho), h.nickname, h₁.2.1]
    have hkey : dbKey [] "password" ≠ dbKey [] "home" := by decide
    simp [Function.update_of_ne hkey, cutPassword, maxPasswdLen, str]
  refine .inl fun he => absurd (Option.some.inj ?_) (show str "x" ≠ str "y" by decide)
  rw [← hold, he, hnew]

/-- A database with one record, secured and with a password, and one nick that can be written to. -/
def oneRecord (key : Bytes) : Option Bytes :=
  if key = dbKey [] "password" ∨ key = dbKey [] "secure" then some (str "x")
  else if key = dbKey (str "u") "nick" then some (str "u")
  else none

/-- Every command of the automatic user that looks at its argument shows it in some database. -/
theorem autoArg_tells {auto : AutoCmd} (hreads : auto.readsArg)
    (hwhois : auto = .whois → n ∈ slots maxRealUsers) :
    ∃ db a b, ∀ w, FindsIn n db w → Tells n (autoArg n a auto w).2 (autoArg n b auto w).2 := by
  cases auto with
  | whois => exact ⟨oneRecord, _, _, fun _ => whois_tells (hwhois rfl)⟩
  | register => exact ⟨fun _ => none, _, _, fun _ => register_tells rfl⟩
  | write => exact ⟨oneRecord, _, _, fun _ => write_tells (by decide) (by decide)⟩
  | delete => exact ⟨oneRecord, _, _, fun _ => delete_tells (by decide) (by decide)⟩
  | cp => exact ⟨oneRecord, _, _, fun _ => cp_tells (by decide)⟩
  | real | text | addr | phone | www | email =>
    exact ⟨oneRecord, [], str "v", fun _ => setInfo_tells (by decide)⟩
  | read | info | help | question | secure | nosecure => cases hreads

/-- Every command that looks for an argument it does not have. -/
theorem bareReads_tells (htype : (cstr contents).head? = some pktCommand)
    (hbare : bareReads n (pktText contents)) :
    ∃ w f f', (dispatch n contents { w := w, fields := f }).2.w.outcome ≠
      (dispatch n contents { w := w, fields := f' }).2.w.outcome := by
  obtain ⟨hcount, hreads⟩ := hbare
  cases hc : commandOf (pktText contents) with
  | away =>
    obtain ⟨cmd, w, hw, hrun⟩ := dispatch_bare oneRecord htype hcount
    refine ⟨everybodyIn oneRecord, fun _ => [], fun _ => str "%s", ?_⟩
    obtain ⟨s, rfl, -, hs, hd⟩ := hrun fun _ => []
    obtain ⟨t, ht, -, ht', hd'⟩ := hrun fun _ => str "%s"
    rw [hd, hd', hc]
    change (sAway n (s.fields 1) s.w).2.outcome ≠ (sAway n (t.fields 1) t.w).2.outcome
    rw [hs, ht', ht]
    exact (away_tells hw).outcome
  | news =>
    obtain ⟨cmd, w, hw, hrun⟩ := dispatch_bare oneRecord htype hcount
    refine ⟨everybodyIn oneRecord, fun _ => [], fun _ => str "x", ?_⟩
    obtain ⟨s, rfl, -, hs, hd⟩ := hrun fun _ => []
    obtain ⟨t, ht, -, ht', hd'⟩ := hrun fun _ => str "x"
    rw [hd, hd', hc]
    change (sNews n (s.fields 1) s.w).2.outcome ≠ (sNews n (t.fields 1) t.w).2.outcome
    rw [hs, ht', ht]
    rw [hc] at hreads
    exact (news_tells hreads hw).outcome
  | other =>
    rw [hc] at hreads
    obtain ⟨hauto, hreads, hwhois⟩ := hreads
    obtain ⟨db, a, b, htells⟩ := autoArg_tells hreads hwhois
    obtain ⟨cmd, w, hw, hrun⟩ := dispatch_bare db htype hcount
    have hother (s : Daemon) (hs0 : s.fields 0 = (splitFields (pktText contents)).getD 0 []) :
        (runCommand cmd n 1 .other s).2.w =
          (stamp nickserv (autoArg n (s.fields 1) (autoOf (pktText contents)) s.w).2).2 := by
      change wp (runCommand cmd n 1 .other) (fun _ d => d.w = _) s
      refine wp_bind (wp_getField (wp_ite (fun _ => wp_bind (wp_getField ?_)) fun hno => ?_))
      · rw [hs0]
        refine wp_ite (fun _ => rfl) fun hno => absurd hreads hno
      · exact absurd (hs0 ▸ hauto) hno
    refine ⟨everybodyIn db, fun _ => a, fun _ => b, ?_⟩
    obtain ⟨s, rfl, hs0, hs, hd⟩ := hrun fun _ => a
    obtain ⟨t, ht, ht0, ht', hd'⟩ := hrun fun _ => b
    rw [hd, hd', hc, hother s hs0, hother t ht0, hs, ht', ht]
    exact (htells s.w hw).stamp.outcome
  | _ => rw [hc] at hreads; exact hreads.elim

end

/-! ## §7 — logins without a password -/

/-- The password in the table and the database stay. -/
def PasswordStays (n : Int) (w w' : World) : Prop :=
  (w'.uTab n).password = (w.uTab n).password ∧ w'.db = w.db

section
variable {w : World} {m v : Int} {l : Login}

omit [Env] in
theorem PasswordStays.modU {f : User → User} (hf : ∀ u, (f u).password = u.password) :
    PasswordStays n w (w.modU m f) := by
  refine ⟨?_, rfl⟩
  by_cases h : n = m <;> simp [World.modU, Function.update, h, hf]

instance : Calm (PasswordStays n) where
  refl _ := ⟨rfl, rfl⟩
  trans _ _ _ h₁ h₂ := ⟨h₂.1.trans h₁.1, h₂.2.trans h₁.2⟩
  misc _ _ := ⟨rfl, rfl⟩
  drops _ _ := ⟨rfl, rfl⟩
  gopts _ _ _ := ⟨rfl, rfl⟩
  toSends _ := ⟨fun _ _ => ⟨rfl, rfl⟩⟩
  toUOpts _ := ⟨fun _ _ => .modU fun _ => rfl⟩

instance : UGroupTo (PasswordStays n) m := ⟨fun _ _ => .modU fun _ => rfl⟩
instance : LoginTo (PasswordStays n) m l := ⟨fun _ => .modU fun _ => rfl⟩
instance : GNameTo (PasswordStays n) := ⟨fun _ _ _ => ⟨rfl, rfl⟩⟩
instance : ModTo (PasswordStays n) v := ⟨fun _ _ => ⟨rfl, rfl⟩⟩
instance : MissTo (PasswordStays n) := ⟨fun _ _ _ _ => ⟨rfl, rfl⟩⟩

/-- Nobody is known to an empty database. -/
theorem nicklookup_unknown {nick : Bytes} (h : ∀ k, w.db k = none) : (nicklookup m nick w).1 = -1 := by
  have hhome : (dbGet nick "home" w).1 = none := by simp [dbGet, h]
  change wp (nicklookup m nick) (fun r _ => r = -1) w
  refine wp_after ?_
  rw [hhome]
  refine wp_ite (fun _ => wp_after rfl) fun _ => wp_ite (fun _ => wp_after rfl) fun _ => ?_
  exact wp_ite (fun hsome => absurd hsome Bool.false_ne_true) fun _ => wp_after rfl

/-- Nobody is registered by a login with an empty database, and the password stays what it is. -/
theorem authenticate_unknown (h : ∀ k, w.db k = none) : PasswordStays n w (authenticate n w).2 := by
  have hret : (nicklookup (-n) (w.uTab n).nickname (getU n w).2).1 = -1 := nicklookup_unknown h
  change wp (authenticate n) (fun _ => PasswordStays n w) w
  refine wp_bind (wp_getU (wp_after ?_))
  rw [hret]
  have hlook : PasswordStays n w (nicklookup (-n) (w.uTab n).nickname (getU n w).2).2 :=
    Within.within (x := (do
      let u ← getU n
      nicklookup (-n) u.nickname : W Int)) w
  refine wp_bind (wp_ite (fun h => absurd h.1 (by decide)) fun _ => wp_pure (wp_bind ?_))
  refine wp_whenever (fun h => absurd h.1 (by decide)) fun _ => ?_
  refine wp_ite (fun h => absurd h (by decide)) fun _ => ?_
  exact trans_of (PasswordStays n) hlook (Within.within _)

/-- A login that is let in leaves its password in the table. -/
theorem login_password {a b c p : Bytes} {perms : Nat} (hchecks : loginChecks w n a b = .ok perms)
    (hdenied : denied w n a = none) (hdb : ∀ k, w.db k = none) :
    ((login n a b c p w).2.uTab n).password = p.take maxPasswdLen := by
  have hstay {t t' : World} (ht : (t.uTab n).password = p.take maxPasswdLen)
      (h : PasswordStays n t t') : (t'.uTab n).password = p.take maxPasswdLen := h.1.trans ht
  change wp (login n a b c p) (fun _ w' => (w'.uTab n).password = p.take maxPasswdLen) w
  refine wp_bind (wp_getW ?_)
  rw [hchecks]
  refine wp_bind (wp_getW (wp_bind (Within.wp (PasswordStays n) fun _ t ht => ?_)))
  refine wp_ite (fun hsome => ?_) fun _ => wp_bind (wp_getU (wp_after (wp_bind (wp_getW ?_))))
  · rw [hdenied] at hsome
    cases hsome
  -- the entry is filled in
  generalize hfill : (fillUserEntry n a (t.uTab n).nodeid (filternickname b) p [] [] .no 0 0 perms
    (getU n t).2).2 = t₁
  have hpw : (t₁.uTab n).password = p.take maxPasswdLen := by
    rw [← hfill]
    simp [fillUserEntry, setIdent, setNickname, setUserGroup, setLogin, modUOpts, World.modU]
  have hdb₁ (k : Bytes) : t₁.db k = none := by
    rw [← hfill, ← hdb k, ← ht.2]
    rfl
  refine wp_ite (fun _ => Within.wp (PasswordStays n) fun _ _ h => hstay hpw h) fun _ => ?_
  refine wp_bind (Within.wp (PasswordStays n) fun _ t₂ h₂ => wp_bind ?_)
  refine Within.wp (PasswordStays n) fun _ t₃ h₃ => wp_bind ?_
  refine Within.wp (PasswordStays n) fun g t₄ h₄ => ?_
  have h₄ : PasswordStays n t₁ t₄ :=
    trans_of (PasswordStays n) (trans_of (PasswordStays n) h₂ h₃) h₄
  refine wp_ite (fun _ => ?_) fun _ => hstay hpw h₄
  refine wp_bind (Within.wp (PasswordStays n) fun _ t₅ h₅ => wp_bind (wp_getU (wp_bind ?_)))
  refine Within.wp (PasswordStays n) fun _ t₆ h₆ => wp_after ?_
  have h₆ : PasswordStays n t₁ t₆ :=
    trans_of (PasswordStays n) h₄ (trans_of (PasswordStays n) h₅ h₆)
  have h₇ := authenticate_unknown (n := n) (w := t₆) fun k => by rw [h₆.2]; exact hdb₁ k
  refine Within.wp (PasswordStays n) fun _ _ h₈ => hstay hpw ?_
  exact trans_of (PasswordStays n) h₆ (trans_of (PasswordStays n) h₇ h₈)

end

/-- A login without a password is given the one it finds. -/
theorem shortLogin_tells (htype : (cstr contents).head? = some pktLogin)
    (h : shortLogin n contents) :
    ∃ w f f', (dispatch n contents { w := w, fields := f }).2.w.outcome ≠
      (dispatch n contents { w := w, fields := f' }).2.w.outcome := by
  obtain ⟨hn, hcount, hlogin, hnick, hid⟩ := h
  have hlen : (splitFields (pktText contents)).length = 4 := by
    unfold splitCount maxFields at hcount
    omega
  have hother (t : Bytes) (ht : strcaseEq (str "login") t = false) :
      ¬ strcaseEq (pktField contents 3) t := by
    intro h
    rw [strcaseEq_comm] at hlogin
    rw [strcaseEq_trans hlogin h] at ht
    cases ht
  have hchecks : loginChecks (getU n {}).2 n (pktField contents 0) (pktField contents 1) = .ok 0 := by
    have hfree : findUser (getU n {}).2 (pktField contents 1) < 0 := by
      by_contra hfound
      obtain ⟨-, heq⟩ := findUser_nonneg (Int.not_lt.mp hfound)
      exact hnick.1 (strcaseEq_nil (strcaseEq_comm _ _ ▸ heq))
    have hnick' : ¬ (pktField contents 1 = [] ∨ (pktField contents 1).length > maxNickLen) := by
      simpa using hnick
    have hid' : ¬ (pktField contents 0 = [] ∨ (pktField contents 0).length > maxIdLen) := by
      simpa using ⟨hid.1, hid.2.1⟩
    unfold loginChecks
    rw [if_neg (by omega), if_neg hnick', if_neg hid', if_neg (not_not_intro hid.2.2)]
    rfl
  have hpassword (f : Nat → Bytes) : ((dispatch n contents { w := {}, fields := f }).2.w.uTab n).password
      = (f 4).take maxPasswdLen := by
    change wp (dispatch n contents)
      (fun _ d => (d.w.uTab n).password = (f 4).take maxPasswdLen) { w := {}, fields := f }
    refine wp_ite (fun _ => ?_) fun hno => absurd htype hno
    refine wp_ite (fun hfull => absurd hn (by omega)) fun _ => wp_bind ?_
    suffices hmsg : wp (loginmsg n (pktText contents))
        (fun _ d => (d.w.uTab n).password = (f 4).take maxPasswdLen) { w := {}, fields := f } by
      refine wp_mono hmsg fun r d hd => wp_onWorld ?_
      exact Within.wp (PasswordStays n) fun _ _ h => h.1.trans hd
    refine wp_bind (wp_onWorld (wp_getU (wp_ite (fun hno => absurd rfl hno) fun _ => ?_)))
    refine wp_bind (wp_split (wp_ite (fun hfew => absurd hfew (by omega)) fun _ => ?_))
    refine wp_bind (wp_getField (wp_bind (wp_getField (wp_bind (wp_getField (wp_bind
      (wp_getField ?_)))))))
    rw [split_fields (by omega), split_fields (by omega), split_fields (by omega),
      split_fields (by omega)]
    refine wp_ite (fun hw => absurd hw (hother _ (by decide))) fun _ => ?_
    refine wp_ite (fun hwg => absurd hwg (hother _ (by decide))) fun _ => ?_
    refine wp_ite (fun _ => wp_bind (wp_getField (wp_onWorld ?_))) fun hno => absurd hlogin hno
    have hleft : (split (pktText contents) { w := (getU n {}).2, fields := f }).2.fields 4 = f 4 := by
      simp only [split, List.getD_eq_getElem?_getD, List.getElem?_eq_none (Nat.le_of_eq hlen)]
      rfl
    rw [← hleft]
    exact login_password hchecks rfl fun _ => rfl
  refine ⟨{}, fun _ => [], fun _ => str "x", Tells.outcome (n := n) (.inr (.inr (.inl ?_)))⟩
  rw [hpassword, hpassword]
  decide

/-! ## §8 — leftovers -/

end

end

section
attribute [local instance] smallEnv

/-- A server that knows a nickname with a password. -/
def knowsAl : World :=
  startup {} fun key =>
    if key = dbKey (str "al") "password" ∨ key = dbKey (str "al") "home" then some (str "pw") else none

/-- A login as that nickname without the password field. -/
def alWithoutPassword : Bytes :=
  str "a" ++ str "al" ++ sep ++ str "al" ++ sep ++ str "1" ++ sep ++ str "login"

end

end Icbd.Server
