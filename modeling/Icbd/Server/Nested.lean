/-
# Icbd.Server.Nested — commands inside messages to the automatic user.

For a connection the only way into a second `cmdmsg` is `/m server text`, so a command packet comes
down to one last command, `finalText`. What was run before it has sent packets and changed options,
and no more.
-/
import Icbd.Server.Login

-- every bind doubles the size of the search's argument
set_option synthInstance.maxSize 1000000000000000000000000000000000000000000000000
set_option synthInstance.maxHeartbeats 200000

namespace Icbd.Server

open Icbd.Lib

variable [Env]

/-! ## §1 — who is not logged in -/

section
variable {R : World → World → Prop} [Base R] {n : Int} {d : Daemon}

/-- A command of somebody who is not logged in does nothing. -/
theorem cmdmsg_idle (h : (d.w.uTab n).login ≠ .complete) (depth : Nat) (text : Bytes) :
    R d.w (cmdmsg depth n text d).2.w := by
  change wp (cmdmsg depth n text) (fun _ d' => R d.w d'.w) d
  cases depth with
  | zero => exact Within.within (R := OnWorld R) (x := onWorld (modMisc _)) d
  | succ depth =>
    refine wp_bind (wp_onWorld (wp_getU (wp_whenever (fun hc => absurd hc h) fun _ => ?_)))
    exact Within.within (x := getU n) d.w

/-- Nor does an open message. -/
theorem openmsg_idle (h : (d.w.uTab n).login ≠ .complete) (text : Bytes) :
    R d.w (openmsg n text d).2.w := by
  change wp (openmsg n text) (fun _ d' => R d.w d'.w) d
  refine wp_bind (wp_onWorld (wp_getU (wp_whenever (fun hc => absurd hc h) fun _ => ?_)))
  exact Within.within (x := getU n) d.w

end

/-- Only in group 1 are open messages counted. -/
theorem countOpen_group (n : Int) (w : World) (h : (countOpen n w).1 = true) :
    (w.uTab n).group = str "1" := by
  by_contra hne
  have hno : wp (countOpen n) (fun spam _ => spam = false) w :=
    wp_bind (wp_getW (wp_bind (wp_getU (wp_ite (fun heq => absurd heq hne) fun _ => rfl))))
  exact Bool.false_ne_true (Eq.trans (Eq.symm hno) h)

/-- An open message is messages and stamps around at most one boot, and then its text. -/
theorem openmsg_post {R : World → World → Prop} [Soft R] {n : Int} {d : Daemon} {Q : World → Prop}
    {text : Bytes} (hstop : ∀ w₁, Both R Stilly d.w w₁ → Q w₁)
    (hbody : ∀ w₁ body, Both R Stilly d.w w₁ → Q (openBody n body w₁).2)
    (hboot : (d.w.uTab n).group = str "1" → ∀ w₁ w₂, Both R Stilly d.w w₁ →
      Both R Stilly (bootTo n (str "ICB") w₁).2 w₂ → Q w₂ ∧ ∀ body, Q (openBody n body w₂).2) :
    Q (openmsg n text d).2.w := by
  have hrest {w₁ : World} {fields : Nat → Bytes} (h : ∀ w₂, Both R Stilly w₁ w₂ →
      Q w₂ ∧ ∀ body, Q (openBody n body w₂).2) :
      wp (do
        onWorld (stamp n)
        let k ← split text
        whenever (k = 1) do
          let body ← getField 0
          onWorld (openBody n body)) (fun _ d' => Q d'.w) ⟨w₁, fields⟩ := by
    refine wp_bind (wp_onWorld (Within.wp (Both R Stilly) fun _ w₂ h₂ => wp_bind (wp_split ?_)))
    exact wp_whenever (fun _ => wp_bind (wp_getField (wp_onWorld ((h w₂ h₂).2 _)))) fun _ => (h w₂ h₂).1
  have hget : Both R Stilly d.w (getU n d.w).2 := Within.within d.w
  show wp (openmsg n text) (fun _ d' => Q d'.w) d
  refine wp_bind (wp_onWorld (wp_getU (wp_whenever (fun _ => ?_) fun _ => hstop _ hget)))
  refine wp_bind (wp_onWorld (Within.wp (Both R Stilly) fun _ w₁ h₁ => ?_))
  have h₁ := trans_of (Both R Stilly) hget h₁
  have hcount : Both R Stilly w₁ (countOpen n w₁).2 := Within.within w₁
  have hgroup := countOpen_group n w₁
  refine wp_after (wp_bind (wp_whenever (fun hspam => ?_) fun _ => ?_))
  · have hone : (d.w.uTab n).group = str "1" :=
      (congrArg UserId.group (h₁.2.users n)).symm.trans (hgroup hspam)
    refine wp_bind (wp_onWorld (Within.wp (Both R Stilly) fun _ w₃ h₃ => ?_))
    have h₃ := trans_of (Both R Stilly) h₁ (trans_of (Both R Stilly) hcount h₃)
    exact hrest fun w₄ h₄ => hboot hone w₃ w₄ h₃ h₄
  · refine hrest fun w₂ h₂ => ?_
    have h₂ := trans_of (Both R Stilly) h₁ (trans_of (Both R Stilly) hcount h₂)
    exact ⟨hstop w₂ h₂, fun body => hbody w₂ body h₂⟩

/-! ## §2 — what is not handed to the automatic user -/

/-- No nested commands. -/
def noCmd : Int → Bytes → M Unit := fun _ _ => pure ()

instance {R : World → World → Prop} [IsPreorder World R] (src : Int) (text : Bytes) :
    Within (OnWorld R) (noCmd src text) := by
  unfold noCmd
  infer_instance

section
variable (cmd : Int → Bytes → M Unit) {n : Int} (hn : n < maxRealUsers)

include hn

theorem deliver_real (src : Int) (c : Bytes) : deliver cmd src n c = deliver noCmd src n c := by
  unfold deliver
  rw [if_neg (by omega), if_neg (by omega)]

theorem sendperson_real (src : Int) (msg : Bytes) :
    sendperson cmd src n msg = sendperson noCmd src n msg := by
  unfold sendperson
  simp only [deliver_real cmd hn]

theorem sendbeep_real (dst : Int) : sendbeep cmd n dst = sendbeep noCmd n dst := by
  unfold sendbeep autoBeep
  simp only [sendperson_real cmd hn]

theorem sBeep_real (arg : Bytes) : sBeep cmd n arg = sBeep noCmd n arg := by
  unfold sBeep
  simp only [sendbeep_real cmd hn]

theorem readOne_real : readOne cmd n = readOne noCmd n := by
  funext nick i
  unfold readOne sendPersonStored
  simp only [deliver_real cmd hn]

theorem autoPlain_real (c : AutoCmd) : autoPlain cmd n c = autoPlain noCmd n c := by
  cases c <;> simp only [autoPlain, nickreadmsg, readOne_real cmd hn,
    sendperson_real cmd hn]

theorem sAuto_real : sAuto cmd n = sAuto noCmd n := by
  unfold sAuto
  simp only [autoPlain_real cmd hn]

/-- A command of a connection other than `m` calls no `cmdmsg`. -/
theorem runCommand_real {argc : Nat} {c : Command} (hc : c ≠ .m) :
    runCommand cmd n argc c = runCommand noCmd n argc c := by
  cases c <;> first
    | (exact absurd rfl hc)
    | (simp only [runCommand, sBeep_real cmd hn, sAuto_real cmd hn])

end

section
variable {cmd cmd' : Int → Bytes → M Unit} {n : Int}

theorem deliver_congr {src : Int} (h : cmd src = cmd' src) (dst : Int) (msg : Bytes) :
    deliver cmd src dst msg = deliver cmd' src dst msg := by
  unfold deliver
  rw [h]

/-- Stored messages are delivered for slot -1. -/
theorem readOne_congr (h : cmd (-1) = cmd' (-1)) : readOne cmd n = readOne cmd' n := by
  funext nick i
  unfold readOne sendPersonStored
  simp only [deliver_congr h]

/-- The nested commands of a command are run for its own slot, the automatic user's, or slot -1. -/
theorem runCommand_congr (hn : cmd n = cmd' n) (hs : cmd nickserv = cmd' nickserv)
    (h1 : cmd (-1) = cmd' (-1)) (argc : Nat) (c : Command) :
    runCommand cmd n argc c = runCommand cmd' n argc c := by
  have hperson {src : Int} (h : cmd src = cmd' src) (dst : Int) (msg : Bytes) :
      sendperson cmd src dst msg = sendperson cmd' src dst msg := by
    unfold sendperson
    simp only [deliver_congr h]
  have hread : readOne cmd n = readOne cmd' n := readOne_congr h1
  have hplain (auto : AutoCmd) : autoPlain cmd n auto = autoPlain cmd' n auto := by
    cases auto <;> simp only [autoPlain, nickreadmsg, hread, hperson hs]
  cases c with
  | beep => simp only [runCommand, sBeep, sendbeep, autoBeep, hperson hs]
  | m => simp only [runCommand, sPersonal, hperson hn]
  | other => simp only [runCommand, sAuto, hplain]
  | _ => rfl

end

/-! ## §3 — a message to the automatic user -/

omit [Env] in
/-- What `split` counts when there is a `^A` in the string. -/
theorem two_le_length_splitFields {a b : Bytes} : 2 ≤ (splitFields (a ++ 1 :: b)).length := by
  have hdrop : ∃ rest, (a ++ 1 :: b).dropWhile (· ≠ 1) = 1 :: rest := by
    induction a with
    | nil => exact ⟨b, by simp⟩
    | cons x a ih =>
      by_cases hx : x = 1
      · exact ⟨a ++ 1 :: b, by simp [hx]⟩
      · simpa [List.dropWhile_cons, hx] using ih
  obtain ⟨rest, hrest⟩ := hdrop
  change 2 ≤ (splitPieces (19 + 1) _).length
  rw [splitPieces, hrest]
  have : 1 ≤ (splitPieces 19 rest).length := by
    unfold splitPieces
    split <;> simp
  simpa using this

/-- The text behind the sender's name in a personal message. -/
def messageText (nick msg : Bytes) : Bytes :=
  (splitFields (str " " ++ packet pktPersonal (nickText nick msg))).getD 1 []

omit [Env] in
/-- However long the name, the `^A` behind it and the start of the message fit the packet. -/
theorem packet_personal (nick msg : Bytes) : ∃ k, 148 ≤ k ∧ packet pktPersonal (nickText nick msg) =
    (pktPersonal :: filtertext nick (maxNickLen + 1)) ++ 1 ::
      (filtertext msg (maxPktData - maxNickLen - 1)).take k := by
  have hlen : (filtertext nick (maxNickLen + 1)).length ≤ 104 := filtertext_length_le nick 13
  refine ⟨252 - (filtertext nick (maxNickLen + 1)).length, by omega, ?_⟩
  have hk : 254 - ((filtertext nick (maxNickLen + 1)).length + 1) =
      252 - (filtertext nick (maxNickLen + 1)).length + 1 := by omega
  change List.take 254 (pktPersonal :: (filtertext nick (maxNickLen + 1) ++ [1] ++
    filtertext msg (maxPktData - maxNickLen - 1))) = _
  rw [List.append_assoc, ← List.cons_append, List.take_append,
    List.take_of_length_le (by simp; omega), List.length_cons, hk]
  rfl

omit [Env] in
/-- The message is a second field. -/
theorem two_le_message_fields (nick msg : Bytes) :
    2 ≤ (splitFields (str " " ++ packet pktPersonal (nickText nick msg))).length := by
  obtain ⟨k, -, hpkt⟩ := packet_personal nick msg
  rw [hpkt, ← List.append_assoc]
  exact two_le_length_splitFields

/-- The command in a message to the automatic user, as `doSend` hands it to `cmdmsg`. -/
def serverText (nick msg : Bytes) : Bytes :=
  snprintf (maxPktData - 2) (getword (messageText nick msg) ++ sep ++ getTail (messageText nick msg))

/-! ## §4 — the last command -/

/-- The command of a text. -/
def commandOf (text : Bytes) : Command :=
  Command.ofIndex (lookup ((splitFields text).getD 0 []) commandTable)

/-- The argument of a text. -/
def argOf (text : Bytes) : Bytes := (splitFields text).getD 1 []

/-- A message to the automatic user. -/
def forServer (w : World) (text : Bytes) : Bool :=
  splitCount text = 2 ∧ commandOf text = .m ∧ findUser w (getword (argOf text)) ≥ maxRealUsers

/-- The text of the command a command packet comes down to. -/
def finalText (w : World) (n : Int) : Nat → Bytes → Bytes
  | 0, text => text
  | depth + 1, text =>
      if forServer w text then
        finalText w n depth (serverText (w.uTab n).nickname (getTail (argOf text)))
      else text

theorem Calmly.forServer {w w' : World} (h : Calmly w w') (text : Bytes) :
    forServer w' text = forServer w text := by
  simp only [Server.forServer, h.findUser]

theorem Calmly.finalText {w w' : World} (h : Calmly w w') (n : Int) (depth : Nat) (text : Bytes) :
    finalText w' n depth text = finalText w n depth text := by
  induction depth generalizing text with
  | zero => rfl
  | succ depth ih => simp only [Server.finalText, h.forServer, h.nickname, ih]

/-- `fields[]` starts with the fields of a text. -/
def Daemon.holds (d : Daemon) (text : Bytes) : Prop :=
  ∀ i < (splitFields text).length, d.fields i = (splitFields text).getD i []

omit [Env] in
theorem length_splitFields_pos (text : Bytes) : 0 < (splitFields text).length := by
  change 0 < (splitPieces (19 + 1) text).length
  unfold splitPieces
  split <;> simp

/-- A message passed on: to the automatic user it is a command of the sender, with his name in front
of it cut off. -/
theorem deliver_wp {cmd : Int → Bytes → M Unit} {src dst : Int} {nick msg : Bytes}
    {Q : Unit → Daemon → Prop} {d : Daemon}
    (hcmd : dst ≥ maxRealUsers → ∀ d', d'.w = d.w → wp (cmd src (serverText nick msg)) Q d')
    (hsend : wp (onWorld (doSend dst (packet pktPersonal (nickText nick msg)))) Q d) :
    wp (deliver cmd src dst (packet pktPersonal (nickText nick msg))) Q d := by
  refine wp_ite (fun hdst => ?_) fun _ => hsend
  refine wp_bind (wp_split (wp_bind (wp_getField ?_)))
  rw [split_fields (two_le_message_fields nick msg)]
  exact hcmd hdst _ rfl

section
variable {R : World → World → Prop} [Soft R] {cmd : Int → Bytes → M Unit} {n dst : Int}
  {msg arg : Bytes} {d : Daemon}

/-- A personal message: packets and options, and for the automatic user the command in it. -/
theorem sendperson_rel
    (hcmd : dst ≥ maxRealUsers → ∀ d', Stilly d.w d'.w →
      R d'.w (cmd n (serverText (d.w.uTab n).nickname msg) d').2.w) :
    R d.w (sendperson cmd n dst msg d).2.w := by
  change wp (sendperson cmd n dst msg) (fun _ d' => R d.w d'.w) d
  refine wp_bind (wp_onWorld (wp_getW (wp_bind (wp_onWorld (wp_getU ?_)))))
  have hget : Both R Stilly d.w (getU n d.w).2 := Within.within d.w
  refine wp_ite (fun _ => trans_of R hget.1 (Within.within _)) fun _ => wp_bind (wp_onWorld ?_)
  refine Within.wp (Both R Stilly) fun _ w₁ h₁ => ?_
  have h₁ := trans_of (Both R Stilly) hget h₁
  refine deliver_wp (fun hserver d₂ hd₂ => ?_) (trans_of R h₁.1 (Within.within _))
  exact trans_of R (hd₂ ▸ h₁.1) (hcmd hserver d₂ (hd₂ ▸ h₁.2))

/-- The command in a message that is sent later on. -/
theorem sendperson_after {w : World} (h : Both R Stilly d.w w)
    (hcmd : dst ≥ maxRealUsers → ∀ d', Stilly d.w d'.w →
      R d'.w (cmd n (serverText (d.w.uTab n).nickname msg) d').2.w) :
    R d.w (sendperson cmd n dst msg { d with w := w }).2.w := by
  refine trans_of R h.1 (sendperson_rel fun hserver d' hS => ?_)
  have hnick : (w.uTab n).nickname = (d.w.uTab n).nickname := h.2.calmly.nickname n
  rw [hnick]
  exact hcmd hserver d' (trans_of Stilly h.2 hS)

/-- `/m`. -/
theorem sPersonal_rel
    (hcmd : findUser d.w (getword arg) ≥ maxRealUsers → ∀ d', Stilly d.w d'.w →
      R d'.w (cmd n (serverText (d.w.uTab n).nickname (getTail arg)) d').2.w) :
    R d.w (sPersonal cmd n arg d).2.w := by
  change wp (sPersonal cmd n arg) (fun _ d' => R d.w d'.w) d
  refine wp_bind (wp_onWorld (wp_getW (wp_ite (fun _ => Within.within d.w) fun _ => ?_)))
  refine wp_bind (wp_onWorld (Within.wp (Both R Stilly) fun _ w₁ h₁ => wp_bind ?_))
  exact trans_of R (sendperson_after h₁ hcmd) (Within.within _)

/-- `/beep`: the automatic user answers a beep with a message, which is a command if he has beeped
himself. -/
theorem sBeep_rel
    (hcmd : n ≥ maxRealUsers → ∀ d', Stilly d.w d'.w → R d'.w
      (cmd nickserv (serverText (d.w.uTab nickserv).nickname (str "Beep yerself!")) d').2.w) :
    R d.w (sBeep cmd n arg d).2.w := by
  change wp (sBeep cmd n arg) (fun _ d' => R d.w d'.w) d
  have hkeep {x : W Unit} [Within R x] : wp (onWorld x) (fun _ d' => R d.w d'.w) d :=
    Within.within d.w
  refine wp_bind (wp_onWorld (wp_getW (wp_ite (fun _ => refl_of R d.w) fun _ => ?_)))
  refine wp_ite (fun _ => hkeep) fun _ => wp_bind ?_
  suffices hbeep : R d.w (sendbeep cmd n (findUser d.w (getword arg)) d).2.w from
    trans_of R hbeep (Within.within _)
  change wp (sendbeep cmd n _) (fun _ d' => R d.w d'.w) d
  have hget : Both R Stilly d.w (getU (findUser d.w (getword arg)) (getU n d.w).2).2 :=
    trans_of (Both R Stilly) (Within.within d.w) (Within.within _)
  refine wp_bind (wp_onWorld (wp_getU (wp_bind (wp_onWorld (wp_getU ?_)))))
  refine wp_ite (fun _ => trans_of R hget.1 (Within.within _)) fun _ => ?_
  refine wp_ite (fun _ => wp_bind ?_) fun _ => trans_of R hget.1 (Within.within _)
  exact trans_of R (sendperson_after hget hcmd) (Within.within _)

end

/-- A command packet of a connection is packets and options, and its last command. -/
theorem cmdmsg_rel {R : World → World → Prop} [Soft R] {n : Int} (hn : n < maxRealUsers)
    {depth : Nat} {text final : Bytes} {d : Daemon} (hfinal : finalText d.w n depth text = final)
    (hrun : ∀ d', Stilly d.w d'.w → (d'.w.uTab n).login = .complete → d'.holds final →
      commandOf final ≠ .m →
      R d'.w (runCommand noCmd n (splitCount final) (commandOf final) d').2.w) :
    R d.w (cmdmsg depth n text d).2.w := by
  induction depth generalizing d text with
  | zero => exact Within.within (R := OnWorld R) (x := onWorld (modMisc _)) d
  | succ depth ih =>
    change wp (cmdmsgWith (cmdmsg depth) n text) (fun _ d' => R d.w d'.w) d
    have hget : Both R Stilly d.w (getU n d.w).2 := Within.within d.w
    refine wp_bind (wp_onWorld (wp_getU (wp_whenever (fun hlogin => ?_) fun _ => hget.1)))
    refine wp_bind (wp_onWorld (Within.wp (Both R Stilly) fun _ w₁ h₁ => ?_))
    have h₁ := trans_of (Both R Stilly) hget h₁
    have hC₁ : Calmly d.w w₁ := h₁.2.calmly
    refine wp_bind (wp_split (wp_bind (wp_getField ?_)))
    rw [split_fields (length_splitFields_pos text)]
    change wp (runCommand (cmdmsg depth) n (splitCount text) (commandOf text)) _ _
    by_cases hm : commandOf text = .m
    · rw [hm]
      refine wp_whenever (fun hargc => wp_bind (wp_getField ?_)) fun _ => h₁.1
      have hlen : 1 < (splitFields text).length := by
        unfold splitCount at hargc
        omega
      rw [split_fields hlen]
      refine trans_of R h₁.1 (sPersonal_rel fun hserver d₂ hS₂ => ?_)
      have hS : Stilly d.w d₂.w := trans_of Stilly h₁.2 hS₂
      refine ih ?_ fun d' hS' => hrun d' (trans_of Stilly hS hS')
      have hfor : forServer d.w text := by
        rw [← hC₁.forServer]
        exact decide_eq_true ⟨hargc, hm, hserver⟩
      have hnick : (w₁.uTab n).nickname = (d.w.uTab n).nickname := hC₁.nickname n
      rw [hS.calmly.finalText, ← hfinal, finalText, if_pos hfor, ← hnick]
      rfl
    · have hnot : ¬ forServer d.w text := by simp [forServer, hm]
      rw [finalText, if_neg hnot] at hfinal
      subst hfinal
      rw [runCommand_real _ hn hm]
      have hlogin₁ : (w₁.uTab n).login = .complete := (hC₁.login n).trans hlogin
      have hsplit := hrun (split text { d with w := w₁ }).2 h₁.2 hlogin₁ (fun i hi => split_fields hi) hm
      exact trans_of R h₁.1 hsplit

/-! ## §5 — the last command, on any slot

A connection on the slot of the automatic user has more ways to a second `cmdmsg`: it may beep itself
and it is sent its own usage and its own mail. Each of them leads to at most one command that counts,
since mail is delivered in the name of slot -1, which never logs in. -/

/-- The relation, as long as slot -1 is not logged in. -/
def Asleep (R : World → World → Prop) (w w' : World) : Prop :=
  (w.uTab (-1)).login ≠ .complete → R w w' ∧ (w'.uTab (-1)).login ≠ .complete

section
variable {R : World → World → Prop} {n : Int}

instance [Base R] : Base (Asleep R) where
  refl w h := ⟨refl_of R w, h⟩
  trans _ _ _ h₁ h₂ h := ⟨trans_of R (h₁ h).1 (h₂ (h₁ h).2).1, (h₂ (h₁ h).2).2⟩
  misc w m h := ⟨Base.misc w m, h⟩

instance [Soft R] : Soft (Asleep R) where
  drops w n h := ⟨Drops.drops w n, h⟩
  toPlain _ := ⟨fun w c hc h => ⟨PlainTo.sends w c hc, h⟩⟩
  toUNeat k := by
    refine ⟨fun w f hf h => ⟨UNeatAt.uneat w f hf, ?_⟩⟩
    by_cases hk : -1 = k
    · subst hk
      simpa [World.modU] using h
    · simpa [World.modU, Function.update_of_ne hk] using h

instance {key : String} [DbTo R key] : DbTo (Asleep R) key := ⟨fun w nick v h => ⟨DbTo.db w nick v, h⟩⟩

instance [Soft R] {depth : Nat} {text : Bytes} :
    Within (OnWorld (Asleep R)) (cmdmsg depth (-1) text) where
  within d h := by
    obtain ⟨hR, hS⟩ : Both R Stilly d.w (cmdmsg depth (-1) text d).2.w := cmdmsg_idle h depth text
    exact ⟨hR, fun hc => h ((hS.calmly.login (-1)).symm.trans hc)⟩

variable [Soft R] [∀ key, DbTo R key] {cmd : Int → Bytes → M Unit} {d : Daemon}

/-- Reading mail: only the command of slot -1 is called. -/
theorem nickreadmsg_out (hout : (d.w.uTab (-1)).login ≠ .complete)
    (hidle : ∀ text, Within (OnWorld (Asleep R)) (cmd (-1) text)) : R d.w (nickreadmsg cmd n d).2.w := by
  have hwithin (src : Int) (text : Bytes) : Within (OnWorld (Asleep R))
      ((fun src => if src = -1 then cmd (-1) else noCmd src) src text) := by
    by_cases hsrc : src = -1
    · simpa [hsrc] using hidle text
    · simp only [hsrc, ↓reduceIte]
      infer_instance
  have hone : readOne cmd n = readOne (fun src => if src = -1 then cmd (-1) else noCmd src) n :=
    readOne_congr rfl
  have heq : nickreadmsg cmd n =
      nickreadmsg (fun src => if src = -1 then cmd (-1) else noCmd src) n := by
    unfold nickreadmsg
    rw [hone]
  rw [heq]
  exact (Within.within (R := OnWorld (Asleep R)) d hout).1

/-- The automatic user's commands. -/
theorem sAuto_rel (hout : (d.w.uTab (-1)).login ≠ .complete)
    (hidle : ∀ text, Within (OnWorld (Asleep R)) (cmd (-1) text))
    (hcmd : n ≥ maxRealUsers → ∀ text d', Stilly d.w d'.w → R d'.w (cmd nickserv text d').2.w)
    (hrun : R d.w (sAuto noCmd n d).2.w) : R d.w (sAuto cmd n d).2.w := by
  by_cases hreads : (AutoCmd.ofIndex (lookup (getword (d.fields 0)) autoTable)).readsArg
  · have heq : sAuto cmd n d = sAuto noCmd n d := by simp [sAuto, hreads]
    rwa [heq]
  · show wp (sAuto cmd n) (fun _ d' => R d.w d'.w) d
    refine wp_bind (wp_getField ?_)
    rw [if_neg hreads]
    refine wp_bind ?_
    suffices hplain : R d.w (autoPlain cmd n
        (AutoCmd.ofIndex (lookup (getword (d.fields 0)) autoTable)) d).2.w from
      trans_of R hplain (Within.within _)
    have hsend : R d.w (sendperson cmd nickserv n autoUsage d).2.w :=
      sendperson_rel fun hserver d' hS => hcmd hserver _ d' hS
    cases AutoCmd.ofIndex (lookup (getword (d.fields 0)) autoTable) with
    | read => exact nickreadmsg_out hout hidle
    | info | help | secure | nosecure =>
      unfold autoPlain
      exact Within.within (R := OnWorld R) d
    | _ => exact hsend

/-- **A command packet on any slot is packets and options, and its last command.** -/
theorem cmdmsg_last (hn : inUsers n) {depth : Nat} {text : Bytes}
    (hout : (d.w.uTab (-1)).login ≠ .complete)
    (hrun : ∀ d' final, Stilly d.w d'.w → (d'.w.uTab n).login = .complete → d'.holds final →
      R d'.w (runCommand noCmd n (splitCount final) (commandOf final) d').2.w) :
    R d.w (cmdmsg depth n text d).2.w := by
  induction depth generalizing d text with
  | zero => exact Within.within (R := OnWorld R) (x := onWorld (modMisc _)) d
  | succ depth ih =>
    show wp (cmdmsgWith (cmdmsg depth) n text) (fun _ d' => R d.w d'.w) d
    have hget : Both R Stilly d.w (getU n d.w).2 := Within.within d.w
    refine wp_bind (wp_onWorld (wp_getU (wp_whenever (fun hlogin => ?_) fun _ => hget.1)))
    refine wp_bind (wp_onWorld (Within.wp (Both R Stilly) fun _ w₁ h₁ => ?_))
    have h₁ := trans_of (Both R Stilly) hget h₁
    have hC₁ : Calmly d.w w₁ := h₁.2.calmly
    refine wp_bind (wp_split (wp_bind (wp_getField ?_)))
    rw [split_fields (length_splitFields_pos text)]
    refine trans_of R h₁.1 ?_
    show wp (runCommand (cmdmsg depth) n (splitCount text) (commandOf text))
      (fun _ d' => R w₁ d'.w) (split text { d with w := w₁ }).2
    -- what the commands inside may rely on
    have hinner {d' : Daemon} (hS : Stilly w₁ d'.w) (text : Bytes) :
        R d'.w (cmdmsg depth n text d').2.w := by
      have hS' : Stilly d.w d'.w := trans_of Stilly h₁.2 hS
      refine ih (fun hc => hout ((hS'.calmly.login (-1)).symm.trans hc)) fun d₂ final hS₂ => ?_
      exact hrun d₂ final (trans_of Stilly hS' hS₂)
    have hserv (hbig : n ≥ maxRealUsers) : n = nickserv := eq_nickserv hn hbig
    have hlast := hrun (split text { d with w := w₁ }).2 text h₁.2 ((hC₁.login n).trans hlogin)
      fun i hi => split_fields hi
    cases hc : commandOf text with
    | m =>
      refine wp_whenever (fun _ => wp_bind (wp_getField ?_)) fun _ => refl_of R _
      exact sPersonal_rel fun _ d' hS => hinner hS _
    | beep =>
      refine wp_whenever (fun _ => wp_bind (wp_getField ?_)) fun _ => refl_of R _
      refine sBeep_rel fun hbig d' hS => ?_
      rw [← hserv hbig]
      exact hinner hS _
    | other =>
      rw [hc] at hlast
      have hkeep {x : W Unit} [Within R x] :
          wp (onWorld x) (fun _ d' => R w₁ d'.w) (split text { d with w := w₁ }).2 :=
        Within.within w₁
      refine wp_bind (wp_getField (wp_ite (fun hauto => ?_) fun _ => hkeep))
      refine sAuto_rel (fun hc => hout ((hC₁.login (-1)).symm.trans hc)) (fun _ => inferInstance)
        (fun hbig text d' hS => ?_) ?_
      · rw [← hserv hbig]
        exact hinner hS text
      · simpa [runCommand, hauto] using hlast
    | _ =>
      rw [hc] at hlast
      exact hlast

end

end Icbd.Server
