/-
# Icbd.Server.Final — the command a packet comes down to, exactly.

`finalText` names the last command of a packet and over-approximates: a message the automatic user has
hushed goes nowhere, and a command without an argument reads what an earlier one has left behind.
`finalCommand` follows the messages as they are delivered and gives the command that is run with the
argument it finds. What happens before it stamps the sender's entry and sends packets.
-/
import Icbd.Server.Leftover
import Icbd.Sanitise
import Mathlib.Data.List.TakeWhile

-- every bind doubles the size of the search's argument
set_option synthInstance.maxSize 1000000000000000000000000000000000000000000000000
set_option synthInstance.maxHeartbeats 200000

namespace Icbd.Server

open Icbd.Lib

section
variable [Env]

/-! ## §1 — the text of a message -/

omit [Env] in
/-- Two strings without `^A`, and one between them. -/
theorem splitFields_pair {a b : Bytes} (ha : 1 ∉ a) (hb : 1 ∉ b) :
    splitFields (a ++ 1 :: b) = [a, b] := by
  have hone (x : UInt8) (hx : x ∈ a) : decide (x ≠ 1) = true := by
    simp only [decide_eq_true_eq]
    rintro rfl
    exact ha hx
  have htwo : b.dropWhile (· ≠ 1) = [] := by
    rw [List.dropWhile_eq_nil_iff]
    intro x hx
    simp only [decide_eq_true_eq]
    rintro rfl
    exact hb hx
  have hdrop : (a ++ 1 :: b).dropWhile (· ≠ 1) = 1 :: b := by
    rw [List.dropWhile_append_of_pos hone]
    simp
  have htake : (a ++ 1 :: b).takeWhile (· ≠ 1) = a := by
    rw [List.takeWhile_append_of_pos hone]
    simp
  change splitPieces (19 + 1) _ = _
  rw [splitPieces, hdrop, htake]
  change a :: splitPieces (18 + 1) b = _
  rw [splitPieces, htwo]

omit [Env] in
/-- The text of a message arrives as it was filtered, up to the end of the packet. -/
theorem messageText_eq (nick msg : Bytes) : ∃ k, 148 ≤ k ∧
    messageText nick msg = (filtertext msg (maxPktData - maxNickLen - 1)).take k := by
  have hclean (s : Bytes) (len : Nat) : 1 ∉ filtertext s len := fun h =>
    absurd (filtertext_printable h) (by decide)
  obtain ⟨k, hk, hpkt⟩ := packet_personal nick msg
  refine ⟨k, hk, ?_⟩
  rw [messageText, hpkt, ← List.append_assoc, splitFields_pair]
  · rfl
  · have hhead : 1 ∉ str " " ++ [pktPersonal] := by decide
    simpa using ⟨fun h => hhead (by simp [h]), fun h => hhead (by simp [← h]), hclean nick _⟩
  · exact fun h => hclean msg _ (List.mem_of_mem_take h)

omit [Env] in
/-- The command in a message is its first word. -/
theorem serverText_command (nick msg : Bytes) :
    (splitFields (serverText nick msg)).getD 0 [] = getword (messageText nick msg) := by
  obtain ⟨k, -, htext⟩ := messageText_eq nick msg
  have hclean : 1 ∉ messageText nick msg := by
    rw [htext]
    exact fun h => absurd (filtertext_printable (List.mem_of_mem_take h)) (by decide)
  have hword : 1 ∉ getword (messageText nick msg) := fun h =>
    hclean (List.takeWhile_subset _ (List.mem_of_mem_take h))
  have hlen : (getword (messageText nick msg)).length ≤ 64 := List.length_take_le _ _
  have htail : 1 ∉ getTail (messageText nick msg) := fun h =>
    hclean (List.dropWhile_subset _ (List.dropWhile_subset _ h))
  have hcut : serverText nick msg = getword (messageText nick msg) ++ 1 ::
      (getTail (messageText nick msg)).take (250 - (getword (messageText nick msg)).length) := by
    have hk : 251 - (getword (messageText nick msg)).length =
        250 - (getword (messageText nick msg)).length + 1 := by omega
    show List.take 251 (getword (messageText nick msg) ++ [1] ++ getTail (messageText nick msg)) = _
    rw [List.append_assoc, List.take_append, List.take_of_length_le (by omega), hk]
    rfl
  rw [hcut, splitFields_pair hword fun h => htail (List.mem_of_mem_take h)]
  rfl

omit [Env] in
/-- A message of the server whose first word is short. -/
theorem getword_messageText {nick msg word : Bytes} (rest : Bytes)
    (hmsg : filtertext msg (maxPktData - maxNickLen - 1) = word ++ 32 :: rest)
    (hword : word.all fun b => !isBlank b) (hlen : word.length ≤ 64) :
    getword (messageText nick msg) = word := by
  obtain ⟨k, hk, htext⟩ := messageText_eq nick msg
  have hcut : (word ++ 32 :: rest).take k = word ++ 32 :: rest.take (k - word.length - 1) := by
    have hsucc : k - word.length = k - word.length - 1 + 1 := by omega
    rw [List.take_append, List.take_of_length_le (by omega)]
    nth_rewrite 1 [hsucc]
    rfl
  rw [htext, hmsg, hcut, getword, List.takeWhile_append_of_pos (List.all_eq_true.mp hword)]
  simp [isBlank, List.take_of_length_le hlen]

omit [Env] in
theorem serverText_usage (nick : Bytes) : (splitFields (serverText nick autoUsage)).getD 0 [] = str "usage:" := by
  rw [serverText_command]
  exact getword_messageText ((filtertext autoUsage (maxPktData - maxNickLen - 1)).drop 7)
    (by decide +kernel) (by decide) (by decide)

omit [Env] in
/-- What the automatic user says by himself: the command in it is a beep, or none at all. -/
theorem ownMessage (nick : Bytes) {msg : Bytes} (h : msg = autoUsage ∨ msg = str "Beep yerself!") :
    commandOf (serverText nick msg) = .beep ∨ commandOf (serverText nick msg) = .other ∧
      lookup ((splitFields (serverText nick msg)).getD 0 []) autoTable = -1 := by
  rcases h with heq | heq <;> rw [heq]
  · rw [commandOf, serverText_usage]
    decide
  · have hfirst : getword (messageText nick (str "Beep yerself!")) = str "Beep" :=
      getword_messageText (str "yerself!") (by decide +kernel) (by decide) (by decide)
    rw [commandOf, serverText_command, hfirst]
    decide

/-! ## §2 — on the way to the command -/

/-- Nothing has happened but packets, and somebody's time of his last packet. -/
structure Prelude (w w' : World) : Prop where
  users : ∀ i, { w'.uTab i with tRecv := 0 } = { w.uTab i with tRecv := 0 }
  groups : w'.gTab = w.gTab
  db : w'.db = w.db
  sys : w'.sys = w.sys
  kill : w'.sKill = w.sKill

section
variable {n i : Int} {w w' : World} {c cls msg : Bytes}

instance : IsPreorder World Prelude where
  refl _ := ⟨fun _ => rfl, rfl, rfl, rfl, rfl⟩
  trans _ _ _ h₁ h₂ := ⟨fun i => (h₂.users i).trans (h₁.users i), h₂.groups.trans h₁.groups,
    h₂.db.trans h₁.db, h₂.sys.trans h₁.sys, h₂.kill.trans h₁.kill⟩

instance : Within Prelude (getU n) := ⟨fun _ => ⟨fun _ => rfl, rfl, rfl, rfl, rfl⟩⟩

instance : Within Prelude (doSend n c) where
  within w := by
    change wp (doSend n c) (fun _ => Prelude w) w
    refine wp_bind (wp_getW (wp_whenever (fun _ => ?_) fun _ => refl_of Prelude w))
    exact ⟨fun _ => rfl, rfl, rfl, rfl, rfl⟩

instance : Within Prelude (sendstatus n cls msg) := by
  unfold sendstatus
  infer_instance

instance : Within Prelude (pester n i) := by
  unfold pester
  infer_instance

instance : Within Prelude (stamp n) where
  within w := by
    refine ⟨fun j => ?_, rfl, rfl, rfl, rfl⟩
    by_cases h : j = n <;> simp [stamp, modUOpts, World.modU, Function.update, h]

omit [Env] in
theorem Prelude.user {α : Type} (h : Prelude w w') (i : Int) (f : User → α)
    (hf : ∀ u t, f { u with tRecv := t } = f u) : f (w'.uTab i) = f (w.uTab i) := by
  rw [← hf _ 0, h.users i, hf]

omit [Env] in
theorem Prelude.stilly (h : Prelude w w') : Stilly w w' :=
  ⟨fun i => h.user i (fun u => u.toUserId) fun _ _ => rfl, h.groups, h.db, h.sys⟩

omit [Env] in
theorem Prelude.hushes (h : Prelude w w') (dst src : Int) : hushes w' dst src = hushes w dst src := by
  have hid (i : Int) := h.stilly.users i
  have hsite : (w'.uTab dst).priSHushed = (w.uTab dst).priSHushed := h.user dst (·.priSHushed) fun _ _ => rfl
  have hnick : (w'.uTab dst).priNHushed = (w.uTab dst).priNHushed := h.user dst (·.priNHushed) fun _ _ => rfl
  simp only [Server.hushes, address, hsite, hnick, congrArg UserId.nickname (hid _),
    congrArg UserId.loginid (hid _), congrArg UserId.nodeid (hid _)]

end

/-! ## §3 — a message to the automatic user -/

/-- The argument of `/m` is for the automatic user, who has not hushed the sender. -/
def heard (w : World) (n : Int) (arg : Bytes) : Prop :=
  findUser w (getword arg) ≥ maxRealUsers ∧ ¬ hushes w (findUser w (getword arg)) n

instance {w : World} {n : Int} {v : Bytes} : Decidable (heard w n v) :=
  inferInstanceAs (Decidable (_ ∧ _))

section
variable {n : Int} {w w' : World}

theorem Prelude.heard (h : Prelude w w') (n : Int) (arg : Bytes) : heard w' n arg = heard w n arg := by
  simp only [Server.heard, h.stilly.calmly.findUser, h.hushes]

/-- A personal message, with the command inside it. -/
theorem sendperson_wp {R : World → World → Prop} [Soft R] {cmd : Int → Bytes → M Unit} {dst : Int}
    {msg : Bytes} {d : Daemon} {Q : Daemon → Prop}
    (hstop : ¬ (dst ≥ maxRealUsers ∧ ¬ hushes d.w dst n) → ∀ d', R d.w d'.w → Q d')
    (hcmd : dst ≥ maxRealUsers → ¬ hushes d.w dst n → ∀ d', Prelude d.w d'.w → R d.w d'.w →
      d'.fields 1 = messageText (d.w.uTab n).nickname msg →
      wp (cmd n (serverText (d.w.uTab n).nickname msg)) (fun _ => Q) d') :
    wp (sendperson cmd n dst msg) (fun _ => Q) d := by
  refine wp_bind (wp_onWorld (wp_getW (wp_bind (wp_onWorld (wp_getU ?_)))))
  have hget : R d.w (getU n d.w).2 := Within.within d.w
  have hPget : Prelude d.w (getU n d.w).2 := Within.within d.w
  refine wp_ite (fun hhush => ?_) fun hhush => wp_bind (wp_onWorld ?_)
  · refine hstop (fun h => h.2 hhush) _ (trans_of R hget ?_)
    exact Within.within (R := OnWorld R) (x := onWorld (sendstatus n _ _)) ⟨(getU n d.w).2, d.fields⟩
  have hlpriv (f : (Int → Int) → Int → Int) : Within Prelude (modMisc fun m => { m with lprivId := f m.lprivId }) :=
    ⟨fun _ => ⟨fun _ => rfl, rfl, rfl, rfl, rfl⟩⟩
  have hW := hlpriv fun l => Function.update l dst n
  refine Within.wp_both R Prelude fun _ w₂ h₂ hP₂ => ?_
  have h₂ : R d.w w₂ := trans_of R hget h₂
  have hP₂ : Prelude d.w w₂ := trans_of Prelude hPget hP₂
  refine wp_ite (fun hserver => ?_) fun hreal => ?_
  · refine wp_bind (wp_split (wp_bind (wp_getField ?_)))
    have hfield := split_fields (d := { d with w := w₂ }) (two_le_message_fields (d.w.uTab n).nickname msg)
    rw [hfield]
    exact hcmd hserver hhush _ hP₂ h₂ hfield
  · refine hstop (fun h => hreal h.1) _ (trans_of R h₂ ?_)
    exact Within.within (R := OnWorld R) (x := onWorld (doSend _ _)) ⟨w₂, d.fields⟩

/-- `/m`, with the command inside it. -/
theorem sPersonal_wp {R : World → World → Prop} [Soft R] {cmd : Int → Bytes → M Unit} {arg : Bytes}
    {d : Daemon} {Q : Daemon → Prop}
    (hstop : ¬ heard d.w n arg → ∀ d', R d.w d'.w → Q d')
    (hcmd : heard d.w n arg → ∀ d', Prelude d.w d'.w → R d.w d'.w →
      d'.fields 1 = messageText (d.w.uTab n).nickname (getTail arg) →
      wp (cmd n (serverText (d.w.uTab n).nickname (getTail arg)))
        (fun _ t => ∀ d'', R t.w d''.w → Q d'') d') :
    wp (sPersonal cmd n arg) (fun _ => Q) d := by
  refine wp_bind (wp_onWorld (wp_getW (wp_ite (fun hneg => ?_) fun _ => ?_)))
  · refine hstop (fun h => ?_) _ (Within.within d.w)
    have := h.1
    omega
  have hecho (d' : Daemon) : R d'.w
      (onWorld (echoAndAway n (findUser d.w (getword arg)) (getTail arg)) d').2.w := Within.within d'.w
  refine wp_bind (wp_onWorld (Within.wp_both R Prelude fun _ w₁ h₁ hP₁ => wp_bind ?_))
  have hnick : (w₁.uTab n).nickname = (d.w.uTab n).nickname := congrArg UserId.nickname (hP₁.stilly.users n)
  have hheard : findUser d.w (getword arg) ≥ maxRealUsers ∧ ¬ hushes w₁ (findUser d.w (getword arg)) n ↔
      heard d.w n arg := by rw [hP₁.hushes]; rfl
  refine wp_mono (Q := fun _ t => ∀ d'', R t.w d''.w → Q d'') ?_ fun _ t ht => ht _ (hecho t)
  refine sendperson_wp (R := R) (fun hno d' hd' d'' hd'' => ?_) fun hserver hhush d' hP hR hfield => ?_
  · exact hstop (mt hheard.mpr hno) _ (trans_of R h₁ (trans_of R hd' hd''))
  · rw [hnick] at hfield ⊢
    exact hcmd (hheard.mp ⟨hserver, hhush⟩) d' (trans_of Prelude hP₁ hP) (trans_of R h₁ hR) hfield

end

/-! ## §4 — the command of a packet -/

/-- The command a text comes down to, by itself or inside messages to the automatic user, and the
argument it finds. `left` is what earlier packets have left in `fields[1]`. -/
def finalCommand (w : World) (n : Int) : Nat → Bytes → Bytes → Option (Bytes × Bytes)
  | 0, _, _ => none
  | depth + 1, left, text =>
      if commandOf text = .m then
        if splitCount text = 2 ∧ heard w n (argOf text) then
          finalCommand w n depth (messageText (w.uTab n).nickname (getTail (argOf text)))
            (serverText (w.uTab n).nickname (getTail (argOf text)))
        else none
      else some (text, if splitCount text = 1 then left else argOf text)

section
variable {n : Int} {w w' : World} {d : Daemon}

theorem Prelude.finalCommand (h : Prelude w w') (n : Int) (depth : Nat) (left text : Bytes) :
    finalCommand w' n depth left text = finalCommand w n depth left text := by
  induction depth generalizing left text with
  | zero => rfl
  | succ depth ih =>
    simp only [Server.finalCommand, h.heard, congrArg UserId.nickname (h.stilly.users n), ih]

omit [Env] in
/-- The argument of a command after `split`. -/
theorem split_arg (d : Daemon) (text : Bytes) :
    (split text d).2.fields 1 = if splitCount text = 1 then d.fields 1 else argOf text := by
  have hpos := length_splitFields_pos text
  by_cases hone : splitCount text = 1
  · have hlen : (splitFields text).length = 1 := by
      unfold splitCount maxFields at hone
      omega
    rw [if_pos hone]
    simp [split, List.getD_eq_getElem?_getD, hlen]
  · rw [if_neg hone]
    refine split_fields ?_
    unfold splitCount maxFields at hone
    omega

/-- A command packet, up to its command. -/
theorem cmdmsgWith_wp {R : World → World → Prop} [Soft R] {cmd : Int → Bytes → M Unit} {text : Bytes}
    {Q : Unit → Daemon → Prop}
    (hidle : (d.w.uTab n).login ≠ .complete → Q () { d with w := (getU n d.w).2 })
    (hrun : ∀ d₁, R d.w d₁.w → Prelude d.w d₁.w → d₁.fields 0 = (splitFields text).getD 0 [] →
      d₁.fields 1 = (if splitCount text = 1 then d.fields 1 else argOf text) →
      wp (runCommand cmd n (splitCount text) (commandOf text)) Q d₁) :
    wp (cmdmsgWith cmd n text) Q d := by
  refine wp_bind (wp_onWorld (wp_getU (wp_whenever (fun _ => ?_) hidle)))
  refine wp_bind (wp_onWorld (Within.wp_both R Prelude fun _ w₁ h₁ hP₁ => ?_))
  refine wp_bind (wp_split (wp_bind (wp_getField ?_)))
  have hf0 := split_fields (d := { d with w := w₁ }) (length_splitFields_pos text)
  show wp (runCommand cmd n (splitCount text) (Command.ofIndex (lookup
    ((split text { d with w := w₁ }).2.fields 0) commandTable))) Q _
  rw [hf0]
  refine hrun _ ?_ ?_ hf0 (split_arg _ text)
  · exact trans_of R (Within.within (x := getU n) d.w) h₁
  · exact trans_of Prelude (Within.within (x := getU n) d.w) hP₁

/-- The same with its nested commands. -/
theorem cmdmsg_wp {R : World → World → Prop} [Soft R] {depth : Nat} {text : Bytes}
    {Q : Unit → Daemon → Prop}
    (hidle : (d.w.uTab n).login ≠ .complete → Q () { d with w := (getU n d.w).2 })
    (hrun : ∀ d₁, R d.w d₁.w → Prelude d.w d₁.w → d₁.fields 0 = (splitFields text).getD 0 [] →
      d₁.fields 1 = (if splitCount text = 1 then d.fields 1 else argOf text) →
      wp (runCommand (cmdmsg depth) n (splitCount text) (commandOf text)) Q d₁) :
    wp (cmdmsg (depth + 1) n text) Q d :=
  cmdmsgWith_wp hidle hrun

/-- The command `read` of the automatic user. -/
def isRead (text : Bytes) : Prop :=
  commandOf text = .other ∧ lookup ((splitFields text).getD 0 []) autoTable ≥ 0 ∧ autoOf text = .read

/-- What is run for a command: the command of the text, with the argument it finds. -/
structure Daemon.Runs (d : Daemon) (text arg : Bytes) : Prop where
  word : d.fields 0 = (splitFields text).getD 0 []
  arg : d.fields 1 = arg

/-- A command inside a message of the automatic user to himself does no harm: he beeps himself again, or
does not understand. -/
theorem cmdmsg_own {R : World → World → Prop} [Soft R] (hn : inUsers n) {depth : Nat} {nick msg : Bytes}
    (hmsg : msg = autoUsage ∨ msg = str "Beep yerself!") :
    R d.w (cmdmsg depth n (serverText nick msg) d).2.w := by
  induction depth generalizing d nick msg with
  | zero => exact Within.within (R := OnWorld R) (x := onWorld (modMisc _)) d
  | succ depth ih =>
    show wp (cmdmsg (depth + 1) n (serverText nick msg)) (fun _ d' => R d.w d'.w) d
    refine cmdmsg_wp (R := R) (fun _ => Within.within (x := getU n) d.w) fun d₁ h₁ _ hf0 _ => ?_
    suffices hcmd : wp (runCommand (cmdmsg depth) n (splitCount (serverText nick msg))
        (commandOf (serverText nick msg))) (fun _ d' => R d₁.w d'.w) d₁ from trans_of R h₁ hcmd
    rcases ownMessage nick hmsg with hbeep | ⟨hother, hunknown⟩
    · rw [hbeep]
      refine wp_whenever (fun _ => wp_bind (wp_getField ?_)) fun _ => refl_of R _
      refine sBeep_rel fun hbig d' _ => ?_
      obtain rfl := eq_nickserv hn hbig
      exact ih (.inr rfl)
    · rw [hother]
      refine wp_bind (wp_getField (wp_ite (fun hauto => ?_) fun _ => ?_))
      · rw [hf0, hunknown] at hauto
        exact absurd hauto (by decide)
      · exact Within.within (R := OnWorld R) (x := onWorld (sendstatus n _ _)) d₁

/-- **A command packet on any slot is packets and options, and its command.** Reading mail on the slot of
the automatic user hands it to `cmdmsg`. -/
theorem cmdmsg_final {R : World → World → Prop} [Soft R] (hn : inUsers n) {depth : Nat} {text : Bytes}
    (hread : ∀ c ∈ finalCommand d.w n depth (d.fields 1) text, isRead c.1 → ∀ depth d',
      Prelude d.w d'.w → R d'.w (nickreadmsg (cmdmsg depth) n d').2.w)
    (hrun : ∀ c ∈ finalCommand d.w n depth (d.fields 1) text, commandOf c.1 ≠ .m → ∀ d',
      Prelude d.w d'.w → d'.Runs c.1 c.2 → (d'.w.uTab n).login = .complete →
      R d'.w (runCommand noCmd n (splitCount c.1) (commandOf c.1) d').2.w) :
    R d.w (cmdmsg depth n text d).2.w := by
  induction depth generalizing d text with
  | zero => exact Within.within (R := OnWorld R) (x := onWorld (modMisc _)) d
  | succ depth ih =>
    by_cases hlogin : (d.w.uTab n).login = .complete
    case neg => exact cmdmsg_idle hlogin _ _
    show wp (cmdmsg (depth + 1) n text) (fun _ d' => R d.w d'.w) d
    refine cmdmsg_wp (R := R) (fun hno => absurd hlogin hno) fun d₁ h₁ hP₁ hf0 harg => ?_
    suffices hcmd : wp (runCommand (cmdmsg depth) n (splitCount text) (commandOf text))
        (fun _ d' => R d₁.w d'.w) d₁ from trans_of R h₁ hcmd
    have hlogin₁ : (d₁.w.uTab n).login = .complete :=
      (congrArg UserId.login (hP₁.stilly.users n)).trans hlogin
    rw [← hP₁.finalCommand, finalCommand] at hread hrun
    by_cases hm : commandOf text = .m
    · rw [hm]
      rw [if_pos hm] at hread hrun
      refine wp_whenever (fun htwo => wp_bind (wp_getField ?_)) fun _ => refl_of R _
      rw [harg, if_neg (by omega)]
      refine sPersonal_wp (R := R) (fun _ _ hd' => hd') fun hheard d' hP hd' hfield => ?_
      rw [if_pos ⟨htwo, hheard⟩, ← hP.finalCommand, ← hfield] at hread hrun
      have hP' : Prelude d.w d'.w := trans_of Prelude hP₁ hP
      have hinner : R d'.w (cmdmsg depth n (serverText (d₁.w.uTab n).nickname (getTail (argOf text))) d').2.w :=
        ih (fun c hc hr depth d₂ hP₂ => hread c hc hr depth d₂ (trans_of Prelude hP' hP₂))
          fun c hc hm d₂ hP₂ => hrun c hc hm d₂ (trans_of Prelude hP' hP₂)
      exact fun d'' hd'' => trans_of R hd' (trans_of R hinner hd'')
    rw [if_neg hm] at hread hrun
    have hlast := hrun _ (Option.mem_some_self _) hm d₁ hP₁ ⟨hf0, harg⟩ hlogin₁
    have hown {d' : Daemon} (nick : Bytes) {msg : Bytes} (hmsg : msg = autoUsage ∨ msg = str "Beep yerself!")
        (hbig : n ≥ maxRealUsers) : R d'.w (cmdmsg depth nickserv (serverText nick msg) d').2.w := by
      obtain rfl := eq_nickserv hn hbig
      exact cmdmsg_own hn hmsg
    cases hc : commandOf text with
    | m => exact absurd hc hm
    | beep =>
      refine wp_whenever (fun _ => wp_bind (wp_getField ?_)) fun _ => refl_of R _
      exact sBeep_rel fun hbig d' _ => hown _ (.inr rfl) hbig
    | other =>
      rw [hc] at hlast
      have hkeep {x : W Unit} [Within R x] : wp (onWorld x) (fun _ d' => R d₁.w d'.w) d₁ :=
        Within.within d₁.w
      refine wp_bind (wp_getField (wp_ite (fun hauto => ?_) fun _ => hkeep))
      have hlast : R d₁.w (sAuto noCmd n d₁).2.w := by simpa [runCommand, hauto] using hlast
      have hstamp {d' : Daemon} (h : R d₁.w d'.w) : R d₁.w (onWorld (stamp nickserv) d').2.w :=
        trans_of R h (Within.within (x := stamp nickserv) d'.w)
      have hwhich : AutoCmd.ofIndex (lookup (getword (d₁.fields 0)) autoTable) = autoOf text := by
        rw [hf0]
        rfl
      -- only mail and the usage ask for a `cmdmsg`
      have hplain (h : autoPlain (cmdmsg depth) n (autoOf text) = autoPlain noCmd n (autoOf text)) :
          R d₁.w (sAuto (cmdmsg depth) n d₁).2.w := by
        have heq : sAuto (cmdmsg depth) n d₁ = sAuto noCmd n d₁ := by
          simp only [sAuto, bind_apply, getField, hwhich, h]
        rwa [heq]
      show R d₁.w (sAuto (cmdmsg depth) n d₁).2.w
      rw [hf0] at hauto
      cases hwho : autoOf text with
      | read =>
        show wp (sAuto (cmdmsg depth) n) (fun _ d' => R d₁.w d'.w) d₁
        refine wp_bind (wp_getField ?_)
        rw [hwhich, hwho]
        exact hstamp (hread _ (Option.mem_some_self _) ⟨hc, hauto, hwho⟩ depth d₁ hP₁)
      | question =>
        show wp (sAuto (cmdmsg depth) n) (fun _ d' => R d₁.w d'.w) d₁
        refine wp_bind (wp_getField ?_)
        rw [hwhich, hwho]
        exact hstamp (sendperson_rel fun hbig d' _ => hown _ (.inl rfl) hbig)
      | info | help | secure | nosecure =>
        exact hplain (by rw [hwho]; rfl)
      | _ =>
        have heq : sAuto (cmdmsg depth) n d₁ = sAuto noCmd n d₁ := by
          simp [sAuto, bind_apply, getField, hwhich, hwho, AutoCmd.readsArg]
        rwa [heq]
    | _ =>
      have hsame : runCommand (cmdmsg depth) n (splitCount text) (commandOf text) =
          runCommand noCmd n (splitCount text) (commandOf text) := by
        rw [hc]
        rfl
      rw [← hc, hsame]
      exact hlast

/-- **The command of a packet is run**, and what is said about its end stays true of the end of the
packet. -/
theorem cmdmsg_final_post {R : World → World → Prop} [Soft R] {depth : Nat} {text : Bytes}
    {c : Bytes × Bytes} {Q : Daemon → Prop} (hlogin : (d.w.uTab n).login = .complete)
    (hc : finalCommand d.w n depth (d.fields 1) text = some c)
    (hkeep : ∀ t t' : Daemon, R t.w t'.w → Q t → Q t')
    (hrun : ∀ depth d', Prelude d.w d'.w → R d.w d'.w → d'.Runs c.1 c.2 →
      wp (runCommand (cmdmsg depth) n (splitCount c.1) (commandOf c.1)) (fun _ => Q) d') :
    wp (cmdmsg depth n text) (fun _ => Q) d := by
  induction depth generalizing d text with
  | zero => cases hc
  | succ depth ih =>
    refine cmdmsg_wp (R := R) (fun hno => absurd hlogin hno) fun d₁ h₁ hP₁ hf0 harg => ?_
    have hlogin₁ : (d₁.w.uTab n).login = .complete :=
      (congrArg UserId.login (hP₁.stilly.users n)).trans hlogin
    rw [← hP₁.finalCommand, finalCommand] at hc
    by_cases hm : commandOf text = .m
    · rw [if_pos hm] at hc
      split at hc
      case isFalse => cases hc
      next htwo =>
        rw [hm]
        refine wp_whenever (fun _ => wp_bind (wp_getField ?_)) fun hno => absurd htwo.1 hno
        rw [harg, if_neg (by omega)]
        refine sPersonal_wp (R := R) (fun hno => absurd htwo.2 hno) fun _ d' hP hR hfield => ?_
        rw [← hP.finalCommand, ← hfield] at hc
        have hP' : Prelude d.w d'.w := trans_of Prelude hP₁ hP
        have hR' : R d.w d'.w := trans_of R h₁ hR
        refine wp_mono (ih ((congrArg UserId.login (hP.stilly.users n)).trans hlogin₁) hc
          fun depth d₂ hP₂ hR₂ => hrun depth d₂ (trans_of Prelude hP' hP₂) (trans_of R hR' hR₂)) ?_
        exact fun _ t ht d'' hd'' => hkeep t d'' hd'' ht
    · rw [if_neg hm] at hc
      obtain rfl := Option.some.inj hc
      exact hrun depth d₁ hP₁ h₁ ⟨hf0, harg⟩

/-- The same, for a command whose end does not depend on what was sent before it. -/
theorem cmdmsg_final_wp {R : World → World → Prop} [Soft R] {depth : Nat} {text : Bytes}
    {c : Bytes × Bytes} {Q : Daemon → Prop} (hlogin : (d.w.uTab n).login = .complete)
    (hc : finalCommand d.w n depth (d.fields 1) text = some c)
    (hkeep : ∀ t t' : Daemon, R t.w t'.w → Q t → Q t')
    (hrun : ∀ depth d', Prelude d.w d'.w → d'.Runs c.1 c.2 →
      wp (runCommand (cmdmsg depth) n (splitCount c.1) (commandOf c.1)) (fun _ => Q) d') :
    wp (cmdmsg depth n text) (fun _ => Q) d :=
  cmdmsg_final_post (R := R) hlogin hc hkeep fun depth d' hP _ => hrun depth d' hP

/-- The commands of the automatic user, each with the argument it finds. -/
theorem other_wp {R : World → World → Prop} [Soft R] {cmd : Int → Bytes → M Unit} {m : Nat}
    {text arg : Bytes} {Q : Daemon → Prop} (hr : d.Runs text arg)
    (hstop : ¬ lookup ((splitFields text).getD 0 []) autoTable ≥ 0 → ∀ d', R d.w d'.w → Q d')
    (harg : lookup ((splitFields text).getD 0 []) autoTable ≥ 0 → (autoOf text).readsArg →
      wp (onWorld (autoArg n arg (autoOf text))) (fun _ t => ∀ t', R t.w t'.w → Q t') d)
    (hplain : lookup ((splitFields text).getD 0 []) autoTable ≥ 0 → ¬ (autoOf text).readsArg →
      wp (autoPlain cmd n (autoOf text)) (fun _ t => ∀ t', R t.w t'.w → Q t') d) :
    wp (runCommand cmd n m .other) (fun _ => Q) d := by
  refine wp_bind (wp_getField ?_)
  rw [hr.word]
  refine wp_ite (fun hauto => wp_bind (wp_getField ?_)) fun hno => hstop hno _ ?_
  case refine_2 => exact Within.within (R := OnWorld R) (x := onWorld (sendstatus n _ _)) d
  rw [hr.word]
  show wp (if (autoOf text).readsArg then _ else _) _ _
  have hstamp (t : Daemon) : R t.w (onWorld (stamp nickserv) t).2.w := Within.within t.w
  refine wp_ite (fun hreads => wp_bind (wp_getField ?_)) fun hreads => wp_bind ?_
  · rw [hr.arg]
    exact wp_bind (wp_mono (harg hauto hreads) fun _ t ht => ht _ (hstamp t))
  · exact wp_mono (hplain hauto hreads) fun _ t ht => ht _ (hstamp t)

end

end

end Icbd.Server
