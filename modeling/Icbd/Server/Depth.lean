/-
# Icbd.Server.Depth — how deep commands nest.

A message to the automatic user is a command again, and `cmdmsg` is called inside `cmdmsg`. The text of the
inner command is shorter than the text around it, so for a connection the calls come to an end. The automatic
user answers a beep with a message; if he has beeped himself the message is a command of his own, and a user
called `yerself!` can be beeped with it.
-/
import Icbd.Words
import Icbd.Server.Foreign
import Icbd.Server.Final

-- every bind doubles the size of the search's argument
set_option synthInstance.maxSize 1000000000000000000000000000000000000000000000000
set_option synthInstance.maxHeartbeats 200000

namespace Icbd.Server

open Icbd.Lib

section
variable [Env]

/-! ## §1 — `cmdmsg` over a bottom -/

/-- `cmdmsg` with so many calls inside each other, and `bottom` in the place of any call below them. -/
def cmdmsgOver (bottom : Int → Bytes → M Unit) : Nat → Int → Bytes → M Unit
  | 0 => bottom
  | depth + 1 => cmdmsgWith (cmdmsgOver bottom depth)

/-- What stands below the calls a command packet makes is never reached: there are at most `depth` of them
inside the first. -/
def NestsWithin (depth : Nat) (n : Int) (text : Bytes) (d : Daemon) : Prop :=
  ∀ bottom bottom', cmdmsgOver bottom (depth + 1) n text d = cmdmsgOver bottom' (depth + 1) n text d

theorem cmdmsg_eq_over (depth k : Nat) : cmdmsg (depth + k) = cmdmsgOver (cmdmsg k) depth := by
  induction depth with
  | zero => rw [Nat.zero_add]; rfl
  | succ depth ih =>
    rw [Nat.succ_add]
    exact congrArg cmdmsgWith ih

/-- The count `cmdmsg` starts with does not matter when it is high enough. -/
theorem NestsWithin.cmdmsg_eq {depth k : Nat} {n : Int} {text : Bytes} {d : Daemon}
    (h : NestsWithin depth n text d) : cmdmsg (depth + 1 + k) n text d = cmdmsg (depth + 1) n text d := by
  rw [cmdmsg_eq_over, ← Nat.add_zero (depth + 1), cmdmsg_eq_over]
  exact h _ _

/-! ## §2 — the text of an inner command -/

section
variable {nick msg arg text : Bytes} {w : World} {n : Int}

omit [Env] in
theorem serverText_length : (serverText nick msg).length ≤ msg.length + 1 := by
  obtain ⟨k, -, htext⟩ := messageText_eq nick msg
  have hmsg : (messageText nick msg).length ≤ msg.length := by
    have hshort := filtertext_shortens msg (maxPktData - maxNickLen - 1)
    rw [htext]
    simp only [List.length_take] at hshort ⊢
    omega
  unfold serverText
  generalize messageText nick msg = s at hmsg ⊢
  have hword : (getword s).length + (getTail s).length ≤ s.length := by
    have hsplit := congrArg List.length (List.takeWhile_append_dropWhile (p := fun b => !isBlank b) (l := s))
    have hskip : (getTail s).length ≤ (s.dropWhile fun b => !isBlank b).length :=
      (List.dropWhile_sublist isBlank).length_le
    simp only [List.length_append] at hsplit
    simp only [getword, List.length_take]
    omega
  simp only [snprintf, sep, List.length_take, List.length_append, List.length_singleton]
  omega

omit [Env] in
/-- Two fields and the `^A` between them. -/
theorem argOf_length (htwo : splitCount text = 2) :
    ((splitFields text).getD 0 []).length + (argOf text).length + 1 ≤ text.length := by
  have hlen : 1 < (splitFields text).length := by
    unfold splitCount at htwo
    omega
  have hpieces (k : Nat) (s : Bytes) : ((splitPieces k s).getD 0 []).length ≤ s.length := by
    cases k with
    | zero => exact le_rfl
    | succ k =>
      unfold splitPieces
      split
      · exact le_rfl
      · exact (List.takeWhile_sublist _).length_le
  unfold argOf
  change 1 < (splitPieces (19 + 1) text).length at hlen
  change ((splitPieces (19 + 1) text).getD 0 []).length + ((splitPieces (19 + 1) text).getD 1 []).length + 1 ≤ _
  unfold splitPieces at hlen ⊢
  have hsplit := congrArg List.length (List.takeWhile_append_dropWhile (p := (· ≠ (1 : UInt8))) (l := text))
  split at hlen
  next => exact absurd hlen (Nat.lt_irrefl 1)
  next b rest hdrop =>
    rw [hdrop] at hsplit
    have hrest := hpieces 19 rest
    simp only [List.length_append, List.length_cons] at hsplit
    simp only [List.getD_cons_zero, List.getD_cons_succ]
    omega

/-- The command inside a message is shorter than the one around it. -/
theorem serverText_shorter (hm : commandOf text = .m) (htwo : splitCount text = 2)
    (hheard : heard w n (argOf text)) : (serverText nick (getTail (argOf text))).length < text.length := by
  have hword : (splitFields text).getD 0 [] ≠ [] := by
    intro hnil
    rw [commandOf, hnil] at hm
    exact absurd hm (by decide)
  have harg : argOf text ≠ [] := by
    intro hnil
    have hpos : (-1 : Int) ≥ maxRealUsers := by simpa [hnil, getword, findUser] using hheard.1
    omega
  have hpos := List.length_pos_iff.mpr hword
  have htail := getTail_length_lt harg
  have hlen := argOf_length htwo
  have hserver := @serverText_length nick (getTail (argOf text))
  omega

omit [Env] in
/-- What the automatic user says to somebody who has beeped him. -/
theorem serverText_beep : serverText nick (str "Beep yerself!") = str "Beep" ++ 1 :: str "yerself!" := by
  obtain ⟨k, hk, htext⟩ := messageText_eq nick (str "Beep yerself!")
  have hmsg : messageText nick (str "Beep yerself!") = str "Beep yerself!" := by
    have hfilter : filtertext (str "Beep yerself!") (maxPktData - maxNickLen - 1) = str "Beep yerself!" := by
      decide +kernel
    have hlen : (str "Beep yerself!").length = 13 := by decide
    rw [htext, hfilter, List.take_of_length_le (by omega)]
  rw [serverText, hmsg]
  decide

end

/-! ## §3 — the last command -/

/-- The text of the last command of a packet, if the messages around it get through. -/
def lastText (w : World) (n : Int) (text : Bytes) : Option Bytes :=
  (finalCommand w n (text.length + 1) [] text).map Prod.fst

/-- The automatic user beeps himself, and goes by the name he gives to whoever does. -/
structure BeepsHimself (w : World) (n : Int) (text : Bytes) : Prop where
  slot : n = nickserv
  login : (w.uTab nickserv).login = .complete
  beep : commandOf text = .beep
  two : splitCount text = 2
  himself : findUser w (getword (argOf text)) ≥ maxRealUsers
  beepable : (w.uTab nickserv).nobeep = 0
  hears : ¬ hushes w nickserv nickserv
  named : findUser w (str "yerself!") ≥ maxRealUsers

/-- That is what the packet comes down to. -/
def BeepsForEver (w : World) (n : Int) (text : Bytes) : Prop :=
  ∃ last ∈ lastText w n text, BeepsHimself w n last

section
variable {w w' : World} {n : Int} {text : Bytes} {depth depth' : Nat} {left left' : Bytes}

/-- The last command does not depend on what is left in `fields[1]`, nor on the count of messages if it is high
enough. -/
theorem finalCommand_fst (h : text.length < depth) (h' : text.length < depth') :
    (finalCommand w n depth left text).map Prod.fst = (finalCommand w n depth' left' text).map Prod.fst := by
  induction depth generalizing depth' left left' text with
  | zero => omega
  | succ depth ih =>
    obtain ⟨depth', rfl⟩ : ∃ k, depth' = k + 1 := ⟨depth' - 1, by omega⟩
    simp only [finalCommand]
    by_cases hm : commandOf text = .m
    case neg => rw [if_neg hm, if_neg hm]; rfl
    rw [if_pos hm, if_pos hm]
    by_cases hin : splitCount text = 2 ∧ heard w n (argOf text)
    case neg => rw [if_neg hin, if_neg hin]
    rw [if_pos hin, if_pos hin]
    have hshort : (serverText (w.uTab n).nickname (getTail (argOf text))).length < text.length :=
      serverText_shorter hm hin.1 hin.2
    exact ih (by omega) (by omega)

theorem lastText_self (hm : commandOf text ≠ .m) : lastText w n text = some text := by
  rw [lastText, finalCommand, if_neg hm]
  rfl

theorem lastText_inner (hm : commandOf text = .m) (htwo : splitCount text = 2)
    (hheard : heard w n (argOf text)) :
    lastText w n text = lastText w n (serverText (w.uTab n).nickname (getTail (argOf text))) := by
  rw [lastText, finalCommand, if_pos hm, if_pos ⟨htwo, hheard⟩]
  exact finalCommand_fst (serverText_shorter hm htwo hheard) (Nat.lt_succ_self _)

theorem lastText_none (hm : commandOf text = .m) (hno : ¬ (splitCount text = 2 ∧ heard w n (argOf text))) :
    lastText w n text = none := by
  rw [lastText, finalCommand, if_pos hm, if_neg hno]
  rfl

theorem Prelude.beepsHimself (h : Prelude w w') : BeepsHimself w' n text ↔ BeepsHimself w n text := by
  have hlogin : (w'.uTab nickserv).login = (w.uTab nickserv).login := congrArg UserId.login (h.stilly.users _)
  have hbeep : (w'.uTab nickserv).nobeep = (w.uTab nickserv).nobeep := h.user nickserv (·.nobeep) fun _ _ => rfl
  have hfind := h.stilly.calmly.findUser
  constructor <;> rintro ⟨h₁, h₂, h₃, h₄, h₅, h₆, h₇, h₈⟩
  · exact ⟨h₁, hlogin ▸ h₂, h₃, h₄, hfind _ ▸ h₅, hbeep ▸ h₆, h.hushes _ _ ▸ h₇, hfind _ ▸ h₈⟩
  · exact ⟨h₁, hlogin ▸ h₂, h₃, h₄, (hfind _).symm ▸ h₅, hbeep ▸ h₆, (h.hushes _ _).symm ▸ h₇,
      (hfind _).symm ▸ h₈⟩

theorem Prelude.beepsForEver (h : Prelude w w') : BeepsForEver w' n text ↔ BeepsForEver w n text := by
  simp only [BeepsForEver, lastText, h.finalCommand, h.beepsHimself]

end

/-! ## §4 — two `cmdmsg`s inside -/

section
variable {cmd cmd' : Int → Bytes → M Unit} {n src dst : Int} {msg arg text : Bytes} {d : Daemon}

omit [Env] in
theorem getField_congr {i : Nat} {f g : Bytes → M Unit} (h : f (d.fields i) d = g (d.fields i) d) :
    (getField i >>= f) d = (getField i >>= g) d := h

/-- A personal message asks for the command in it, if it is for the automatic user and he hears it. -/
theorem sendperson_congr (h : dst ≥ maxRealUsers → ¬ hushes d.w dst src → ∀ d', Prelude d.w d'.w →
      cmd src (serverText (d.w.uTab src).nickname msg) d' = cmd' src (serverText (d.w.uTab src).nickname msg) d') :
    sendperson cmd src dst msg d = sendperson cmd' src dst msg d := by
  refine bind_congr_rest (bind_congr_rest (ite_congr_at (fun _ => rfl) fun hhush => bind_congr_rest ?_))
  refine ite_congr_at (fun hserver => bind_congr_rest (bind_congr_rest ?_)) fun _ => rfl
  let w₁ : World := (modMisc (fun m => { m with lprivId := Function.update m.lprivId dst src }) (getU src d.w).2).2
  have hP : Prelude d.w w₁ := ⟨fun _ => rfl, rfl, rfl, rfl, rfl⟩
  have hcall := h hserver hhush
    (split (str " " ++ packet pktPersonal (nickText (d.w.uTab src).nickname msg)) { d with w := w₁ }).2 hP
  rw [serverText, messageText, ← split_fields (d := { d with w := w₁ }) (two_le_message_fields _ msg)] at hcall
  exact hcall

/-- `/m` asks for the command in the message. -/
theorem sPersonal_congr (h : heard d.w n arg → ∀ d', Prelude d.w d'.w →
      cmd n (serverText (d.w.uTab n).nickname (getTail arg)) d' =
        cmd' n (serverText (d.w.uTab n).nickname (getTail arg)) d') :
    sPersonal cmd n arg d = sPersonal cmd' n arg d := by
  refine bind_congr_rest (ite_congr_at (fun _ => rfl) fun _ => ?_)
  refine Within.bind_congr (R := OnWorld Prelude) fun _ d₁ hP => bind_congr_first ?_
  have hP : Prelude d.w d₁.w := hP
  have hnick : (d₁.w.uTab n).nickname = (d.w.uTab n).nickname := congrArg UserId.nickname (hP.stilly.users n)
  refine sendperson_congr fun hserver hhush d' hP' => ?_
  rw [hP.hushes] at hhush
  rw [hnick]
  exact h ⟨hserver, hhush⟩ d' (trans_of Prelude hP hP')

/-- `/beep` asks for a command only if the automatic user beeps himself. -/
theorem sBeep_congr (h : findUser d.w (getword arg) ≥ maxRealUsers →
      (d.w.uTab (findUser d.w (getword arg))).nobeep = 0 → n ≥ maxRealUsers → ¬ hushes d.w n nickserv →
      ∀ d', Prelude d.w d'.w →
      cmd nickserv (serverText (d.w.uTab nickserv).nickname (str "Beep yerself!")) d' =
        cmd' nickserv (serverText (d.w.uTab nickserv).nickname (str "Beep yerself!")) d') :
    sBeep cmd n arg d = sBeep cmd' n arg d := by
  refine bind_congr_rest (ite_congr_at (fun _ => rfl) fun _ => ?_)
  refine ite_congr_at (fun _ => rfl) fun _ => bind_congr_first ?_
  refine bind_congr_rest (bind_congr_rest ?_)
  refine ite_congr_at (fun _ => rfl) fun hbeep => ite_congr_at (fun hserver => ?_) fun _ => rfl
  have hget : Prelude d.w (getU (findUser d.w (getword arg)) (getU n d.w).2).2 :=
    ⟨fun _ => rfl, rfl, rfl, rfl, rfl⟩
  refine bind_congr_first (sendperson_congr fun hbig hhush d' hP => ?_)
  exact h hserver (not_not.mp hbeep) hbig hhush d' (trans_of Prelude hget hP)

end

section
variable {inner inner' : Int → Bytes → M Unit} {n : Int} {text : Bytes} {d : Daemon}

/-- Whoever is not logged in has no commands. -/
theorem cmdmsgWith_out (h : (d.w.uTab n).login ≠ .complete) :
    cmdmsgWith inner n text d = ((), { d with w := (getU n d.w).2 }) := by
  show whenever ((d.w.uTab n).login = .complete) _ _ = _
  rw [whenever_neg h]
  rfl

/-- Slot -1 does not log in. -/
def StaysOut : World → World → Prop := Keep fun w => (w.uTab (-1)).login ≠ .complete

instance : Posts StaysOut where
  refl _ := id
  trans _ _ _ h₁ h₂ := h₂ ∘ h₁
  misc _ _ := id
  toPlain _ := ⟨fun _ _ _ => id⟩

instance (key : String) : DbTo StaysOut key := ⟨fun _ _ _ => id⟩

instance {text : Bytes} : Within (OnWorld StaysOut) (cmdmsgWith inner (-1) text) where
  within d h := by
    rw [cmdmsgWith_out h]
    exact h

/-- Mail is handed to a `cmdmsg` of slot -1, which does nothing. -/
theorem readOne_congr_out {nick : Bytes} {i : Int} (hout : (d.w.uTab (-1)).login ≠ .complete) :
    readOne (cmdmsgWith inner) n nick i d = readOne (cmdmsgWith inner') n nick i d := by
  refine Within.bind_congr (R := OnWorld StaysOut) fun _ d₁ h₁ => ?_
  refine Within.bind_congr (R := OnWorld StaysOut) fun _ d₂ h₂ => ?_
  refine Within.bind_congr (R := OnWorld StaysOut) fun _ d₃ h₃ => ?_
  refine Within.bind_congr (R := OnWorld StaysOut) fun _ d₄ h₄ => ?_
  refine Within.bind_congr (R := OnWorld StaysOut) fun _ d₅ h₅ => ?_
  refine Within.bind_congr (R := OnWorld StaysOut) fun _ d₆ h₆ => ?_
  have hout : (d₆.w.uTab (-1)).login ≠ .complete := h₆ (h₅ (h₄ (h₃ (h₂ (h₁ hout)))))
  refine bind_congr_first (whenever_congr_at fun _ => ?_)
  refine ite_congr_at (fun _ => bind_congr_rest (bind_congr_rest ?_)) fun _ => rfl
  refine (cmdmsgWith_out ?_).trans (cmdmsgWith_out ?_).symm <;> exact hout

/-- So does reading it. -/
theorem nickreadmsg_congr (hout : (d.w.uTab (-1)).login ≠ .complete) :
    nickreadmsg (cmdmsgWith inner) n d = nickreadmsg (cmdmsgWith inner') n d := by
  refine bind_congr_rest (bind_congr_rest (ite_congr_at (fun _ => rfl) fun _ => ?_))
  refine ite_congr_at (fun _ => rfl) fun _ => bind_congr_first ?_
  -- the body of the loop calls no `cmdmsg` but that of slot -1
  let only : Int → Bytes → M Unit := fun src => if src = -1 then cmdmsgWith inner (-1) else noCmd src
  have honly (src : Int) (text : Bytes) : Within (OnWorld StaysOut) (only src text) := by
    by_cases hsrc : src = -1
    · simp only [only, hsrc, ↓reduceIte]
      infer_instance
    · simp only [only, hsrc, ↓reduceIte]
      infer_instance
  have hone : readOne (cmdmsgWith inner) n = readOne only n := readOne_congr rfl
  refine each_congr_at (I := fun t : Daemon => (t.w.uTab (-1)).login ≠ .complete) (fun i _ t ht => ?_) hout
  refine ⟨readOne_congr_out ht, ?_⟩
  rw [hone]
  exact Within.within (R := OnWorld StaysOut) (x := readOne only n _ i) t ht

/-- The automatic user's commands ask for a command of slot -1, or for his usage. -/
theorem autoPlain_congr {c : AutoCmd} (hout : (d.w.uTab (-1)).login ≠ .complete)
    (husage : n ≥ maxRealUsers → ∀ d', Prelude d.w d'.w →
      cmdmsgWith inner nickserv (serverText (d.w.uTab nickserv).nickname autoUsage) d' =
        cmdmsgWith inner' nickserv (serverText (d.w.uTab nickserv).nickname autoUsage) d') :
    autoPlain (cmdmsgWith inner) n c d = autoPlain (cmdmsgWith inner') n c d := by
  have hsend : sendperson (cmdmsgWith inner) nickserv n autoUsage d =
      sendperson (cmdmsgWith inner') nickserv n autoUsage d :=
    sendperson_congr fun hbig _ d' hP => husage hbig d' hP
  cases c with
  | read => exact nickreadmsg_congr hout
  | info | help | secure | nosecure => simp only [autoPlain]
  | _ => exact hsend

/-- A command packet asks for what its command asks for. -/
theorem cmdmsgWith_congr (h : ∀ d₁, Prelude d.w d₁.w → (d₁.w.uTab n).login = .complete →
      d₁.fields 0 = (splitFields text).getD 0 [] → (splitCount text ≠ 1 → d₁.fields 1 = argOf text) →
      runCommand inner n (splitCount text) (commandOf text) d₁ =
        runCommand inner' n (splitCount text) (commandOf text) d₁) :
    cmdmsgWith inner n text d = cmdmsgWith inner' n text d := by
  have hget : Prelude d.w (getU n d.w).2 := Within.within d.w
  refine bind_congr_rest (whenever_congr_at fun hlogin => ?_)
  refine Within.bind_congr (R := OnWorld Prelude) fun _ d₁ hP => bind_congr_rest (bind_congr_rest ?_)
  have hP : Prelude d.w d₁.w := trans_of Prelude hget hP
  have hlogin₁ : (d₁.w.uTab n).login = .complete := (congrArg UserId.login (hP.stilly.users n)).trans hlogin
  have hf0 : (split text d₁).2.fields 0 = (splitFields text).getD 0 [] :=
    split_fields (length_splitFields_pos text)
  have hcmd := h (split text d₁).2 hP hlogin₁ hf0 fun hone => by rw [split_arg, if_neg hone]
  show runCommand inner n _ (Command.ofIndex (lookup ((split text d₁).2.fields 0) commandTable)) _ =
    runCommand inner' n _ (Command.ofIndex (lookup ((split text d₁).2.fields 0) commandTable)) _
  rw [hf0]
  exact hcmd

end

/-! ## §5 — the calls come to an end -/

section
variable {bottom bottom' : Int → Bytes → M Unit} {n : Int} {text nick : Bytes} {d : Daemon} {k : Nat}

/-- Once the automatic user has beeped himself: if nobody but a client goes by the name he gives, the message
is a beep for a client, or for nobody. -/
theorem beep_ends (hnamed : ¬ findUser d.w (str "yerself!") ≥ maxRealUsers) :
    cmdmsgOver bottom (k + 1) n (serverText nick (str "Beep yerself!")) d =
      cmdmsgOver bottom' (k + 1) n (serverText nick (str "Beep yerself!")) d := by
  rw [serverText_beep]
  refine cmdmsgWith_congr fun d₁ hP _ _ harg => ?_
  have hbeep : commandOf (str "Beep" ++ 1 :: str "yerself!") = .beep := by decide
  have harg : d₁.fields 1 = str "yerself!" := (harg (by decide)).trans (by decide)
  rw [hbeep]
  refine whenever_congr_at fun _ => getField_congr (sBeep_congr fun hserver => ?_)
  rw [harg, show getword (str "yerself!") = str "yerself!" by decide, hP.stilly.calmly.findUser] at hserver
  exact absurd hserver hnamed

/-- The usage is not a command. -/
theorem usage_ends : cmdmsgOver bottom (k + 1) n (serverText nick autoUsage) d =
    cmdmsgOver bottom' (k + 1) n (serverText nick autoUsage) d := by
  refine cmdmsgWith_congr fun d₁ _ _ hf0 _ => ?_
  rw [commandOf, serverText_usage]
  refine getField_congr (ite_congr_at (fun hauto => ?_) fun _ => rfl)
  rw [hf0, serverText_usage] at hauto
  exact absurd hauto (by decide)

/-- **The calls are no deeper than the text is long**, unless the automatic user beeps himself for ever. The
induction is on the count of calls; the text of a command inside a message is shorter than the one around it. -/
theorem cmdmsgOver_same (hn : inUsers n) (hout : (d.w.uTab (-1)).login ≠ .complete) (hlen : text.length ≤ k)
    (hends : ¬ BeepsForEver d.w n text) :
    cmdmsgOver bottom (k + 1) n text d = cmdmsgOver bottom' (k + 1) n text d := by
  induction k generalizing d text with
  | zero =>
    obtain rfl := List.length_eq_zero_iff.mp (Nat.le_zero.mp hlen)
    refine cmdmsgWith_congr fun d₁ _ _ hf0 _ => ?_
    rw [show commandOf [] = .other by decide]
    refine getField_congr (ite_congr_at (fun hauto => ?_) fun _ => rfl)
    rw [hf0] at hauto
    exact absurd hauto (by decide)
  | succ k ih =>
    refine cmdmsgWith_congr fun d₁ hP hlogin hf0 harg => ?_
    have hends₁ : ¬ BeepsForEver d₁.w n text := mt hP.beepsForEver.mp hends
    have hout₁ : (d₁.w.uTab (-1)).login ≠ .complete := fun hc =>
      hout ((congrArg UserId.login (hP.stilly.users (-1))).symm.trans hc)
    cases hc : commandOf text with
    | m =>
      refine whenever_congr_at fun htwo => getField_congr (sPersonal_congr fun hheard d' hP' => ?_)
      rw [harg (by omega)] at hheard ⊢
      have hshort : (serverText (d₁.w.uTab n).nickname (getTail (argOf text))).length < text.length :=
        serverText_shorter hc htwo hheard
      refine ih (fun hc => hout₁ ((congrArg UserId.login (hP'.stilly.users (-1))).symm.trans hc)) (by omega) ?_
      rw [hP'.beepsForEver, BeepsForEver, ← lastText_inner hc htwo hheard]
      exact hends₁
    | beep =>
      refine whenever_congr_at fun htwo => getField_congr (sBeep_congr fun hserver hbeep hbig hhears d' hP' => ?_)
      rw [harg (by omega)] at hserver hbeep
      obtain rfl := eq_nickserv hn hbig
      have hfind := eq_nickserv (findUser_nonneg (by omega)).1 hserver
      rw [hfind] at hbeep
      refine beep_ends fun hnamed => hends₁ ⟨text, ?_, rfl, hlogin, hc, htwo, hserver, hbeep, hhears, ?_⟩
      · rw [lastText_self (by rw [hc]; decide)]
        rfl
      · rwa [hP'.stilly.calmly.findUser] at hnamed
    | other =>
      refine getField_congr (ite_congr_at (fun _ => getField_congr ?_) fun _ => rfl)
      refine ite_congr_at (fun _ => rfl) fun _ => bind_congr_first ?_
      exact autoPlain_congr hout₁ fun _ _ _ => usage_ends
    | _ => simp only [runCommand]

end

/-! ## §6 — the calls go on for ever -/

/-- The database is filled with one value. -/
def fillDb (v : Option Bytes) : Int → Bytes → M Unit :=
  fun _ _ => onWorld fun w => ((), { w with db := fun _ => v })

section
variable {n : Int} {text : Bytes} {d : Daemon} {v : Option Bytes} {k : Nat}

/-- The automatic user's answer makes him beep himself again. -/
theorem BeepsHimself.again {w : World} {nick : Bytes} (h : BeepsHimself w n text) :
    BeepsForEver w n (serverText nick (str "Beep yerself!")) := by
  rw [serverText_beep]
  refine ⟨_, lastText_self (by decide), h.slot, h.login, by decide, by decide, ?_, h.beepable, h.hears, h.named⟩
  rw [show getword (argOf (str "Beep" ++ 1 :: str "yerself!")) = str "yerself!" by decide]
  exact h.named

/-- A beep of the automatic user for himself. -/
theorem sBeep_himself {cmd : Int → Bytes → M Unit} {Q : World → Prop} (h : BeepsHimself d.w n text)
    (hkeep : ∀ w w', Stilly w w' → Q w → Q w')
    (hcmd : ∀ d', Prelude d.w d'.w →
      wp (cmd n (serverText (d.w.uTab n).nickname (str "Beep yerself!"))) (fun _ t => Q t.w) d') :
    wp (sBeep cmd n (argOf text)) (fun _ t => Q t.w) d := by
  obtain ⟨rfl, -, -, -, hserver, hbeep, hhears, -⟩ := h
  have hne : getword (argOf text) ≠ [] := by
    intro hnil
    have hpos : (-1 : Int) ≥ maxRealUsers := by simpa [hnil, findUser] using hserver
    omega
  have hself : findUser d.w (getword (argOf text)) = nickserv :=
    eq_nickserv (findUser_nonneg (by omega)).1 hserver
  have hsame : Prelude d.w (getU nickserv (getU nickserv d.w).2).2 := ⟨fun _ => rfl, rfl, rfl, rfl, rfl⟩
  refine wp_bind (wp_onWorld (wp_getW (wp_ite (fun hnil => absurd hnil hne) fun _ => ?_)))
  refine wp_ite (fun hneg => by omega) fun _ => wp_bind ?_
  rw [hself] at hserver ⊢
  have hecho (t : Daemon) (ht : Q t.w) :
      wp (onWorld (echoAndAway nickserv nickserv (str "[=Beep=]"))) (fun _ t' => Q t'.w) t :=
    wp_onWorld (Within.wp Stilly fun _ _ hS => hkeep _ _ hS ht)
  refine wp_mono (Q := fun _ t => Q t.w) ?_ fun _ t ht => hecho t ht
  refine wp_bind (wp_onWorld (wp_getU (wp_bind (wp_onWorld (wp_getU ?_)))))
  refine wp_ite (fun hno => absurd hbeep hno) fun _ => wp_ite (fun _ => wp_bind ?_) fun hno => absurd hserver hno
  have hstamp (t : Daemon) (ht : Q t.w) : wp (onWorld (stamp nickserv)) (fun _ t' => Q t'.w) t :=
    wp_onWorld (Within.wp Stilly fun _ _ hS => hkeep _ _ hS ht)
  refine wp_mono (Q := fun _ t => Q t.w) ?_ fun _ t ht => hstamp t ht
  refine sendperson_wp (R := Stilly) (Q := fun t => Q t.w) (fun hno => absurd ⟨hserver, ?_⟩ hno)
    fun _ _ d' hP _ _ => ?_
  · exact hcmd d' (trans_of Prelude hsame hP)
  · rwa [hsame.hushes]

/-- However deep the bottom lies, it is reached. -/
theorem cmdmsgOver_endless (hends : BeepsForEver d.w n text) :
    (cmdmsgOver (fillDb v) k n text d).2.w.db = fun _ => v := by
  induction k generalizing d text with
  | zero => rfl
  | succ k ih =>
    have hlogin : (d.w.uTab n).login = .complete := by
      obtain ⟨_, -, hbeeps⟩ := hends
      rw [hbeeps.slot]
      exact hbeeps.login
    show wp (cmdmsgWith (cmdmsgOver (fillDb v) k) n text) (fun _ d' => d'.w.db = fun _ => v) d
    refine cmdmsgWith_wp (R := Stilly) (fun hno => absurd hlogin hno) fun d₁ _ hP _ harg => ?_
    have hends₁ : BeepsForEver d₁.w n text := hP.beepsForEver.mpr hends
    by_cases hm : commandOf text = .m
    · obtain ⟨last, hlast, hbeeps⟩ := hends₁
      by_cases hin : splitCount text = 2 ∧ heard d₁.w n (argOf text)
      case neg =>
        rw [lastText_none hm hin] at hlast
        cases hlast
      rw [hm]
      refine wp_whenever (fun htwo => wp_bind (wp_getField ?_)) fun hno => absurd hin.1 hno
      rw [harg, if_neg (by omega)]
      refine sPersonal_wp (R := Stilly) (fun hno => absurd hin.2 hno) fun _ d' hP' _ _ => ?_
      rw [lastText_inner hm hin.1 hin.2] at hlast
      exact fun d'' hd'' => hd''.db.trans (ih (hP'.beepsForEver.mpr ⟨last, hlast, hbeeps⟩))
    · obtain ⟨last, hlast, hbeeps⟩ := hends₁
      rw [lastText_self hm] at hlast
      obtain rfl := Option.some.inj hlast
      rw [hbeeps.beep]
      refine wp_whenever (fun htwo => wp_bind (wp_getField ?_)) fun hno => absurd hbeeps.two hno
      rw [harg, if_neg (by omega)]
      refine sBeep_himself (Q := fun w => w.db = fun _ => v) hbeeps (fun w w' hS hw => hS.db.trans hw)
        fun d' hP' => ?_
      exact ih (hP'.beepsForEver.mpr hbeeps.again)

theorem not_nestsWithin (hends : BeepsForEver d.w n text) (depth : Nat) : ¬ NestsWithin depth n text d := by
  intro hnests
  have hdb := congrArg (fun r : Unit × Daemon => r.2.w.db []) (hnests (fillDb none) (fillDb (some [])))
  simp only [cmdmsgOver_endless hends] at hdb
  cases hdb

/-- **Nested commands are no deeper than the packet's text is long**, in every reachable state, unless the packet
comes down to a beep of the automatic user for himself, who hears himself, takes beeps and is called `yerself!`. -/
theorem nests_within_iff {P : Host → Sys → Event → Prop} {h : Host} (hr : Reachable P h) (sys : Sys)
    (hn : inUsers n) (text : Bytes) : NestsWithin text.length n text (h.toDaemon.at sys) ↔
      ¬ BeepsForEver (h.toDaemon.at sys).w n text := by
  constructor
  · exact fun hnests hends => not_nestsWithin hends _ hnests
  · intro hends bottom bottom'
    have hout : (h.w.uTab (-1)).login ≠ .complete := fun hc =>
      absurd (hr.inside.1 (-1) (by rw [hc]; decide)) (by simp [inUsers])
    exact cmdmsgOver_same (d := h.toDaemon.at sys) hn hout le_rfl hends

end

end

section
attribute [local instance] smallEnv

/-- A client's messages inside messages. -/
theorem nests_within_client :
    NestsWithin (str "m" ++ 1 :: str "server m server help").length 1 (str "m" ++ 1 :: str "server m server help")
      (({ w := startup {} fun _ => none } : Host).toDaemon.at {}) := by
  refine (nests_within_iff (P := fun _ _ _ => True) (.start {} fun _ => none) {} rfl _).mpr ?_
  rintro ⟨_, -, hbeeps⟩
  exact absurd hbeeps.slot (by decide)

/-- Somebody is connected as the automatic user, has given him a name and lets him be beeped. -/
def Yerself (h : Host) : Prop :=
  h.opened 3 ∧ (h.w.uTab 3).login = .complete ∧ findUser h.w (str "yerself!") = 3 ∧ (h.w.uTab 3).nobeep = 0 ∧
    ¬ hushes h.w 3 3

instance : DecidablePred Yerself := fun _ => inferInstanceAs (Decidable (_ ∧ _))

/-- A short text, and no end to the calls. -/
theorem beeps_for_ever : ∃ h : Host, Reachable (fun _ _ _ => True) h ∧ h.opened 3 ∧
    ∀ depth, ¬ NestsWithin depth 3 (str "beep" ++ 1 :: str "yerself!") (h.toDaemon.at {}) := by
  have hrun : Host.leads (fun _ _ _ => True) {} Yerself { w := startup {} fun _ => none }
      [.connect 3 false none, .packet 3 (cmdPkt "name" "yerself!"), .packet 3 (cmdPkt "nobeep" "off")] := by
    decide +kernel
  obtain ⟨h, hr, hopen, hlogin, hname, hbeep, hhears⟩ := Reachable.leads (.start {} fun _ => none) hrun
  have hnamed : findUser (h.toDaemon.at {}).w (str "yerself!") ≥ maxRealUsers := by
    show findUser h.w (str "yerself!") ≥ maxRealUsers
    rw [hname]
    decide
  refine ⟨h, hr, hopen, not_nestsWithin ⟨_, lastText_self (by decide), ?_⟩⟩
  exact ⟨rfl, hlogin, by decide, by decide, hnamed, hbeep, hhears, hnamed⟩

end

end Icbd.Server
