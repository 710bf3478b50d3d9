/-
# Icbd.Server.Talk — `/talk` replaces the talk lists.

Without `-a` the command goes through both lists with their own cursors and takes off what it finds, from both
lists at once. Every turn takes the name under the cursor off the list that is gone through and sets the cursor
back to its head, so as many turns as there are names leave nothing, wherever the cursors stood.
-/
import Icbd.Server.Guests

namespace Icbd.Server

open Icbd.Lib

/-- The talk list for the registered, or the one for everybody. -/
def talkList (reg : Bool) (o : GroupOpts) : NamList := if reg then o.nrTalk else o.nTalk

section
variable [Env]

/-! ## §1 — emptying a list -/

/-- Both talk lists of a group are live. -/
def LiveTalk (o : GroupOpts) : Prop := ∀ reg, (talkList reg o).Live

section
variable {w : World} {n gi : Int} {who : Bytes} {reg quiet : Bool} {f : Flags} {k : Nat}

omit [Env] in
/-- A report leaves the groups alone. -/
theorem wp_talkers {x : W Unit} [Within Stilly x] {J : GroupOpts → Prop} (h : J (w.gTab gi).toGroupOpts) :
    wp x (fun _ w' => J (w'.gTab gi).toGroupOpts) w :=
  Within.wp Stilly fun _ w' hS => by rw [hS.groups]; exact h

/-- `talk_delete` takes the name off both lists. -/
theorem talkDelete_lists (who : Bytes) (gi : Int) (w : World) (reg : Bool) :
    talkList reg ((talkDelete who gi w).2.gTab gi).toGroupOpts =
      (nldelete (talkList reg (w.gTab gi).toGroupOpts) who).2 := by
  show wp (talkDelete who gi) (fun _ w' => talkList reg (w'.gTab gi).toGroupOpts = _) w
  refine wp_bind (wp_getW (wp_bind (wp_getG (wp_after (wp_bind (wp_talkers
    (J := fun o => talkList reg o = (nldelete (talkList reg (w.gTab gi).toGroupOpts) who).2) ?_))))))
  cases reg <;> simp [modGOpts, World.modG, talkList, getG]

omit [Env] in
/-- The turn of a loop over a list writes the list back with its cursor moved on. -/
theorem nlget_back (hlive : LiveTalk (w.gTab gi).toGroupOpts) (reg : Bool) :
    let r := nlget (talkList reg (w.gTab gi).toGroupOpts)
    let w' := (modGOpts gi (fun o => if reg then { o with nrTalk := r.2 } else { o with nTalk := r.2 }) w).2
    LiveTalk (w'.gTab gi).toGroupOpts ∧
      ∀ reg', (talkList reg' (w'.gTab gi).toGroupOpts).names = (talkList reg' (w.gTab gi).toGroupOpts).names := by
  intro r w'
  have hopts : (w'.gTab gi).toGroupOpts =
      if reg then { (w.gTab gi).toGroupOpts with nrTalk := r.2 } else { (w.gTab gi).toGroupOpts with nTalk := r.2 } :=
    modGOpts_opts _ w
  have hget := (hlive reg).nlget
  have hother := hlive (!reg)
  rw [hopts]
  cases reg
  · exact ⟨fun reg' => by cases reg'; exacts [hget.2.1, hother], fun reg' => by cases reg' <;> rfl⟩
  · exact ⟨fun reg' => by cases reg'; exacts [hother, hget.2.1], fun reg' => by cases reg' <;> rfl⟩

omit [Env] in
/-- What is found on a list is its name under the cursor, or nothing if the list is empty. -/
theorem nlget_eq_nil {nl : NamList} (h : nl.Live) : (nlget nl).1 = [] ↔ nl.names = [] := by
  constructor
  · intro hnil
    by_contra hne
    exact h.named (hnil ▸ h.nlget.2.2 hne)
  · intro hnil
    simp [nlget, hnil]

/-- The name found is taken off: one name less on this list, and none more on the other. -/
theorem talkTurn_wp {w₁ : World} (hlive : LiveTalk (w.gTab gi).toGroupOpts)
    (hlive₁ : LiveTalk (w₁.gTab gi).toGroupOpts)
    (hnames : ∀ reg, (talkList reg (w₁.gTab gi).toGroupOpts).names = (talkList reg (w.gTab gi).toGroupOpts).names)
    (hk : (talkList reg (w.gTab gi).toGroupOpts).count ≤ k + 1) {found text : Bytes}
    (hfound : found = (nlget (talkList reg (w.gTab gi).toGroupOpts)).1) :
    wp (whenever (found ≠ []) (do
        let deleted ← talkDelete found gi
        whenever (deleted > 0 ∧ quiet = false) (sendstatus n (str "FYI") text)))
      (fun _ w' => LiveTalk (w'.gTab gi).toGroupOpts ∧ (talkList reg (w'.gTab gi).toGroupOpts).count ≤ k ∧
        ((talkList (!reg) (w.gTab gi).toGroupOpts).names = [] →
          (talkList (!reg) (w'.gTab gi).toGroupOpts).names = [])) w₁ := by
  refine wp_whenever (fun hsome => wp_after (wp_talkers (J := fun o => LiveTalk o ∧ (talkList reg o).count ≤ k ∧
    (_ → (talkList (!reg) o).names = [])) ⟨fun reg' => ?_, ?_, fun hnil => ?_⟩)) fun hempty =>
    ⟨hlive₁, ?_, fun hnil => ?_⟩
  · rw [talkDelete_lists]
    exact (hlive₁ reg').nldelete
  · have hne : (talkList reg (w.gTab gi).toGroupOpts).names ≠ [] :=
      fun hnil => hsome (hfound.trans ((nlget_eq_nil (hlive reg)).mpr hnil))
    have hmem : found ∈ (talkList reg (w₁.gTab gi).toGroupOpts).names := by
      rw [hnames, hfound]
      exact (hlive reg).nlget.2.2 hne
    have hcount := nldelete_count hmem
    have hsame : (talkList reg (w₁.gTab gi).toGroupOpts).count = (talkList reg (w.gTab gi).toGroupOpts).count :=
      congrArg List.length (hnames reg)
    rw [talkDelete_lists]
    omega
  · rw [talkDelete_lists]
    exact nldelete_nil ((hnames (!reg)).trans hnil)
  · have hnil := (nlget_eq_nil (hlive reg)).mp (hfound.symm.trans (not_not.mp hempty))
    rw [NamList.count, hnames]
    exact (congrArg List.length hnil).trans_le (Nat.zero_le k)
  · exact (hnames (!reg)).trans hnil

/-- **The loop over a list** leaves nothing on it if it makes as many turns as there are names, and nothing on
the other list if there was nothing. -/
theorem talkClear_wp (reg : Bool) (hlive : LiveTalk (w.gTab gi).toGroupOpts)
    (hk : (talkList reg (w.gTab gi).toGroupOpts).count ≤ k) :
    wp (talkClear n gi reg quiet k) (fun _ w' => LiveTalk (w'.gTab gi).toGroupOpts ∧
      (talkList reg (w'.gTab gi).toGroupOpts).names = [] ∧
      ((talkList (!reg) (w.gTab gi).toGroupOpts).names = [] →
        (talkList (!reg) (w'.gTab gi).toGroupOpts).names = [])) w := by
  induction k generalizing w with
  | zero => exact ⟨hlive, List.length_eq_zero_iff.mp (Nat.le_zero.mp hk), id⟩
  | succ k ih =>
    have hlive₀ : LiveTalk ((getG gi w).2.gTab gi).toGroupOpts := hlive
    obtain ⟨hlive₁, hnames₁⟩ := nlget_back hlive₀ reg
    refine wp_bind (wp_getG (wp_after (wp_bind (wp_mono (talkTurn_wp hlive hlive₁ hnames₁ hk rfl) ?_))))
    intro _ w₂ h₂
    refine wp_mono (ih h₂.1 h₂.2.1) fun _ w' h' => ?_
    exact ⟨h'.1, h'.2.1, fun hnil => h'.2.2 (h₂.2.2 hnil)⟩

/-! ## §2 — the command -/

/-- The command is accepted, and asks for neither `-a` nor `-d`. -/
structure TalkAccepted (n : Int) (arg : Bytes) (f : Flags) (w : World) : Prop where
  flags : flagsOf "qadr" arg = some f
  named : f.who ≠ []
  control : (w.gTab (groupOf w n)).control ≠ .pub
  mod : (w.gTab (groupOf w n)).mod = n
  delete : f.d = false
  add : f.a = false

theorem talkAdd_wp {w : World} (hnil : ∀ reg, (talkList reg (w.gTab gi).toGroupOpts).names = []) :
    wp (talkAdd n gi f) (fun _ w' => (talkList f.r (w'.gTab gi).toGroupOpts).names = [f.who] ∧
      (talkList (!f.r) (w'.gTab gi).toGroupOpts).names = []) w := by
  have hput {nl : NamList} (hnl : nl.names = []) : (nlput nl f.who).names = [f.who] := by
    simp [nlput, hnl, NamList.count]
  refine wp_bind (wp_getU (wp_after (wp_talkers (J := fun o => (talkList f.r o).names = [f.who] ∧
    (talkList (!f.r) o).names = []) ?_)))
  rw [modGOpts_opts]
  have hn := hnil false
  have hnr := hnil true
  cases f.r
  · exact ⟨hput hn, hnr⟩
  · exact ⟨hput hnr, hn⟩

/-- **`/talk` replaces the talk lists**, whatever was on them and wherever their cursors stood. -/
theorem talk_replaces {arg : Bytes} (h : TalkAccepted n arg f w)
    (hlive : LiveTalk (w.gTab (groupOf w n)).toGroupOpts) :
    (talkList f.r ((sTalk n arg w).2.gTab (groupOf w n)).toGroupOpts).names = [f.who] ∧
      (talkList (!f.r) ((sTalk n arg w).2.gTab (groupOf w n)).toGroupOpts).names = [] := by
  unfold sTalk withFlags
  simp only [h.flags]
  show wp (talkBody n f) (fun _ w' => (talkList f.r (w'.gTab (groupOf w n)).toGroupOpts).names = [f.who] ∧
    (talkList (!f.r) (w'.gTab (groupOf w n)).toGroupOpts).names = []) w
  refine wp_bind (wp_getW (wp_bind (wp_getG (wp_ite (fun hno => absurd hno h.named) fun _ =>
    wp_ite (fun hno => absurd hno h.control) fun _ => wp_ite (fun hno => absurd h.mod hno) fun _ =>
    wp_ite (fun hno => absurd hno (by simp [h.delete])) fun _ => wp_bind ?_))))
  refine wp_whenever (fun _ => wp_bind ?_) fun hno => absurd h.add hno
  refine wp_mono (talkClear_wp false hlive le_rfl) fun _ w₁ h₁ => wp_bind (wp_getG ?_)
  refine wp_mono (talkClear_wp true h₁.1 le_rfl) fun _ w₂ h₂ => talkAdd_wp fun reg => ?_
  cases reg
  · exact h₂.2.2 h₁.2.1
  · exact h₂.2.1

end

/-- In every state reached the talk lists are live. -/
theorem reachable_talk {P : Host → Sys → Event → Prop} {h : Host} (hr : Reachable P h) (gi : Int) :
    LiveTalk (h.w.gTab gi).toGroupOpts := by
  intro reg
  cases reg
  · exact (reachable_orderly hr gi).nTalk
  · exact (reachable_orderly hr gi).nrTalk

end

section
attribute [local instance] smallEnv

/-- A moderator lets two people talk, one of them twice over. -/
def letsTalk : List Event :=
  [.connect 1 false none, .packet 1 (loginPkt "one" "al" "x" ""), .packet 1 (cmdPkt "status" "c"),
   .packet 1 (cmdPkt "talk" "-a bo"), .packet 1 (cmdPkt "talk" "-a -r bo"), .packet 1 (cmdPkt "talk" "-a -r cy")]

/-- The flags of `/talk di`. -/
def talkDi : Flags :=
  { q := false, s := false, r := false, a := false, d := false, p := false, o := false, who := str "di" }

/-- His group before `/talk di`. -/
def LetTalk (h : Host) : Prop :=
  flagsOf "qadr" (str "di") = some talkDi ∧ (h.w.gTab (groupOf h.w 1)).control = .controlled ∧
    (h.w.gTab (groupOf h.w 1)).mod = 1 ∧ (h.w.gTab (groupOf h.w 1)).nTalk.names = [str "bo"] ∧
    (h.w.gTab (groupOf h.w 1)).nrTalk.names = [str "cy", str "bo"]

instance : DecidablePred LetTalk := fun _ => inferInstanceAs (Decidable (_ ∧ _))

theorem talk_replaces_al : ∃ h : Host, LetTalk h ∧
    ((sTalk 1 (str "di") h.w).2.gTab (groupOf h.w 1)).nTalk.names = [str "di"] ∧
    ((sTalk 1 (str "di") h.w).2.gTab (groupOf h.w 1)).nrTalk.names = [] := by
  have hrun : Host.leads (fun _ _ _ => True) {} LetTalk { w := startup {} fun _ => none } letsTalk := by
    decide +kernel
  obtain ⟨h, hr, hlet⟩ := Reachable.leads (.start {} fun _ => none) hrun
  have ⟨hflags, hcontrol, hmod, _⟩ := hlet
  exact ⟨h, hlet, talk_replaces ⟨hflags, by decide, by rw [hcontrol]; nofun, hmod, rfl, rfl⟩ (reachable_talk hr _)⟩

end

end Icbd.Server
