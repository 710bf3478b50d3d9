/-
# Icbd.Server.Command — which command writes a group, and under which test.

Six commands write the entry of the caller's group, each behind its own copy of the moderator test;
one command moves the caller and one moves somebody else of his group. `runCommand_guarded` puts the
tests in front of the writes once and for all: a relation has to accept the writes to the caller's
group only where the caller passes the test.
-/
import Icbd.Server.Change

-- every bind doubles the size of the search's argument
set_option synthInstance.maxSize 1000000000000000000000000000000000000000000000000
set_option synthInstance.maxHeartbeats 200000

namespace Icbd.Server

open Icbd.Lib

variable [Env]

/-! ## §1 — one command at a time -/

/-- The weakest of the moderator tests: the administrator, the moderator of a group, and anybody in a
group without one or in a public one. -/
def mayTend (w : World) (n : Int) : Prop :=
  let g := w.gTab (groupOf w n)
  checkAuth w n ∨ g.mod = n ∨ g.mod < 0 ∨ g.control = .pub

/-- The strongest: the administrator and the moderator. -/
def mayRule (w : World) (n : Int) : Prop := checkAuth w n ∨ (w.gTab (groupOf w n)).mod = n

theorem mayRule.mayTend {w : World} {n : Int} (h : mayRule w n) : mayTend w n := h.imp_right .inl

section
variable {R : World → World → Prop} [Still R] {w : World} {n : Int} {arg : Bytes}

/-- A command with flags. -/
theorem withFlags_rel {allowed : String} {usage : Bytes} {body : Flags → W Unit}
    (h : ∀ f, R w (body f w).2) : R w (withFlags n allowed usage arg body w).2 := by
  unfold withFlags
  cases flagsOf allowed arg with
  | none => exact Within.within w
  | some f => exact h f

theorem sCancel_guarded (h : (w.gTab (groupOf w n)).mod = n → GOptsAt R (groupOf w n)) : R w (sCancel n arg w).2 := by
  refine withFlags_rel fun f => ?_
  show wp (cancelBody n f) (fun _ => R w) w
  have hget : R w (getG (groupOf w n) w).2 := Within.within w
  refine wp_bind (wp_getW (wp_bind (wp_getG (wp_ite (fun hmod => ?_) fun _ => ?_))))
  · have := h hmod.2
    exact trans_of R hget (Within.within _)
  · exact trans_of R hget (Within.within _)

theorem sInvite_guarded (h : (w.gTab (groupOf w n)).mod = n → GOptsAt R (groupOf w n)) : R w (sInvite n arg w).2 := by
  refine withFlags_rel fun f => ?_
  show wp (inviteBody n f) (fun _ => R w) w
  have hget : R w (getG (groupOf w n) (getU n w).2).2 := trans_of R (Within.within w) (Within.within _)
  refine wp_bind (wp_getW (wp_bind (wp_getU (wp_bind (wp_getG (wp_ite (fun _ => ?_) fun _ => ?_))))))
  · exact trans_of R hget (Within.within _)
  · -- the list is written first, and only by the moderator
    refine wp_bind (wp_whenever (fun hmod => ?_) fun _ => trans_of R hget (Within.within _))
    have := h hmod.2
    exact Within.wp R fun _ w₁ h₁ => trans_of R hget (trans_of R h₁ (Within.within _))

theorem sTalk_guarded (h : (w.gTab (groupOf w n)).mod = n → GOptsAt R (groupOf w n)) : R w (sTalk n arg w).2 := by
  refine withFlags_rel fun f => ?_
  show wp (talkBody n f) (fun _ => R w) w
  have hget : R w (getG (groupOf w n) w).2 := Within.within w
  have hkeep {x : W Unit} [Within R x] : wp x (fun _ => R w) (getG (groupOf w n) w).2 :=
    trans_of R hget (Within.within _)
  refine wp_bind (wp_getW (wp_bind (wp_getG (wp_ite (fun _ => hkeep) fun _ => ?_))))
  refine wp_ite (fun _ => hkeep) fun _ => wp_ite (fun _ => hkeep) fun hmod => ?_
  have := h (Decidable.not_not.mp hmod)
  exact hkeep

theorem sTopic_guarded (h : mayTend w n → GTameAt R (groupOf w n)) : R w (sTopic n arg w).2 := by
  show wp (sTopic n arg) (fun _ => R w) w
  have hget : R w (getG (groupOf w n) (getU n w).2).2 := trans_of R (Within.within w) (Within.within _)
  have hkeep {x : W Unit} [Within R x] : wp x (fun _ => R w) (getG (groupOf w n) (getU n w).2).2 :=
    trans_of R hget (Within.within _)
  refine wp_bind (wp_getW (wp_bind (wp_getU (wp_bind (wp_getG (wp_ite (fun _ => hkeep) fun _ => ?_))))))
  refine wp_ite (fun _ => hkeep) fun hmod => wp_ite (fun _ => hkeep) fun _ => ?_
  have htend : mayTend w n := by
    have hmod : ¬ ((w.gTab (groupOf w n)).mod ≥ 0 ∧ (w.gTab (groupOf w n)).mod ≠ n) := hmod
    rcases not_and_or.mp hmod with hneg | hown
    · exact .inr (.inr (.inl (by omega)))
    · exact .inr (.inl (Decidable.not_not.mp hown))
  have := h htend
  exact hkeep

/-- Does `s_status` take the group of `n` for one with a moderator? -/
def hasMod (w : World) (n : Int) : Prop :=
  (w.gTab (groupOf w n)).mod ≠ -1 ∨ (w.gTab (groupOf w n)).modtimeout > 0

theorem sStatus_tame (h : mayTend w n → GTameAt R (groupOf w n))
    (hmsg : mayTend w n → ∀ a, Within R (setIdlebootMsg n (groupOf w n) a))
    (hname : mayTend w n → ∀ a, Within R (setName n (groupOf w n) a))
    (hcontrol : mayTend w n → hasMod w n → Within R (setControl (groupOf w n))) : R w (sStatus n arg w).2 := by
  unfold sStatus
  split
  · exact Within.within w
  refine (show wp _ (fun _ => R w) w from wp_bind (wp_getW (wp_bind (wp_getG ?_))))
  have hget : R w (getG (groupOf w n) w).2 := Within.within w
  have hkeep {x : W Unit} [Within R x] : wp x (fun _ => R w) (getG (groupOf w n) w).2 :=
    trans_of R hget (Within.within _)
  refine wp_ite (fun _ => hkeep) fun _ => wp_ite (fun _ => hkeep) fun _ => ?_
  refine wp_ite (fun _ => hkeep) fun _ => wp_ite (fun _ => hkeep) fun hmod => ?_
  have htend : mayTend w n := by
    simp only [decide_eq_true_eq] at hmod
    unfold mayTend
    by_contra hno
    simp only [not_or, not_lt] at hno
    exact hmod ⟨hno.2.1, .inl (by omega), hno.2.2.2⟩
  have := h htend
  have := hmsg htend
  have := hname htend
  have (m : Nat) : Within R (statusLoop n (groupOf w n) (decide ((w.gTab (groupOf w n)).mod ≠ -1 ∨
      (w.gTab (groupOf w n)).modtimeout > 0)) m arg) :=
    statusLoop_within fun hmod => hcontrol htend (of_decide_eq_true (p := _ ∨ _) hmod)
  exact hkeep

theorem sStatus_guarded (h : mayTend w n → GOptsAt R (groupOf w n))
    (hname : mayTend w n → ∀ a, Within R (setName n (groupOf w n) a)) : R w (sStatus n arg w).2 := by
  refine sStatus_tame (fun ht => ?_) (fun ht a => ?_) hname fun ht _ => ?_
  all_goals
    have := h ht
    infer_instance

theorem sPass_guarded (h : mayRule w n → GOptsAt R (groupOf w n))
    (hmod : mayRule w n → ∀ v, ModAt R (groupOf w n) v) : R w (sPass n arg w).2 := by
  show wp (sPass n arg) (fun _ => R w) w
  have hget : R w (getG (groupOf w n) (getU n w).2).2 := trans_of R (Within.within w) (Within.within _)
  have hkeep {x : W Unit} [Within R x] : wp x (fun _ => R w) (getG (groupOf w n) (getU n w).2).2 :=
    trans_of R hget (Within.within _)
  refine wp_bind (wp_getW (wp_bind (wp_getU (wp_bind (wp_getG (wp_ite (fun _ => hkeep) fun hauth => ?_))))))
  have hrule : mayRule w n := not_not.mp hauth
  have := h hrule
  have := hmod hrule
  exact hkeep

/-- What is asked of the boots a moderator makes: they start from a table with the same names, and end
with `Q`. -/
abbrev BootsTo (R : World → World → Prop) (Q : World → Prop) (w : World) (n : Int) : Prop :=
  ∀ dest, 0 ≤ dest → inUsers dest → groupOf w dest = groupOf w n → ∀ w₁, R w w₁ → Calmly w w₁ →
    Q (bootTo dest bootGroup w₁).2

theorem sBoot_guarded {Q : World → Prop} (hRQ : ∀ w', R w w' → Q w')
    (hmisc : ∀ w' m, Q w' → Q (w'.withMisc m))
    (h : mayRule w n → ∀ who, Within R (modGOpts (groupOf w n) fun _ =>
      (cancelNick who (w.gTab (groupOf w n)).toGroupOpts).2))
    (hboot : mayRule w n → BootsTo R Q w n) : Q (sBoot n arg w).2 := by
  show wp (sBoot n arg) (fun _ => Q) w
  have hget : Both R Calmly w (getG (groupOf w n) (getU n w).2).2 :=
    trans_of (Both R Calmly) ⟨Within.within w, Within.within w⟩ ⟨Within.within _, Within.within _⟩
  have hkeep {x : W Unit} [Within R x] : wp x (fun _ => Q) (getG (groupOf w n) (getU n w).2).2 :=
    hRQ _ (trans_of R hget.1 (Within.within _))
  refine wp_bind (wp_getW (wp_bind (wp_getU (wp_bind (wp_getG (wp_ite (fun _ => hkeep) fun hauth => ?_))))))
  have hrule : mayRule w n := not_not.mp hauth
  refine wp_ite (fun _ => hkeep) fun hdest => wp_ite (fun _ => hkeep) fun _ => ?_
  have hdest : 0 ≤ findUser w (getword arg) := by omega
  cases bootText (getTail arg) (w.uTab (findUser w (getword arg))).nickname with
  | error e => exact hkeep
  | ok text =>
    refine wp_bind (wp_getW (wp_bind (wp_getU (wp_bind (wp_getU (wp_bind (wp_getG ?_)))))))
    rw [hget.2.groupOf, hget.2.groupOf]
    generalize hw₁ : (getG (groupOf w (findUser w (getword arg))) (getU (findUser w (getword arg))
      (getU n (getG (groupOf w n) (getU n w).2).2).2).2).2 = w₁
    have h₁ : Both R Calmly w w₁ := by
      refine trans_of (Both R Calmly) hget (hw₁ ▸ ?_)
      exact trans_of (Both R Calmly) (Within.within _)
        (trans_of (Both R Calmly) (Within.within _) (Within.within _))
    refine wp_ite (fun hsame => ?_) fun _ => hRQ _ (trans_of R h₁.1 (Within.within _))
    rw [← hsame]
    -- the invitation is cancelled and messages are sent
    have : Within (Both R Calmly) (modGOpts (groupOf w n) fun _ =>
        (cancelNick (w.uTab (findUser w (getword arg))).nickname (w.gTab (groupOf w n)).toGroupOpts).2) :=
      ⟨fun t => ⟨(h hrule _).within t, Within.within t⟩⟩
    refine wp_bind ?_
    show wp (modGOpts (groupOf w n) fun _ => (cancelNick (w.uTab (findUser w (getword arg))).nickname
      (w.gTab (groupOf w n)).toGroupOpts).2) _ w₁
    refine Within.wp (Both R Calmly) fun _ w₂ h₂ => ?_
    refine wp_bind (Within.wp (Both R Calmly) fun _ w₃ h₃ => ?_)
    refine wp_bind (Within.wp (Both R Calmly) fun _ w₄ h₄ => ?_)
    refine wp_bind (Within.wp (Both R Calmly) fun _ w₅ h₅ => ?_)
    have h₅ : Both R Calmly w w₅ := trans_of (Both R Calmly) h₁ (trans_of (Both R Calmly) h₂
      (trans_of (Both R Calmly) h₃ (trans_of (Both R Calmly) h₄ h₅)))
    have hslot := (findUser_nonneg hdest).1
    refine wp_after (hmisc _ _ ?_)
    exact hboot hrule _ hdest hslot hsame.symm w₅ h₅.1 h₅.2

end

/-! ## §2 — all commands -/

section
variable {R : World → World → Prop} [Still R] {n : Int} {d : Daemon}

omit [Env] in
/-- A command with one argument. -/
theorem withArg_post {Q : World → Prop} {argc : Nat} {f : Bytes → W Unit} (hQ : Q d.w)
    (h : ∀ arg, Q (f arg d.w).2) : Q (withArg argc f d).2.w := by
  show wp (withArg argc f) (fun _ d' => Q d'.w) d
  exact wp_whenever (fun _ => wp_bind (wp_getField (wp_onWorld (h _)))) fun _ => hQ

/-- The commands that write the entry of a group are left to be treated one by one, those apart that
write it for nobody but its moderator. -/
theorem runCommand_cases [∀ key, DbTo R key] [∀ v, NickTo R n v] [∀ v, RealTo R n v] [IdentTo R n]
    [Within R (regainMods n)] {Q : World → Prop} (hRQ : ∀ w', R d.w w' → Q w')
    (hown : (d.w.gTab (groupOf d.w n)).mod = n → GOptsAt R (groupOf d.w n))
    (htopic : ∀ arg, Q (sTopic n arg d.w).2) (hstatus : ∀ arg, Q (sStatus n arg d.w).2)
    (hpass : ∀ arg, Q (sPass n arg d.w).2) (hboot : ∀ arg, Q (sBoot n arg d.w).2)
    (hchange : ∀ t b, Q (sChange n t b d.w).2) (hexclude : ∀ arg, Q (sExclude n arg d.w).2)
    (argc : Nat) (c : Command) : Q (runCommand noCmd n argc c d).2.w := by
  have hQ : Q d.w := hRQ _ (refl_of R _)
  cases c with
  | cancel => exact withArg_post hQ fun _ => hRQ _ (sCancel_guarded hown)
  | invite => exact withArg_post hQ fun _ => hRQ _ (sInvite_guarded hown)
  | talk => exact withArg_post hQ fun _ => hRQ _ (sTalk_guarded hown)
  | topic => exact withArg_post hQ htopic
  | status => exact withArg_post hQ hstatus
  | pass => exact withArg_post hQ hpass
  | boot => exact withArg_post hQ hboot
  | exclude => exact withArg_post hQ hexclude
  | g =>
    show wp (runCommand noCmd n argc .g) (fun _ d' => Q d'.w) d
    refine wp_ite (fun _ => wp_bind (wp_getField (wp_onWorld (wp_after ?_)))) fun _ => hQ
    exact hchange _ _
  | _ =>
    unfold runCommand
    exact hRQ _ (Within.within (R := OnWorld R) d)

/-- **The writes of a command stand behind its tests.** The group of the caller is written by those who
may tend it or rule it; apart from that a command moves its caller or somebody of a group its caller
rules, and changes its caller's own entry and the database. The moves need not stay within the relation
the other writes stay within. -/
theorem runCommand_guarded [∀ key, DbTo R key] [∀ v, NickTo R n v] [∀ v, RealTo R n v] [IdentTo R n]
    [Within R (regainMods n)] {Q : World → Prop} (hRQ : ∀ w', R d.w w' → Q w')
    (hmisc : ∀ w' m, Q w' → Q (w'.withMisc m))
    (hopts : mayTend d.w n → GOptsAt R (groupOf d.w n))
    (hname : mayTend d.w n → ∀ a, Within R (setName n (groupOf d.w n) a))
    (hmod : mayRule d.w n → ∀ v, ModAt R (groupOf d.w n) v)
    (hchange : ∀ t b, Q (sChange n t b d.w).2)
    (hboot : mayRule d.w n → BootsTo R Q d.w n)
    (hexclude : ∀ arg, Q (sExclude n arg d.w).2) (argc : Nat) (c : Command) :
    Q (runCommand noCmd n argc c d).2.w := by
  have hrule (h : mayRule d.w n) : GOptsAt R (groupOf d.w n) := hopts h.mayTend
  refine runCommand_cases hRQ (fun hown => hopts (.inr (.inl hown))) (fun _ => ?_) (fun _ => ?_)
    (fun _ => ?_) (fun _ => ?_) hchange hexclude argc c
  · refine hRQ _ (sTopic_guarded fun ht => ?_)
    have := hopts ht
    infer_instance
  · exact hRQ _ (sStatus_guarded hopts hname)
  · exact hRQ _ (sPass_guarded hrule hmod)
  · refine sBoot_guarded hRQ hmisc (fun hr _ => ?_) hboot
    have := hrule hr
    infer_instance

end

end Icbd.Server
