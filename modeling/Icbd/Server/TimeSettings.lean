/-
# Icbd.Server.TimeSettings — the two settings that are times, `/status b` and `/status im`.

Both take a number of minutes and store seconds. The product is an `int` before it is compared with the
limits, so a number of minutes whose product does not fit comes back as some other number of seconds, and
where that one is within the limits it is stored and no error is sent.
-/
import Icbd.Decimal
import Icbd.Words
import Icbd.Server.Command
import Icbd.Server.Drop
import Mathlib.Data.Bool.AllAny

-- every bind doubles the size of the search's argument
set_option synthInstance.maxSize 1000000000000000000000000000000000000000000000000
set_option synthInstance.maxHeartbeats 200000

namespace Icbd.Server

open Icbd.Lib

/-! ## §1 — minutes and seconds -/

/-- The settings of a group that are times. -/
inductive TimeOpt
  | idleboot | idlemod
  deriving DecidableEq, Repr

/-- The word for `s_status`. -/
def TimeOpt.word : TimeOpt → Bytes
  | .idleboot => str "b"
  | .idlemod => str "im"

/-- What is stored. -/
def TimeOpt.get : TimeOpt → GroupOpts → Int
  | .idleboot, o => o.idleboot
  | .idlemod, o => o.idlemod

/-- What is to be stored for `N` minutes: a group cannot do without a limit for its moderator. -/
def TimeOpt.meant : TimeOpt → Int → Int
  | .idleboot, N => 60 * N
  | .idlemod, N => if N = 0 then maxIdleMod else 60 * N

/-- What the server takes `N` minutes for. -/
def TimeOpt.secs : TimeOpt → Int → Int
  | .idleboot, N => toInt32 (60 * N)
  | .idlemod, N => if toInt32 (60 * N) = 0 then maxIdleMod else toInt32 (60 * N)

/-- The limits it has to be within. -/
def TimeOpt.Passes : TimeOpt → Int → Prop
  | .idleboot, N => 0 ≤ toInt32 (60 * N)
  | .idlemod, N => 0 ≤ toInt32 (60 * N) ∧ toInt32 (60 * N) ≤ maxIdleMod

instance : ∀ (t : TimeOpt) (N : Int), Decidable (t.Passes N)
  | .idleboot, _ => inferInstanceAs (Decidable (0 ≤ _))
  | .idlemod, _ => inferInstanceAs (Decidable (_ ∧ _))

/-- The argument of `s_status`. -/
def TimeOpt.arg (t : TimeOpt) (N : Int) : Bytes := t.word ++ 32 :: decimal N

/-- A product that fits is taken for itself. -/
theorem toInt32_eq_self_iff {i : Int} : toInt32 i = i ↔ -(2 ^ 31) ≤ i ∧ i < 2 ^ 31 := by
  unfold toInt32
  constructor
  · intro h
    have hlo : 0 ≤ (i + 2 ^ 31) % 2 ^ 32 := Int.emod_nonneg _ (by decide)
    have hhi : (i + 2 ^ 31) % 2 ^ 32 < 2 ^ 32 := Int.emod_lt_of_pos _ (by decide)
    generalize (i + 2 ^ 31) % 2 ^ 32 = r at h hlo hhi
    omega
  · rintro ⟨hlo, hhi⟩
    rw [Int.emod_eq_of_lt (by omega) (by omega), Int.add_sub_cancel]

/-- The seconds are the right ones if and only if the product fits: a product that does not is never
taken for the limit of a moderator by right, since that is asked for with 0 only. -/
theorem TimeOpt.secs_eq_meant_iff (t : TimeOpt) (N : Int) : t.secs N = t.meant N ↔ toInt32 (60 * N) = 60 * N := by
  cases t with
  | idleboot => rfl
  | idlemod =>
    have hmax : maxIdleMod = 14400 := rfl
    obtain ⟨q, hq⟩ : ∃ q, toInt32 (60 * N) = 60 * N - 4294967296 * q :=
      ⟨(60 * N + 2 ^ 31) / 2 ^ 32, by unfold toInt32; omega⟩
    simp only [secs, meant]
    by_cases hN : N = 0
    · subst hN
      decide
    generalize toInt32 (60 * N) = r at hq
    by_cases hr : r = 0
    · simp only [if_neg hN, if_pos hr]
      omega
    · simp only [if_neg hN, if_neg hr]

/-- What the server tests of the limit for a moderator. -/
theorem TimeOpt.passes_idlemod (N : Int) :
    TimeOpt.Passes .idlemod N ↔ ¬ (TimeOpt.secs .idlemod N < 1 ∨ TimeOpt.secs .idlemod N > maxIdleMod) := by
  have hmax : maxIdleMod = 14400 := rfl
  simp only [Passes, secs]
  generalize toInt32 (60 * N) = r
  split <;> omega

theorem decimal_no_blank (N : Int) : ∀ b ∈ decimal N, isBlank b = false := by
  obtain ⟨sign, hsign, heq⟩ := decimal_sign N
  intro b hb
  rw [heq] at hb
  rcases List.mem_append.mp hb with hb | hb
  · rcases hsign with rfl | rfl
    · cases hb
    · cases List.mem_singleton.mp hb
      decide
  · have hdigit := isDigit_digits _ b hb
    simp only [isDigit, isBlank, Bool.and_eq_true, decide_eq_true_eq, Bool.or_eq_false_iff, beq_eq_false_iff_ne,
      ne_eq, ← UInt8.toNat_inj, UInt8.le_iff_toNat_le, UInt8.reduceToNat] at hdigit ⊢
    omega

/-- A number is one word, and nothing is behind it. -/
theorem word_decimal {N : Int} (hlo : -(2 ^ 31) ≤ N) (hhi : N < 2 ^ 31) :
    getword (decimal N) = decimal N ∧ getTail (decimal N) = [] := by
  refine ⟨getword_eq_self (decimal_no_blank N) ((decimal_length_le hlo hhi).trans (by decide)), ?_⟩
  have hpos : ∀ b ∈ decimal N, (!isBlank b) = true := fun b hb => by simp [decimal_no_blank N b hb]
  rw [getTail, List.dropWhile_eq_nil_iff.mpr hpos, List.dropWhile_nil]

/-! ## §2 — the command -/

section
variable [Env]

/-- May `n` change the times of its group? -/
def maySet (w : World) (n : Int) : Prop :=
  let g := w.gTab (groupOf w n)
  ¬ strcaseEq g.name (str "1") ∧ ¬ strcaseEq g.name idleGroup ∧ ¬ strcaseEq g.name bootGroup ∧
    (g.mod ≠ -1 ∨ g.modtimeout > 0) ∧ (g.mod = n ∨ g.control = .pub)

instance (w : World) (n : Int) : Decidable (maySet w n) := inferInstanceAs (Decidable (_ ∧ _))

/-- The option that the word stands for. -/
def TimeOpt.opt : TimeOpt → SetOpt
  | .idleboot => .idleboot
  | .idlemod => .idlemod

/-- What is stored if the command is accepted. -/
def TimeOpt.accepted (t : TimeOpt) (w : World) (n N : Int) : Option Int :=
  if maySet w n ∧ t.Passes N then some (t.secs N) else none

/-- What happens to a setting: a new value without an error, or no change and an error for a client that
listens. -/
def Answered (t : TimeOpt) (n i : Int) (w : World) (value : Option Int) (w' : World) : Prop :=
  match value with
  | some v => t.get (w'.gTab i).toGroupOpts = v ∧ NoError n w w'
  | none => w'.gTab = w.gTab ∧ (NoError n w w' ↔ ¬ Listens n w)

section
variable {t : TimeOpt} {w w₁ : World} {n i : Int} {N : Int} {msg : Bytes}

theorem NoError.listens_iff (h : NoError n w w₁) : Listens n w₁ ↔ Listens n w := by
  unfold Listens
  rw [h.1]

omit [Env] in
theorem TimeOpt.word_arg (t : TimeOpt) (N : Int) : getword (t.arg N) = t.word ∧ getTail (t.arg N) = decimal N := by
  refine word_blank ?_ ?_ ?_
  · rw [← List.all_iff_forall_prop]
    cases t <;> decide
  · cases t <;> decide
  · obtain ⟨b, bs, hbs⟩ := List.exists_cons_of_ne_nil (decimal_ne_nil N)
    simpa [hbs] using decimal_no_blank N b (hbs ▸ List.mem_cons_self)

/-- An error is an answer. -/
theorem answered_error (t : TimeOpt) (i : Int) (hG : w₁.gTab = w.gTab) (hno : NoError n w w₁) :
    wp (senderror n msg) (fun _ => Answered t n i w none) w₁ := by
  have hS : Stilly w₁ (senderror n msg w₁).2 := Within.within w₁
  refine ⟨hS.groups.trans hG, ?_⟩
  by_cases hlisten : Listens n w
  · refine iff_of_false (fun hno' => ?_) (not_not.mpr hlisten)
    have hout : (senderror n msg w₁).2.out = _ := senderror_out (hno.listens_iff.mpr hlisten)
    obtain ⟨-, new, hnew, -⟩ := hno
    obtain ⟨-, new', hnew', hclean'⟩ := hno'
    rw [hout, hnew, ← List.cons_append] at hnew'
    cases List.append_cancel_right hnew'
    exact hclean' _ List.mem_cons_self rfl
  · refine iff_of_true (trans_of (NoError n) hno ?_) hlisten
    refine (show wp (senderror n msg) (fun _ => NoError n w₁) w₁ from wp_bind (wp_getW (wp_whenever ?_ fun _ => .same rfl rfl)))
    exact fun h => absurd (hno.listens_iff.mp ⟨mem_slots.mpr ⟨h.1, h.2.1⟩, h.2.2⟩) hlisten

/-- So is a new value. -/
theorem answered_stored {f : GroupOpts → GroupOpts} {v : Int} (hno : NoError n w w₁)
    (hv : t.get (f (w₁.gTab i).toGroupOpts) = v) : Answered t n i w (some v) (modGOpts i f w₁).2 := by
  refine ⟨?_, trans_of (NoError n) hno (.same rfl rfl)⟩
  simpa [modGOpts, World.modG] using hv

/-- The setting itself: the limits are tested on the seconds. -/
theorem statusOpt_time (hlo : -(2 ^ 31) ≤ N) (hhi : N < 2 ^ 31) (hG : w₁.gTab = w.gTab) (hno : NoError n w w₁) :
    wp (statusOpt n i t.opt (t.arg N)) (fun r w' => r.2 = decimal N ∧
      (t.Passes N → Answered t n i w (some (t.secs N)) w') ∧
      (¬ t.Passes N → r.1 = [] ∧ Answered t n i w none w')) w₁ := by
  obtain ⟨-, htail⟩ := t.word_arg N
  have hword := (word_decimal hlo hhi).1
  have hne := decimal_ne_nil N
  have hget : NoError n w (getU n w₁).2 := trans_of (NoError n) hno (.same rfl rfl)
  cases t with
  | idleboot =>
    simp only [statusOpt, TimeOpt.opt, htail, hword]
    refine wp_bind (wp_bind (wp_getU ?_))
    rw [if_neg hne, atoi_decimal hlo hhi, Int.mul_comm]
    refine wp_ite (fun hneg => ?_) fun hpos => ?_
    · refine wp_after (wp_pure (wp_pure ⟨rfl, fun hpass => absurd hneg (not_lt.mpr hpass), fun _ => ⟨rfl, ?_⟩⟩))
      exact answered_error .idleboot i hG hget
    · refine wp_after (wp_pure (wp_pure ⟨rfl, fun _ => ?_, fun hno => absurd (not_lt.mp hpos) hno⟩))
      exact answered_stored hget rfl
  | idlemod =>
    simp only [statusOpt, TimeOpt.opt, htail, hword]
    refine wp_bind (wp_bind (wp_getU ?_))
    rw [atoi_decimal hlo hhi, Int.mul_comm]
    refine wp_bind (Within.wp_both Stilly (NoError n) fun _ w₂ hS hno₂ => ?_)
    have hG₂ : w₂.gTab = w.gTab := hS.groups.trans hG
    have hno₂ : NoError n w w₂ := trans_of (NoError n) hget hno₂
    refine wp_ite (fun hout => ?_) fun hin => ?_
    · refine wp_after (wp_pure (wp_pure ⟨rfl, fun hpass => ?_, fun _ => ⟨rfl, answered_error .idlemod i hG₂ hno₂⟩⟩))
      exact absurd (or_iff_right hne |>.mp hout) ((TimeOpt.passes_idlemod N).mp hpass)
    · refine wp_after (wp_pure (wp_pure ⟨rfl, fun _ => answered_stored hno₂ rfl, fun hno => ?_⟩))
      exact absurd ((TimeOpt.passes_idlemod N).mpr (not_or.mp hin).2) hno

/-- The loop is at its end behind the number. -/
theorem statusLoop_nil (hasMod : Bool) (k : Nat) : statusLoop n i hasMod k [] = pure () := by
  cases k <;> rfl

omit [Env] in
theorem TimeOpt.ofIndex_word (t : TimeOpt) :
    SetOpt.ofIndex (lookup t.word statusTable) = t.opt ∧ t.opt.needsMod.isSome ∧ t.word ≠ [] := by
  cases t <;> decide

/-- The loop makes one turn. -/
theorem statusLoop_time (hlo : -(2 ^ 31) ≤ N) (hhi : N < 2 ^ 31) (hG : w₁.gTab = w.gTab) (hno : NoError n w w₁)
    (hasMod : Bool) (k : Nat) :
    wp (statusLoop n i hasMod (k + 1) (t.arg N))
      (fun _ => Answered t n i w (if hasMod ∧ t.Passes N then some (t.secs N) else none)) w₁ := by
  obtain ⟨hword, htail⟩ := t.word_arg N
  obtain ⟨hopt, hneeds, hne⟩ := t.ofIndex_word
  have hend := (word_decimal hlo hhi).2
  simp only [statusLoop, hword, hopt, hneeds, true_and]
  refine wp_whenever (fun _ => wp_ite (fun hmod => ?_) fun hmod => ?_) fun h => absurd (hword ▸ hne) h
  · have hskip : t.opt = .idleboot ∨ t.opt = .idlemod := by cases t <;> decide
    rw [if_pos hskip, htail, hend, statusLoop_nil, if_neg fun h => by simp [hmod] at h]
    exact wp_after (wp_pure (answered_error t i hG hno))
  · have hmod : hasMod = true := by simpa using hmod
    refine wp_bind (wp_mono (statusOpt_time hlo hhi hG hno) ?_)
    rintro ⟨msg, rest⟩ w₂ ⟨hrest, hpass, hfail⟩
    simp only at hrest hfail
    simp only [hrest, hend, statusLoop_nil, hmod, true_and]
    by_cases hp : t.Passes N
    · rw [if_pos hp]
      obtain ⟨hget, hno₂⟩ := hpass hp
      refine wp_after (wp_pure ?_)
      have hS : Stilly w₂ (whenever (msg ≠ []) (sStatusGroup 1 true n (str "Change") msg) w₂).2 := Within.within w₂
      have hno₃ : NoError n w₂ (whenever (msg ≠ []) (sStatusGroup 1 true n (str "Change") msg) w₂).2 := Within.within w₂
      exact ⟨by rw [hS.groups]; exact hget, trans_of (NoError n) hno₂ hno₃⟩
    · obtain ⟨hnil, hanswer⟩ := hfail hp
      rw [if_neg hp]
      exact wp_bind (wp_whenever (fun h => absurd hnil h) fun _ => wp_pure hanswer)

/-- **`s_status` with a time**: what it does in all worlds. -/
theorem sStatus_time (t : TimeOpt) (w : World) (n : Int) (hlo : -(2 ^ 31) ≤ N) (hhi : N < 2 ^ 31) :
    Answered t n (groupOf w n) w (t.accepted w n N) (sStatus n (t.arg N) w).2 := by
  have hne : t.arg N ≠ [] := by cases t <;> exact List.cons_ne_nil _ _
  have hget : NoError n w (getG (groupOf w n) w).2 := .same rfl rfl
  have hG : (getG (groupOf w n) w).2.gTab = w.gTab := rfl
  have hrefuse {msg : Bytes} (hno : ¬ maySet w n) :
      wp (senderror n msg) (fun _ => Answered t n (groupOf w n) w (t.accepted w n N)) (getG (groupOf w n) w).2 := by
    rw [TimeOpt.accepted, if_neg fun h => hno h.1]
    exact answered_error t _ hG hget
  show wp (sStatus n (t.arg N)) (fun _ => Answered t n (groupOf w n) w (t.accepted w n N)) w
  unfold sStatus
  rw [if_neg hne]
  refine wp_bind (wp_getW (wp_bind (wp_getG (wp_ite (fun hname => hrefuse fun h => h.1 hname) fun h₁ => ?_))))
  refine wp_ite (fun hname => hrefuse fun h => h.2.1 hname) fun h₂ => ?_
  refine wp_ite (fun hname => hrefuse fun h => h.2.2.1 hname) fun h₃ => ?_
  simp only [decide_eq_true_eq]
  refine wp_ite (fun hmod => hrefuse fun h => ?_) fun hmod => ?_
  · exact h.2.2.2.2.elim hmod.1 hmod.2.2
  · refine wp_mono (statusLoop_time hlo hhi hG hget _ _) fun _ w' h => ?_
    have hset : maySet w n ↔ hasMod w n := by
      refine ⟨fun h => h.2.2.2.1, fun h => ⟨h₁, h₂, h₃, h, ?_⟩⟩
      by_contra hno
      exact hmod ⟨fun hown => hno (.inl hown), h, fun hpub => hno (.inr hpub)⟩
    unfold hasMod at hset
    rw [TimeOpt.accepted]
    simp only [hset]
    simpa only [decide_eq_true_eq] using h

/-! ## §3 — as asked -/

/-- The setting is stored as asked: `60 * N` seconds without an error, or an error and no change. -/
def StoredAsAsked (t : TimeOpt) (n N : Int) (w : World) : Prop :=
  let w' := (sStatus n (t.arg N) w).2
  let i := groupOf w n
  (NoError n w w' → t.get (w'.gTab i).toGroupOpts = t.meant N) ∧
    (¬ NoError n w w' → t.get (w'.gTab i).toGroupOpts = t.get (w.gTab i).toGroupOpts)

/-- **Times are stored as asked** if and only if the product of what is accepted fits an `int`. A client that
is told nothing is not told of a refusal either. -/
theorem stored_as_asked_iff (t : TimeOpt) (w : World) (n N : Int) (hlo : -(2 ^ 31) ≤ N) (hhi : N < 2 ^ 31) :
    StoredAsAsked t n N w ↔
      if maySet w n ∧ t.Passes N then -(2 ^ 31) ≤ 60 * N ∧ 60 * N < 2 ^ 31
      else Listens n w ∨ t.get (w.gTab (groupOf w n)).toGroupOpts = t.meant N := by
  have hanswer := sStatus_time t w n hlo hhi
  simp only [StoredAsAsked]
  unfold TimeOpt.accepted at hanswer
  split_ifs at hanswer ⊢ with hacc
  · obtain ⟨hget, hno⟩ := hanswer
    rw [← toInt32_eq_self_iff, ← t.secs_eq_meant_iff, hget]
    exact ⟨fun h => h.1 hno, fun h => ⟨fun _ => h, fun hno' => absurd hno hno'⟩⟩
  · obtain ⟨hG, hno⟩ := hanswer
    simp only [hG, hno]
    tauto

end

end

section
attribute [local instance] smallEnv

/-- The client on slot 1 has logged in and may change the times of its group. -/
def Tends (h : Host) : Prop := (h.w.uTab 1).login = .complete ∧ maySet h.w 1

instance : DecidablePred Tends := fun _ => inferInstanceAs (Decidable (_ ∧ _))

theorem reachable_tends : ∃ h : Host, Reachable (fun _ _ _ => True) h ∧ Tends h := by
  have hrun : Host.leads (fun _ _ _ => True) {} Tends { w := startup {} fun _ => none }
      [.connect 1 false none, .packet 1 (loginPkt "one" "first" "club" "")] := by
    decide +kernel
  exact Reachable.leads (.start {} fun _ => none) hrun

/-- `/status im 60`: an hour. -/
theorem stored_as_asked_hour : ∃ h : Host, maySet h.w 1 ∧ StoredAsAsked .idlemod 1 60 h.w := by
  obtain ⟨h, -, -, hset⟩ := reachable_tends
  refine ⟨h, hset, (stored_as_asked_iff .idlemod h.w 1 60 (by decide) (by decide)).mpr ?_⟩
  rw [if_pos ⟨hset, by decide⟩]
  decide

/-- `/status b 71582789`: 44 seconds. -/
theorem stored_wrapped : ∃ h : Host, Reachable (fun _ _ _ => True) h ∧ (h.w.uTab 1).login = .complete ∧
    ¬ StoredAsAsked .idleboot 1 71582789 h.w := by
  obtain ⟨h, hr, hlogin, hset⟩ := reachable_tends
  refine ⟨h, hr, hlogin, fun hasked => ?_⟩
  have hanswer := sStatus_time .idleboot h.w 1 (N := 71582789) (by decide) (by decide)
  rw [TimeOpt.accepted, if_pos ⟨hset, by decide⟩] at hanswer
  exact absurd (hanswer.1.symm.trans (hasked.1 hanswer.2)) (by decide)

end

end Icbd.Server
