/-
# Icbd.Server.Hush — `/hush` and `/notify` as toggles.

Both commands put a name on a list or take it off again. A hush list has the capacity that the command
tests for; the notify lists of the automatic user have the capacity of hush lists, so that the test comes too
late and a name that is put on a full list takes the place of another. A command that hushArg in two lists
tests the second when it has changed the first.
-/
import Icbd.Sanitise
import Icbd.Server.Drop
import Icbd.Server.Leftover
import Mathlib.Data.Bool.AllAny

-- every bind doubles the size of the search's argument
set_option synthInstance.maxSize 1000000000000000000000000000000000000000000000000
set_option synthInstance.maxHeartbeats 200000

namespace Icbd.Server

open Icbd.Lib

/-! ## §1 — one list -/

/-- A list with a name put on it, or taken off if it was there, or `none` if there are `limit` others. -/
def flipped (limit : Nat) (who : Bytes) (nl : NamList) : Option NamList :=
  if nlpresent who nl then some (nldelete nl who).2
  else if nl.count = limit then none
  else some (nlput nl who)

/-- The same names are on two lists. -/
def SameNames (l₁ l₂ : NamList) : Prop := ∀ x, x ∈ l₁.names ↔ x ∈ l₂.names

/-- A name put on the list would take the place of another: it has fewer than `limit` names and no room. -/
def Evicts (limit : Nat) (who : Bytes) (nl : NamList) : Prop :=
  ¬ nlpresent who nl ∧ nl.count = nl.max ∧ nl.max < limit

instance (limit : Nat) (who : Bytes) (nl : NamList) : Decidable (Evicts limit who nl) :=
  inferInstanceAs (Decidable (_ ∧ _))

section
variable {nl nl₁ : NamList} {k limit : Nat} {who x : Bytes}

theorem shouted_flipped (h : nl.Shouted k) (hk : 0 < k) (hwho : ucaseit who = who)
    (hflip : flipped limit who nl = some nl₁) : nl₁.Shouted k := by
  unfold flipped at hflip
  split at hflip
  · exact Option.some.inj hflip ▸ h.nldelete hwho
  · split at hflip
    · cases hflip
    · exact Option.some.inj hflip ▸ h.nlput hk hwho

/-- A list that has a name to spare is shorter without it. -/
theorem count_nldelete_lt (h : nl.Shouted k) (hwho : ucaseit who = who) (hmem : who ∈ nl.names) :
    (nldelete nl who).2.count < nl.count := by
  simp only [nldelete, h.find_eq hwho hmem, NamList.count, List.length_erase_of_mem hmem]
  exact Nat.sub_lt (List.length_pos_of_mem hmem) Nat.one_pos

/-- What is on the list afterwards, if no name takes the place of another. -/
theorem mem_flipped (h : nl.Shouted k) (hwho : ucaseit who = who) (hevict : ¬ Evicts limit who nl)
    (hk : k ≤ limit) (hflip : flipped limit who nl = some nl₁) :
    x ∈ nl₁.names ↔ if x = who then x ∉ nl.names else x ∈ nl.names := by
  unfold flipped at hflip
  split at hflip
  next hon =>
    have hmem := (h.nlpresent_iff hwho).mp hon
    rw [← Option.some.inj hflip, h.mem_nldelete hwho]
    split <;> simp_all
  next hoff =>
    have hmem : who ∉ nl.names := fun hmem => hoff ((h.nlpresent_iff hwho).mpr hmem)
    split at hflip
    · cases hflip
    next hroom =>
      have hlt : nl.count < k := by
        have hfits := h.fits
        have hmax := h.max_eq
        by_contra hfull
        exact hevict ⟨hoff, by omega, by omega⟩
      rw [← Option.some.inj hflip, h.mem_nlput hwho (.inr hlt)]
      split <;> simp_all

/-- **Twice** is the list as it was, up to the order. -/
theorem flipped_flipped (h : nl.Shouted k) (hpos : 0 < k) (hwho : ucaseit who = who)
    (hevict : ¬ Evicts limit who nl) (hk : k ≤ limit) (hflip : flipped limit who nl = some nl₁) :
    ∃ nl₂, flipped limit who nl₁ = some nl₂ ∧ SameNames nl₂ nl := by
  have h₁ := shouted_flipped h hpos hwho hflip
  have hmem₁ := fun x => mem_flipped (x := x) h hwho hevict hk hflip
  have hroom : nlpresent who nl₁ ∨ nl₁.count < k := by
    by_cases hmem : who ∈ nl.names
    · -- the name has just been taken off
      unfold flipped at hflip
      rw [if_pos ((h.nlpresent_iff hwho).mpr hmem)] at hflip
      have hcount := count_nldelete_lt h hwho hmem
      rw [Option.some.inj hflip] at hcount
      exact .inr (lt_of_lt_of_le hcount h.fits)
    · exact .inl ((h₁.nlpresent_iff hwho).mpr (by simpa using (hmem₁ who).mpr (by simpa using hmem)))
  have hevict₁ : ¬ Evicts limit who nl₁ := by
    rintro ⟨hoff, hfull, -⟩
    have hlt := hroom.resolve_left hoff
    rw [hfull, h₁.max_eq] at hlt
    exact lt_irrefl k hlt
  obtain ⟨nl₂, hflip₂⟩ : ∃ nl₂, flipped limit who nl₁ = some nl₂ := by
    unfold flipped
    by_cases hon : nlpresent who nl₁
    · exact ⟨_, if_pos hon⟩
    · have hlt := hroom.resolve_left hon
      exact ⟨_, by rw [if_neg hon, if_neg (by omega)]⟩
  refine ⟨nl₂, hflip₂, fun x => ?_⟩
  rw [mem_flipped h₁ hwho hevict₁ hk hflip₂, hmem₁]
  split <;> simp_all

/-- A name that takes the place of another. -/
theorem flipped_of_evicts (h : nl.Shouted k) (hpos : 0 < k) (hwho : ucaseit who = who) (hevict : Evicts limit who nl) :
    ∃ nl₁, flipped limit who nl = some nl₁ ∧ ∃ x ≠ who, x ∈ nl.names ∧ x ∉ nl₁.names := by
  obtain ⟨hoff, hfull, hlt⟩ := hevict
  have hmem : who ∉ nl.names := fun hmem => hoff ((h.nlpresent_iff hwho).mpr hmem)
  have hne : nl.names ≠ [] := List.length_pos_iff.mp (by rw [← NamList.count, hfull, h.max_eq]; exact hpos)
  refine ⟨nlput nl who, ?_, nl.names.getLast hne, ?_, List.getLast_mem hne, ?_⟩
  · rw [flipped, if_neg hoff, if_neg (by omega)]
  · exact fun heq => hmem (heq ▸ List.getLast_mem hne)
  · simp only [nlput, h.find_none hwho hmem, hfull, lt_self_iff_false, ↓reduceIte, List.mem_cons, not_or]
    refine ⟨fun heq => hmem (heq ▸ List.getLast_mem hne), fun hlast => ?_⟩
    have hnodup := h.names_nodup
    rw [← List.dropLast_append_getLast hne] at hnodup
    exact List.disjoint_of_nodup_append hnodup hlast (List.mem_singleton_self _)

end

/-! ## §2 — the lists of one `/hush` -/

/-- The lists a command goes through. -/
def hushLists (f : Flags) : List HushList :=
  (if f.p ∨ f.o = false then [if f.s then .priS else .priN] else []) ++
    (if f.o ∨ f.p = false then [if f.s then .pubS else .pubN] else [])

/-- The lists are changed in turn, up to the first that is full. -/
def hushRun (who : Bytes) : List HushList → UserOpts → UserOpts × Option HushList
  | [], o => (o, none)
  | l :: ls, o =>
      match flipped maxHushed who (l.get o) with
      | none => (o, some l)
      | some nl => hushRun who ls (l.set o nl)

section
variable {o : UserOpts} {l l' : HushList} {ls : List HushList} {nl nl' : NamList} {who x : Bytes} {f : Flags}

theorem HushList.get_set_self : l.get (l.set o nl) = nl := by
  cases l <;> rfl

theorem HushList.get_set_of_ne (h : l' ≠ l) : l'.get (l.set o nl) = l'.get o := by
  cases l <;> cases l' <;> first | rfl | exact absurd rfl h

theorem HushList.set_comm (h : l' ≠ l) : l'.set (l.set o nl) nl' = l.set (l'.set o nl') nl := by
  cases l <;> cases l' <;> first | rfl | exact absurd rfl h

theorem UserOpts.Neat.get (h : o.Neat) (l : HushList) : (l.get o).Shouted maxHushed := by
  cases l
  · exact h.priS
  · exact h.pubS
  · exact h.priN
  · exact h.pubN

theorem UserOpts.Neat.set (h : o.Neat) (hnl : nl.Shouted maxHushed) : (l.set o nl).Neat := by
  cases l
  · exact ⟨h.priN, h.pubN, hnl, h.pubS, h.n, h.s⟩
  · exact ⟨h.priN, h.pubN, h.priS, hnl, h.n, h.s⟩
  · exact ⟨hnl, h.pubN, h.priS, h.pubS, h.n, h.s⟩
  · exact ⟨h.priN, hnl, h.priS, h.pubS, h.n, h.s⟩

/-- A hush list has the capacity that is tested for. -/
theorem not_evicts_hush (h : nl.Shouted maxHushed) : ¬ Evicts maxHushed who nl :=
  fun hevict => (hevict.2.2.trans_eq h.max_eq.symm).false

theorem hushLists_nodup (f : Flags) : (hushLists f).Nodup := by
  unfold hushLists
  cases f.p <;> cases f.o <;> cases f.s <;> decide

theorem hushRun_cons (h : flipped maxHushed who (l.get o) = some nl) :
    hushRun who (l :: ls) o = hushRun who ls (l.set o nl) := by
  rw [hushRun, h]

/-- The other lists stay. -/
theorem hushRun_get (hl : l ∉ ls) : l.get (hushRun who ls o).1 = l.get o := by
  induction ls generalizing o with
  | nil => rfl
  | cons l' ls ih =>
    obtain ⟨hne, hmem⟩ := not_or.mp fun h => hl (List.mem_cons.mpr h)
    unfold hushRun
    split
    · rfl
    · rw [ih hmem, HushList.get_set_of_ne hne]

/-- The other lists do not matter. -/
theorem hushRun_set (hl : l ∉ ls) : (hushRun who ls (l.set o nl)).1 = l.set (hushRun who ls o).1 nl := by
  induction ls generalizing o with
  | nil => rfl
  | cons l' ls ih =>
    obtain ⟨hne, hmem⟩ := not_or.mp fun h => hl (List.mem_cons.mpr h)
    simp only [hushRun, HushList.get_set_of_ne (Ne.symm hne)]
    split
    · rfl
    · rw [HushList.set_comm (Ne.symm hne), ih hmem]

/-- **A second run** takes back what the first has done: what it changed it changes back, and a list that
was full is full again. -/
theorem hushRun_hushRun (h : o.Neat) (hwho : ucaseit who = who) (hls : ls.Nodup) (l : HushList) :
    SameNames (l.get (hushRun who ls (hushRun who ls o).1).1) (l.get o) := by
  induction ls generalizing o with
  | nil => exact fun _ => Iff.rfl
  | cons l₀ ls ih =>
    obtain ⟨hnot, hnodup⟩ := List.nodup_cons.mp hls
    have hl₀ := h.get l₀
    cases hflip : flipped maxHushed who (l₀.get o) with
    | none =>
      simp only [hushRun, hflip]
      exact fun _ => Iff.rfl
    | some nl₁ =>
      obtain ⟨nl₂, hflip₂, hsame⟩ := flipped_flipped hl₀ (by decide) hwho (not_evicts_hush hl₀) le_rfl hflip
      have hsecond : (hushRun who (l₀ :: ls) (hushRun who (l₀ :: ls) o).1).1 =
          l₀.set (hushRun who ls (hushRun who ls (l₀.set o nl₁)).1).1 nl₂ := by
        have hget : l₀.get (hushRun who ls (l₀.set o nl₁)).1 = nl₁ := by
          rw [hushRun_get hnot, HushList.get_set_self]
        rw [hushRun_cons hflip, hushRun_cons (hget ▸ hflip₂), hushRun_set hnot]
      rw [hsecond]
      by_cases hl : l = l₀
      · rw [hl, HushList.get_set_self]
        exact hsame
      · rw [HushList.get_set_of_ne hl]
        have hneat := h.set (l := l₀) (shouted_flipped hl₀ (by decide) hwho hflip)
        exact fun x => (ih hneat hnodup x).trans (by rw [HushList.get_set_of_ne hl])

/-- One run changes nothing about other names. -/
theorem hushRun_other (h : o.Neat) (hwho : ucaseit who = who) (hx : x ≠ who) (l : HushList) :
    x ∈ (l.get (hushRun who ls o).1).names ↔ x ∈ (l.get o).names := by
  induction ls generalizing o with
  | nil => exact Iff.rfl
  | cons l₀ ls ih =>
    have hl₀ := h.get l₀
    unfold hushRun
    split
    · exact Iff.rfl
    next nl₁ hflip =>
      rw [ih (h.set (shouted_flipped hl₀ (by decide) hwho hflip))]
      by_cases hl : l = l₀
      · rw [hl, HushList.get_set_self, mem_flipped hl₀ hwho (not_evicts_hush hl₀) le_rfl hflip, if_neg hx]
      · rw [HushList.get_set_of_ne hl]

end

section
variable [Env]

/-! ## §3 — what the commands do to a user's options -/

/-- The hush lists that an argument is about, and the name. -/
def hushArg (arg : Bytes) : Option (List HushList × Bytes) :=
  (flagsOf "qnspo" arg).bind fun f => if f.who = [] then none else some (hushLists f, ucaseit f.who)

/-- The options after `s_hush`, and the list that it reports as full. -/
def hushed (arg : Bytes) (o : UserOpts) : UserOpts × Option HushList :=
  match hushArg arg with
  | none => (o, none)
  | some (ls, who) => hushRun who ls o

/-- The notify list that an argument is about, and the name. -/
def notifyArg (arg : Bytes) : Option (Bool × Bytes) :=
  (flagsOf "qns" arg).bind fun f => if f.who = [] then none else some (f.s, ucaseit f.who)

/-- The options after `s_notify`. -/
def notified (arg : Bytes) (o : UserOpts) : UserOpts :=
  match notifyArg arg with
  | none => o
  | some (site, who) => ((flipped maxNotifies who (notifyGet site o)).map fun nl => notifySet site nl o).getD o

/-- The error for a full list. -/
def fullPkt (l : HushList) : Bytes :=
  packet pktError (filtertext (str "Max number of " ++ l.text ++ str " hushes reached.") maxPktData)

/-- User `n` has the options and has heard the error, if it is about a list, of a run over his lists. -/
structure Ran (n : Int) (w w' : World) (r : UserOpts × Option HushList) : Prop where
  opts : (w'.uTab n).toUserOpts = r.1
  told : Listens n w → match r.2 with
    | none => NoError n w w'
    | some l => ∃ w₁, NoError n w w₁ ∧ w'.out = .send n (fullPkt l) :: w₁.out

section
variable {w w' : World} {n : Int} {l : HushList} {who arg : Bytes} {quiet : Bool} {f : Flags}
  {r : UserOpts × Option HushList} {o : UserOpts}

omit [Env] in
/-- A report leaves the users alone. -/
theorem wp_report {x : W Unit} [Within OnlySends x] (h : (w.uTab n).toUserOpts = o) :
    wp x (fun _ w' => (w'.uTab n).toUserOpts = o) w :=
  Within.wp OnlySends fun _ w' hS => by rw [hS.1, h]

omit [Env] in
theorem modUOpts_opts (g : UserOpts → UserOpts) (w : World) :
    ((modUOpts n g w).2.uTab n).toUserOpts = g (w.uTab n).toUserOpts := by
  simp [modUOpts, World.modU]

/-- A run that goes on where another was not refused. -/
theorem Ran.trans {w₁ : World} (h₁ : Ran n w w₁ (o, none)) (h : Ran n w₁ w' r) : Ran n w w' r where
  opts := h.opts
  told hlisten := by
    have hno : NoError n w w₁ := h₁.told hlisten
    have htold := h.told ⟨hlisten.1, by rw [hno.1]; exact hlisten.2⟩
    split at htold
    · exact trans_of (NoError n) hno htold
    · obtain ⟨w₂, hno₂, hout⟩ := htold
      exact ⟨w₂, trans_of (NoError n) hno hno₂, hout⟩

/-- After a write to the options, reports. -/
theorem wp_reported {x : W Unit} [Within OnlySends x] [Within (NoError n) x] (g : UserOpts → UserOpts)
    (ho : g (w.uTab n).toUserOpts = o) : wp x (fun _ w' => Ran n w w' (o, none)) (modUOpts n g w).2 := by
  refine Within.wp_both OnlySends (NoError n) fun _ w' hS hno => ⟨?_, fun _ => hno⟩
  rw [hS.1]
  simpa [modUOpts, World.modU] using ho

theorem toggleHush_wp : wp (toggleHush n l who quiet) (fun ok w' =>
    ok = (flipped maxHushed who (l.get (w.uTab n).toUserOpts)).isSome ∧
      Ran n w w' (hushRun who [l] (w.uTab n).toUserOpts)) w := by
  unfold hushRun flipped
  refine wp_bind (wp_getU (wp_ite (fun hon => ?_) fun hoff => wp_ite (fun hfull => ?_) fun hroom => ?_))
  · rw [if_pos hon]
    exact wp_after (wp_bind (wp_mono (wp_reported _ rfl) fun _ _ h => ⟨rfl, h.opts, h.told⟩))
  · rw [if_neg hoff, if_pos hfull]
    refine wp_after (wp_pure ⟨rfl, ?_, fun hlisten => ⟨(getU n w).2, .same rfl rfl, senderror_out hlisten⟩⟩)
    exact wp_report rfl
  · rw [if_neg hoff, if_neg hroom]
    exact wp_after (wp_bind (wp_mono (wp_reported _ rfl) fun _ _ h => ⟨rfl, h.opts, h.told⟩))

/-- `s_hush` behind its flags. -/
theorem hushBody_ran (hwho : f.who ≠ []) :
    Ran n w (hushBody n f w).2 (hushRun (ucaseit f.who) (hushLists f) (w.uTab n).toUserOpts) := by
  show wp (hushBody n f) (fun _ w' => Ran n w w' _) w
  unfold hushBody hushLists
  rw [if_neg hwho]
  by_cases hfirst : f.p ∨ f.o = false
  · simp only [if_pos hfirst]
    refine wp_bind (wp_mono toggleHush_wp fun ok w₁ h₁ => ?_)
    obtain ⟨rfl, hran₁⟩ := h₁
    cases hflip : flipped maxHushed (ucaseit f.who)
        (HushList.get (w.uTab n).toUserOpts (if f.s then .priS else .priN)) with
    | none =>
      refine wp_whenever (fun hno => absurd hno.1 (by simp)) fun _ => ?_
      simp only [List.singleton_append, hushRun, hflip] at hran₁ ⊢
      exact hran₁
    | some nl =>
      rw [List.singleton_append, hushRun_cons hflip]
      rw [hushRun_cons hflip] at hran₁
      have hopts := hran₁.opts
      simp only [hushRun] at hopts
      rw [← hopts]
      refine wp_whenever (fun hboth => ?_) fun hno => ?_
      · rw [if_pos hboth.2]
        exact wp_bind (wp_mono toggleHush_wp fun _ _ h => hran₁.trans h.2)
      · rw [if_neg fun hsecond => hno ⟨rfl, hsecond⟩]
        exact ⟨rfl, hran₁.told⟩
  · simp only [if_neg hfirst]
    have hsecond : f.o ∨ f.p = false := by
      cases ho : f.o <;> simp_all
    refine wp_bind (wp_pure (wp_whenever (fun _ => ?_) fun hno => absurd ⟨rfl, hsecond⟩ hno))
    rw [if_pos hsecond]
    exact wp_bind (wp_mono toggleHush_wp fun _ _ h => h.2)

/-- **What `s_hush` leaves.** -/
theorem sHush_opts (n : Int) (arg : Bytes) (w : World) :
    ((sHush n arg w).2.uTab n).toUserOpts = (hushed arg (w.uTab n).toUserOpts).1 := by
  unfold sHush withFlags hushed hushArg
  cases hflags : flagsOf "qnspo" arg with
  | none => exact wp_report rfl
  | some f =>
    by_cases hwho : f.who = []
    · simp only [Option.bind_some, if_pos hwho]
      show wp (hushBody n f) (fun _ w' => (w'.uTab n).toUserOpts = (w.uTab n).toUserOpts) w
      unfold hushBody
      rw [if_pos hwho]
      exact wp_report rfl
    · simp only [Option.bind_some, if_neg hwho]
      exact (hushBody_ran hwho).opts

/-- **What `s_notify` leaves.** -/
theorem sNotify_opts (n : Int) (arg : Bytes) (w : World) :
    ((sNotify n arg w).2.uTab n).toUserOpts = notified arg (w.uTab n).toUserOpts := by
  unfold sNotify withFlags notified notifyArg
  cases hflags : flagsOf "qns" arg with
  | none => exact wp_report rfl
  | some f =>
    by_cases hwho : f.who = []
    · simp only [Option.bind_some, if_pos hwho]
      show wp (notifyBody n f) (fun _ w' => (w'.uTab n).toUserOpts = (w.uTab n).toUserOpts) w
      exact wp_bind (wp_getW (wp_bind (wp_getU (wp_ite (fun _ => wp_report rfl) fun hno => absurd hwho hno))))
    · simp only [Option.bind_some, if_neg hwho]
      show wp (notifyBody n f) (fun _ w' => (w'.uTab n).toUserOpts = _) w
      refine wp_bind (wp_getW (wp_bind (wp_getU (wp_ite (fun hno => absurd hno hwho) fun _ =>
        wp_ite (fun hon => ?_) fun hoff => wp_ite (fun hfull => ?_) fun hroom => ?_))))
      · rw [flipped, if_pos hon]
        exact wp_after (wp_report (modUOpts_opts ..))
      · rw [flipped, if_neg hoff, if_pos hfull]
        exact wp_report rfl
      · rw [flipped, if_neg hoff, if_neg hroom]
        exact wp_after (wp_report (modUOpts_opts ..))

end

/-! ## §4 — the lists are neat in every run -/

/-- Something that holds of the options of every user. -/
def EachUser (J : UserOpts → Prop) (w : World) : Prop := ∀ n, J (w.uTab n).toUserOpts

section
variable {w : World} {n i : Int} {l : HushList} {who arg : Bytes} {quiet : Bool} {f : Flags} {J : UserOpts → Prop}

omit [Env] in
theorem EachUser.modU (h : EachUser J w) {g : User → User}
    (hg : J (w.uTab n).toUserOpts → J (g (w.uTab n)).toUserOpts) : EachUser J (w.modU n g) := by
  intro i
  by_cases hi : i = n
  · subst hi
    simpa [World.modU] using hg (h i)
  · simpa [World.modU, hi] using h i

omit [Env] in
theorem EachUser.modUOpts (h : EachUser J w) {g : UserOpts → UserOpts}
    (hg : J (w.uTab n).toUserOpts → J (g (w.uTab n).toUserOpts)) : EachUser J (modUOpts n g w).2 :=
  h.modU (g := fun x => { x with toUserOpts := g x.toUserOpts }) hg

/-- Every user's lists are neat. -/
abbrev NeatUsers : World → Prop := EachUser UserOpts.Neat

instance : Base (Keep (EachUser J)) where
  misc _ _ := id

instance (i : Int) : GOptsAt (Keep (EachUser J)) i := ⟨fun _ _ => id⟩

instance : Callbacks (Keep NeatUsers) where
  drops _ _ := id
  toPlain _ := ⟨fun _ _ _ => id⟩
  toUNeat _ := ⟨fun _ _ hf h => h.modU (hf.neatly _)⟩
  toOpens _ := ⟨fun _ _ => id⟩
  toDb _ := ⟨fun _ _ _ => id⟩
  toNick _ _ := ⟨fun _ h => h.modU id⟩
  toReal _ _ := ⟨fun _ h => h.modU id⟩
  toIdent _ := ⟨fun _ _ _ _ h => h.modU id⟩
  toUGroup _ := ⟨fun _ _ h => h.modU id⟩
  toLogin _ _ := ⟨fun _ h => h.modU id⟩
  toMod _ := ⟨fun _ _ => id⟩
  miss _ _ _ _ := id
  gname _ _ _ := id

omit [Env] in
/-- Writes to what is not a list. -/
theorem neat_modUOpts {g : UserOpts → UserOpts} (hg : ∀ o : UserOpts, o.Neat → (g o).Neat) :
    Within (Keep NeatUsers) (modUOpts n g) :=
  ⟨fun _ h => h.modUOpts (hg _)⟩

instance : Within (Keep NeatUsers) (sEchoback n arg) := by
  have (v : Int) : Within (Keep NeatUsers) (modUOpts n fun o => { o with echoback := v }) :=
    neat_modUOpts fun _ h => ⟨h.priN, h.pubN, h.priS, h.pubS, h.n, h.s⟩
  unfold sEchoback
  infer_instance

instance : Within (Keep NeatUsers) (sAway n arg) := by
  have (v : Bytes) : Within (Keep NeatUsers)
      (modUOpts n fun o => { o with awaymsg := v, lastaway := 0, lastawaytime := 0 }) :=
    neat_modUOpts fun _ h => ⟨h.priN, h.pubN, h.priS, h.pubS, h.n, h.s⟩
  unfold sAway
  infer_instance

omit [Env] in
theorem UserOpts.Neat.notifyGet {o : UserOpts} (h : o.Neat) (site : Bool) :
    ∃ k ≤ maxNotifies, 0 < k ∧ (notifyGet site o).Shouted k := by
  cases site
  · exact h.n
  · exact h.s

omit [Env] in
theorem UserOpts.Neat.notifySet {o : UserOpts} (h : o.Neat) {site : Bool} {nl : NamList} {k : Nat}
    (hk : k ≤ maxNotifies) (hpos : 0 < k) (hnl : nl.Shouted k) : (notifySet site nl o).Neat := by
  cases site
  · exact ⟨h.priN, h.pubN, h.priS, h.pubS, ⟨k, hk, hpos, hnl⟩, h.s⟩
  · exact ⟨h.priN, h.pubN, h.priS, h.pubS, h.n, ⟨k, hk, hpos, hnl⟩⟩

/-- A name in capitals is put on a hush list or taken off. -/
theorem toggleHush_neat (hwho : ucaseit who = who) : Within (Keep NeatUsers) (toggleHush n l who quiet) where
  within w h := by
    show wp (toggleHush n l who quiet) (fun _ => NeatUsers) w
    have hget : NeatUsers (getU n w).2 := h
    have hl := (h n).get l
    refine wp_bind (wp_getU (wp_ite (fun _ => wp_after ?_) fun _ => wp_ite (fun _ => ?_) fun _ => wp_after ?_))
    · exact Within.within (R := Keep NeatUsers) _ (hget.modUOpts fun hu => hu.set (hl.nldelete hwho))
    · exact Within.within (R := Keep NeatUsers) _ hget
    · exact Within.within (R := Keep NeatUsers) _ (hget.modUOpts fun hu => hu.set (hl.nlput (by decide) hwho))

instance : Within (Keep NeatUsers) (hushBody n f) := by
  have (l : HushList) (quiet : Bool) : Within (Keep NeatUsers) (toggleHush n l (ucaseit f.who) quiet) :=
    toggleHush_neat (ucaseit_ucaseit _)
  unfold hushBody
  infer_instance

instance : Within (Keep NeatUsers) (notifyBody n f) where
  within w h := by
    show wp (notifyBody n f) (fun _ => NeatUsers) w
    have hget : NeatUsers (getU n w).2 := h
    obtain ⟨k, hk, hpos, hl⟩ := (h n).notifyGet f.s
    refine wp_bind (wp_getW (wp_bind (wp_getU (wp_ite (fun _ => ?_) fun _ =>
      wp_ite (fun _ => wp_after ?_) fun _ => wp_ite (fun _ => ?_) fun _ => wp_after ?_))))
    · exact Within.within (R := Keep NeatUsers) _ hget
    · exact Within.within (R := Keep NeatUsers) _
        (hget.modUOpts fun hu => hu.notifySet hk hpos (hl.nldelete (ucaseit_ucaseit _)))
    · exact Within.within (R := Keep NeatUsers) _ hget
    · exact Within.within (R := Keep NeatUsers) _
        (hget.modUOpts fun hu => hu.notifySet hk hpos (hl.nlput hpos (ucaseit_ucaseit _)))

end

/-- In every state reached the users' lists are neat. -/
theorem reachable_neat {P : Host → Sys → Event → Prop} {h : Host} (hr : Reachable P h) : NeatUsers h.w := by
  refine hr.keep (fun _ => inferInstance) (fun _ _ => id) fun sys db => ?_
  refine startup_rel (R := Keep NeatUsers) sys db fun _ => ?_
  have hnew : (nlinit maxHushed).Shouted maxHushed := nlinit_shouted _
  exact ⟨hnew, hnew, hnew, hnew, ⟨_, by decide, by decide, hnew⟩, ⟨_, by decide, by decide, hnew⟩⟩

/-! ## §5 — twice is nothing -/

section
variable {h : Host} {o : UserOpts} {arg x : Bytes}

omit [Env] in
theorem hushArg_eq_some {ls : List HushList} {who : Bytes} (hsome : hushArg arg = some (ls, who)) :
    ls.Nodup ∧ ucaseit who = who := by
  obtain ⟨f, -, hf⟩ := Option.bind_eq_some_iff.mp hsome
  split at hf
  · cases hf
  · cases hf
    exact ⟨hushLists_nodup f, ucaseit_ucaseit _⟩

omit [Env] in
theorem notifyArg_eq_some {site : Bool} {who : Bytes} (hsome : notifyArg arg = some (site, who)) :
    ucaseit who = who := by
  obtain ⟨f, -, hf⟩ := Option.bind_eq_some_iff.mp hsome
  split at hf
  · cases hf
  · cases hf
    exact ucaseit_ucaseit _

omit [Env] in
theorem hushed_hushed (h : o.Neat) (arg : Bytes) (l : HushList) :
    SameNames (l.get (hushed arg (hushed arg o).1).1) (l.get o) := by
  unfold hushed
  cases hsome : hushArg arg with
  | none => exact fun _ => Iff.rfl
  | some p =>
    obtain ⟨hnodup, hwho⟩ := hushArg_eq_some hsome
    exact hushRun_hushRun h hwho hnodup l

omit [Env] in
theorem hushed_other (h : o.Neat) (hx : (hushArg arg).map Prod.snd ≠ some x) (l : HushList) :
    x ∈ (l.get (hushed arg o).1).names ↔ x ∈ (l.get o).names := by
  unfold hushed
  cases hsome : hushArg arg with
  | none => exact Iff.rfl
  | some p =>
    rw [hsome] at hx
    exact hushRun_other h (hushArg_eq_some hsome).2 (fun heq => hx (congrArg some heq.symm)) l

/-- The notify list that an argument names is full with fewer names than `/notify` allows, and the name is
not on it. -/
def NotifyEvicts (arg : Bytes) (o : UserOpts) : Prop :=
  ∃ site who, notifyArg arg = some (site, who) ∧ Evicts maxNotifies who (notifyGet site o)

omit [Env] in
theorem notifyGet_notifySet (site site' : Bool) (nl : NamList) (o : UserOpts) :
    notifyGet site' (notifySet site nl o) = if site' = site then nl else notifyGet site' o := by
  cases site <;> cases site' <;> rfl

omit [Env] in
theorem notified_notified (h : o.Neat) (hevict : ¬ NotifyEvicts arg o) (site : Bool) :
    SameNames (notifyGet site (notified arg (notified arg o))) (notifyGet site o) := by
  unfold notified
  cases hsome : notifyArg arg with
  | none => exact fun _ => Iff.rfl
  | some p =>
    obtain ⟨site₀, who⟩ := p
    have hwho := notifyArg_eq_some hsome
    obtain ⟨k, hk, hpos, hl⟩ := h.notifyGet site₀
    have hstays : ¬ Evicts maxNotifies who (notifyGet site₀ o) := fun he => hevict ⟨site₀, who, hsome, he⟩
    simp only
    cases hflip : flipped maxNotifies who (notifyGet site₀ o) with
    | none =>
      simp only [Option.map_none, Option.getD_none, hflip]
      exact fun _ => Iff.rfl
    | some nl₁ =>
      obtain ⟨nl₂, hflip₂, hsame⟩ := flipped_flipped hl hpos hwho hstays hk hflip
      simp only [Option.map_some, Option.getD_some, notifyGet_notifySet, ↓reduceIte, hflip₂]
      split
      next hsite => exact hsite ▸ hsame
      · exact fun _ => Iff.rfl

omit [Env] in
theorem notified_other (h : o.Neat) (hevict : ¬ NotifyEvicts arg o) (hx : (notifyArg arg).map Prod.snd ≠ some x)
    (site : Bool) : x ∈ (notifyGet site (notified arg o)).names ↔ x ∈ (notifyGet site o).names := by
  unfold notified
  cases hsome : notifyArg arg with
  | none => exact Iff.rfl
  | some p =>
    obtain ⟨site₀, who⟩ := p
    rw [hsome] at hx
    have hwho := notifyArg_eq_some hsome
    obtain ⟨k, hk, hpos, hl⟩ := h.notifyGet site₀
    have hstays : ¬ Evicts maxNotifies who (notifyGet site₀ o) := fun he => hevict ⟨site₀, who, hsome, he⟩
    simp only
    cases hflip : flipped maxNotifies who (notifyGet site₀ o) with
    | none => exact Iff.rfl
    | some nl₁ =>
      simp only [Option.map_some, Option.getD_some, notifyGet_notifySet]
      split
      next hsite =>
        rw [mem_flipped hl hwho hstays hk hflip, if_neg fun heq => hx (congrArg some heq.symm), hsite]
      · exact Iff.rfl

omit [Env] in
/-- The evicted name is one that was not given. -/
theorem notified_evicted (h : o.Neat) (hevict : NotifyEvicts arg o) :
    ∃ site x, (notifyArg arg).map Prod.snd ≠ some x ∧
      ¬ (x ∈ (notifyGet site (notified arg o)).names ↔ x ∈ (notifyGet site o).names) := by
  obtain ⟨site, who, hsome, he⟩ := hevict
  obtain ⟨k, hk, hpos, hl⟩ := h.notifyGet site
  obtain ⟨nl₁, hflip, x, hne, hon, hoff⟩ := flipped_of_evicts hl hpos (notifyArg_eq_some hsome) he
  refine ⟨site, x, ?_, ?_⟩
  · rw [hsome]
    exact fun heq => hne (Option.some.inj heq).symm
  · simp only [notified, hsome, hflip, Option.map_some, Option.getD_some, notifyGet_notifySet, ↓reduceIte]
    exact fun hiff => hoff (hiff.mpr hon)

/-- What toggles do: executed twice they leave every list with its entries, and executed once they change
nothing about other names than the one given. -/
structure Toggles (n : Int) (arg : Bytes) (w : World) : Prop where
  hush : ∀ l : HushList, SameNames (l.get ((sHush n arg (sHush n arg w).2).2.uTab n).toUserOpts)
    (l.get (w.uTab n).toUserOpts)
  hushOne : ∀ x, (hushArg arg).map Prod.snd ≠ some x → ∀ l : HushList,
    (x ∈ (l.get ((sHush n arg w).2.uTab n).toUserOpts).names ↔ x ∈ (l.get (w.uTab n).toUserOpts).names)
  notify : ∀ site, SameNames (notifyGet site ((sNotify n arg (sNotify n arg w).2).2.uTab n).toUserOpts)
    (notifyGet site (w.uTab n).toUserOpts)
  notifyOne : ∀ x, (notifyArg arg).map Prod.snd ≠ some x → ∀ site,
    (x ∈ (notifyGet site ((sNotify n arg w).2.uTab n).toUserOpts).names ↔
      x ∈ (notifyGet site (w.uTab n).toUserOpts).names)

/-- **`/hush` and `/notify` are toggles** in every state reached and for every argument, unless `/notify` puts
a new name on a list that is full with fewer names than it tests for. -/
theorem toggles_iff {P : Host → Sys → Event → Prop} (hr : Reachable P h) (n : Int) (arg : Bytes) :
    Toggles n arg h.w ↔ ¬ NotifyEvicts arg (h.w.uTab n).toUserOpts := by
  have hneat := reachable_neat hr n
  constructor
  · intro htoggles hevict
    obtain ⟨site, x, hx, hdiffers⟩ := notified_evicted hneat hevict
    exact hdiffers (by simpa only [sNotify_opts] using htoggles.notifyOne x hx site)
  · intro hevict
    constructor
    · simp only [sHush_opts]
      exact hushed_hushed hneat arg
    · intro x hx
      simp only [sHush_opts]
      exact hushed_other hneat hx
    · simp only [sNotify_opts]
      exact notified_notified hneat hevict
    · intro x hx
      simp only [sNotify_opts]
      exact notified_other hneat hevict hx

end

end

section
attribute [local instance] smallEnv

/-- Whoever is connected on the last slot gives 32 names to a command. -/
def crowd (cmd flags : String) : List Event :=
  .connect 3 false none :: ("abcdefghijklmnopqrstuvwxyz012345".toList.map fun c =>
    .packet 3 (cmdPkt cmd (flags ++ String.singleton c)))

/-- A 33rd name would take the place of another, and each of the 32 can be taken off. -/
def Crowded (h : Host) : Prop :=
  (h.w.uTab 3).login = .complete ∧ notifyArg (str "6") = some (false, str "6") ∧
    Evicts maxNotifies (str "6") (notifyGet false (h.w.uTab 3).toUserOpts) ∧
    notifyArg (str "a") = some (false, str "A") ∧
    nlpresent (str "A") (notifyGet false (h.w.uTab 3).toUserOpts)

instance : DecidablePred Crowded := fun _ => inferInstanceAs (Decidable (_ ∧ _))

theorem reachable_crowded : ∃ h : Host, Reachable (fun _ _ _ => True) h ∧ Crowded h := by
  have hrun : Host.leads (fun _ _ _ => True) {} Crowded { w := startup {} fun _ => none } (crowd "notify" "-q ") := by
    decide +kernel
  exact Reachable.leads (.start {} fun _ => none) hrun

/-- `/notify a` with `A` on the list. -/
theorem toggles_crowded : ∃ h : Host, (h.w.uTab 3).login = .complete ∧ Toggles 3 (str "a") h.w := by
  obtain ⟨h, hr, hlogin, -, -, hsome, hon⟩ := reachable_crowded
  refine ⟨h, hlogin, (toggles_iff hr 3 (str "a")).mpr ?_⟩
  rintro ⟨site, who, hnotify, hevict⟩
  rw [hsome] at hnotify
  cases hnotify
  exact hevict.1 hon

/-- `/notify 6` with 32 names on the list. -/
theorem notify_evicts : ∃ h : Host, Reachable (fun _ _ _ => True) h ∧ (h.w.uTab 3).login = .complete ∧
    ¬ Toggles 3 (str "6") h.w := by
  obtain ⟨h, hr, hlogin, hsome, hevict, -⟩ := reachable_crowded
  obtain ⟨site, x, hx, hdiffers⟩ := notified_evicted (reachable_neat hr 3) ⟨_, _, hsome, hevict⟩
  exact ⟨h, hr, hlogin, fun htoggles => hdiffers (by simpa only [sNotify_opts] using htoggles.notifyOne x hx site)⟩

end

/-! ## §6 — refusals -/

section
variable [Env] {w : World} {n : Int} {o : UserOpts} {l l₀ : HushList} {ls : List HushList} {who arg : Bytes}

/-- The first list a command goes through is full without the name. -/
def FirstFull (arg : Bytes) (o : UserOpts) : Prop :=
  ∃ l ls who, hushArg arg = some (l :: ls, who) ∧ ¬ nlpresent who (l.get o) ∧ (l.get o).count = maxHushed

omit [Env] in
theorem flipped_eq_none {limit : Nat} {nl : NamList} :
    flipped limit who nl = none ↔ ¬ nlpresent who nl ∧ nl.count = limit := by
  unfold flipped
  split
  next hon => simp [hon]
  next hoff =>
    split
    next hfull => simp [hoff, hfull]
    next hroom => simp [hroom]

omit [Env] in
/-- What goes through its first list changes it, full or not the second. -/
theorem hushRun_unchanged_iff (h : o.Neat) (hwho : ucaseit who = who) (hnot : l₀ ∉ ls) :
    (∀ l : HushList, l.get (hushRun who (l₀ :: ls) o).1 = l.get o) ↔ flipped maxHushed who (l₀.get o) = none := by
  cases hflip : flipped maxHushed who (l₀.get o) with
  | none => simp [hushRun, hflip]
  | some nl =>
    refine iff_of_false (fun hsame => ?_) nofun
    have hl₀ := h.get l₀
    have hnl : nl = l₀.get o := by
      have hsame := hsame l₀
      rwa [hushRun_cons hflip, hushRun_get hnot, HushList.get_set_self] at hsame
    have hmem := mem_flipped (x := who) hl₀ hwho (not_evicts_hush hl₀) le_rfl hflip
    rw [hnl, if_pos rfl] at hmem
    exact iff_not_self hmem

omit [Env] in
/-- A command that is refused. -/
theorem hushed_unchanged_iff (h : o.Neat) (hfull : (hushed arg o).2 = some l) :
    (∀ l : HushList, l.get (hushed arg o).1 = l.get o) ↔ FirstFull arg o := by
  unfold hushed at hfull ⊢
  cases hsome : hushArg arg with
  | none =>
    rw [hsome] at hfull
    cases hfull
  | some p =>
    obtain ⟨ls, who⟩ := p
    obtain ⟨hnodup, hwho⟩ := hushArg_eq_some hsome
    cases ls with
    | nil =>
      rw [hsome] at hfull
      cases hfull
    | cons l₀ ls =>
      simp only [hushRun_unchanged_iff h hwho (List.nodup_cons.mp hnodup).1, flipped_eq_none, FirstFull, hsome]
      constructor
      · exact fun h => ⟨l₀, ls, who, rfl, h⟩
      · rintro ⟨l, ls', who', heq, hfirst⟩
        cases heq
        exact hfirst

/-- **A refused `/hush`** has changed nothing if and only if it was its first list that was full. That a
command is refused is what its client is told (`sHush_told`). -/
theorem hush_refused_iff {P : Host → Sys → Event → Prop} {h : Host} (hr : Reachable P h)
    (hfull : (hushed arg (h.w.uTab n).toUserOpts).2 = some l) :
    (∀ l : HushList, l.get ((sHush n arg h.w).2.uTab n).toUserOpts = l.get (h.w.uTab n).toUserOpts) ↔
      FirstFull arg (h.w.uTab n).toUserOpts := by
  simp only [sHush_opts]
  exact hushed_unchanged_iff (reachable_neat hr n) hfull

/-! ## §7 — what the client is told -/

omit [Env] in
/-- The error names the list, and is not the usage. -/
theorem fullPkt_eq (l : HushList) :
    fullPkt l = packet pktError (str "Max number of " ++ l.text ++ str " hushes reached.") := by
  have hascii : ∀ b ∈ str "Max number of " ++ l.text ++ str " hushes reached.", 32 ≤ b.toNat ∧ b.toNat < 128 := by
    rw [← List.all_iff_forall_prop]
    cases l <;> decide
  rw [fullPkt, filtertext_ascii hascii (by cases l <;> decide)]

omit [Env] in
theorem fullPkt_inj {l l' : HushList} (h : fullPkt l = fullPkt l') : l = l' := by
  rw [fullPkt_eq, fullPkt_eq] at h
  revert h
  cases l <;> cases l' <;> decide

omit [Env] in
theorem fullPkt_ne_usage (l : HushList) :
    packet pktError (filtertext (str "Usage: hush {-q} {-p} {-o} {-n nickname | -s address}") maxPktData) ≠
      fullPkt l := by
  have hascii : ∀ b ∈ str "Usage: hush {-q} {-p} {-o} {-n nickname | -s address}", 32 ≤ b.toNat ∧ b.toNat < 128 := by
    rw [← List.all_iff_forall_prop]
    decide
  rw [fullPkt_eq, filtertext_ascii hascii (by decide)]
  cases l <;> decide

omit [Env] in
theorem NoError.not_called {w' : World} (h : NoError n w w') : ¬ Called (.send n (fullPkt l)) w w' := by
  rintro ⟨new, hnew, hmem⟩
  obtain ⟨-, new', hnew', hno⟩ := h
  cases List.append_cancel_right (hnew.symm.trans hnew')
  exact hno _ hmem rfl

omit [Env] in
/-- Of the calls so far, only the last is an error. -/
theorem called_error_iff {w₁ w' : World} {c : Bytes} (hno : NoError n w w₁) (hout : w'.out = .send n c :: w₁.out) :
    Called (.send n (fullPkt l)) w w' ↔ c = fullPkt l := by
  obtain ⟨-, new, hnew, hclean⟩ := hno
  constructor
  · rintro ⟨new', hnew', hmem⟩
    rw [hout, hnew, ← List.cons_append] at hnew'
    cases List.append_cancel_right hnew'
    obtain heq | hmem := List.mem_cons.mp hmem
    · cases heq
      rfl
    · exact absurd rfl (hclean _ hmem)
  · rintro rfl
    exact ⟨.send n (fullPkt l) :: new, by rw [hout, hnew, List.cons_append], List.mem_cons_self⟩

/-- **The answer of `s_hush`** to a client that listens: the error for a list if and only if that list was
full. -/
theorem sHush_told (hlisten : Listens n w) (l : HushList) :
    Called (.send n (fullPkt l)) w (sHush n arg w).2 ↔ (hushed arg (w.uTab n).toUserOpts).2 = some l := by
  unfold sHush withFlags hushed hushArg
  cases hflags : flagsOf "qnspo" arg with
  | none =>
    refine (called_error_iff (.same rfl rfl) (senderror_out hlisten)).trans (iff_of_false ?_ nofun)
    exact fullPkt_ne_usage l
  | some f =>
    by_cases hwho : f.who = []
    · simp only [Option.bind_some, if_pos hwho]
      refine iff_of_false (NoError.not_called ?_) nofun
      show wp (hushBody n f) (fun _ w' => NoError n w w') w
      unfold hushBody listHushed
      rw [if_pos hwho]
      exact wp_bind (wp_getU (Within.wp (NoError n) fun _ _ h => h))
    · simp only [Option.bind_some, if_neg hwho]
      have htold := (hushBody_ran (w := w) (n := n) hwho).told hlisten
      split at htold
      next hnone =>
        rw [hnone]
        exact iff_of_false htold.not_called nofun
      next l' hsome =>
        obtain ⟨w₁, hno, hout⟩ := htold
        rw [hsome, called_error_iff hno hout, Option.some.injEq]
        exact ⟨fun h => fullPkt_inj h, fun h => h ▸ rfl⟩

end

section
attribute [local instance] smallEnv

/-- `/hush 6` is refused, by the first of its lists or with that one empty. -/
def Refuses (first : Bool) (h : Host) : Prop :=
  (h.w.uTab 3).login = .complete ∧ hushArg (str "6") = some ([.priN, .pubN], str "6") ∧
    (hushed (str "6") (h.w.uTab 3).toUserOpts).2 = some (if first then .priN else .pubN) ∧
    ¬ nlpresent (str "6") (HushList.priN.get (h.w.uTab 3).toUserOpts) ∧
    (HushList.priN.get (h.w.uTab 3).toUserOpts).count = if first then maxHushed else 0

instance (first : Bool) : DecidablePred (Refuses first) := fun _ => inferInstanceAs (Decidable (_ ∧ _))

theorem reachable_refuses (first : Bool) : ∃ h : Host, Reachable (fun _ _ _ => True) h ∧ Refuses first h := by
  have hrun : Host.leads (fun _ _ _ => True) {} (Refuses first) { w := startup {} fun _ => none }
      (crowd "hush" (if first then "-q " else "-q -o ")) := by
    cases first <;> decide +kernel
  exact Reachable.leads (.start {} fun _ => none) hrun

/-- Both lists are full. -/
theorem hush_refused_crowd : ∃ h : Host, (hushed (str "6") (h.w.uTab 3).toUserOpts).2 = some .priN ∧
    ∀ l : HushList, l.get ((sHush 3 (str "6") h.w).2.uTab 3).toUserOpts = l.get (h.w.uTab 3).toUserOpts := by
  obtain ⟨h, hr, -, harg, hfull, hoff, hcount⟩ := reachable_refuses true
  exact ⟨h, hfull, (hush_refused_iff hr hfull).mpr ⟨_, _, _, harg, hoff, hcount⟩⟩

/-- Only the second is: the name stays on the first. -/
theorem hush_refused_half : ∃ h : Host, Reachable (fun _ _ _ => True) h ∧ (h.w.uTab 3).login = .complete ∧
    (hushed (str "6") (h.w.uTab 3).toUserOpts).2 = some .pubN ∧
    ¬ ∀ l : HushList, l.get ((sHush 3 (str "6") h.w).2.uTab 3).toUserOpts = l.get (h.w.uTab 3).toUserOpts := by
  obtain ⟨h, hr, hlogin, harg, hfull, -, hcount⟩ := reachable_refuses false
  refine ⟨h, hr, hlogin, hfull, ?_⟩
  simp only [sHush_opts]
  rw [hushed_unchanged_iff (reachable_neat hr 3) hfull]
  rintro ⟨l, ls, who, harg', -, hcount'⟩
  rw [harg] at harg'
  cases harg'
  rw [hcount] at hcount'
  cases hcount'

end

end Icbd.Server
