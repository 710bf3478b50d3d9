/-
# Icbd.Server.Refusal — what a refused login leaves behind.

`loginmsg` fills in the user's entry before its last three tests: the administrator's password, the user
behind `@nick`, and the group's door. A login that fails one of them keeps the nickname it asked for, and
if it had come to the door it keeps the groups that waited for it too.
-/
import Icbd.Server.Admission
import Icbd.Server.Authentication
import Icbd.Server.Change

-- every bind doubles the size of the search's argument
set_option synthInstance.maxSize 1000000000000000000000000000000000000000000000000
set_option synthInstance.maxHeartbeats 200000

namespace Icbd.Server

open Icbd.Lib

section
variable [Env]

/-! ## §1 — `find_user` and a changed nickname -/

section
variable {w w' : World} {n k : Int} {name nick : Bytes}

omit [Env] in
/-- The first slot stands before every other that passes the test. -/
theorem firstSlot_le {xs : List Int} {p : Int → Bool} (hxs : xs.Pairwise (· < ·)) (hk : k ∈ xs)
    (hp : p k) : firstSlot xs p ∈ xs ∧ firstSlot xs p ≤ k := by
  unfold firstSlot
  induction xs with
  | nil => cases hk
  | cons i xs ih =>
    obtain ⟨hi, hxs⟩ := List.pairwise_cons.mp hxs
    by_cases hpi : p i
    · simp only [List.find?_cons, hpi, Option.getD_some]
      refine ⟨List.mem_cons_self, ?_⟩
      rcases List.mem_cons.mp hk with rfl | hk
      · exact Int.le_refl k
      · exact Int.le_of_lt (hi k hk)
    · have hpi : p i = false := by simpa using hpi
      simp only [List.find?_cons, hpi]
      rcases List.mem_cons.mp hk with rfl | hk
      · exact absurd hp (by simp [hpi])
      · obtain ⟨hmem, hle⟩ := ih hxs hk
        exact ⟨List.mem_cons_of_mem i hmem, hle⟩

omit [Env] in
theorem slots_pairwise (k : Nat) : (slots k).Pairwise (· < ·) := by
  refine List.pairwise_map.mpr (List.pairwise_lt_range.imp fun h => ?_)
  simpa using h

/-- A slot with the name is found, or one before it. -/
theorem findUser_le (hname : name ≠ []) (hk : inUsers k) (heq : strcaseEq (w.uTab k).nickname name) :
    0 ≤ findUser w name ∧ findUser w name ≤ k := by
  rw [findUser, if_neg hname]
  obtain ⟨hmem, hle⟩ := firstSlot_le (p := fun i => strcaseEq (w.uTab i).nickname name)
    (slots_pairwise Env.maxUsers) (inUsers_iff.mp hk) heq
  exact ⟨(mem_slots.mp hmem).1, hle⟩

/-- The first slot with a name is the one that is found. -/
theorem findUser_eq (hname : name ≠ []) (hk : inUsers k) (heq : strcaseEq (w.uTab k).nickname name)
    (hfirst : ∀ j, inUsers j → j < k → ¬ strcaseEq (w.uTab j).nickname name) : findUser w name = k := by
  obtain ⟨h0, hle⟩ := findUser_le hname hk heq
  obtain ⟨hin, hfound⟩ := findUser_nonneg h0
  by_contra hne
  exact hfirst _ hin (by omega) hfound

/-- Names that differ in case are the same to `find_user`. -/
theorem findUser_congr (h : strcaseEq name nick) : findUser w name = findUser w nick := by
  have hnil : name = [] ↔ nick = [] := by
    constructor
    · rintro rfl
      rw [strcaseEq_comm] at h
      exact strcaseEq_nil h
    · rintro rfl
      exact strcaseEq_nil h
  have hsame (a : Bytes) : strcaseEq a name = strcaseEq a nick := by
    simp only [strcaseEq, beq_iff_eq] at h ⊢
    rw [h]
  simp only [findUser, hnil, hsame]

/-- The nickname `nick` in slot `n` is not noticed by `find_user`: the name is found already, there or
before it, and what the slot held before is not lost. -/
def Unnoticed (w : World) (n : Int) (nick : Bytes) : Prop :=
  (0 ≤ findUser w nick ∧ findUser w nick ≤ n) ∧
    (findUser w (w.uTab n).nickname = n → strcaseEq (w.uTab n).nickname nick)

/-- A slot that is found, and found by nothing in front of it, is found in another table that has the
same nickname there and has got none in front of it. -/
theorem findUser_kept (h0 : 0 ≤ findUser w name)
    (hthere : strcaseEq (w'.uTab (findUser w name)).nickname name)
    (hfirst : ∀ j, inUsers j → j < findUser w name → (w'.uTab j).nickname = (w.uTab j).nickname) :
    findUser w' name = findUser w name := by
  have hname : name ≠ [] := by
    rintro rfl
    simp [findUser] at h0
  refine findUser_eq hname (findUser_nonneg h0).1 hthere fun j hj hlt heq => ?_
  rw [hfirst j hj hlt] at heq
  have := (findUser_le hname hj heq).2
  omega

/-- **Renaming one slot** changes no answer of `find_user` if and only if the new name goes unnoticed. -/
theorem findUser_renamed_iff (hn : inUsers n) (hnick : nick ≠ [])
    (hothers : ∀ j, j ≠ n → (w'.uTab j).nickname = (w.uTab j).nickname)
    (hnew : (w'.uTab n).nickname = nick) :
    (∀ s, findUser w' s = findUser w s) ↔ Unnoticed w n nick := by
  constructor
  · intro hsame
    have hfound : 0 ≤ findUser w' nick ∧ findUser w' nick ≤ n :=
      findUser_le hnick hn (by rw [hnew, strcaseEq_refl])
    refine ⟨by rwa [hsame] at hfound, fun hold => ?_⟩
    have h0 : 0 ≤ findUser w' (w.uTab n).nickname := by
      rw [hsame, hold]
      exact (mem_slots.mp (inUsers_iff.mp hn)).1
    have heq := (findUser_nonneg h0).2
    rw [hsame, hold, hnew, strcaseEq_comm] at heq
    exact heq
  · rintro ⟨⟨h0, hle⟩, hold⟩ s
    by_cases hs : s = []
    · subst hs
      simp [findUser]
    by_cases hns : strcaseEq nick s
    · -- the new name: it was found here or before
      rw [findUser_congr (w := w) (by rwa [strcaseEq_comm]), findUser_congr (w := w')
        (by rwa [strcaseEq_comm])]
      refine findUser_kept h0 ?_ fun j _ hlt => hothers j (by omega)
      by_cases hk : findUser w nick = n
      · rw [hk, hnew, strcaseEq_refl]
      · rw [hothers _ hk]
        exact (findUser_nonneg h0).2
    by_cases hos : strcaseEq (w.uTab n).nickname s
    · -- the old name: it was found before
      obtain ⟨h0, hle⟩ := findUser_le hs hn hos
      have hk : findUser w s ≠ n := by
        intro hk
        rw [← findUser_congr hos] at hk
        have hon := hold hk
        rw [strcaseEq_comm] at hon
        exact hns (strcaseEq_trans hon hos)
      refine findUser_kept h0 ?_ fun j _ hlt => hothers j (by omega)
      rw [hothers _ hk]
      exact (findUser_nonneg h0).2
    · -- any other name
      have hsame (j : Int) : strcaseEq (w'.uTab j).nickname s = strcaseEq (w.uTab j).nickname s := by
        by_cases hj : j = n
        · rw [hj, hnew, Bool.eq_false_iff.mpr hns, Bool.eq_false_iff.mpr hos]
        · rw [hothers j hj]
      simp only [findUser, hsame]

end

/-! ## §2 — groups that are given back -/

/-- Group `i` waits for a moderator called `nick`. -/
def awaits (w : World) (i : Int) (nick : Bytes) : Prop :=
  0 < (w.gTab i).modtimeout ∧ (w.gTab i).missingmod = nick

instance (w : World) (i : Int) (nick : Bytes) : Decidable (awaits w i nick) :=
  inferInstanceAs (Decidable (_ ∧ _))

/-- The groups that wait for the nickname of `n` wait no longer, the others are as they were. -/
structure GivesBack (n : Int) (w w' : World) : Prop where
  given : ∀ i ∈ (slots maxGroups).drop 1, awaits w i (w.uTab n).nickname →
    ¬ 0 < (w'.gTab i).modtimeout
  rest : ∀ i, ¬ (i ∈ (slots maxGroups).drop 1 ∧ awaits w i (w.uTab n).nickname) →
    w'.gTab i = w.gTab i

/-- The nickname of `n` and the groups. -/
structure SameGroups (n : Int) (w w' : World) : Prop where
  nick : (w'.uTab n).nickname = (w.uTab n).nickname
  groups : w'.gTab = w.gTab

section
variable {n m i : Int} {w w' w'' : World} {v : Bytes} {key : String}

omit [Env] in
theorem SameGroups.modU {f : User → User} (hf : ∀ u, (f u).nickname = u.nickname) :
    SameGroups n w (w.modU m f) := by
  refine ⟨?_, rfl⟩
  by_cases h : n = m <;> simp [World.modU, Function.update, h, hf]

instance : Still (SameGroups n) where
  refl _ := ⟨rfl, rfl⟩
  trans _ _ _ h₁ h₂ := ⟨h₂.nick.trans h₁.nick, h₂.groups.trans h₁.groups⟩
  misc _ _ := ⟨rfl, rfl⟩
  drops _ _ := ⟨rfl, rfl⟩
  toPlain _ := ⟨fun _ _ _ => ⟨rfl, rfl⟩⟩
  toUOpts _ := ⟨fun _ _ => .modU fun _ => rfl⟩

instance : SendsTo (SameGroups n) m := ⟨fun _ _ => ⟨rfl, rfl⟩⟩
instance : DbTo (SameGroups n) key := ⟨fun _ _ _ => ⟨rfl, rfl⟩⟩
instance : RealTo (SameGroups n) m v := ⟨fun _ => .modU fun _ => rfl⟩
instance : IdentTo (SameGroups n) m := ⟨fun _ _ _ _ => .modU fun _ => rfl⟩

omit [Env] in
theorem SameGroups.awaits (hS : SameGroups n w w') (i : Int) (nick : Bytes) :
    awaits w' i nick ↔ awaits w i nick := by
  rw [Server.awaits, hS.groups, ← Server.awaits]

omit [Env] in
theorem GivesBack.before (hS : SameGroups n w w') (h : GivesBack n w' w'') : GivesBack n w w'' where
  given i hi hw := h.given i hi (by rwa [hS.nick, hS.awaits])
  rest i hno := by
    rw [h.rest i (by rwa [hS.nick, hS.awaits]), hS.groups]

omit [Env] in
theorem GivesBack.after (h : GivesBack n w w') (hS : w''.gTab = w'.gTab) : GivesBack n w w'' where
  given i hi hw := hS ▸ h.given i hi hw
  rest i hno := hS ▸ h.rest i hno

omit [Env] in
/-- Groups have been given back if and only if some waited. -/
theorem GivesBack.same_iff (h : GivesBack n w w') : w'.gTab = w.gTab ↔
    ∀ i ∈ (slots maxGroups).drop 1, ¬ awaits w i (w.uTab n).nickname := by
  constructor
  · intro hsame i hi hwaits
    exact h.given i hi hwaits (hsame ▸ hwaits.1)
  · intro hnone
    funext i
    exact h.rest i fun hi => hnone i hi.1 hi.2

/-- The turn of `regainMods` for group `k`. -/
def regainMod (n k : Int) : W Unit := do
  let u ← getU n
  let g ← getG k
  whenever (g.modtimeout > 0 ∧ g.missingmod = u.nickname) do
    setMissing k [] 0
    setMod k n
    each ((slots maxRealUsers).drop 1) fun j => do
      let v ← getU j
      whenever (strcaseEq v.group g.name ∧ j ≠ n)
        (sendstatus j (str "Mod") (u.nickname ++ str " is the active moderator again."))
    sendstatus n (str "Mod") (str "You are the moderator of group " ++ g.name)

theorem regainMods_eq (n : Int) : regainMods n = each ((slots maxGroups).drop 1) (regainMod n) := rfl

/-- A turn gives its group back if that waits for `n`, and does nothing to the groups if not. -/
theorem wp_regainMod {k : Int} {I : World → Prop}
    (hsame : ¬ awaits w k (w.uTab n).nickname → ∀ t, SameGroups n w t → I t)
    (hgive : awaits w k (w.uTab n).nickname → ∀ t, (t.uTab n).nickname = (w.uTab n).nickname →
      t.gTab = (setMod k n (setMissing k [] 0 w).2).2.gTab → I t) :
    wp (regainMod n k) (fun _ => I) w := by
  have hget : SameGroups n w (getG k (getU n w).2).2 := trans_of _ (Within.within w) (Within.within _)
  refine wp_bind (wp_getU (wp_bind (wp_getG (wp_whenever (fun hc => ?_) fun hc => hsame hc _ hget))))
  refine wp_after (wp_after (Within.wp (SameGroups n) fun _ t h => ?_))
  exact hgive hc t h.nick h.groups

omit [Env] in
/-- A group that is given back waits no longer; the others are not touched. -/
theorem give_gTab {k : Int} (h : w'.gTab = (setMod k n (setMissing k [] 0 w).2).2.gTab) (i : Int) :
    i = k ∧ ¬ 0 < (w'.gTab i).modtimeout ∨ i ≠ k ∧ w'.gTab i = w.gTab i := by
  rw [h]
  by_cases hik : i = k
  · exact .inl ⟨hik, by simp [setMod, setMissing, World.modG, hik]⟩
  · exact .inr ⟨hik, by simp [setMod, setMissing, World.modG, Function.update_of_ne hik]⟩

/-- A group that waits is given back when its turn comes. -/
theorem regainMods_given {nick : Bytes} (hnick : (w.uTab n).nickname = nick)
    (hi : i ∈ (slots maxGroups).drop 1) (hw : awaits w i nick) :
    wp (regainMods n) (fun _ w' => ¬ 0 < (w'.gTab i).modtimeout) w := by
  rw [regainMods_eq]
  refine wp_mono (wp_each_of_mem
    (I := fun t => (t.uTab n).nickname = nick ∧ ¬ 0 < (t.gTab i).modtimeout)
    (J := fun t => (t.uTab n).nickname = nick ∧
      (0 < (t.gTab i).modtimeout → (t.gTab i).missingmod = nick))
    hi ?_ ?_ ?_ ⟨hnick, fun _ => hw.2⟩) fun _ _ h => h.2
  · rintro t ⟨ht, hmissing⟩
    refine wp_regainMod (fun hno t' hS => ⟨hS.nick.trans ht, ?_⟩) fun _ t' hn' hg => ⟨hn'.trans ht, ?_⟩
    · rw [hS.groups]
      exact fun hpos => hno ⟨hpos, ht.symm ▸ hmissing hpos⟩
    · exact ((give_gTab hg i).resolve_right fun h => h.1 rfl).2
  · rintro k - t ⟨ht, hgiven⟩
    refine wp_regainMod (fun _ t' hS => ⟨hS.nick.trans ht, ?_⟩) fun _ t' hn' hg => ⟨hn'.trans ht, ?_⟩
    · rwa [hS.groups]
    · obtain ⟨-, h⟩ | ⟨-, h⟩ := give_gTab hg i
      · exact h
      · rwa [h]
  · rintro k - t ⟨ht, hmissing⟩
    refine wp_regainMod (fun _ t' hS => ⟨hS.nick.trans ht, ?_⟩) fun _ t' hn' hg => ⟨hn'.trans ht, ?_⟩
    · rwa [hS.groups]
    · obtain ⟨-, h⟩ | ⟨-, h⟩ := give_gTab hg i
      · exact fun hpos => absurd hpos h
      · rwa [h]

/-- Every other group is left alone. -/
theorem regainMods_rest {nick : Bytes} (hnick : (w.uTab n).nickname = nick)
    (hno : ¬ (i ∈ (slots maxGroups).drop 1 ∧ awaits w i nick)) :
    wp (regainMods n) (fun _ w' => w'.gTab i = w.gTab i) w := by
  rw [regainMods_eq]
  refine wp_mono (wp_each (I := fun t => (t.uTab n).nickname = nick ∧ t.gTab i = w.gTab i) ?_
    ⟨hnick, rfl⟩) fun _ _ h => h.2
  rintro k hk t ⟨ht, hsame⟩
  refine wp_regainMod (fun _ t' hS => ⟨hS.nick.trans ht, by rw [hS.groups, hsame]⟩)
    fun hw t' hn' hg => ⟨hn'.trans ht, ?_⟩
  obtain ⟨rfl, -⟩ | ⟨-, h⟩ := give_gTab hg i
  · rw [awaits, hsame, ht] at hw
    exact absurd ⟨hk, hw⟩ hno
  · rw [h, hsame]

theorem regainMods_gives (n : Int) (w : World) : GivesBack n w (regainMods n w).2 where
  given _ hi hw := regainMods_given rfl hi hw
  rest _ hno := regainMods_rest rfl hno

end

/-! ## §3 — who is recognised -/

/-- The record of the entry's nickname registers it at login: by its home, or by the password. On slot 0
any record does. -/
def recognised (w : World) (n : Int) (u : UserId) : Prop :=
  w.sys.dbOpens = true ∧ (w.db (dbKey u.nickname "home")).isSome ∧
    if n = 0 ∨ ¬ guarded w u.nickname (u.loginid ++ str "@" ++ u.nodeid) then u.realname ≠ registered
    else u.password ≠ [] ∧ w.db (dbKey u.nickname "password") = some (cutPassword u.password)

instance (w : World) (n : Int) (u : UserId) : Decidable (recognised w n u) :=
  inferInstanceAs (Decidable (_ ∧ _))

section
variable {n : Int} {w : World} {pw : Bytes}

/-- `nickwrite` gives the groups back if the password is the right one. It answers yes to another only if
there is none and it may create the record. -/
theorem nickwrite_gives (flag : Bool) (hpw : pw ≠ []) :
    wp (nickwrite n pw flag) (fun ok w' =>
      (dbGet (w.uTab n).nickname "password" w).1 = some (cutPassword pw) ∧ ok = true ∧ GivesBack n w w' ∨
      (dbGet (w.uTab n).nickname "password" w).1 ≠ some (cutPassword pw) ∧
        (ok = true → flag = false ∧ (dbGet (w.uTab n).nickname "password" w).1 = none) ∧
        w'.gTab = w.gTab) w := by
  have hget : SameGroups n w (getU n w).2 := Within.within w
  refine wp_bind (wp_getU (wp_bind (wp_mono
    (Q := fun v t => v = (dbGet (w.uTab n).nickname "password" w).1 ∧ t = (getU n w).2) ⟨rfl, rfl⟩ ?_)))
  rintro stored _ ⟨hstored, rfl⟩
  rw [← hstored]
  refine wp_ite (fun hnil => absurd hnil hpw) fun _ => wp_ite (fun hnone => ?_) fun hsome => ?_
  · have hwrong : stored ≠ some (cutPassword pw) := hnone ▸ nofun
    refine wp_ite (fun _ => wp_bind ?_) fun hflag => ?_
    · exact Within.wp (SameGroups n) fun _ _ h => .inr ⟨hwrong, nofun, h.groups⟩
    · exact Within.wp (SameGroups n) fun _ _ h => .inr
        ⟨hwrong, fun _ => ⟨by simpa using hflag, hnone⟩, h.groups⟩
  refine wp_ite (fun hwrong => ?_) fun hright => ?_
  · refine wp_bind (Within.wp (SameGroups n) fun _ w₁ h₁ => wp_bind ?_)
    exact Within.wp (SameGroups n) fun _ _ h => .inr ⟨hwrong, nofun, h.groups.trans h₁.groups⟩
  · refine wp_bind (Within.wp (SameGroups n) fun _ w₁ h₁ => wp_bind ?_)
    refine Within.wp (SameGroups n) fun _ w₂ h₂ => wp_bind (Within.wp (SameGroups n) fun _ w₃ h₃ => wp_bind ?_)
    refine Within.wp (SameGroups n) fun _ w₄ h₄ => wp_after (wp_bind ?_)
    have h₄ : SameGroups n w w₄ :=
      trans_of _ hget (trans_of _ h₁ (trans_of _ h₂ (trans_of _ h₃ h₄)))
    have hgives : GivesBack n w (regainMods n w₄).2 := (regainMods_gives n w₄).before h₄
    refine Within.wp (SameGroups n) fun _ w₅ h₅ => wp_bind (Within.wp (SameGroups n) fun _ w₆ h₆ => ?_)
    exact .inl ⟨Decidable.not_not.mp hright, rfl, hgives.after (h₆.groups.trans h₅.groups)⟩

/-- The right password is accepted. -/
theorem nickwrite_right (flag : Bool) (hpw : pw ≠ [])
    (hright : (dbGet (w.uTab n).nickname "password" w).1 = some (cutPassword pw)) :
    (nickwrite n pw flag w).1 = true := by
  obtain ⟨-, hok, -⟩ | ⟨hwrong, -⟩ := nickwrite_gives (n := n) (w := w) flag hpw
  · exact hok
  · exact absurd hright hwrong

instance : Plain fun _ => True := ⟨fun _ _ => id, fun _ _ => id, fun _ _ => id⟩

/-- Whom `nickwrite` answers yes is registered. -/
theorem nickwrite_registers (n : Int) (pw : Bytes) (flag : Bool) (hopen : w.sys.dbOpens = true)
    (hok : (nickwrite n pw flag w).1 = true) :
    ((nickwrite n pw flag w).2.uTab n).realname = registered :=
  (nickwrite_sound (J := fun _ => True) hopen rfl trivial trivial (fun _ _ => trivial)
    fun _ _ => trivial).2 hok

/-- A nick that needs no password. -/
theorem autoRegister_gives :
    wp (autoRegister n) (fun _ w' => (w.uTab n).realname ≠ registered ∧ GivesBack n w w' ∨
      (w.uTab n).realname = registered ∧ w'.gTab = w.gTab) w := by
  have hget : SameGroups n w (getU n w).2 := Within.within w
  refine wp_bind (wp_getU (wp_whenever (fun hno => ?_) fun hyes => .inr ⟨?_, rfl⟩))
  · refine wp_bind (Within.wp (SameGroups n) fun _ w₁ h₁ => wp_bind ?_)
    refine Within.wp (SameGroups n) fun _ w₂ h₂ => wp_bind (Within.wp (SameGroups n) fun _ w₃ h₃ => wp_after ?_)
    have h₃ : SameGroups n w w₃ := trans_of _ hget (trans_of _ h₁ (trans_of _ h₂ h₃))
    have hgives : GivesBack n w (regainMods n w₃).2 := (regainMods_gives n w₃).before h₃
    exact Within.wp (SameGroups n) fun _ _ h => .inl ⟨hno, hgives.after h.groups⟩
  · exact Decidable.not_not.mp hyes

/-- What the silent check answers, database open or not. -/
theorem nicklookup_answers {nick : Bytes} (hn : 0 ≤ n) (hnick : nick ≠ [])
    (hlen : nick.length ≤ maxNickLen) :
    wp (nicklookup (-n) nick) (fun r _ =>
      r = 0 ∧ w.sys.dbOpens = true ∧ (w.db (dbKey nick "home")).isSome ∧
        (n = 0 ∨ ¬ guarded w nick (address (w.uTab n))) ∨
      r = -2 ∧ w.sys.dbOpens = true ∧ (w.db (dbKey nick "home")).isSome ∧
        ¬ (n = 0 ∨ ¬ guarded w nick (address (w.uTab n))) ∨
      r = -1 ∧ ¬ (w.sys.dbOpens = true ∧ (w.db (dbKey nick "home")).isSome)) w := by
  by_cases hopen : w.sys.dbOpens = true
  case neg =>
    have hclosed : w.sys.dbOpens = false := by simpa using hopen
    exact .inr (.inr ⟨nicklookup_closed hclosed, fun h => hopen h.1⟩)
  refine wp_mono (nicklookup_silently hn hopen) ?_
  rintro r - (⟨hr, hsome, hfree⟩ | ⟨hr, h0, hguard⟩ | ⟨hr, hnone⟩)
  · exact .inl ⟨hr, hopen, hsome, or_iff_not_imp_left.mpr hfree⟩
  · have hsome : (w.db (dbKey nick "home")).isSome := by
      cases hdb : w.db (dbKey nick "home") with
      | none => simp [guarded, hdb] at hguard
      | some home => rfl
    exact .inr (.inl ⟨hr, hopen, hsome, fun h => h.elim h0 fun h => h hguard⟩)
  · exact .inr (.inr ⟨hr, fun h => by simp [hnone hnick hlen] at h⟩)

/-- **The groups come back to those who are recognised.** -/
theorem authenticate_gives (hn : 0 ≤ n) (hnick : (w.uTab n).nickname ≠ [])
    (hlen : (w.uTab n).nickname.length ≤ maxNickLen) :
    wp (authenticate n) (fun _ w' => recognised w n (w.uTab n).toUserId ∧ GivesBack n w w' ∨
      ¬ recognised w n (w.uTab n).toUserId ∧ w'.gTab = w.gTab) w := by
  have hcheck : wp (nicklookup (-n) (w.uTab n).nickname) (fun r _ =>
      r = 0 ∧ w.sys.dbOpens = true ∧ (w.db (dbKey (w.uTab n).nickname "home")).isSome ∧
        (n = 0 ∨ ¬ guarded w (w.uTab n).nickname (address (w.uTab n))) ∨
      r = -2 ∧ w.sys.dbOpens = true ∧ (w.db (dbKey (w.uTab n).nickname "home")).isSome ∧
        ¬ (n = 0 ∨ ¬ guarded w (w.uTab n).nickname (address (w.uTab n))) ∨
      r = -1 ∧ ¬ (w.sys.dbOpens = true ∧ (w.db (dbKey (w.uTab n).nickname "home")).isSome))
      (getU n w).2 := nicklookup_answers (w := (getU n w).2) hn hnick hlen
  have hS : Stilly w (nicklookup (-n) (w.uTab n).nickname (getU n w).2).2 :=
    trans_of Stilly (Within.within w) (Within.within _)
  unfold wp at hcheck
  refine wp_bind (wp_getU (wp_after ?_))
  generalize (nicklookup (-n) (w.uTab n).nickname (getU n w).2).1 = ret at hcheck ⊢
  generalize (nicklookup (-n) (w.uTab n).nickname (getU n w).2).2 = t at hS ⊢
  have hsame : SameGroups n w t := ⟨congrArg UserId.nickname (hS.users n), hS.groups⟩
  rcases hcheck with ⟨rfl, hopen, hsome, hfree⟩ | ⟨rfl, hopen, hsome, hguard⟩ | ⟨rfl, hnone⟩
  · -- the record lets him in
    have hreal : (t.uTab n).realname = (w.uTab n).realname := congrArg UserId.realname (hS.users n)
    have hrec : recognised w n (w.uTab n).toUserId ↔ (w.uTab n).realname ≠ registered := by
      unfold recognised
      rw [show (w.uTab n).loginid ++ str "@" ++ (w.uTab n).nodeid = address (w.uTab n) from rfl,
        if_pos hfree]
      exact ⟨fun h => h.2.2, fun h => ⟨hopen, hsome, h⟩⟩
    refine wp_bind (wp_ite (fun h => absurd h.1 (by decide)) fun _ => wp_pure (wp_bind ?_))
    refine wp_whenever (fun h => absurd h.1 (by decide)) fun _ => ?_
    refine wp_ite (fun _ => wp_mono autoRegister_gives ?_) fun h => absurd (.inl rfl) h
    rw [hreal, hrec]
    rintro _ w' (⟨hno, hgives⟩ | ⟨hyes, hgroups⟩)
    · exact .inl ⟨hno, hgives.before hsame⟩
    · exact .inr ⟨fun h => h hyes, hgroups.trans hsame.groups⟩
  · -- it asks for the password, and the login may have brought one
    have hrec : recognised w n (w.uTab n).toUserId ↔ (w.uTab n).password ≠ [] ∧
        w.db (dbKey (w.uTab n).nickname "password") = some (cutPassword (w.uTab n).password) := by
      unfold recognised
      rw [show (w.uTab n).loginid ++ str "@" ++ (w.uTab n).nodeid = address (w.uTab n) from rfl,
        if_neg hguard]
      exact ⟨fun h => h.2.2, fun h => ⟨hopen, hsome, h⟩⟩
    have hoffer {w₁ : World} (h₁ : w₁.gTab = w.gTab) (hno : ¬ recognised w n (w.uTab n).toUserId) :
        wp (do
          whenever (((-2 : Int) = -2) ∧ false = false) (offerMods n)
          if (-2 : Int) = 0 ∨ false = true then autoRegister n
          else whenever ((-2 : Int) ≠ -2) do
            sendstatus n (str "No-Pass") (str "Your nickname does not have a password.")
            sendstatus n (str "No-Pass") (str "For help type /m server ?"))
        (fun _ w' => recognised w n (w.uTab n).toUserId ∧ GivesBack n w w' ∨
          ¬ recognised w n (w.uTab n).toUserId ∧ w'.gTab = w.gTab) w₁ := by
      refine wp_bind (Within.wp (SameGroups n) fun _ w₂ h₂ => wp_ite (fun h => absurd h (by decide)) fun _ => ?_)
      exact wp_whenever (fun h => absurd rfl h) fun _ => .inr ⟨hno, h₂.groups.trans h₁⟩
    refine wp_bind (wp_ite (fun hpw => ?_) fun hpw => wp_pure (hoffer hsame.groups fun h => ?_))
    case refine_2 => exact hpw ⟨rfl, (hrec.mp h).1⟩
    have hopen' : t.sys.dbOpens = true := (congrArg Sys.dbOpens hS.sys).trans hopen
    have hwrite := nickwrite_gives (n := n) (w := t) true hpw.2
    have hregistered := nickwrite_registers n (w.uTab n).password true hopen'
    rw [hsame.nick, show (dbGet (w.uTab n).nickname "password" t).1 =
      w.db (dbKey (w.uTab n).nickname "password") by simp [dbGet, hopen', hS.db]] at hwrite
    unfold wp at hwrite
    refine wp_mono (Q := fun ok w' => (ok, w') = nickwrite n (w.uTab n).password true t) rfl ?_
    intro ok w₁ hrun
    rw [← hrun] at hwrite hregistered
    rcases hwrite with ⟨hright, rfl, hgives⟩ | ⟨hwrong, hno, hgroups⟩
    · -- `nickwrite` has registered him already
      refine wp_bind (wp_whenever (fun h => absurd h.2 (by decide)) fun _ => wp_ite (fun _ => ?_) fun h => ?_)
      · refine wp_mono autoRegister_gives ?_
        rintro _ w₂ (⟨hno, -⟩ | ⟨-, hgroups⟩)
        · exact absurd (hregistered rfl) hno
        · exact .inl ⟨hrec.mpr ⟨hpw.2, hright⟩, (hgives.before hsame).after hgroups⟩
      · exact absurd (.inr rfl) h
    · obtain rfl : ok = false := Bool.eq_false_iff.mpr fun hok => absurd (hno hok).1 (by decide)
      exact hoffer (hgroups.trans hsame.groups) fun h => hwrong (hrec.mp h).2
  · -- there is no record
    have hno : ¬ recognised w n (w.uTab n).toUserId := fun h => hnone ⟨h.1, h.2.1⟩
    refine wp_bind (wp_ite (fun h => absurd h.1 (by decide)) fun _ => wp_pure (wp_bind ?_))
    refine wp_whenever (fun h => absurd h.1 (by decide)) fun _ => ?_
    refine wp_ite (fun h => absurd h (by decide)) fun _ => ?_
    exact Within.wp (SameGroups n) fun _ _ h => .inr ⟨hno, h.groups.trans hsame.groups⟩

end

/-! ## §4 — how far a login gets -/

/-- The user behind `@nick` is there and his group is not hidden from `nick`. -/
def followable (w : World) (nick which : Bytes) : Prop :=
  let t := findUser w which.tail
  0 ≤ t ∧ ((w.gTab (groupOf w t)).visibility = .visible ∨ strncmpEq (str "ADMIN") nick maxNickLen)

/-- The tables with the nickname of a login filled in. -/
def filled (w : World) (n : Int) (nick : Bytes) : World :=
  w.modU n fun u => { u with nickname := nick, group := [] }

/-- A login under `nick` comes to the door of its group. -/
def comesToDoor (w : World) (n : Int) (nick group password : Bytes) : Prop :=
  (strcaseEq nick (str "admin") → strcaseEq (password.take maxPasswdLen) Env.adminPwd) ∧
  ((whichGroup group).head? = some 64 → followable (filled w n nick) nick (whichGroup group))

instance (w : World) (nick which : Bytes) : Decidable (followable w nick which) :=
  inferInstanceAs (Decidable (_ ∧ _))

instance (w : World) (n : Int) (nick group password : Bytes) :
    Decidable (comesToDoor w n nick group password) := inferInstanceAs (Decidable (_ ∧ _))

/-- What a refused login does to the tables: its own entry has the nickname it asked for, and groups
have been given back to it under the condition `given`. -/
structure Refused (n : Int) (nick : Bytes) (given : Prop) (w w' : World) : Prop where
  users : ∀ j, j ≠ n → w'.uTab j = w.uTab j
  named : (w'.uTab n).nickname = nick
  groups : w'.gTab = w.gTab ↔ (given → ∀ i ∈ (slots maxGroups).drop 1, ¬ awaits w i nick)

section
variable {n : Int} {w w' : World} {nick which a b c p : Bytes}

theorem followable_congr (huser : ∀ j, (w'.uTab j).nickname = (w.uTab j).nickname)
    (hgroup : ∀ j, (w'.uTab j).group = (w.uTab j).group) (hg : w'.gTab = w.gTab) :
    followable w' nick which ↔ followable w nick which := by
  have hfind : findUser w' which.tail = findUser w which.tail := by simp only [findUser, huser]
  have hof (j : Int) : groupOf w' j = groupOf w j := by simp only [groupOf, findGroup, hgroup, hg]
  simp only [followable, hfind, hof, hg]

/-- The group field of a login is understood, unless it names somebody who cannot be followed. -/
theorem loginGroup_isSome (which : Bytes) (hnick : (w.uTab n).nickname = nick) :
    wp (loginGroup n which) (fun g _ => g.isSome ↔ (which.head? = some 64 → followable w nick which))
      w := by
  refine wp_ite (fun hat => ?_) fun hat => wp_pure ⟨fun _ h => absurd h hat, fun _ => rfl⟩
  refine wp_bind (wp_getW (wp_bind (wp_getU ?_)))
  refine wp_ite (fun hneg => wp_after ⟨nofun, fun h => ?_⟩) fun hpos => ?_
  · have := (h hat).1
    omega
  refine wp_bind (wp_getU (wp_bind (wp_getG ?_)))
  refine wp_ite (fun hhidden => wp_after ⟨nofun, fun h => ?_⟩) fun hopen => wp_pure ⟨fun _ _ => ?_, fun _ => rfl⟩
  · exact ((h hat).2.elim hhidden.1 fun h => hhidden.2 (hnick.symm ▸ h)).elim
  · refine ⟨Int.not_lt.mp hpos, or_iff_not_imp_left.mpr fun hno => ?_⟩
    rw [← hnick]
    exact Decidable.not_not.mp fun h => hopen ⟨hno, h⟩

omit [Env] in
/-- Recognition asks for the core of the entry. -/
theorem SameEntry.recognised (h : SameEntry n w w') :
    recognised w' n (w'.uTab n).toUserId ↔ recognised w n (w.uTab n).toUserId := by
  have hguard (nick addr : Bytes) : guarded w' nick addr = guarded w nick addr := by
    simp only [guarded, h.db]
  show Server.recognised w' n (w'.uTab n).toUserId.core ↔ Server.recognised w n (w.uTab n).toUserId.core
  unfold Server.recognised
  rw [h.core, hguard, h.db, h.sys]

/-- A group change of somebody without a group that is refused leaves the groups alone. -/
theorem sChange_refused_groups (hgroup : (w.uTab n).group = []) {flag : Bool}
    (hno : (sChange n which flag w).1 = false) : (sChange n which flag w).2.gTab = w.gTab := by
  have h := sChange_cases n which flag w
  rw [hno] at h
  cases h with
  | refused _ hS => exact hS.groups
  | reopened _ hname _ _ heq =>
    rw [hgroup] at heq
    exact absurd (strcaseEq_nil heq) hname

/-- A login that is refused at the door of its group. -/
theorem enterServer_leaves (hn : 0 ≤ n) (hgroup : (w.uTab n).group = [])
    (hnick : (w.uTab n).nickname ≠ []) (hlen : (w.uTab n).nickname.length ≤ maxNickLen) :
    wp (enterServer n a) (fun r w' => r < 0 →
      Refused n (w.uTab n).nickname (recognised w n (w.uTab n).toUserId) w w') w := by
  have hlookup (nick : Bytes) : Within (Regains n) (nicklookup (-n) nick) := nicklookup_silent hn nick
  have hown : Own n w (startSession n w).2 := Within.within w
  have hentry : SameEntry n w (startSession n w).2 := Within.within w
  have hgroup₁ : ((startSession n w).2.uTab n).group = [] := by
    simp [startSession, setLogin, modUOpts, World.modU, hgroup]
  refine wp_after ?_
  generalize (startSession n w).2 = w₁ at hown hentry hgroup₁
  refine wp_bind (wp_getU (wp_after ?_))
  have h₂ : Both (Regains n) (SameGroups n) w₁ (sendsCmdout n (str "Welcome to ICB " ++
      (w₁.uTab n).nickname) (getU n w₁).2).2 := trans_of _ (Within.within w₁) (Within.within _)
  have hentry₂ : SameEntry n w₁ (sendsCmdout n (str "Welcome to ICB " ++
      (w₁.uTab n).nickname) (getU n w₁).2).2 := trans_of _ (Within.within w₁) (Within.within _)
  generalize (sendsCmdout n _ (getU n w₁).2).2 = w₂ at h₂ hentry₂
  have hentry₂ : SameEntry n w w₂ := trans_of _ hentry hentry₂
  have hnick₂ : (w₂.uTab n).toUserId.core.nickname = (w.uTab n).toUserId.core.nickname :=
    congrArg UserId.nickname hentry₂.core
  have hnick₂ : (w₂.uTab n).nickname = (w.uTab n).nickname := hnick₂
  have hauth := authenticate_gives (w := w₂) hn (hnick₂ ▸ hnick) (hnick₂ ▸ hlen)
  have h₃ : Regains n w₂ (authenticate n w₂).2 := Within.within w₂
  unfold wp at hauth
  refine wp_after ?_
  generalize (authenticate n w₂).2 = w₃ at hauth h₃
  refine wp_bind (Within.wp (Both (Regains n) (SameGroups n)) fun _ w₄ h₄ => wp_after ?_)
  have hreg : Regains n w₁ w₄ := h₂.1.trans (h₃.trans h₄.1)
  have hgroup₄ : (w₄.uTab n).group = [] := hreg.group.trans hgroup₁
  refine wp_ite (fun _ => wp_after (wp_after (wp_after (wp_pure fun h => absurd h (by decide))))) ?_
  intro hno _
  have hno : (sChange n a true w₄).1 = false := by simpa using hno
  have hlast : Regains n w₄ (sChange n a true w₄).2 :=
    (sChange_refused hgroup₄ : wp (sChange n a true) _ w₄).resolve_left (by simp [hno])
  have hall : Regains n w₁ (sChange n a true w₄).2 := hreg.trans hlast
  have hgroups₀ : w₂.gTab = w.gTab := h₂.2.groups.trans hown.groups
  have hwaits (i : Int) : awaits w₂ i (w₂.uTab n).nickname ↔ awaits w i (w.uTab n).nickname := by
    rw [awaits, hgroups₀, hnick₂, ← awaits]
  have hgroups : (sChange n a true w₄).2.gTab = w₃.gTab :=
    (sChange_refused_groups hgroup₄ hno).trans h₄.2.groups
  show Refused n (w.uTab n).nickname (recognised w n (w.uTab n).toUserId) w (sChange n a true w₄).2
  refine ⟨fun j hj => (hall.users j hj).trans (hown.users j hj), ?_, ?_⟩
  · rw [hall.nick, ← hnick₂, h₂.2.nick]
  rw [hgroups, ← hgroups₀, ← hentry₂.recognised]
  rcases hauth with ⟨hyes, hgives⟩ | ⟨hno, hsame⟩
  · rw [hgives.same_iff]
    simp only [hwaits, hyes, true_imp_iff]
  · exact ⟨fun _ h => absurd h hno, fun _ => hsame⟩

/-- Only the entry of `n` has been written, and it is `u` now. -/
structure FilledIn (n : Int) (u : UserId) (w w' : World) : Prop extends Own n w w' where
  entry : (w'.uTab n).toUserId = u
  db : w'.db = w.db
  sys : w'.sys = w.sys

theorem fillUserEntry_fills (w : World) (a p : Bytes) (perms : Nat) (hlen : nick.length ≤ maxNickLen) :
    FilledIn n (loginEntry w n a nick p) w
      (fillUserEntry n a (w.uTab n).nodeid nick p [] [] .no 0 0 perms (getU n w).2).2 where
  toOwn := trans_of (Own n) (Within.within w) (Within.within _)
  entry := by
    simp [fillUserEntry, setIdent, setNickname, setUserGroup, setLogin, modUOpts, World.modU, getU,
      loginEntry, List.take_of_length_le hlen]
  db := rfl
  sys := rfl

section
variable {u : UserId} {t : World}

omit [Env] in
theorem FilledIn.still (h : FilledIn n u w w') (ht : Both (Own n) Stilly w' t) : FilledIn n u w t where
  toOwn := h.toOwn.trans ht.1
  entry := (ht.2.users n).trans h.entry
  db := ht.2.db.trans h.db
  sys := ht.2.sys.trans h.sys

omit [Env] in
theorem FilledIn.named (h : FilledIn n u w w') : (w'.uTab n).nickname = u.nickname :=
  congrArg UserId.nickname h.entry

theorem FilledIn.checkAuth (h : FilledIn n u w w') : checkAuth w' n =
    (strcaseEq u.nickname (str "ADMIN") && strcaseEq u.password Env.adminPwd) := by
  rw [← h.entry]
  rfl

omit [Env] in
theorem FilledIn.recognised (h : FilledIn n u w w') :
    recognised w' n (w'.uTab n).toUserId ↔ recognised w n u := by
  have hguard (nick addr : Bytes) : guarded w' nick addr = guarded w nick addr := by
    simp only [guarded, h.db]
  unfold Server.recognised
  rw [h.entry, hguard, h.db, h.sys]

theorem FilledIn.followable (h : FilledIn n u w w') (hgroup : u.group = []) :
    followable w' nick which ↔ followable (filled w n u.nickname) nick which := by
  have hfilled (j : Int) : (w'.uTab j).nickname = ((filled w n u.nickname).uTab j).nickname ∧
      (w'.uTab j).group = ((filled w n u.nickname).uTab j).group := by
    by_cases hj : j = n
    · subst hj
      refine ⟨h.named.trans ?_, (congrArg UserId.group h.entry).trans ?_⟩
      · simp [filled, World.modU]
      · simp [filled, World.modU, hgroup]
    · rw [h.users j hj]
      simp [filled, World.modU, Function.update_of_ne hj]
  exact followable_congr (fun j => (hfilled j).1) (fun j => (hfilled j).2) h.groups

end

/-- Groups come back only to a login that comes to the door and is recognised. -/
def GroupsDue (w : World) (n : Int) (nick loginid group password : Bytes) : Prop :=
  comesToDoor w n nick group password ∧ recognised w n (loginEntry w n loginid nick password)

instance (w : World) (n : Int) (nick loginid group password : Bytes) :
    Decidable (GroupsDue w n nick loginid group password) := inferInstanceAs (Decidable (_ ∧ _))

omit [Env] in
/-- A refusal before the door. -/
theorem FilledIn.refused {u : UserId} {given : Prop} (h : FilledIn n u w w') (hno : ¬ given) :
    Refused n u.nickname given w w' :=
  ⟨h.users, h.named, fun _ hyes => absurd hyes hno, fun _ => h.groups⟩

/-- The login from the point where its entry is filled in. -/
theorem acceptLogin_leaves {perms : Nat} (hn : 0 ≤ n) (hnick : b ≠ []) (hlen : b.length ≤ maxNickLen) :
    wp (acceptLogin n a b c p perms) (fun r w' => r < 0 →
      Refused n (filternickname b) (GroupsDue w n (filternickname b) a c p) w w') w := by
  have hne : filternickname b ≠ [] := by simpa [filternickname] using hnick
  have hlen : (filternickname b).length ≤ maxNickLen := by simpa [filternickname] using hlen
  generalize hname : filternickname b = nick at hne hlen
  refine wp_bind (wp_getU (wp_after (wp_bind (wp_getW ?_))))
  rw [hname]
  have hfill := fillUserEntry_fills (n := n) w a p perms hlen
  generalize (fillUserEntry n a (w.uTab n).nodeid nick p [] [] .no 0 0 perms (getU n w).2).2 = w₁ at hfill ⊢
  refine wp_ite (fun hadmin => ?_) fun hadmin => ?_
  · refine wp_bind (Within.wp (Both (Own n) Stilly) fun _ t ht _ => (hfill.still ht).refused fun hdue => ?_)
    rw [hfill.checkAuth] at hadmin
    have hADMIN : strcaseEq nick (str "ADMIN") := strcaseEq_trans hadmin.1 (by decide)
    refine hadmin.2 ?_
    show (strcaseEq nick (str "ADMIN") && strcaseEq (p.take maxPasswdLen) Env.adminPwd) = true
    rw [hADMIN, hdue.1.1 hadmin.1, Bool.and_self]
  refine wp_bind (Within.wp (Both (Own n) Stilly) fun _ w₂ h₂ => ?_)
  refine wp_bind (Within.wp (Both (Own n) Stilly) fun _ w₃ h₃ => wp_after ?_)
  have hfill₃ := (hfill.still h₂).still h₃
  have hsome := loginGroup_isSome (whichGroup c) hfill₃.named
  have h₄ : Both (Own n) Stilly w₃ (loginGroup n (whichGroup c) w₃).2 := Within.within w₃
  unfold wp at hsome
  generalize (loginGroup n (whichGroup c) w₃).1 = g at hsome ⊢
  generalize (loginGroup n (whichGroup c) w₃).2 = w₄ at h₄ ⊢
  have hfill₄ := hfill₃.still h₄
  rw [hfill₃.followable rfl] at hsome
  refine wp_ite (fun hg => ?_) fun hg _ => hfill₄.refused fun hdue => hg (hsome.mpr hdue.1.2)
  have hdoor : comesToDoor w n nick c p := by
    refine ⟨fun hnick => ?_, hsome.mp hg⟩
    rw [hfill.checkAuth] at hadmin
    have hboth := Decidable.not_not.mp fun h => hadmin ⟨hnick, h⟩
    exact (Bool.and_eq_true _ _ ▸ hboth).2
  have hleaves := enterServer_leaves (w := w₄) (a := g.getD []) hn
    (congrArg UserId.group hfill₄.entry) (hfill₄.named ▸ hne) (hfill₄.named ▸ hlen)
  refine wp_mono hleaves fun r w' h hr => ?_
  obtain ⟨husers, hnamed, hgroups⟩ := h hr
  rw [hfill₄.named] at hnamed hgroups
  rw [hfill₄.recognised, hfill₄.groups] at hgroups
  refine ⟨fun j hj => (husers j hj).trans (hfill₄.users j hj), hnamed, hgroups.trans ?_⟩
  have hdue : GroupsDue w n nick a c p ↔ recognised w n (loginEntry w n a nick p) :=
    and_iff_right hdoor
  simp only [hdue, awaits, hfill₄.groups]
  rfl

theorem Stilly.comesToDoor (hS : Stilly w w') :
    comesToDoor w' n nick c p ↔ comesToDoor w n nick c p := by
  have hfilled (j : Int) : ((filled w' n nick).uTab j).toUserId = ((filled w n nick).uTab j).toUserId := by
    by_cases hj : j = n
    · subst hj
      simp [filled, World.modU, hS.users]
    · simp [filled, World.modU, Function.update_of_ne hj, hS.users]
  have hfollow : followable (filled w' n nick) nick (whichGroup c) ↔
      followable (filled w n nick) nick (whichGroup c) :=
    followable_congr (fun j => congrArg UserId.nickname (hfilled j))
      (fun j => congrArg UserId.group (hfilled j)) hS.groups
  unfold Server.comesToDoor
  rw [hfollow]

theorem Stilly.groupsDue (hS : Stilly w w') :
    GroupsDue w' n nick a c p ↔ GroupsDue w n nick a c p := by
  have hguard (nick addr : Bytes) : guarded w' nick addr = guarded w nick addr := by
    simp only [guarded, hS.db]
  have hentry : loginEntry w' n a nick p = loginEntry w n a nick p := by
    have hnode : (w'.uTab n).nodeid = (w.uTab n).nodeid := congrArg UserId.nodeid (hS.users n)
    have hreal : (w'.uTab n).realname = (w.uTab n).realname := congrArg UserId.realname (hS.users n)
    simp only [loginEntry, hnode, hreal]
  unfold GroupsDue recognised
  rw [hS.comesToDoor, hentry, hguard, hS.db, hS.sys]

/-- What a login has shown when it stores its nickname. -/
theorem loginStores_eq_some (h : loginStores w n a b = some nick) :
    (∃ perms, loginChecks w n a b = .ok perms) ∧ denied w n a = none ∧
      b ≠ [] ∧ b.length ≤ maxNickLen ∧ filternickname b = nick := by
  have hchecks : (loginChecks w n a b).isOk ∧ denied w n a = none := by
    by_contra hno
    rw [loginStores, if_neg hno] at h
    cases h
  rw [loginStores, if_pos hchecks, Option.some_inj] at h
  cases hc : loginChecks w n a b with
  | error e => simp [hc, Except.isOk, Except.toBool] at hchecks
  | ok perms =>
    have hnick : b ≠ [] ∧ b.length ≤ maxNickLen := by
      unfold loginChecks at hc
      split at hc
      · cases hc
      split at hc
      · cases hc
      next h => exact ⟨fun h' => h (.inl h'), by omega⟩
    refine ⟨⟨perms, rfl⟩, hchecks.2, hnick.1, hnick.2, ?_⟩
    rw [← h, List.take_of_length_le]
    simpa [filternickname] using hnick.2

/-- A login that stores its nickname. -/
theorem login_leaves (hn : 0 ≤ n) (hstores : loginStores w n a b = some nick) :
    wp (login n a b c p) (fun r w' => r < 0 → Refused n nick (GroupsDue w n nick a c p) w w') w := by
  obtain ⟨⟨perms, hc⟩, hadmitted, hne, hlen, hname⟩ := loginStores_eq_some hstores
  refine wp_bind (wp_getW ?_)
  rw [hc]
  refine wp_bind (wp_getW (wp_bind (Within.wp (Both (Own n) Stilly) fun _ t ht => ?_)))
  refine wp_ite (fun hsome => ?_) fun _ => ?_
  · rw [hadmitted] at hsome
    cases hsome
  refine wp_mono (acceptLogin_leaves hn hne hlen) fun r w' h hr => ?_
  rw [hname] at h
  obtain ⟨husers, hnamed, hgroups⟩ := h hr
  refine ⟨fun j hj => (husers j hj).trans (ht.1.users j hj), hnamed, ?_⟩
  rw [ht.1.groups] at hgroups
  simpa only [ht.2.groupsDue, awaits, ht.1.groups] using hgroups

end

/-! ## §5 — what is left -/

/-- A refused login has left no trace: every name is found as before, and no entry but its own has
changed. -/
structure Traceless (n : Int) (w w' : World) : Prop where
  names : ∀ s, findUser w' s = findUser w s
  groups : w'.gTab = w.gTab
  users : ∀ j, j ≠ n → w'.uTab j = w.uTab j

/-- Either the packet stores no nickname, or `find_user` does not notice the one it stores and no group
waits that the login would get back. -/
def LeavesNoTrace (d : Daemon) (n : Int) (contents : Bytes) : Prop :=
  ∀ nick ∈ storedNick d.w n contents, Unnoticed d.w n nick ∧
    (GroupsDue d.w n nick (pktField contents 0) (pktField contents 2) (loginPassword d contents) →
      ∀ i ∈ (slots maxGroups).drop 1, ¬ awaits d.w i nick)

section
variable {n : Int} {w w' : World} {d : Daemon} {contents : Bytes}

theorem Traceless.of_quiet (h : Both (Own n) Stilly w w') : Traceless n w w' :=
  ⟨h.2.calmly.findUser, h.1.groups, h.1.users⟩

/-- What a stored nickname leaves. -/
theorem Refused.traceless_iff {nick : Bytes} {given : Prop} (h : Refused n nick given w w')
    (hn : inUsers n) (hnick : nick ≠ []) : Traceless n w w' ↔
      Unnoticed w n nick ∧ (given → ∀ i ∈ (slots maxGroups).drop 1, ¬ awaits w i nick) := by
  have hnames : (∀ s, findUser w' s = findUser w s) ↔ Unnoticed w n nick :=
    findUser_renamed_iff hn hnick (fun j hj => by rw [h.users j hj]) h.named
  constructor
  · intro ht
    exact ⟨hnames.mp ht.names, h.groups.mp ht.groups⟩
  · rintro ⟨hun, hgiven⟩
    exact ⟨hnames.mpr hun, h.groups.mpr hgiven, h.users⟩

/-- **When a refused login leaves no trace.** In any state, a login packet on a slot for connections
that `loginmsg` refuses changes no answer of `find_user`, no group and no other user's entry if and only
if it was refused before it stored a nickname, or stored one that goes unnoticed and got no group
back. -/
theorem refused_login_traceless_iff (hn : n ∈ slots maxRealUsers)
    (htype : (cstr contents).head? = some pktLogin)
    (hrefused : (loginmsg n (pktText contents) d).1 < 0) :
    Traceless n d.w (loginmsg n (pktText contents) d).2.w ↔ LeavesNoTrace d n contents := by
  obtain ⟨h0, hreal⟩ := mem_slots.mp hn
  have hin : inUsers n := inUsers_iff.mpr (mem_slots.mpr ⟨h0, by unfold maxRealUsers at hreal; omega⟩)
  have hget : Both (Own n) Stilly d.w (getU n d.w).2 := Within.within d.w
  suffices h : wp (loginmsg n (pktText contents))
      (fun r d' => r < 0 → (Traceless n d.w d'.w ↔ LeavesNoTrace d n contents)) d from h hrefused
  have hnone {w' : World} (hno : storedNick d.w n contents = none) (hR : Both (Own n) Stilly d.w w') :
      Traceless n d.w w' ↔ LeavesNoTrace d n contents := by
    refine ⟨fun _ nick hnick => ?_, fun _ => .of_quiet hR⟩
    rw [hno] at hnick
    cases hnick
  refine loginmsg_real (R := Both (Own n) Stilly)
    (Q := fun r w' => r < 0 → (Traceless n d.w w' ↔ LeavesNoTrace d n contents)) hreal htype ?_ ?_
  · exact fun hno r w' hR _ => hnone (if_neg hno) hR
  intro hl
  have hstored : storedNick d.w n contents =
      loginStores (getU n d.w).2 n (pktField contents 0) (pktField contents 1) := if_pos hl
  cases hs : loginStores (getU n d.w).2 n (pktField contents 0) (pktField contents 1) with
  | none => exact fun _ => hnone (hstored.trans hs) (trans_of _ hget (login_refused hs))
  | some nick =>
    obtain ⟨-, -, hne, -, hname⟩ := loginStores_eq_some hs
    have hnick : nick ≠ [] := by
      rw [← hname]
      simpa [filternickname] using hne
    refine wp_mono (login_leaves h0 hs) fun r w' h hr => ?_
    obtain ⟨husers, hnamed, hgroups⟩ := h hr
    rw [hget.2.groupsDue] at hgroups
    have hR : Refused n nick _ d.w w' := ⟨husers, hnamed, hgroups⟩
    rw [hR.traceless_iff hin hnick, LeavesNoTrace, hstored, hs]
    simp only [Option.mem_some, forall_eq']

end

end

section
attribute [local instance] smallEnv

/-- `al` has opened group `x` and closed it, and a second client has connected. -/
def closedDoor : Host :=
  Host.run {} { w := startup {} fun _ => none }
    [.connect 1 false none, .packet 1 (loginPkt "one" "al" "x" ""), .packet 1 (cmdPkt "status" "r"),
     .connect 2 false none]

/-- A login that is turned away from a closed group keeps its name. -/
theorem refused_login_keeps_name : ∃ (h : Host) (n : Int) (contents : Bytes),
    Reachable (fun _ _ _ => True) h ∧ h.opened n ∧ (h.w.uTab n).login = .no ∧
    (cstr contents).head? = some pktLogin ∧
    (loginmsg n (pktText contents) h.toDaemon).1 < 0 ∧
    ¬ Traceless n h.w (loginmsg n (pktText contents) h.toDaemon).2.w := by
  obtain ⟨hr, hopened, hlogin, hrefused, hfound⟩ := Reachable.leads_run (P := fun _ _ _ => True) (Q := fun h =>
      let r := loginmsg 2 (pktText (loginPkt "two" "bo" "x" "")) h.toDaemon
      h.opened 2 ∧ (h.w.uTab 2).login = .no ∧ r.1 < 0 ∧ findUser r.2.w (str "bo") ≠ findUser h.w (str "bo"))
    (.start {} fun _ => none) (rfl : closedDoor = Host.run {} _ _) (by decide +kernel)
  exact ⟨closedDoor, 2, loginPkt "two" "bo" "x" "", hr, hopened, hlogin, by decide, hrefused,
    fun h => hfound (h.names _)⟩

theorem refused_login_traceless_al :
    Traceless 2 closedDoor.w
      (loginmsg 2 (pktText (loginPkt "two" "al" "y" "")) closedDoor.toDaemon).2.w := by
  have ⟨hrefused, hnone⟩ : (loginmsg 2 (pktText (loginPkt "two" "al" "y" "")) closedDoor.toDaemon).1 < 0 ∧
      storedNick closedDoor.w 2 (loginPkt "two" "al" "y" "") = none := by
    decide +kernel
  refine (refused_login_traceless_iff (mem_slots.mpr (by decide)) (by decide) hrefused).mpr ?_
  intro nick hnick
  rw [hnone] at hnick
  cases hnick

end

end Icbd.Server
