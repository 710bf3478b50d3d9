/-
# Icbd.Server.Passwords — five checks of one password.

A password is stored by `nickwrite` on a new nickname and by `nickchpass`, and it is compared in `nickwrite`,
`nickchpass`, `nickdelete`, `valuser` and, after it has gone through the table entry, in a login. Each of them cuts
what it is given to `MAX_PASSWDLEN` characters and compares the rest, so all of them agree.
-/
import Icbd.Words
import Icbd.Server.Refusal
import Mathlib.Data.Bool.AllAny

-- every bind doubles the size of the search's argument
set_option synthInstance.maxSize 1000000000000000000000000000000000000000000000000
set_option synthInstance.maxHeartbeats 200000

namespace Icbd.Server

open Icbd.Lib

/-! ## §1 — what is presented -/

/-- A word that the buffer of `getword` has room for. -/
structure OneWord (s : Bytes) : Prop where
  no_blank : ∀ b ∈ s, isBlank b = false
  short : s.length ≤ 63

/-- A word of printable characters. -/
structure Presentable (s : Bytes) : Prop where
  nonempty : s ≠ []
  printable : ∀ b ∈ s, 33 ≤ b ∧ b ≤ 126
  short : s.length ≤ 63

namespace Presentable

theorem of_all {s : Bytes} (hne : s ≠ []) (hall : s.all fun b => 33 ≤ b ∧ b ≤ 126) (hlen : s.length ≤ 63) :
    Presentable s :=
  ⟨hne, List.all_iff_forall_prop.mp hall, hlen⟩

variable {s t : Bytes}

theorem oneWord (h : Presentable s) : OneWord s where
  no_blank b hb := by
    have hprint := h.printable b hb
    simp only [isBlank, Bool.or_eq_false_iff, beq_eq_false_iff_ne, ne_eq, ← UInt8.toNat_inj,
      UInt8.le_iff_toNat_le, UInt8.reduceToNat] at hprint ⊢
    omega
  short := h.short

theorem word (h : Presentable s) : getword s = s :=
  getword_eq_self h.oneWord.no_blank (h.short.trans (by decide))

/-- A word in front of what is presented, with a blank between them. -/
theorem words (ht : Presentable t) (hs : OneWord s) :
    getword (s ++ 32 :: t) = s ∧ getword (getTail (s ++ 32 :: t)) = t := by
  obtain ⟨b, bs, hbs⟩ := List.exists_cons_of_ne_nil ht.nonempty
  have hhead : t.head?.any isBlank = false := by
    simpa [hbs] using ht.oneWord.no_blank b (hbs ▸ List.mem_cons_self)
  obtain ⟨hword, htail⟩ := word_blank hs.no_blank (hs.short.trans (by decide)) hhead
  exact ⟨hword, by rw [htail, ht.word]⟩

theorem cut_ne_nil (h : Presentable s) : cutPassword s ≠ [] := by
  obtain ⟨b, bs, hbs⟩ := List.exists_cons_of_ne_nil h.nonempty
  rw [cutPassword, hbs]
  exact List.cons_ne_nil _ _

end Presentable

theorem cutPassword_cut (s : Bytes) : cutPassword (s.take maxPasswdLen) = cutPassword s := by
  rw [cutPassword, List.take_take, Nat.min_self]
  rfl

/-! ## §2 — the password of a nick -/

section
variable [Env]

/-- The password of a nick, and the system, are as they were. -/
structure SamePassword (nick : Bytes) (w w' : World) : Prop where
  stored : w'.db (dbKey nick "password") = w.db (dbKey nick "password")
  sys : w'.sys = w.sys

section
variable {nick v : Bytes} {n m : Int} {w w' : World} {l : Login}

instance : Calm (SamePassword nick) where
  refl _ := ⟨rfl, rfl⟩
  trans _ _ _ h₁ h₂ := ⟨h₂.stored.trans h₁.stored, h₂.sys.trans h₁.sys⟩
  misc _ _ := ⟨rfl, rfl⟩
  drops _ _ := ⟨rfl, rfl⟩
  gopts _ _ _ := ⟨rfl, rfl⟩
  toSends _ := ⟨fun _ _ => ⟨rfl, rfl⟩⟩
  toUOpts _ := ⟨fun _ _ => ⟨rfl, rfl⟩⟩

instance : RealTo (SamePassword nick) m v := ⟨fun _ => ⟨rfl, rfl⟩⟩
instance : IdentTo (SamePassword nick) m := ⟨fun _ _ _ _ => ⟨rfl, rfl⟩⟩

omit [Env] in
/-- Another attribute has another key, whosever it is. -/
theorem SamePassword.attr {nick' : Bytes} {key : String} {v : Option Bytes} (hdot : (46 : UInt8) ∉ str key)
    (hne : lcaseit (str key) ≠ lcaseit (str "password")) :
    SamePassword nick w { w with db := Function.update w.db (dbKey nick' key) v } := by
  refine ⟨Function.update_of_ne (fun heq => hne ?_) _ _, rfl⟩
  exact (dbKey_inj (by decide) hdot heq).2.symm

instance : DbTo (SamePassword nick) "nick" := ⟨fun _ _ _ => .attr (by decide) (by decide)⟩
instance : DbTo (SamePassword nick) "home" := ⟨fun _ _ _ => .attr (by decide) (by decide)⟩
instance : DbTo (SamePassword nick) "signon" := ⟨fun _ _ _ => .attr (by decide) (by decide)⟩
instance : DbTo (SamePassword nick) "signoff" := ⟨fun _ _ _ => .attr (by decide) (by decide)⟩

/-- `nickwrite` on a new nick stores the password. -/
theorem nickwrite_stores {pw : Bytes} (hopen : w.sys.dbOpens = true)
    (hnew : w.db (dbKey (w.uTab n).nickname "password") = none) (hpw : pw ≠ []) :
    (nickwrite n pw false w).2.db (dbKey (w.uTab n).nickname "password") = some (cutPassword pw) := by
  show wp (nickwrite n pw false) (fun _ w' => w'.db (dbKey (w.uTab n).nickname "password") = some (cutPassword pw)) w
  refine wp_bind (wp_getU (wp_bind (wp_dbGet hopen ?_)))
  refine wp_ite (fun hnil => absurd hnil hpw) fun _ => wp_ite (fun _ => ?_) fun hno => absurd hnew hno
  refine wp_ite (fun hflag => nomatch hflag) fun _ => wp_after ?_
  refine Within.wp (SamePassword (w.uTab n).nickname) fun _ w' h => h.stored.trans ?_
  simp [dbSet, getU, hopen]

/-- What `nickchpass` leaves as the password. -/
theorem nickchpass_stores {old new v : Bytes} (hopen : w.sys.dbOpens = true)
    (hstored : w.db (dbKey (w.uTab n).nickname "password") = some v) (hnew : new ≠ []) :
    (nickchpass n old new w).2.db (dbKey (w.uTab n).nickname "password") =
      some (if v = cutPassword old then cutPassword new else v) := by
  show wp (nickchpass n old new) (fun _ w' => w'.db (dbKey (w.uTab n).nickname "password") = _) w
  refine wp_bind (wp_getU (wp_bind (wp_dbGet hopen ?_)))
  refine wp_ite (fun hwrong => ?_) fun hright => wp_ite (fun hnil => absurd hnil hnew) fun _ => wp_after ?_
  · refine Within.wp (SamePassword (w.uTab n).nickname) fun _ w' h => h.stored.trans (hstored.trans ?_)
    exact (congrArg some (if_neg fun heq => hwrong (hstored.trans (congrArg some heq)))).symm
  · refine Within.wp (SamePassword (w.uTab n).nickname) fun _ w' h => h.stored.trans ?_
    have hsome : some v = some (cutPassword old) := hstored.symm.trans (Decidable.not_not.mp hright)
    rw [if_pos (Option.some.inj hsome)]
    simp [dbSet, getU, hopen]

/-- What `nickdelete` leaves of the password of a registered user. -/
theorem nickdelete_stores {pw v : Bytes} (hopen : w.sys.dbOpens = true) (hreal : (w.uTab n).realname ≠ [])
    (hstored : w.db (dbKey (w.uTab n).nickname "password") = some v) (hpw : pw ≠ []) :
    (nickdelete n pw w).2.db (dbKey (w.uTab n).nickname "password") =
      if v = cutPassword pw then none else some v := by
  generalize hnick : (w.uTab n).nickname = nick at hstored
  have hdelete {nick' : Bytes} {key : String} {t : World}
      (ht : t.sys.dbOpens = true ∧ t.db (dbKey nick "password") = none) :
      wp (dbDelete nick' key) (fun _ t => t.sys.dbOpens = true ∧ t.db (dbKey nick "password") = none) t := by
    refine ⟨?_, ?_⟩ <;> simp [dbDelete, ht.1, ht.2, Function.update_apply]
  show wp (nickdelete n pw) (fun _ w' => w'.db (dbKey nick "password") = _) w
  refine wp_bind (wp_getU (wp_bind (wp_dbGet hopen ?_)))
  rw [hnick]
  have hrefuse {msg : Bytes} (hno : v ≠ cutPassword pw) :
      wp (senderror n msg) (fun _ w' => w'.db (dbKey nick "password") = if v = cutPassword pw then none else some v)
        (getU n w).2 := by
    refine Within.wp (SamePassword nick) fun _ w' h => h.stored.trans (hstored.trans ?_)
    rw [if_neg hno]
  refine wp_ite (fun hnil => absurd hnil hpw) fun _ => wp_ite (fun hnil => absurd hnil hreal) fun _ => ?_
  refine wp_ite (fun hnone => absurd (hstored.symm.trans hnone) (Option.some_ne_none v)) fun _ => ?_
  refine wp_ite (fun hwrong => hrefuse fun heq => hwrong (hstored.trans (congrArg some heq))) fun hright => ?_
  rw [if_pos (Option.some.inj (hstored.symm.trans (Decidable.not_not.mp hright)))]
  refine wp_bind (wp_mono (wp_each_of_mem
    (I := fun t => t.sys.dbOpens = true ∧ t.db (dbKey nick "password") = none) (J := fun t => t.sys.dbOpens = true)
    (show "password" ∈ recordKeys by decide) (fun t ht => ?_) (fun _ _ t ht => hdelete ht) (fun _ _ t ht => ?_) hopen)
    fun _ t₁ h₁ => ?_)
  · refine ⟨?_, ?_⟩ <;> simp [dbDelete, show t.sys.dbOpens = true from ht]
  · show (dbDelete nick _ t).2.sys.dbOpens = true
    simp [dbDelete, show t.sys.dbOpens = true from ht]
  refine wp_bind (wp_mono (wp_each (I := fun t => t.sys.dbOpens = true ∧ t.db (dbKey nick "password") = none)
    (fun _ _ t ht => ?_) h₁) fun _ t₂ h₂ => ?_)
  · exact wp_bind (wp_mono (hdelete ht) fun _ _ ht => wp_bind (wp_mono (hdelete ht) fun _ _ ht => hdelete ht))
  · exact Within.wp (SamePassword nick) fun _ _ h => h.stored.trans h₂.2

omit [Env] in
/-- `valuser` compares. -/
theorem valuser_answers {pw v : Bytes} (hopen : w.sys.dbOpens = true)
    (hstored : w.db (dbKey nick "password") = some v) (hpw : pw ≠ []) : wp (valuser nick pw) (fun r w' => (r = 0 ↔ v = cutPassword pw) ∧ w' = w) w := by
  refine wp_bind (wp_dbGet hopen (wp_pure ⟨?_, rfl⟩))
  rw [if_neg hpw, hstored, if_neg (Option.some_ne_none v)]
  by_cases heq : v = cutPassword pw
  · simp [heq]
  · simp [heq]

omit [Env] in
theorem toInt16_succ_ne (i : Int) : toInt16 (i + 1) ≠ i := by
  unfold toInt16
  omega

/-- `s_drop` of somebody who is no administrator marks the other if the password is right. -/
theorem sDrop_marks {who pw v : Bytes} (hwho : OneWord who) (hpw : Presentable pw) (hopen : w.sys.dbOpens = true)
    (hfound : 0 ≤ findUser w who) (hadmin : checkAuth w n = false)
    (hstored : w.db (dbKey (w.uTab (findUser w who)).nickname "password") = some v) :
    (sDrop n (who ++ 32 :: pw) w).2.sKill (findUser w who) ≠ w.sKill (findUser w who) ↔ v = cutPassword pw := by
  obtain ⟨hfirst, hsecond⟩ := hpw.words hwho
  show wp (sDrop n (who ++ 32 :: pw))
    (fun _ w' => w'.sKill (findUser w who) ≠ w.sKill (findUser w who) ↔ v = cutPassword pw) w
  refine wp_bind (wp_getW ?_)
  rw [hfirst, hsecond]
  refine wp_bind (wp_mono (valuser_answers hopen hstored hpw.nonempty) ?_)
  rintro r w' ⟨hr, hw⟩
  rw [hw]
  refine wp_ite (fun hneg => absurd hneg (not_lt.mpr hfound)) fun _ => wp_ite (fun hyes => ?_) fun _ => ?_
  · rw [hadmin] at hyes
    cases hyes
  have hsends {dst : Int} {c : Bytes} {Q : Unit → World → Prop} (h : ∀ w₁, w₁.sKill = w.sKill → Q () w₁) :
      wp (doSend dst c) Q w := wp_bind (wp_getW (wp_whenever (fun _ => h _ rfl) fun _ => h _ rfl))
  refine wp_ite (fun h0 => wp_bind (hsends fun w₁ hmarks => ?_)) fun h0 => hsends fun w₁ hmarks => ?_
  · refine iff_of_true ?_ (hr.mp h0)
    show Function.update w₁.sKill _ (toInt16 (w₁.sKill (findUser w who) + 1)) _ ≠ _
    rw [Function.update_self, hmarks]
    exact toInt16_succ_ne _
  · exact iff_of_false (fun hne => hne (congrFun hmarks _)) fun heq => h0 (hr.mpr heq)

/-! ## §3 — who is registered -/

omit [Env] in
theorem plain_realname (v : Bytes) : Plain fun u => u.realname = v := ⟨fun _ _ => id, fun _ _ => id, fun _ _ => id⟩

attribute [local instance] plain_realname

/-- Of a nick with a password, `nickwrite` answers yes if and only if it is given; it registers the user, or
takes the registration from him. -/
theorem nickwrite_answers {pw v : Bytes} (flag : Bool) (hopen : w.sys.dbOpens = true)
    (hstored : w.db (dbKey (w.uTab n).nickname "password") = some v) (hpw : pw ≠ []) :
    wp (nickwrite n pw flag) (fun ok w' => (ok = true ↔ v = cutPassword pw) ∧
      (w'.uTab n).realname = if v = cutPassword pw then registered else []) w := by
  have hget : (dbGet (w.uTab n).nickname "password" w).1 = some v := by simp [dbGet, hopen, hstored]
  by_cases heq : v = cutPassword pw
  · have hok := nickwrite_right flag hpw (hget.trans (congrArg some heq))
    refine ⟨iff_of_true hok heq, ?_⟩
    rw [if_pos heq]
    exact nickwrite_registers n pw flag hopen hok
  rw [if_neg heq]
  refine wp_bind (wp_getU (wp_bind (wp_dbGet hopen ?_)))
  refine wp_ite (fun hnil => absurd hnil hpw) fun _ => ?_
  refine wp_ite (fun hnone => absurd (hstored.symm.trans hnone) (Option.some_ne_none v)) fun _ => ?_
  refine wp_ite (fun _ => ?_) fun hright => ?_
  · refine wp_after (wp_after (wp_pure ⟨iff_of_false Bool.false_ne_true heq, ?_⟩))
    simp [setRealname, World.modU]
  · exact absurd (Option.some.inj (hstored.symm.trans (Decidable.not_not.mp hright))) heq

/-- **A login that has to give its password** registers if and only if it is the stored one. -/
theorem authenticate_registers {v : Bytes} (hn : 0 < n) (hopen : w.sys.dbOpens = true)
    (hguard : guarded w (w.uTab n).nickname (address (w.uTab n))) (hnick : (w.uTab n).nickname ≠ [])
    (hlen : (w.uTab n).nickname.length ≤ maxNickLen) (hpw : (w.uTab n).password ≠ [])
    (hstored : w.db (dbKey (w.uTab n).nickname "password") = some v) :
    ((authenticate n w).2.uTab n).realname = if v = cutPassword (w.uTab n).password then registered else [] := by
  show wp (authenticate n) (fun _ w' => (w'.uTab n).realname = _) w
  have hcheck := nicklookup_answers (w := (getU n w).2) hn.le hnick hlen
  have hS : Stilly w (nicklookup (-n) (w.uTab n).nickname (getU n w).2).2 :=
    trans_of Stilly (Within.within w) (Within.within _)
  unfold wp at hcheck
  refine wp_bind (wp_getU (wp_after ?_))
  generalize (nicklookup (-n) (w.uTab n).nickname (getU n w).2).1 = ret at hcheck ⊢
  generalize (nicklookup (-n) (w.uTab n).nickname (getU n w).2).2 = t at hS ⊢
  have hnick' : (t.uTab n).nickname = (w.uTab n).nickname := congrArg UserId.nickname (hS.users n)
  have hret : ret = -2 := by
    have hsome : (w.db (dbKey (w.uTab n).nickname "home")).isSome := by
      cases hhome : w.db (dbKey (w.uTab n).nickname "home") with
      | none => simp [guarded, hhome] at hguard
      | some home => rfl
    obtain ⟨-, -, -, hfree⟩ | ⟨hret, -⟩ | ⟨-, hnone⟩ := hcheck
    · exact (hfree.elim (fun h0 => hn.ne' h0) fun hno => hno hguard).elim
    · exact hret
    · exact absurd ⟨hopen, hsome⟩ hnone
  subst hret
  have hwrite := nickwrite_answers (n := n) (w := t) true ((congrArg Sys.dbOpens hS.sys).trans hopen)
    (by rw [hnick', hS.db]; exact hstored) hpw
  refine wp_bind (wp_ite (fun _ => wp_mono hwrite ?_) fun h => absurd ⟨rfl, hpw⟩ h)
  rintro ok t₁ ⟨hok, hreal⟩
  cases ok with
  | true =>
    have heq : v = cutPassword (w.uTab n).password := hok.mp rfl
    rw [if_pos heq] at hreal ⊢
    refine wp_bind (wp_whenever (fun h => absurd h.2 (by decide)) fun _ => wp_ite (fun _ => ?_) fun h => absurd (.inr rfl) h)
    exact wp_bind (wp_getU (wp_whenever (fun hno => absurd hreal hno) fun _ => hreal))
  | false =>
    have hne : v ≠ cutPassword (w.uTab n).password := fun heq => absurd (hok.mpr heq) (by decide)
    rw [if_neg hne] at hreal ⊢
    refine wp_bind (wp_whenever (fun _ => Within.wp (KeepsUser n (·.realname = [])) fun _ t₂ h₂ => ?_) fun h =>
      absurd ⟨rfl, rfl⟩ h)
    refine wp_ite (fun h => absurd h (by decide)) fun _ => wp_whenever (fun h => absurd rfl h) fun _ => ?_
    exact h₂ hreal

/-- The rest of the login does not touch the registration. -/
theorem enterServer_registers {v g : Bytes} (hn : 0 < n) (hopen : w.sys.dbOpens = true)
    (hguard : guarded w (w.uTab n).nickname (address (w.uTab n))) (hnick : (w.uTab n).nickname ≠ [])
    (hlen : (w.uTab n).nickname.length ≤ maxNickLen) (hpw : (w.uTab n).password ≠ [])
    (hstored : w.db (dbKey (w.uTab n).nickname "password") = some v) :
    ((enterServer n g w).2.uTab n).realname = if v = cutPassword (w.uTab n).password then registered else [] := by
  generalize hreal : (if v = cutPassword (w.uTab n).password then registered else []) = real
  have h₁ : SameEntry n w (startSession n w).2 := Within.within w
  show wp (enterServer n g) (fun _ w' => (w'.uTab n).realname = real) w
  refine wp_after ?_
  generalize (startSession n w).2 = w₁ at h₁
  refine wp_bind (wp_getU (wp_after ?_))
  have h₂ : SameEntry n w₁ (sendsCmdout n (str "Welcome to ICB " ++ (w₁.uTab n).nickname) (getU n w₁).2).2 :=
    trans_of (SameEntry n) (Within.within w₁) (Within.within _)
  generalize (sendsCmdout n _ (getU n w₁).2).2 = w₂ at h₂
  have hentry : SameEntry n w w₂ := trans_of (SameEntry n) h₁ h₂
  have hcore : (w₂.uTab n).toUserId.core = (w.uTab n).toUserId.core := hentry.core
  have hnick₂ : (w₂.uTab n).nickname = (w.uTab n).nickname := (congrArg UserId.nickname hcore :)
  have hpw₂ : (w₂.uTab n).password = (w.uTab n).password := (congrArg UserId.password hcore :)
  have haddr : address (w₂.uTab n) = address (w.uTab n) :=
    (congrArg (fun u : UserId => u.loginid ++ str "@" ++ u.nodeid) hcore :)
  have hguard₂ : guarded w₂ (w₂.uTab n).nickname (address (w₂.uTab n)) := by
    rw [hnick₂, haddr, guarded, hentry.db]
    exact hguard
  have hauth := authenticate_registers hn ((congrArg Sys.dbOpens hentry.sys).trans hopen) hguard₂
    (hnick₂.symm ▸ hnick) (hnick₂.symm ▸ hlen) (hpw₂.symm ▸ hpw) (by rw [hnick₂, hentry.db]; exact hstored)
  rw [hpw₂, hreal] at hauth
  refine wp_after ?_
  generalize (authenticate n w₂).2 = w₃ at hauth
  exact Within.wp (KeepsUser n (·.realname = real)) fun _ _ h => h hauth

/-- A login that comes to the door. -/
theorem acceptLogin_registers {perms : Nat} {v : Bytes} (hn : 0 < n) (hopen : w.sys.dbOpens = true)
    (hnick : b ≠ []) (hlen : b.length ≤ maxNickLen) (hp : p ≠ [])
    (hdoor : comesToDoor w n (filternickname b) c p)
    (hguard : guarded w (filternickname b) (loginAddress w n a))
    (hstored : w.db (dbKey (filternickname b) "password") = some v) :
    ((acceptLogin n a b c p perms w).2.uTab n).realname = if v = cutPassword p then registered else [] := by
  have hne : filternickname b ≠ [] := by simpa [filternickname] using hnick
  have hlen : (filternickname b).length ≤ maxNickLen := by simpa [filternickname] using hlen
  generalize hreal : (if v = cutPassword p then registered else []) = real
  generalize hname : filternickname b = nick at hne hlen hdoor hguard hstored
  show wp (acceptLogin n a b c p perms) (fun _ w' => (w'.uTab n).realname = real) w
  refine wp_bind (wp_getU (wp_after (wp_bind (wp_getW ?_))))
  rw [hname]
  have hfill := fillUserEntry_fills (n := n) w a p perms hlen
  generalize (fillUserEntry n a (w.uTab n).nodeid nick p [] [] .no 0 0 perms (getU n w).2).2 = w₁ at hfill ⊢
  have hadmin : strcaseEq nick (str "admin") → Server.checkAuth w₁ n = true := by
    intro hyes
    rw [hfill.checkAuth]
    show (strcaseEq nick (str "ADMIN") && strcaseEq (p.take maxPasswdLen) Env.adminPwd) = true
    rw [strcaseEq_trans hyes (by decide), hdoor.1 hyes, Bool.and_self]
  refine wp_ite (fun hno => absurd (hadmin hno.1) hno.2) fun _ => ?_
  refine wp_bind (Within.wp (Both (Own n) Stilly) fun _ w₂ h₂ => ?_)
  refine wp_bind (Within.wp (Both (Own n) Stilly) fun _ w₃ h₃ => wp_after ?_)
  have hfill₃ := (hfill.still h₂).still h₃
  have hsome := loginGroup_isSome (whichGroup c) hfill₃.named
  have h₄ : Both (Own n) Stilly w₃ (loginGroup n (whichGroup c) w₃).2 := Within.within w₃
  unfold wp at hsome
  generalize (loginGroup n (whichGroup c) w₃).1 = g at hsome ⊢
  generalize (loginGroup n (whichGroup c) w₃).2 = w₄ at h₄ ⊢
  have hfill₄ := hfill₃.still h₄
  rw [hfill₃.followable rfl] at hsome
  refine wp_ite (fun _ => ?_) fun hno => absurd (hsome.mpr hdoor.2) hno
  have hpw : (w₄.uTab n).password = p.take maxPasswdLen := congrArg UserId.password hfill₄.entry
  have haddr : address (w₄.uTab n) = loginAddress w n a :=
    congrArg (fun u : UserId => u.loginid ++ str "@" ++ u.nodeid) hfill₄.entry
  have henter := enterServer_registers (g := g.getD []) (w := w₄) hn ((congrArg Sys.dbOpens hfill₄.sys).trans hopen)
    (by rw [hfill₄.named, haddr, guarded, hfill₄.db]; exact hguard) (hfill₄.named.symm ▸ hne)
    (hfill₄.named.symm ▸ hlen) (by simp [hpw, hp, maxPasswdLen]) (by rw [hfill₄.named, hfill₄.db]; exact hstored)
  rwa [hpw, cutPassword_cut, hreal] at henter

/-- **A login packet** that comes to the door of its group under a guarded nick registers if and only if it
gives the stored password. -/
theorem login_registers {v : Bytes} (hn : 0 < n) (hopen : w.sys.dbOpens = true)
    (hstores : loginStores w n a b = some nick) (hdoor : comesToDoor w n nick c p)
    (hguard : guarded w nick (loginAddress w n a)) (hp : p ≠ [])
    (hstored : w.db (dbKey nick "password") = some v) :
    ((login n a b c p w).2.uTab n).realname = if v = cutPassword p then registered else [] := by
  obtain ⟨⟨perms, hc⟩, hadmitted, hne, hlen, hname⟩ := loginStores_eq_some hstores
  subst hname
  show wp (login n a b c p) (fun _ w' => (w'.uTab n).realname = _) w
  refine wp_bind (wp_getW ?_)
  rw [hc]
  refine wp_bind (wp_getW (wp_bind (Within.wp (Both (Own n) Stilly) fun _ t ht => ?_)))
  refine wp_ite (fun hsome => ?_) fun _ => ?_
  · rw [hadmitted] at hsome
    cases hsome
  have haddr : loginAddress t n a = loginAddress w n a := by
    simp only [loginAddress, show (t.uTab n).nodeid = (w.uTab n).nodeid from congrArg UserId.nodeid (ht.2.users n)]
  refine acceptLogin_registers hn ((congrArg Sys.dbOpens ht.2.sys).trans hopen) hne hlen hp
    (ht.2.comesToDoor.mpr hdoor) ?_ (by rw [ht.2.db]; exact hstored)
  rw [haddr, guarded, ht.2.db]
  exact hguard

end

/-! ## §4 — the checks agree -/

/-- A password is stored for a nick: for a new nick, or in place of an old one. -/
inductive Stores (nick p : Bytes) : World → World → Prop
  | nickwrite {w : World} {n : Int} (hopen : w.sys.dbOpens = true) (hnick : (w.uTab n).nickname = nick)
      (hnew : w.db (dbKey nick "password") = none) : Stores nick p w (autoArg n p .register w).2
  | nickchpass {w : World} {n : Int} {old : Bytes} (hopen : w.sys.dbOpens = true)
      (hnick : (w.uTab n).nickname = nick) (hold : OneWord old)
      (hright : w.db (dbKey nick "password") = some (cutPassword old)) :
      Stores nick p w (autoArg n (old ++ 32 :: p) .cp w).2

/-- Where a password is presented. -/
inductive PasswordCheck
  /-- `/m server p` by slot `n`. -/
  | nickwrite (n : Int)
  /-- The old password of `/m server cp`. -/
  | nickchpass (n : Int)
  /-- `/m server delete`. -/
  | nickdelete (n : Int)
  /-- `/drop who`, which asks `valuser`. -/
  | drop (n : Int) (who : Bytes)
  /-- The password field of a login packet. -/
  | login (n : Int) (loginid nickname group : Bytes)

/-- The password decides: it is the nick's own, and nothing else has settled the matter before. -/
def PasswordCheck.Asks (nick q : Bytes) (w : World) : PasswordCheck → Prop
  | nickwrite n | nickchpass n => (w.uTab n).nickname = nick
  | nickdelete n => (w.uTab n).nickname = nick ∧ (w.uTab n).realname ≠ []
  | drop n who => OneWord who ∧ 0 ≤ findUser w who ∧ (w.uTab (findUser w who)).nickname = nick ∧
      checkAuth w n = false
  | login n loginid nickname group => 0 < n ∧ loginStores w n loginid nickname = some nick ∧
      comesToDoor w n nick group q ∧ guarded w nick (loginAddress w n loginid)

/-- The password is taken: the user is registered, any new password is stored, the record is deleted, the
other is marked to be dropped, or the login is registered. -/
def PasswordCheck.Accepts (nick q : Bytes) (w : World) : PasswordCheck → Prop
  | nickwrite n => ((autoArg n q .register w).2.uTab n).realname = registered
  | nickchpass n => ∀ new, Presentable new →
      (autoArg n (q ++ 32 :: new) .cp w).2.db (dbKey nick "password") = some (cutPassword new)
  | nickdelete n => (autoArg n q .delete w).2.db (dbKey nick "password") = none
  | drop n who => (sDrop n (who ++ 32 :: q) w).2.sKill (findUser w who) ≠ w.sKill (findUser w who)
  | login n loginid nickname group => ((Server.login n loginid nickname group q w).2.uTab n).realname = registered

section
variable {nick p q v : Bytes} {n : Int} {w w' : World}

theorem Stores.stored (hp : Presentable p) (h : Stores nick p w w') :
    w'.db (dbKey nick "password") = some (cutPassword p) := by
  cases h with
  | @nickwrite n hopen hnick hnew =>
    subst hnick
    show wp (Server.nickwrite n (getword p) false >>= fun _ => pure ()) (fun _ w' => w'.db _ = _) w
    rw [hp.word]
    exact wp_after (wp_pure (nickwrite_stores hopen hnew hp.nonempty))
  | @nickchpass n old hopen hnick hold hright =>
    subst hnick
    obtain ⟨hfirst, hsecond⟩ := hp.words hold
    show (Server.nickchpass n _ _ w).2.db _ = _
    rw [hfirst, hsecond, nickchpass_stores hopen hright hp.nonempty, if_pos rfl]

/-- `nickwrite` takes the stored password and no other. -/
theorem nickwrite_accepts (hq : Presentable q) (hopen : w.sys.dbOpens = true)
    (hnick : (w.uTab n).nickname = nick) (hstored : w.db (dbKey nick "password") = some v) :
    (PasswordCheck.nickwrite n).Accepts nick q w ↔ v = cutPassword q := by
  subst hnick
  show (((nickwrite n (getword q) false >>= fun _ => pure ()) w).2.uTab n).realname = registered ↔ _
  rw [hq.word]
  have hreal := (nickwrite_answers (n := n) false hopen hstored hq.nonempty).2
  show ((nickwrite n q false w).2.uTab n).realname = registered ↔ _
  rw [hreal]
  split
  next heq => exact iff_of_true rfl heq
  next hne => exact iff_of_false (by decide) hne

/-- `nickchpass` takes the stored password and no other. -/
theorem nickchpass_accepts (hq : Presentable q) (hopen : w.sys.dbOpens = true)
    (hnick : (w.uTab n).nickname = nick) (hstored : w.db (dbKey nick "password") = some v) :
    (PasswordCheck.nickchpass n).Accepts nick q w ↔ v = cutPassword q := by
  subst hnick
  have hgives (new : Bytes) (hnew : Presentable new) :
      (autoArg n (q ++ 32 :: new) .cp w).2.db (dbKey (w.uTab n).nickname "password") =
        some (if v = cutPassword q then cutPassword new else v) := by
    obtain ⟨hfirst, hsecond⟩ := hnew.words hq.oneWord
    show (nickchpass n _ _ w).2.db _ = _
    rw [hfirst, hsecond, nickchpass_stores hopen hstored hnew.nonempty]
  constructor
  · intro hall
    -- the password it is given is as good a new one as any
    have hself := (hgives q hq).symm.trans (hall q hq)
    by_contra hne
    rw [if_neg hne] at hself
    exact hne (Option.some.inj hself)
  · intro heq new hnew
    rw [hgives new hnew, if_pos heq]

/-- `nickdelete` takes the stored password and no other. -/
theorem nickdelete_accepts (hq : Presentable q) (hopen : w.sys.dbOpens = true)
    (hnick : (w.uTab n).nickname = nick) (hreal : (w.uTab n).realname ≠ []) (hstored : w.db (dbKey nick "password") = some v) :
    (PasswordCheck.nickdelete n).Accepts nick q w ↔ v = cutPassword q := by
  subst hnick
  have hrun : autoArg n q .delete w = nickdelete n q w := by
    show (if getword q = [] then sendsCmdout n _ else nickdelete n (getword q)) w = _
    rw [hq.word, if_neg hq.nonempty]
  show (autoArg n q .delete w).2.db _ = none ↔ _
  rw [hrun, nickdelete_stores hopen hreal hstored hq.nonempty]
  split
  next heq => exact iff_of_true rfl heq
  next hne => exact iff_of_false (Option.some_ne_none v) hne

/-- A login takes the stored password and no other. -/
theorem login_accepts {a b c : Bytes} (hq : Presentable q) (hopen : w.sys.dbOpens = true)
    (hstored : w.db (dbKey nick "password") = some v) (hasks : (PasswordCheck.login n a b c).Asks nick q w) :
    (PasswordCheck.login n a b c).Accepts nick q w ↔ v = cutPassword q := by
  obtain ⟨hn, hname, hdoor, hguard⟩ := hasks
  show ((login n a b c q w).2.uTab n).realname = registered ↔ _
  rw [login_registers hn hopen hname hdoor hguard hq.nonempty hstored]
  split
  next heq => exact iff_of_true rfl heq
  next hne => exact iff_of_false (by decide) hne

/-- **All password checks agree.** After `p` has been stored for a nick, and as long as it is what the database
has, any check that looks at a presented `q` takes it if and only if the two have the same first
`MAX_PASSWDLEN` characters. -/
theorem passwords_agree {w₀ w₁ : World} (c : PasswordCheck) (hp : Presentable p) (hq : Presentable q)
    (hstores : Stores nick p w₀ w₁) (hkept : w.db (dbKey nick "password") = w₁.db (dbKey nick "password"))
    (hopen : w.sys.dbOpens = true) (hasks : c.Asks nick q w) :
    c.Accepts nick q w ↔ p.take maxPasswdLen = q.take maxPasswdLen := by
  have hstored : w.db (dbKey nick "password") = some (cutPassword p) := hkept.trans (hstores.stored hp)
  cases c with
  | nickwrite n => exact nickwrite_accepts hq hopen hasks hstored
  | nickchpass n => exact nickchpass_accepts hq hopen hasks hstored
  | nickdelete n => exact nickdelete_accepts hq hopen hasks.1 hasks.2 hstored
  | drop n who =>
    obtain ⟨hwho, hfound, hnick, hadmin⟩ := hasks
    exact sDrop_marks hwho hq hopen hfound hadmin (by rw [hnick]; exact hstored)
  | login n a b c => exact login_accepts hq hopen hstored hasks

end

end

section
attribute [local instance] smallEnv

/-- Somebody with a nickname and no record. -/
def newcomer : World := (startup {} fun _ => none).modU 1 fun u => { u with nickname := str "mary" }

/-- Thirteen characters are stored as twelve, which are enough the next time. -/
theorem passwords_agree_new :
    (PasswordCheck.nickwrite 1).Accepts (str "mary") (str "abcdefghijkl")
      { newcomer with db := (autoArg 1 (str "abcdefghijklm") .register newcomer).2.db } ↔
    (str "abcdefghijklm").take maxPasswdLen = (str "abcdefghijkl").take maxPasswdLen := by
  have hp : Presentable (str "abcdefghijklm") := .of_all (by decide) (by decide) (by decide)
  have hq : Presentable (str "abcdefghijkl") := .of_all (by decide) (by decide) (by decide)
  exact passwords_agree _ hp hq (.nickwrite (n := 1) (w := newcomer) rfl rfl rfl) rfl rfl rfl

end

end Icbd.Server
