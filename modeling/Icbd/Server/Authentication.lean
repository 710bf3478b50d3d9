/-
# Icbd.Server.Authentication — who becomes registered.

`loginmsg`, `nickwrite` and `s_name` write `registered` into a user's entry. All of them ask the
record of the nickname first: for its password, or by `nicklookup(-n)`, silently, for its home. On
slot 0 the minus sign is lost and the lookup answers 0 for any record. A login without the password
field, or a `p` without its word, takes the password from an earlier packet.
-/
import Icbd.Server.Leftover
import Icbd.Server.Moderator

-- every bind doubles the size of the search's argument
set_option synthInstance.maxSize 1000000000000000000000000000000000000000000000000
set_option synthInstance.maxHeartbeats 200000

namespace Icbd.Server

open Icbd.Lib

section
variable [Env]

/-! ## §1 — what counts as authenticated -/

/-- The command a command packet comes down to. -/
def lastCommand (w : World) (n : Int) (contents : Bytes) : Option Bytes :=
  if (cstr contents).head? = some pktCommand then
    some (finalText w n (cstr contents).length (pktText contents))
  else none

/-- Is this the command `p`, which calls `nickwrite` with `verifyOnly` 0? -/
def isRegister (text : Bytes) : Prop :=
  commandOf text = .other ∧ lookup ((splitFields text).getD 0 []) autoTable ≥ 0 ∧
    autoOf text = .register

instance (text : Bytes) : Decidable (isRegister text) := inferInstanceAs (Decidable (_ ∧ _))

/-- The password a packet presents: the fifth field of a login, the word behind `p`. -/
def presented (w : World) (n : Int) (contents : Bytes) : Option Bytes :=
  if (cstr contents).head? = some pktLogin then
    if 5 ≤ splitCount (pktText contents) then some (pktField contents 4) else none
  else
    (lastCommand w n contents).bind fun text =>
      if isRegister text ∧ 2 ≤ splitCount text then some (getword (argOf text)) else none

/-- A packet of `n` authenticates the entry `u`, by the records as they are in `w`. -/
inductive Authenticated (w : World) (n : Int) (contents : Bytes) (u : UserId) : Prop
  /-- The presented password is the stored one. -/
  | password (pw : Bytes) : pw ∈ presented w n contents →
      w.db (dbKey u.nickname "password") = some (cutPassword pw) → Authenticated w n contents u
  /-- The nick is new and this packet registers it. -/
  | newcomer (text : Bytes) : text ∈ lastCommand w n contents → isRegister text →
      w.db (dbKey u.nickname "password") = none → Authenticated w n contents u
  /-- The record is for this address and asks for no password. -/
  | home (home : Bytes) : w.db (dbKey u.nickname "home") = some home →
      strcaseEq home (u.loginid ++ str "@" ++ u.nodeid) →
      w.db (dbKey u.nickname "secure") = none → Authenticated w n contents u

/-- An entry that is registered only if it was, under the same nickname, or has just been
authenticated. -/
def Sound (w : World) (n : Int) (contents : Bytes) (u : UserId) : Prop :=
  u.realname = [] ∨ u.realname = registered ∧
    ((w.uTab n).realname ≠ [] ∧ u.nickname = (w.uTab n).nickname ∨ Authenticated w n contents u)

/-- The record of a nickname lets somebody at this address in only with a password. -/
def guarded (w : World) (nick addr : Bytes) : Bool :=
  (w.db (dbKey nick "home")).any fun home =>
    !(strcaseEq home addr && (w.db (dbKey nick "secure")).isNone)

/-! ## §2 — the entry of one slot -/

/-- An invariant of the entry of `n`. -/
abbrev KeepsUser (n : Int) (J : UserId → Prop) : World → World → Prop :=
  ViewInv (fun u => u.toUserId) (fun _ => ()) fun us _ => J (us n)

/-- The invariant does not look at the group, the login state or the password. -/
class Plain (J : UserId → Prop) : Prop where
  group : ∀ u v, J u → J { u with group := v }
  login : ∀ u v, J u → J { u with login := v }
  password : ∀ u v, J u → J { u with password := v }

section
variable {J : UserId → Prop} {n m : Int} {v : Bytes} {l : Login}

omit [Env] in
/-- A write to any entry that the invariant does not mind. -/
theorem KeepsUser.write {w : World} {f : User → User}
    (hf : J (w.uTab m).toUserId → J (f (w.uTab m)).toUserId) : KeepsUser n J w (w.modU m f) := by
  apply ViewInv.writeU
  intro hJ
  by_cases h : n = m
  · subst h
    rw [Function.update_self]
    exact hf hJ
  · rwa [Function.update_of_ne h]

instance : Calm (KeepsUser n J) where
  toSends _ := inferInstance
  toUOpts _ := ⟨fun _ _ => ViewInv.modU fun _ => rfl⟩
  drops := Drops.drops
  gopts _ _ _ := ViewInv.modG fun _ => rfl

instance : ModTo (KeepsUser n J) m := ⟨fun _ _ => ViewInv.modG fun _ => rfl⟩
instance : MissTo (KeepsUser n J) := ⟨fun _ _ _ _ => ViewInv.modG fun _ => rfl⟩
instance : GNameTo (KeepsUser n J) := ⟨fun _ _ _ => ViewInv.modG fun _ => rfl⟩

section
variable [hp : Plain J]

instance : UGroupTo (KeepsUser n J) m := ⟨fun _ _ => .write (hp.group _ _)⟩
instance : LoginTo (KeepsUser n J) m l := ⟨fun _ => .write (hp.login _ _)⟩

instance : Within (KeepsUser n J) (setPassword m v) where
  within w := by
    show KeepsUser n J w ((getU m w).2.modU m fun u => _)
    exact KeepsUser.write (w := (getU m w).2) (hp.password _ _)

/-- Registered, beside what was invariant. -/
instance : Plain fun u => J u ∧ u.realname = registered where
  group u v h := ⟨hp.group u v h.1, h.2⟩
  login u v h := ⟨hp.login u v h.1, h.2⟩
  password u v h := ⟨hp.password u v h.1, h.2⟩

end

end

instance (w : World) (n : Int) (contents : Bytes) : Plain (Sound w n contents) := by
  have hsame (u u' : UserId) (hr : u'.realname = u.realname) (hn : u'.nickname = u.nickname)
      (hl : u'.loginid = u.loginid) (hd : u'.nodeid = u.nodeid) (h : Sound w n contents u) :
      Sound w n contents u' := by
    unfold Sound at h ⊢
    rw [hr, hn]
    refine h.imp_right (And.imp_right (Or.imp_right fun h => ?_))
    cases h with
    | password pw hpw hdb => exact .password pw hpw (hn ▸ hdb)
    | newcomer text ht hreg hdb => exact .newcomer text ht hreg (hn ▸ hdb)
    | home home hdb heq hsec => exact .home home (hn ▸ hdb) (by rwa [hl, hd]) (hn ▸ hsec)
  exact ⟨fun u _ => hsame u _ rfl rfl rfl rfl, fun u _ => hsame u _ rfl rfl rfl rfl,
    fun u _ => hsame u _ rfl rfl rfl rfl⟩

/-! ## §3 — the three that register -/

section
variable {J : UserId → Prop} {n : Int} {w : World} {u₀ : UserId}

omit [Env] in
/-- What follows the write of `registered`. -/
theorem wp_register {α : Type} {x : W α} [Within (KeepsUser n fun u => J u ∧ u.realname = registered) x]
    (hu : (w.uTab n).toUserId = u₀) (hJ : J { u₀ with realname := registered }) :
    wp (do setRealname n registered; x)
      (fun _ w' => J (w'.uTab n).toUserId ∧ (w'.uTab n).realname = registered) w := by
  refine wp_after (Within.wp (KeepsUser n fun u => J u ∧ u.realname = registered) fun _ _ h => h ?_)
  show J ((setRealname n registered w).2.uTab n).toUserId ∧
    ((setRealname n registered w).2.uTab n).realname = registered
  have hset : (setRealname n registered w).2.uTab n = { w.uTab n with realname := registered } := by
    simp [setRealname, World.modU]
  rw [hset]
  refine ⟨?_, rfl⟩
  show J { (w.uTab n).toUserId with realname := registered }
  rwa [hu]

/-- **`nickwrite` asks for the password**, unless there is none and it may create the record. -/
theorem nickwrite_sound [Plain J] {a : Bytes} {flag : Bool} (hopen : w.sys.dbOpens = true)
    (hu : (w.uTab n).toUserId = u₀) (hJ : J u₀) (hnil : J { u₀ with realname := [] })
    (hright : w.db (dbKey u₀.nickname "password") = some (cutPassword a) → a ≠ [] →
      J { u₀ with realname := registered })
    (hnew : w.db (dbKey u₀.nickname "password") = none → flag = false →
      J { u₀ with realname := registered }) :
    wp (nickwrite n a flag) (fun ok w' => J (w'.uTab n).toUserId ∧
      (ok = true → (w'.uTab n).realname = registered)) w := by
  have hkeep {t t' : World} (ht : (t.uTab n).toUserId = u₀) (h : KeepsUser n (· = u₀) t t') :
      (t'.uTab n).toUserId = u₀ := h ht
  refine wp_bind (wp_getU (wp_bind (wp_dbGet hopen ?_)))
  have hnick : (w.uTab n).nickname = u₀.nickname := congrArg UserId.nickname hu
  rw [hnick]
  refine wp_ite (fun _ => ?_) fun hne => wp_ite (fun hnone => wp_ite (fun _ => ?_) fun hflag => ?_)
    fun hsome => wp_ite (fun _ => ?_) fun heq => ?_
  · refine wp_bind (Within.wp (KeepsUser n (· = u₀)) fun _ t ht => ⟨?_, nofun⟩)
    exact hkeep hu ht ▸ hJ
  · refine wp_bind (Within.wp (KeepsUser n (· = u₀)) fun _ t ht => ⟨?_, nofun⟩)
    exact hkeep hu ht ▸ hJ
  · -- the record is created
    have hJ' := hnew hnone (by simpa using hflag)
    refine wp_bind (Within.wp (KeepsUser n (· = u₀)) fun _ t₁ h₁ => ?_)
    refine wp_bind (Within.wp (KeepsUser n (· = u₀)) fun _ t₂ h₂ => ?_)
    refine wp_bind (Within.wp (KeepsUser n (· = u₀)) fun _ t₃ h₃ => ?_)
    refine wp_bind (Within.wp (KeepsUser n (· = u₀)) fun _ t₄ h₄ => ?_)
    have ht₄ := hkeep (hkeep (hkeep (hkeep hu h₁) h₂) h₃) h₄
    exact wp_mono (wp_register ht₄ hJ') fun _ _ h => ⟨h.1, fun _ => h.2⟩
  · -- a wrong password costs the registration there was
    refine wp_bind (Within.wp (KeepsUser n (· = u₀)) fun _ t ht => wp_after ⟨?_, nofun⟩)
    have hset : ((setRealname n [] t).2.uTab n).toUserId =
        { (t.uTab n).toUserId with realname := [] } := by
      simp [setRealname, World.modU]
    show J ((setRealname n [] t).2.uTab n).toUserId
    rw [hset, hkeep hu ht]
    exact hnil
  · have hJ' := hright (Decidable.not_not.mp heq) hne
    refine wp_bind (Within.wp (KeepsUser n (· = u₀)) fun _ t₁ h₁ => ?_)
    exact wp_mono (wp_register (hkeep hu h₁) hJ') fun _ _ h => ⟨h.1, fun _ => h.2⟩

/-- **The silent check.** Answer 0 means a record that lets this address in, except on slot 0, where
it means a record; answer -2 means a record that does not, and -1 no record, if it is a nickname at
all. -/
theorem nicklookup_silently {nick : Bytes} (hn : 0 ≤ n) (hopen : w.sys.dbOpens = true) :
    wp (nicklookup (-n) nick) (fun r _ =>
      r = 0 ∧ (w.db (dbKey nick "home")).isSome ∧ (n ≠ 0 → ¬ guarded w nick (address (w.uTab n))) ∨
      r = -2 ∧ n ≠ 0 ∧ guarded w nick (address (w.uTab n)) ∨
      r = -1 ∧ (nick ≠ [] → nick.length ≤ maxNickLen → w.db (dbKey nick "home") = none)) w := by
  refine wp_bind (wp_dbGet hopen ?_)
  refine wp_ite (fun hnil => wp_after (.inr (.inr ⟨rfl, fun hne => absurd hnil hne⟩))) fun _ => ?_
  refine wp_ite (fun hlong => wp_after (.inr (.inr ⟨rfl, fun _ hlen => absurd hlong (by omega)⟩)))
    fun _ => ?_
  refine wp_ite (fun hsome => ?_) fun hnone => wp_after (.inr (.inr ⟨rfl, fun _ _ => ?_⟩))
  case refine_2 => exact Option.not_isSome_iff_eq_none.mp hnone
  refine wp_ite (fun hneg => wp_after (.inl ⟨rfl, hsome, ?_⟩)) fun hpos => ?_
  · intro h0
    omega
  · obtain ⟨home, hhome⟩ := Option.isSome_iff_exists.mp hsome
    have hguard : guarded w nick (address (w.uTab n)) =
        !homeAdmits home (w.db (dbKey nick "secure")) (w.uTab n) := by
      simp [guarded, homeAdmits, hhome]
    refine wp_bind (wp_getU (wp_bind (wp_dbGet hopen (wp_pure ?_))))
    rw [Int.neg_neg, hhome, Option.getD_some, hguard]
    by_cases hok : homeAdmits home (w.db (dbKey nick "secure")) (w.uTab n)
    · exact .inl ⟨if_pos hok, rfl, fun _ => by simp [hok]⟩
    · exact .inr (.inl ⟨if_neg hok, by omega, by simp [hok]⟩)

/-- In a closed database there is no record. -/
theorem nicklookup_closed {m : Int} {nick : Bytes} (hclosed : w.sys.dbOpens = false) :
    (nicklookup m nick w).1 = -1 := by
  show wp (nicklookup m nick) (fun r _ => r = -1) w
  refine wp_bind (wp_dbGet_closed hclosed ?_)
  refine wp_ite (fun _ => wp_after rfl) fun _ => wp_ite (fun _ => wp_after rfl) fun _ => ?_
  exact wp_ite (fun hsome => nomatch hsome) fun _ => wp_after rfl

/-- `loginmsg` after its silent check. -/
theorem authenticate_sound [Plain J] (hn : 0 ≤ n) (hopen : w.sys.dbOpens = true)
    (hu : (w.uTab n).toUserId = u₀) (hJ : J u₀) (hnil : J { u₀ with realname := [] })
    (hhome : (w.db (dbKey u₀.nickname "home")).isSome →
      (n ≠ 0 → ¬ guarded w u₀.nickname (address (w.uTab n))) → J { u₀ with realname := registered })
    (hpass : guarded w u₀.nickname (address (w.uTab n)) →
      w.db (dbKey u₀.nickname "password") = some (cutPassword u₀.password) →
      J { u₀ with realname := registered }) :
    J ((authenticate n w).2.uTab n).toUserId := by
  have hnick : (w.uTab n).nickname = u₀.nickname := congrArg UserId.nickname hu
  have hpw : (w.uTab n).password = u₀.password := congrArg UserId.password hu
  have hauto {t : World} (ht : (t.uTab n).toUserId = u₀) (hreg : J { u₀ with realname := registered }) :
      wp (autoRegister n) (fun _ w' => J (w'.uTab n).toUserId) t := by
    refine wp_bind (wp_getU (wp_whenever (fun _ => ?_) fun _ => ?_))
    · exact wp_mono (wp_register (w := (getU n t).2) ht hreg) fun _ _ h => h.1
    · show J (t.uTab n).toUserId
      rw [ht]
      exact hJ
  show wp (authenticate n) (fun _ w' => J (w'.uTab n).toUserId) w
  have hcheck : wp (nicklookup (-n) (w.uTab n).nickname) _ (getU n w).2 := nicklookup_silently hn hopen
  have hcalm : Calmly (getU n w).2 (nicklookup (-n) (w.uTab n).nickname (getU n w).2).2 :=
    Within.within _
  unfold wp at hcheck
  refine wp_bind (wp_getU (wp_after ?_))
  generalize (nicklookup (-n) (w.uTab n).nickname (getU n w).2).1 = ret at hcheck ⊢
  generalize (nicklookup (-n) (w.uTab n).nickname (getU n w).2).2 = t at hcalm ⊢
  have ht : (t.uTab n).toUserId = u₀ := (hcalm.users n).trans hu
  have hkeep {t' : World} {x : W Unit} [Within (KeepsUser n J) x] (h : J (t'.uTab n).toUserId) :
      wp x (fun _ w' => J (w'.uTab n).toUserId) t' :=
    Within.wp (KeepsUser n J) fun _ _ hk => hk h
  rw [hnick] at hcheck
  rcases hcheck with ⟨rfl, hsome, hfree⟩ | ⟨rfl, -, hguard⟩ | ⟨rfl, -⟩
  · -- the record lets him in
    refine wp_bind (wp_ite (fun h => absurd h.1 (by decide)) fun _ => wp_pure (wp_bind ?_))
    refine wp_whenever (fun h => absurd h.1 (by decide)) fun _ => ?_
    exact wp_ite (fun _ => hauto ht (hhome hsome hfree)) fun h => absurd (.inl rfl) h
  · -- it asks for the password, and the login may have brought one
    refine wp_bind (wp_ite (fun _ => ?_) fun _ => wp_pure (wp_bind ?_))
    · have hopen' : t.sys.dbOpens = true := (congrArg Sys.dbOpens hcalm.sys).trans hopen
      have hwrite : wp (nickwrite n (w.uTab n).password true) _ t :=
        nickwrite_sound hopen' ht hJ hnil
          (fun hstored _ => hpass hguard (by rw [← hpw, ← hstored, hcalm.db]; rfl)) nofun
      refine wp_mono hwrite fun ok t₁ ⟨hJ₁, hok⟩ => wp_bind ?_
      cases ok with
      | true =>
        refine wp_whenever (fun h => nomatch h.2) fun _ => wp_ite (fun _ => ?_) fun h => ?_
        · -- `nickwrite` has registered him already
          refine wp_bind (wp_getU (wp_whenever (fun hno => absurd (hok rfl) hno) fun _ => hJ₁))
        · exact absurd (.inr rfl) h
      | false =>
        refine wp_whenever (fun _ => ?_) fun h => absurd ⟨rfl, rfl⟩ h
        refine Within.wp (KeepsUser n J) fun _ t₂ h₂ => wp_ite (fun h => absurd h (by decide)) fun _ => ?_
        exact wp_whenever (fun h => absurd rfl h) fun _ => h₂ hJ₁
    · refine wp_whenever (fun _ => ?_) fun h => absurd ⟨rfl, rfl⟩ h
      refine Within.wp (KeepsUser n J) fun _ t₂ h₂ => wp_ite (fun h => absurd h (by decide)) fun _ => ?_
      refine wp_whenever (fun h => absurd rfl h) fun _ => h₂ ?_
      show J (t.uTab n).toUserId
      rwa [ht]
  · -- there is no record
    refine wp_bind (wp_ite (fun h => absurd h.1 (by decide)) fun _ => wp_pure (wp_bind ?_))
    refine wp_whenever (fun h => absurd h.1 (by decide)) fun _ => ?_
    refine wp_ite (fun h => absurd h (by decide)) fun _ => hkeep ?_
    rwa [ht]

/-- What `s_name` makes of the entry under a new name. -/
theorem nameStatus_sound [Plain J] (hn : 0 ≤ n) (hopen : w.sys.dbOpens = true)
    (hu : (w.uTab n).toUserId = u₀) (hnil : J { u₀ with realname := [] })
    (hhome : (w.db (dbKey u₀.nickname "home")).isSome →
      (n ≠ 0 → ¬ guarded w u₀.nickname (address (w.uTab n))) → J { u₀ with realname := registered }) :
    J ((nameStatus n w).2.uTab n).toUserId := by
  have hnick : (w.uTab n).nickname = u₀.nickname := congrArg UserId.nickname hu
  generalize ht₁ : (setRealname n [] (getU n w).2).2 = t₁
  have hu₁ : (t₁.uTab n).toUserId = { u₀ with realname := [] } := by
    rw [← ht₁, ← hu]
    simp [setRealname, World.modU, getU]
  have hdb₁ : t₁.db = w.db := by rw [← ht₁]; rfl
  have hopen₁ : t₁.sys.dbOpens = true := by rw [← ht₁]; exact hopen
  have haddr : address (t₁.uTab n) = address (w.uTab n) := by
    rw [← ht₁]
    simp [address, setRealname, World.modU, getU]
  have hcheck : wp (nicklookup (-n) (w.uTab n).nickname) _ t₁ := nicklookup_silently hn hopen₁
  have hcalm : Calmly t₁ (nicklookup (-n) (w.uTab n).nickname t₁).2 := Within.within _
  show wp (nameStatus n) (fun _ w' => J (w'.uTab n).toUserId) w
  unfold wp at hcheck
  refine wp_bind (wp_getU (wp_after (wp_after ?_)))
  rw [ht₁]
  generalize (nicklookup (-n) (w.uTab n).nickname t₁).1 = ret at hcheck ⊢
  generalize (nicklookup (-n) (w.uTab n).nickname t₁).2 = t at hcalm ⊢
  have ht : (t.uTab n).toUserId = { u₀ with realname := [] } := (hcalm.users n).trans hu₁
  have hJt : J (t.uTab n).toUserId := by rwa [ht]
  refine wp_ite (fun hret => ?_) fun hno => wp_ite (fun _ => ?_) fun _ => wp_after ?_
  · rcases hcheck with ⟨-, hsome, hfree⟩ | ⟨rfl, -⟩ | ⟨rfl, -⟩
    · rw [hnick, hdb₁] at hsome
      refine wp_mono (wp_register ht (hhome hsome fun h0 => ?_)) fun _ _ h => h.1
      have := hfree h0
      rwa [hnick, haddr, guarded, hdb₁] at this
    · cases hret
    · cases hret
  · exact Within.wp (KeepsUser n J) fun _ _ h => h hJt
  · refine Within.wp (KeepsUser n J) fun _ _ h => h ?_
    have hset : ((setRealname n [] t).2.uTab n).toUserId =
        { (t.uTab n).toUserId with realname := [] } := by
      simp [setRealname, World.modU]
    show J ((setRealname n [] t).2.uTab n).toUserId
    rw [hset, ht]
    exact hnil

end

/-- Users, system, and the attributes that decide who is let in. -/
structure SameRecords (w w' : World) : Prop where
  users : ∀ i, (w'.uTab i).toUserId = (w.uTab i).toUserId
  sys : w'.sys = w.sys
  db : ∀ nick, ∀ key ∈ ["home", "secure"], w'.db (dbKey nick key) = w.db (dbKey nick key)

instance : Calm SameRecords where
  refl _ := ⟨fun _ => rfl, rfl, fun _ _ _ => rfl⟩
  trans _ _ _ h₁ h₂ := ⟨fun i => (h₂.users i).trans (h₁.users i), h₂.sys.trans h₁.sys,
    fun nick key hkey => (h₂.db nick key hkey).trans (h₁.db nick key hkey)⟩
  misc _ _ := ⟨fun _ => rfl, rfl, fun _ _ _ => rfl⟩
  drops _ _ := ⟨fun _ => rfl, rfl, fun _ _ _ => rfl⟩
  gopts _ _ _ := ⟨fun _ => rfl, rfl, fun _ _ _ => rfl⟩
  toSends _ := ⟨fun _ _ => ⟨fun _ => rfl, rfl, fun _ _ _ => rfl⟩⟩
  toUOpts n := by
    refine ⟨fun w f => ⟨fun j => ?_, rfl, fun _ _ _ => rfl⟩⟩
    by_cases h : j = n <;> simp [World.modU, Function.update, h]

omit [Env] in
/-- Any other attribute may be written. -/
theorem SameRecords.write {w : World} {nick : Bytes} {key : String} {v : Option Bytes}
    (hdot : 46 ∉ str key) (hkey : ∀ k ∈ ["home", "secure"], lcaseit (str k) ≠ lcaseit (str key)) :
    SameRecords w { w with db := Function.update w.db (dbKey nick key) v } := by
  refine ⟨fun _ => rfl, rfl, fun nick' k hk => Function.update_of_ne ?_ _ _⟩
  intro heq
  have hdot' : 46 ∉ str k := by
    rcases List.mem_pair.mp hk with rfl | rfl <;> decide
  exact hkey k hk (dbKey_inj hdot' hdot heq).2

instance : DbTo SameRecords "signoff" := ⟨fun _ _ _ => .write (by decide) (by decide)⟩
instance : DbTo SameRecords "signon" := ⟨fun _ _ _ => .write (by decide) (by decide)⟩

section
variable {J : UserId → Prop} {n : Int} {w : World} {u₀ : UserId}

/-- `s_name` asks the record of the new name. -/
theorem sName_sound [Plain J] {arg : Bytes} (hn : 0 ≤ n) (hopen : w.sys.dbOpens = true)
    (hu : (w.uTab n).toUserId = u₀) (hJ : J u₀)
    (hnil : J { u₀ with nickname := newName arg, realname := [] })
    (hhome : arg ≠ [] → nameFree w n (newName arg) → (w.db (dbKey (newName arg) "home")).isSome →
      (n ≠ 0 → ¬ guarded w (newName arg) (address (w.uTab n))) →
      J { u₀ with nickname := newName arg, realname := registered }) :
    J ((sName n arg w).2.uTab n).toUserId := by
  have hkeep {x : W Unit} [Within (KeepsUser n J) x] :
      wp x (fun _ w' => J (w'.uTab n).toUserId) (getU n w).2 := by
    refine Within.wp (KeepsUser n J) fun _ _ h => h ?_
    show J (w.uTab n).toUserId
    rwa [hu]
  show wp (sName n arg) (fun _ w' => J (w'.uTab n).toUserId) w
  refine wp_bind (wp_getW (wp_bind (wp_getU ?_)))
  refine wp_ite (fun _ => hkeep) fun harg => wp_ite (fun _ => hkeep) fun hfree => ?_
  refine wp_bind (Within.wp SameRecords fun _ t₁ h₁ => ?_)
  refine wp_bind (Within.wp SameRecords fun _ t₂ h₂ => wp_after ?_)
  have h₂ : SameRecords (getU n w).2 t₂ := trans_of SameRecords h₁ h₂
  generalize ht₃ : (setNickname n (newName arg) t₂).2 = t₃
  refine wp_bind (Within.wp SameRecords fun _ t₄ h₄ => wp_after ?_)
  have hu₃ : (t₃.uTab n).toUserId = { u₀ with nickname := newName arg } := by
    have hu₂ : (t₂.uTab n).toUserId = u₀ := (h₂.users n).trans hu
    rw [← ht₃, ← hu₂]
    simp [setNickname, World.modU]
  have hu₄ : (t₄.uTab n).toUserId = { u₀ with nickname := newName arg } := (h₄.users n).trans hu₃
  have haddr : address (t₄.uTab n) = address (w.uTab n) := by
    have hid := congrArg UserId.loginid hu₄
    have hnode := congrArg UserId.nodeid hu₄
    show (t₄.uTab n).loginid ++ str "@" ++ (t₄.uTab n).nodeid = _
    rw [hid, hnode, ← hu]
    rfl
  have hsame (nick : Bytes) (key : String) (hkey : key ∈ ["home", "secure"]) :
      t₄.db (dbKey nick key) = w.db (dbKey nick key) := by
    rw [h₄.db nick key hkey, ← ht₃]
    exact h₂.db nick key hkey
  have hopen₄ : t₄.sys.dbOpens = true := by
    rw [h₄.sys, ← ht₃]
    exact (congrArg Sys.dbOpens h₂.sys).trans hopen
  refine Within.wp (KeepsUser n J) fun _ _ h => h ?_
  refine nameStatus_sound hn hopen₄ hu₄ hnil fun hsome hguard => ?_
  rw [hsame _ "home" (by simp)] at hsome
  refine hhome harg (Decidable.not_not.mp hfree) hsome fun h0 => ?_
  have := hguard h0
  rwa [haddr, guarded, hsame _ "home" (by simp), hsame _ "secure" (by simp)] at this

end

/-! ## §4 — logins -/

/-- An entry without its group and login state. -/
def UserId.core (u : UserId) : UserId := { u with group := [], login := .no }

/-- The entry of `n` but for its group and login state, the database and the system. -/
structure SameEntry (n : Int) (w w' : World) : Prop where
  core : (w'.uTab n).toUserId.core = (w.uTab n).toUserId.core
  db : w'.db = w.db
  sys : w'.sys = w.sys

section
variable {n m : Int} {w : World} {l : Login}

omit [Env] in
theorem SameEntry.modU {f : User → User} (hf : ∀ u, (f u).toUserId.core = u.toUserId.core) :
    SameEntry n w (w.modU m f) := by
  refine ⟨?_, rfl, rfl⟩
  by_cases h : n = m <;> simp [World.modU, Function.update, h, hf]

instance : Calm (SameEntry n) where
  refl _ := ⟨rfl, rfl, rfl⟩
  trans _ _ _ h₁ h₂ := ⟨h₂.core.trans h₁.core, h₂.db.trans h₁.db, h₂.sys.trans h₁.sys⟩
  misc _ _ := ⟨rfl, rfl, rfl⟩
  drops _ _ := ⟨rfl, rfl, rfl⟩
  gopts _ _ _ := ⟨rfl, rfl, rfl⟩
  toSends _ := ⟨fun _ _ => ⟨rfl, rfl, rfl⟩⟩
  toUOpts _ := ⟨fun _ _ => .modU fun _ => rfl⟩

instance : LoginTo (SameEntry n) m l := ⟨fun _ => .modU fun _ => rfl⟩

end

/-- The address a login is entered under. -/
def loginAddress (w : World) (n : Int) (loginid : Bytes) : Bytes :=
  loginid.take maxIdLen ++ str "@" ++ (w.uTab n).nodeid.take maxNodeLen

section
variable {J : UserId → Prop} {n : Int} {w : World} {a b c p : Bytes}

/-- The entry a login fills in. -/
def loginEntry (w : World) (n : Int) (loginid nick password : Bytes) : UserId :=
  { loginid := loginid.take maxIdLen, nodeid := (w.uTab n).nodeid.take maxNodeLen
    nickname := nick, password := password.take maxPasswdLen, realname := (w.uTab n).realname }

/-- The login from the point where its entry is filled in. -/
theorem enterServer_sound [hp : Plain J] {t : World} {u₀ : UserId} {group : Bytes} (hn : 0 ≤ n)
    (hopen : t.sys.dbOpens = true) (hu : (t.uTab n).toUserId.core = u₀) (hJ : J u₀)
    (hnil : J { u₀ with realname := [] })
    (hhome : (t.db (dbKey u₀.nickname "home")).isSome →
      (n ≠ 0 → ¬ guarded t u₀.nickname (u₀.loginid ++ str "@" ++ u₀.nodeid)) →
      J { u₀ with realname := registered })
    (hpass : guarded t u₀.nickname (u₀.loginid ++ str "@" ++ u₀.nodeid) →
      t.db (dbKey u₀.nickname "password") = some (cutPassword u₀.password) →
      J { u₀ with realname := registered }) :
    J ((enterServer n group t).2.uTab n).toUserId := by
  show wp (enterServer n group) (fun _ w' => J (w'.uTab n).toUserId) t
  refine wp_bind (Within.wp (SameEntry n) fun _ t₁ h₁ => wp_bind (wp_getU (wp_bind ?_)))
  refine Within.wp (SameEntry n) fun _ t₂ h₂ => wp_after ?_
  have hget : SameEntry n t₁ (getU n t₁).2 := Within.within t₁
  have h₂ : SameEntry n t t₂ := trans_of (SameEntry n) (trans_of (SameEntry n) h₁ hget) h₂
  -- what the check reads of the entry is in its core
  have hcore : (t₂.uTab n).toUserId.core = u₀ := h₂.core.trans hu
  have hnick : (t₂.uTab n).nickname = u₀.nickname := by rw [← hcore]; rfl
  have hpw : (t₂.uTab n).password = u₀.password := by rw [← hcore]; rfl
  have haddr : address (t₂.uTab n) = u₀.loginid ++ str "@" ++ u₀.nodeid := by rw [← hcore]; rfl
  have hguard (nick addr : Bytes) : guarded t₂ nick addr = guarded t nick addr := by
    simp only [guarded, h₂.db]
  have hlift {u : UserId} (h : J u.core) : J u :=
    hp.login { u with login := .no } u.login (hp.group u.core u.group h)
  have hset (r : Bytes) (h : J { u₀ with realname := r }) :
      J { (t₂.uTab n).toUserId with realname := r } := by
    apply hlift
    show J { (t₂.uTab n).toUserId.core with realname := r }
    rwa [hcore]
  refine Within.wp (KeepsUser n J) fun _ _ h => h ?_
  refine authenticate_sound hn ((congrArg Sys.dbOpens h₂.sys).trans hopen) rfl ?_ (hset _ hnil) ?_ ?_
  · apply hlift
    show J (t₂.uTab n).toUserId.core
    rwa [hcore]
  · intro hsome hno
    rw [hnick, h₂.db] at hsome
    refine hset _ (hhome hsome fun h0 => ?_)
    rw [← hguard, ← haddr, ← hnick]
    exact hno h0
  · intro hg hstored
    rw [hnick, haddr, hguard] at hg
    rw [hnick, h₂.db, hpw] at hstored
    exact hset _ (hpass hg hstored)

/-- A login packet that is taken for a login. -/
theorem login_sound [Plain J] (hn : 0 ≤ n) (hopen : w.sys.dbOpens = true)
    (hreal : (w.uTab n).realname = []) (hnil : ∀ u, u.realname = [] → J u)
    (hhome : ∀ nick, loginStores w n a b = some nick → (w.db (dbKey nick "home")).isSome →
      (n ≠ 0 → ¬ guarded w nick (loginAddress w n a)) →
      J { loginEntry w n a nick p with realname := registered })
    (hpass : ∀ nick, loginStores w n a b = some nick → guarded w nick (loginAddress w n a) →
      w.db (dbKey nick "password") = some (cutPassword (p.take maxPasswdLen)) →
      J { loginEntry w n a nick p with realname := registered }) :
    J ((login n a b c p w).2.uTab n).toUserId := by
  by_cases hstores : loginStores w n a b = none
  · have hrel : KeepsUser n J w (login n a b c p w).2 := login_refused hstores
    exact hrel (hnil _ hreal)
  obtain ⟨nick, hnick⟩ := Option.ne_none_iff_exists'.mp hstores
  have hchecks : (loginChecks w n a b).isOk ∧ denied w n a = none := by
    by_contra hno
    rw [loginStores, if_neg hno] at hnick
    cases hnick
  have hname : nick = (filternickname b).take maxNickLen := by
    rw [loginStores, if_pos hchecks] at hnick
    exact (Option.some.inj hnick).symm
  show wp (login n a b c p) (fun _ w' => J (w'.uTab n).toUserId) w
  refine wp_bind (wp_getW ?_)
  cases hc : loginChecks w n a b with
  | error e => simp [hc, Except.isOk, Except.toBool] at hchecks
  | ok perms =>
    refine wp_bind (wp_getW (wp_bind (Within.wp Calmly fun _ t ht => ?_)))
    refine wp_ite (fun hsome => ?_) fun _ => wp_bind (wp_getU (wp_after (wp_bind (wp_getW ?_))))
    · rw [hchecks.2] at hsome
      cases hsome
    generalize hfill : (fillUserEntry n a (t.uTab n).nodeid (filternickname b) p [] [] .no 0 0 perms
      (getU n t).2).2 = t₁
    have hnode : (t.uTab n).nodeid = (w.uTab n).nodeid := congrArg UserId.nodeid (ht.users n)
    have hreal' : (t.uTab n).realname = (w.uTab n).realname := congrArg UserId.realname (ht.users n)
    have hentry : (t₁.uTab n).toUserId.core = loginEntry w n a nick p := by
      rw [← hfill, hname]
      simp [fillUserEntry, setIdent, setNickname, setUserGroup, setLogin, modUOpts, World.modU,
        UserId.core, loginEntry, getU, hnode, hreal']
    have hreal₁ : (t₁.uTab n).realname = [] := (congrArg UserId.realname hentry).trans hreal
    have hdb₁ : t₁.db = w.db := by rw [← hfill]; exact ht.db
    have hsys₁ : t₁.sys = w.sys := by rw [← hfill]; exact ht.sys
    have hkeep {t' : World} (h : SameEntry n t₁ t') : J (t'.uTab n).toUserId :=
      hnil _ ((congrArg UserId.realname h.core).trans hreal₁)
    refine wp_ite (fun _ => Within.wp (SameEntry n) fun _ _ h => hkeep h) fun _ => ?_
    refine wp_bind (Within.wp (SameEntry n) fun _ t₂ h₂ => ?_)
    refine wp_bind (Within.wp (SameEntry n) fun _ t₃ h₃ => ?_)
    refine wp_bind (Within.wp (SameEntry n) fun g t₄ h₄ => ?_)
    have h₄ : SameEntry n t₁ t₄ :=
      trans_of (SameEntry n) h₂ (trans_of (SameEntry n) h₃ h₄)
    refine wp_ite (fun _ => ?_) fun _ => hkeep h₄
    have hdb₄ : t₄.db = w.db := h₄.db.trans hdb₁
    have hguard (nick addr : Bytes) : guarded t₄ nick addr = guarded w nick addr := by
      simp only [guarded, hdb₄]
    show J ((enterServer n (g.getD []) t₄).2.uTab n).toUserId
    refine enterServer_sound hn ((congrArg Sys.dbOpens (h₄.sys.trans hsys₁)).trans hopen)
      (h₄.core.trans hentry) (hnil _ hreal) (hnil _ rfl) ?_ ?_
    · rw [hdb₄, hguard]
      exact hhome nick hnick
    · rw [hdb₄, hguard]
      exact hpass nick hnick

end

/-! ## §5 — the packets of one slot -/

/-- What is asked of a packet. A login as a nickname whose record wants a password has the password
field and is not on slot 0; a change to such a name is not on slot 0; a `p` without a word is for a
nickname without a password. -/
def RecordAsked (w : World) (n : Int) (contents : Bytes) : Prop :=
  (∀ nick ∈ storedNick w n contents, guarded w nick (loginAddress w n (pktField contents 0)) →
    n ≠ 0 ∧ 5 ≤ splitCount (pktText contents)) ∧
  ((w.uTab n).login = .complete → ∀ text ∈ lastCommand w n contents,
    (commandOf text = .name → splitCount text = 2 → argOf text ≠ [] →
      nameFree w n (newName (argOf text)) →
      guarded w (newName (argOf text)) (address (w.uTab n)) → n ≠ 0) ∧
    (isRegister text → splitCount text = 1 →
      w.db (dbKey (w.uTab n).nickname "password") = none))

section
variable {n : Int} {d : Daemon} {contents : Bytes}

omit [Env] in
/-- A record that is there and wants no password. -/
theorem unguarded {w : World} {nick addr : Bytes} (hsome : (w.db (dbKey nick "home")).isSome)
    (h : ¬ guarded w nick addr) : ∃ home, w.db (dbKey nick "home") = some home ∧
      strcaseEq home addr ∧ w.db (dbKey nick "secure") = none := by
  obtain ⟨home, hhome⟩ := Option.isSome_iff_exists.mp hsome
  refine ⟨home, hhome, ?_⟩
  simpa [guarded, hhome] using h

/-- The command `p`. -/
theorem register_sound {w t : World} {text : Bytes} {arg : Bytes} (hC : Calmly w t)
    (hopen : w.sys.dbOpens = true) (hlast : text ∈ lastCommand w n contents) (hreg : isRegister text)
    (harg : 2 ≤ splitCount text → arg = argOf text)
    (hbare : splitCount text ≤ 1 → w.db (dbKey (w.uTab n).nickname "password") = none)
    (hJ : Sound w n contents (t.uTab n).toUserId) :
    Sound w n contents ((nickwrite n (getword arg) false t).2.uTab n).toUserId := by
  have hnick : (t.uTab n).nickname = (w.uTab n).nickname := hC.nickname n
  have hopen' : t.sys.dbOpens = true := (congrArg Sys.dbOpens hC.sys).trans hopen
  have hright (hstored : t.db (dbKey (t.uTab n).nickname "password") = some (cutPassword (getword arg))) :
      Authenticated w n contents { (t.uTab n).toUserId with realname := registered } := by
    rw [hC.db] at hstored
    by_cases htwo : 2 ≤ splitCount text
    · rw [harg htwo] at hstored
      refine .password (getword (argOf text)) ?_ hstored
      have htype : (cstr contents).head? = some pktCommand := by
        by_contra hno
        simp [lastCommand, hno] at hlast
      have hnot : ¬ (cstr contents).head? = some pktLogin := by
        rw [htype]
        decide
      rw [presented, if_neg hnot, Option.mem_def.mp hlast, Option.bind_some, if_pos ⟨hreg, htwo⟩]
      rfl
    · rw [hnick, hbare (by omega)] at hstored
      cases hstored
  have hnew (hnone : t.db (dbKey (t.uTab n).nickname "password") = none) :
      Authenticated w n contents { (t.uTab n).toUserId with realname := registered } := by
    rw [hC.db] at hnone
    exact .newcomer text hlast hreg hnone
  exact (nickwrite_sound hopen' rfl hJ (.inl rfl) (fun h _ => .inr ⟨rfl, .inr (hright h)⟩)
    fun h _ => .inr ⟨rfl, .inr (hnew h)⟩).1

/-- A command packet of a connection. -/
theorem cmdmsg_sound (hn : n ∈ slots maxRealUsers) (hopen : d.w.sys.dbOpens = true)
    (htype : (cstr contents).head? = some pktCommand) (hask : RecordAsked d.w n contents)
    (hJ : Sound d.w n contents (d.w.uTab n).toUserId) :
    Sound d.w n contents
      ((cmdmsg (cstr contents).length n (pktText contents) d).2.w.uTab n).toUserId := by
  obtain ⟨h0, hreal⟩ := mem_slots.mp hn
  have hlast : finalText d.w n (cstr contents).length (pktText contents) ∈
      lastCommand d.w n contents := by
    rw [lastCommand, if_pos htype]
    rfl
  generalize hfinal : finalText d.w n (cstr contents).length (pktText contents) = text at hlast
  refine cmdmsg_rel (R := KeepsUser n (Sound d.w n contents)) hreal hfinal ?_ hJ
  intro d' hS hlogin hholds _ hJ'
  have hC : Calmly d.w d'.w := hS.calmly
  obtain ⟨hname, hbare⟩ := hask.2 ((hC.login n).symm.trans hlogin) text hlast
  have hopen' : d'.w.sys.dbOpens = true := (congrArg Sys.dbOpens hC.sys).trans hopen
  have hpos := length_splitFields_pos text
  show wp (runCommand noCmd n (splitCount text) (commandOf text))
    (fun _ s => Sound d.w n contents (s.w.uTab n).toUserId) d'
  by_cases hcn : commandOf text = .name
  · -- a new name
    rw [hcn]
    refine wp_whenever (fun hargc => wp_bind (wp_getField (wp_onWorld ?_))) fun _ => hJ'
    have hlen : 1 < (splitFields text).length := by
      unfold splitCount at hargc
      omega
    rw [hholds 1 hlen]
    refine sName_sound h0 hopen' rfl hJ' (.inl rfl) fun harg hfree hsome hguard => ?_
    have hwho : nameFree d'.w n (newName (argOf text)) = nameFree d.w n (newName (argOf text)) := by
      simp only [nameFree, hC.findUser, hC.nickname, congrArg UserId.password (hC.users n)]
    have haddr : address (d'.w.uTab n) = address (d.w.uTab n) := by
      simp only [address, congrArg UserId.loginid (hC.users n), congrArg UserId.nodeid (hC.users n)]
    have hfree' : nameFree d.w n (newName (argOf text)) := hwho ▸ hfree
    have hno : ¬ guarded d.w (newName (argOf text)) (address (d.w.uTab n)) := by
      intro hg
      have h0 := hname hcn hargc harg hfree' hg
      rw [haddr, guarded, hC.db] at hguard
      exact hguard h0 hg
    rw [hC.db] at hsome
    obtain ⟨home, hhome, heq, hsec⟩ := unguarded hsome hno
    refine .inr ⟨rfl, .inr (.home home hhome ?_ hsec)⟩
    rw [← haddr] at heq
    exact heq
  by_cases hother : commandOf text = .other
  · -- the automatic user's commands
    rw [hother]
    have hkeep {x : M Unit} [Within (OnWorld (KeepsUser n (Sound d.w n contents))) x] :
        wp x (fun _ s => Sound d.w n contents (s.w.uTab n).toUserId) d' :=
      Within.wp (OnWorld (KeepsUser n (Sound d.w n contents))) fun _ _ h => h hJ'
    refine wp_bind (wp_getField (wp_ite (fun hauto => wp_bind (wp_getField ?_)) fun _ => hkeep))
    rw [hholds 0 hpos] at hauto ⊢
    show wp (if (autoOf text).readsArg then _ else _) _ _
    refine wp_ite (fun _ => wp_bind (wp_getField (wp_bind (wp_onWorld ?_)))) fun _ => hkeep
    show Sound d.w n contents
      ((stamp nickserv (autoArg n (d'.fields 1) (autoOf text) d'.w).2).2.uTab n).toUserId
    have hstamp {t : World} (h : Sound d.w n contents (t.uTab n).toUserId) :
        Sound d.w n contents ((stamp nickserv t).2.uTab n).toUserId :=
      Within.within (R := KeepsUser n (Sound d.w n contents)) t h
    apply hstamp
    by_cases hp : autoOf text = .register
    · rw [hp]
      refine register_sound hC hopen hlast ⟨hother, hauto, hp⟩ (fun htwo => ?_) (fun hone => ?_) hJ'
      · unfold splitCount at htwo
        exact hholds 1 (by omega)
      · refine hbare ⟨hother, hauto, hp⟩ ?_
        unfold splitCount maxFields at hone ⊢
        omega
    · have : Within (KeepsUser n (Sound d.w n contents)) (autoArg n (d'.fields 1) (autoOf text)) := by
        cases hauto : autoOf text with
        | register => exact absurd hauto hp
        | _ =>
          unfold autoArg
          infer_instance
      exact this.within _ hJ'
  · have : Within (OnWorld (KeepsUser n (Sound d.w n contents)))
        (runCommand noCmd n (splitCount text) (commandOf text)) := by
      apply runCommand_within
      rintro (hpass | h | h)
      · rw [hpass]
        unfold runCommand
        infer_instance
      · exact absurd h hcn
      · exact absurd h hother
    exact this.within d' hJ'

/-- **Every packet of a connection.** -/
theorem dispatch_sound (hn : n ∈ slots maxRealUsers) (hopen : d.w.sys.dbOpens = true)
    (hask : RecordAsked d.w n contents)
    (hreal : (d.w.uTab n).realname = [] ∨ (d.w.uTab n).realname = registered)
    (hout : (d.w.uTab n).login = .no → (d.w.uTab n).realname = []) :
    Sound d.w n contents ((dispatch n contents d).2.w.uTab n).toUserId := by
  obtain ⟨h0, hmax⟩ := mem_slots.mp hn
  have hJ : Sound d.w n contents (d.w.uTab n).toUserId := by
    refine hreal.imp_right fun hreg => ⟨hreg, .inl ⟨?_, rfl⟩⟩
    rw [hreg]
    decide
  have hkeep {x : M Unit} [Within (OnWorld (KeepsUser n (Sound d.w n contents))) x] :
      wp x (fun _ s => Sound d.w n contents (s.w.uTab n).toUserId) d :=
    Within.wp (OnWorld (KeepsUser n (Sound d.w n contents))) fun _ _ h => h hJ
  show wp (dispatch n contents) (fun _ s => Sound d.w n contents (s.w.uTab n).toUserId) d
  refine wp_ite (fun htype => ?_) fun _ => wp_ite (fun _ => hkeep) fun _ => ?_
  · refine loginCase_real (R := KeepsUser n (Sound d.w n contents)) hmax htype ?_ hJ
    intro hlogin p hp hJ
    have hstored {nick : Bytes} (h : loginStores (getU n d.w).2 n (pktField contents 0)
        (pktField contents 1) = some nick) : nick ∈ storedNick d.w n contents := by
      rw [storedNick, if_pos hlogin]
      exact h
    refine login_sound (w := (getU n d.w).2) h0 hopen (hout hlogin.2.2.1) (fun _ h => .inl h) ?_ ?_
    · intro nick hnick hsome hno
      have hask := hask.1 nick (hstored hnick)
      obtain ⟨home, hhome, heq, hsec⟩ := unguarded hsome fun hg => hno (hask hg).1 hg
      exact .inr ⟨rfl, .inr (.home home hhome heq hsec)⟩
    · intro nick hnick hg hpw
      obtain ⟨-, hfive⟩ := hask.1 nick (hstored hnick) hg
      refine .inr ⟨rfl, .inr (.password (pktField contents 4) ?_ ?_)⟩
      · rw [presented, if_pos htype, if_pos hfive]
        rfl
      · rw [hp hfive, cutPassword, List.take_take, Nat.min_self] at hpw
        exact hpw
  · refine wp_ite (fun htype => cmdmsg_sound hn hopen htype hask hJ) fun _ => ?_
    exact wp_ite (fun _ => hkeep) fun _ => wp_ite (fun _ => hkeep) fun _ => hkeep

end

/-! ## §6 — the other slots -/

/-- The names and registrations of the slots in `P` stay as they are. -/
def NamesSame (P : Int → Prop) (w w' : World) : Prop :=
  ∀ j, P j → (w'.uTab j).nickname = (w.uTab j).nickname ∧ (w'.uTab j).realname = (w.uTab j).realname

section
variable {P : Int → Prop} {n m : Int} {w : World} {v : Bytes} {l : Login} {key : String}

omit [Env] in
theorem NamesSame.modU {f : User → User}
    (hf : P m → ∀ u, (f u).nickname = u.nickname ∧ (f u).realname = u.realname) :
    NamesSame P w (w.modU m f) := by
  intro j hj
  by_cases h : j = m
  · subst h
    simpa [World.modU] using hf hj (w.uTab j)
  · simp [World.modU, Function.update_of_ne h]

instance : Calm (NamesSame P) where
  refl _ _ _ := ⟨rfl, rfl⟩
  trans _ _ _ h₁ h₂ j hj := ⟨(h₂ j hj).1.trans (h₁ j hj).1, (h₂ j hj).2.trans (h₁ j hj).2⟩
  misc _ _ _ _ := ⟨rfl, rfl⟩
  drops _ _ _ _ := ⟨rfl, rfl⟩
  gopts _ _ _ _ _ := ⟨rfl, rfl⟩
  toSends _ := ⟨fun _ _ _ _ => ⟨rfl, rfl⟩⟩
  toUOpts _ := ⟨fun _ _ => .modU fun _ _ => ⟨rfl, rfl⟩⟩

instance : GNameTo (NamesSame P) := ⟨fun _ _ _ _ _ => ⟨rfl, rfl⟩⟩
instance : MissTo (NamesSame P) := ⟨fun _ _ _ _ _ _ => ⟨rfl, rfl⟩⟩
instance : ModTo (NamesSame P) m := ⟨fun _ _ _ _ => ⟨rfl, rfl⟩⟩
instance : DbTo (NamesSame P) key := ⟨fun _ _ _ _ _ => ⟨rfl, rfl⟩⟩
instance : IdentTo (NamesSame P) m := ⟨fun _ _ _ _ => .modU fun _ _ => ⟨rfl, rfl⟩⟩
instance : UGroupTo (NamesSame P) m := ⟨fun _ _ => .modU fun _ _ => ⟨rfl, rfl⟩⟩
instance : LoginTo (NamesSame P) m l := ⟨fun _ => .modU fun _ _ => ⟨rfl, rfl⟩⟩
instance [h : Fact (¬ P m)] : NickTo (NamesSame P) m v := ⟨fun _ => .modU fun hm => absurd hm h.out⟩
instance [h : Fact (¬ P m)] : RealTo (NamesSame P) m v := ⟨fun _ => .modU fun hm => absurd hm h.out⟩

/-- Commands touch the names of their own slot and, nested, of slots that are no connection's. -/
theorem cmdmsg_namesSame {depth : Nat} {text : Bytes} (hs : ¬ P nickserv) (h1 : ¬ P (-1)) (hn : ¬ P n) :
    Within (OnWorld (NamesSame P)) (cmdmsg depth n text) := by
  induction depth generalizing n text with
  | zero =>
    unfold cmdmsg
    infer_instance
  | succ depth ih =>
    classical
    -- nested commands never run for a slot in `P`, so what they would do there does not matter
    let cmd : Int → Bytes → M Unit := fun src text => if P src then pure () else cmdmsg depth src text
    have hcmd (src : Int) (hsrc : ¬ P src) : cmdmsg depth src = cmd src := by
      funext text
      exact (if_neg hsrc).symm
    have (src : Int) (text : Bytes) : Within (OnWorld (NamesSame P)) (cmd src text) := by
      by_cases hsrc : P src
      · rw [show cmd src text = pure () from if_pos hsrc]
        infer_instance
      · rw [← hcmd src hsrc]
        exact ih hsrc
    have : Fact (¬ P n) := ⟨hn⟩
    have (k : Nat) (c : Command) : Within (OnWorld (NamesSame P)) (runCommand (cmdmsg depth) n k c) := by
      rw [runCommand_congr (hcmd n hn) (hcmd _ hs) (hcmd _ h1)]
      apply runCommand_within
      rintro (rfl | rfl | rfl) <;> (unfold runCommand; infer_instance)
    show Within _ (cmdmsgWith (cmdmsg depth) n text)
    unfold cmdmsgWith
    infer_instance

/-- A packet touches no name but its sender's. -/
theorem dispatch_namesSame {d : Daemon} {contents : Bytes} (hs : ¬ P nickserv) (h1 : ¬ P (-1))
    (hn : ¬ P n) : NamesSame P d.w (dispatch n contents d).2.w := by
  have : Fact (¬ P n) := ⟨hn⟩
  have (k : Nat) (text : Bytes) : Within (OnWorld (NamesSame P)) (cmdmsg k n text) :=
    cmdmsg_namesSame hs h1 hn
  unfold dispatch
  split
  next htype => exact loginCase_rel htype fun _ _ => Within.within _
  · exact Within.within (R := OnWorld (NamesSame P)) d

/-- A connection that is lost has no registration left. -/
theorem sLostUser_realname (hn : n < maxRealUsers) : ((sLostUser n w).2.uTab n).realname = [] := by
  have hclear (w : World) : ((clearUserItem n w).2.uTab n).realname = [] := by
    simp [clearUserItem, setLogin, setUserGroup, setRealname, modUOpts, modMisc, World.modU,
      World.withMisc]
  show wp (sLostUser n) (fun _ w' => (w'.uTab n).realname = []) w
  refine wp_bind (wp_getW (wp_bind (wp_getU (wp_ite (fun hreal => absurd hn (by omega)) fun _ => ?_))))
  refine wp_ite (fun _ => hclear _) fun _ => wp_after (wp_after ?_)
  exact Within.wp (NamesSame fun _ => True) fun _ _ h => (h n trivial).2.trans (hclear _)

end

/-! ## §7 — what a registration can be -/

/-- Nothing or `registered`, and nothing for whoever is not logged in. -/
def RegOk (u : UserId) : Prop :=
  (u.realname = [] ∨ u.realname = registered) ∧ (u.login = .no → u.realname = [])

/-- Not registered. -/
def Blank (u : UserId) : Prop := u.realname = []

/-- Logged in. -/
def Seat (u : UserId) : Prop := (u.realname = [] ∨ u.realname = registered) ∧ u.login ≠ .no

section
variable {n m : Int} {w : World} {v a b c p : Bytes} {l : Login}

instance : NickTo (KeepsUser n Blank) m v := ⟨fun _ => .write id⟩
instance : IdentTo (KeepsUser n Blank) m := ⟨fun _ _ _ _ => .write id⟩
instance : UGroupTo (KeepsUser n Blank) m := ⟨fun _ _ => .write id⟩
instance : LoginTo (KeepsUser n Blank) m l := ⟨fun _ => .write id⟩

instance : NickTo (KeepsUser n Seat) m v := ⟨fun _ => .write id⟩
instance : IdentTo (KeepsUser n Seat) m := ⟨fun _ _ _ _ => .write id⟩
instance : UGroupTo (KeepsUser n Seat) m := ⟨fun _ _ => .write id⟩
instance : RealTo (KeepsUser n Seat) m [] := ⟨fun _ => .write fun h => ⟨.inl rfl, h.2⟩⟩
instance : RealTo (KeepsUser n Seat) m registered := ⟨fun _ => .write fun h => ⟨.inr rfl, h.2⟩⟩
instance : LoginTo (KeepsUser n Seat) m .pending := ⟨fun _ => .write fun h => ⟨h.1, nofun⟩⟩
instance : LoginTo (KeepsUser n Seat) m .complete := ⟨fun _ => .write fun h => ⟨h.1, nofun⟩⟩

instance {depth : Nat} {text : Bytes} : Within (OnWorld (KeepsUser n Seat)) (cmdmsg depth m text) := by
  induction depth generalizing m text with
  | zero =>
    unfold cmdmsg
    infer_instance
  | succ depth ih =>
    have (k : Nat) (c : Command) :
        Within (OnWorld (KeepsUser n Seat)) (runCommand (cmdmsg depth) m k c) := by
      apply runCommand_within
      rintro (rfl | rfl | rfl) <;> (unfold runCommand; infer_instance)
    show Within _ (cmdmsgWith (cmdmsg depth) m text)
    unfold cmdmsgWith
    infer_instance

omit [Env] in
theorem Seat.regOk {u : UserId} (h : Seat u) : RegOk u := ⟨h.1, fun hno => absurd hno h.2⟩

omit [Env] in
theorem Blank.regOk {u : UserId} (h : Blank u) : RegOk u := ⟨.inl h, fun _ => h⟩

theorem enterServer_regOk (h : Blank (w.uTab n).toUserId) :
    RegOk ((enterServer n a w).2.uTab n).toUserId := by
  have hstart : Seat ((startSession n w).2.uTab n).toUserId := by
    refine ⟨.inl ?_, ?_⟩
    · show Blank ((startSession n w).2.uTab n).toUserId
      exact Within.within (R := KeepsUser n Blank) w h
    · simp [startSession, setLogin, modUOpts, World.modU]
  show wp (enterServer n a) (fun _ w' => RegOk (w'.uTab n).toUserId) w
  refine wp_after ?_
  exact Within.wp (KeepsUser n Seat) fun _ _ hkeep => (hkeep hstart).regOk

theorem login_regOk (h : Blank (w.uTab n).toUserId) :
    RegOk ((login n a b c p w).2.uTab n).toUserId := by
  apply login_post (R := KeepsUser n Blank) (I := fun w => Blank (w.uTab n).toUserId)
    (Q := fun w => RegOk (w.uTab n).toUserId)
  · exact fun _ _ hkeep => hkeep
  · exact fun _ h => h.regOk
  · exact fun w _ _ => Within.within (R := KeepsUser n Blank) w
  · exact fun _ _ => enterServer_regOk
  · exact h

/-- The packets of a slot. -/
theorem dispatch_regOk {d : Daemon} {contents : Bytes} (h : RegOk (d.w.uTab n).toUserId) :
    RegOk ((dispatch n contents d).2.w.uTab n).toUserId := by
  have hkeep {x : M Unit} [Within (OnWorld (KeepsUser n RegOk)) x] :
      wp x (fun _ s => RegOk (s.w.uTab n).toUserId) d :=
    Within.wp (OnWorld (KeepsUser n RegOk)) fun _ _ hk => hk h
  have hseat (hc : (d.w.uTab n).login = .complete) {x : M Unit}
      [Within (OnWorld (KeepsUser n Seat)) x] : wp x (fun _ s => RegOk (s.w.uTab n).toUserId) d := by
    refine Within.wp (OnWorld (KeepsUser n Seat)) fun _ _ hk => (hk ⟨h.1, ?_⟩).regOk
    show (d.w.uTab n).login ≠ .no
    rw [hc]
    exact nofun
  show wp (dispatch n contents) (fun _ s => RegOk (s.w.uTab n).toUserId) d
  by_cases hc : (d.w.uTab n).login = .complete
  · refine wp_ite (fun htype => ?_) fun _ => hseat hc
    refine loginCase_rel (R := KeepsUser n RegOk) htype (fun hl => ?_) h
    rw [hl.2.2.1] at hc
    cases hc
  refine wp_ite (fun htype => ?_) fun _ => ?_
  · refine loginCase_rel (R := KeepsUser n RegOk) htype (fun hl p hk => ?_) h
    exact login_regOk (hk.2 hl.2.2.1)
  refine wp_ite (fun _ => openmsg_idle (R := KeepsUser n RegOk) hc _ h) fun _ => ?_
  refine wp_ite (fun _ => cmdmsg_idle (R := KeepsUser n RegOk) hc _ _ h) fun _ => ?_
  exact wp_ite (fun _ => hkeep) fun _ => wp_ite (fun _ => hkeep) fun _ => hkeep

end

/-! ## §8 — runs -/

/-- What is asked of the events of a run. -/
def RecordsAsked (h : Host) (sys : Sys) : Event → Prop
  | .packet n contents => RecordAsked (h.toDaemon.at sys).w n contents
  | _ => True

section
variable {h : Host} {sys : Sys} {e : Event} {n : Int}

/-- Nobody's name, registration or login state is touched by what others do. -/
theorem Event.others_keep (h : Host) (sys : Sys) (hn : n ∈ slots maxRealUsers) (hpacket : ∀ contents, e ≠ .packet n contents)
    (hlost : e ≠ .lost n) :
    ((h.after sys e).w.uTab n).nickname = (h.w.uTab n).nickname ∧
      ((h.after sys e).w.uTab n).realname = (h.w.uTab n).realname ∧
      ((h.after sys e).w.uTab n).login = (h.w.uTab n).login := by
  have hserv : ¬ nickserv = n := by
    have := mem_slots.mp hn
    have := Env.two_le_maxUsers
    unfold maxRealUsers nickserv at *
    omega
  have hneg : ¬ (-1 = n) := by
    have := (mem_slots.mp hn).1
    omega
  suffices hs : NamesSame (· = n) h.w (h.after sys e).w ∧ (h.after sys e).w.logins n = h.w.logins n from
    ⟨(hs.1 n rfl).1, (hs.1 n rfl).2, hs.2⟩
  cases e with
  | connect m secure remote =>
    constructor
    · exact Within.within (R := NamesSame (· = n)) (x := sNewUser m secure remote) (h.toDaemon.at sys).w
    · exact Within.within (R := LoginSame fun _ => True) (x := sNewUser m secure remote)
        (h.toDaemon.at sys).w n trivial
  | packet m contents =>
    have hmn : ¬ m = n := by
      rintro rfl
      exact hpacket contents rfl
    constructor
    · exact dispatch_namesSame (d := h.toDaemon.at sys) hserv hneg hmn
    · exact dispatch_loginSame (d := h.toDaemon.at sys) n (Ne.symm hmn)
  | lost m =>
    have hmn : ¬ m = n := by
      rintro rfl
      exact hlost rfl
    have : Fact (¬ m = n) := ⟨hmn⟩
    constructor
    · exact Within.within (R := NamesSame (· = n)) (x := sLostUser m) (h.toDaemon.at sys).w
    · exact Within.within (R := LoginSame (· ≠ m)) (x := sLostUser m) (h.toDaemon.at sys).w n
        (Ne.symm hmn)
  | didpoll =>
    constructor
    · exact Within.within (R := NamesSame (· = n)) (x := sDidpoll) (h.toDaemon.at sys).w
    · exact Within.within (R := LoginSame fun _ => True) (x := sDidpoll) (h.toDaemon.at sys).w n trivial

theorem startup_regOk (db : Bytes → Option Bytes) (hn : n ∈ slots maxRealUsers) :
    RegOk ((startup sys db).uTab n).toUserId := by
  have hserv : n ≠ nickserv := by
    have := mem_slots.mp hn
    have := Env.two_le_maxUsers
    unfold maxRealUsers nickserv at *
    omega
  have : Fact (¬ nickserv ≠ nickserv) := ⟨fun h => h rfl⟩
  have hnames := startup_rel (R := NamesSame (· ≠ nickserv)) sys db n hserv
  refine Blank.regOk ?_
  exact hnames.2

/-- In every state reached. -/
theorem Reachable.regOk {P : Host → Sys → Event → Prop} (hr : Reachable P h)
    (hn : n ∈ slots maxRealUsers) : RegOk (h.w.uTab n).toUserId := by
  revert n
  refine hr.invariant (I := fun h => ∀ {n}, n ∈ slots maxRealUsers → RegOk (h.w.uTab n).toUserId)
    (fun sys db n hn => startup_regOk db hn) ?_
  intro h sys e hI _ _ _ n hn
  by_cases hpacket : ∃ contents, e = .packet n contents
  · obtain ⟨contents, rfl⟩ := hpacket
    exact dispatch_regOk (d := h.toDaemon.at sys) (hI hn)
  by_cases hlost : e = .lost n
  · subst hlost
    exact Blank.regOk (sLostUser_realname (w := (h.toDaemon.at sys).w) (mem_slots.mp hn).2)
  obtain ⟨-, hreal, hlogin⟩ := Event.others_keep h sys hn
    (fun contents he => hpacket ⟨contents, he⟩) hlost
  obtain ⟨hval, hout⟩ := hI hn
  refine ⟨hval.imp (fun h => hreal.trans h) fun h => hreal.trans h, fun hno => ?_⟩
  exact hreal.trans (hout (hlogin.symm.trans hno))

end

/-- **Authentication.** In every step of a run that asks the records, with a database that opens,
every connection is afterwards not registered, or registered as before under the same nickname, or it
has sent the packet that authenticates the nickname it now holds. -/
theorem registered_authenticated {h h' : Host} {sys : Sys} {e : Event} (hr : Reachable RecordsAsked h)
    (hask : RecordsAsked h sys e) (hstep : Step h sys e h') (hopen : sys.dbOpens = true) {n : Int}
    (hn : n ∈ slots maxRealUsers) :
    (h'.w.uTab n).realname = [] ∨ (h'.w.uTab n).realname = registered ∧
      ((h.w.uTab n).realname = registered ∧ (h'.w.uTab n).nickname = (h.w.uTab n).nickname ∨
        ∃ contents, e = .packet n contents ∧
          Authenticated (h.toDaemon.at sys).w n contents (h'.w.uTab n).toUserId) := by
  obtain ⟨hval, hout⟩ := hr.regOk hn
  obtain ⟨-, -, rfl⟩ := hstep
  by_cases hpacket : ∃ contents, e = .packet n contents
  · obtain ⟨contents, rfl⟩ := hpacket
    have hsound : Sound (h.toDaemon.at sys).w n contents _ :=
      dispatch_sound (d := h.toDaemon.at sys) hn hopen hask hval hout
    refine hsound.imp_right fun ⟨hreg, hwhy⟩ => ⟨hreg, ?_⟩
    rcases hwhy with ⟨hne, hnick⟩ | hauth
    · exact .inl ⟨hval.resolve_left hne, hnick⟩
    · exact .inr ⟨contents, rfl, hauth⟩
  by_cases hlost : e = .lost n
  · subst hlost
    exact .inl (sLostUser_realname (w := (h.toDaemon.at sys).w) (mem_slots.mp hn).2)
  obtain ⟨hnick, hreal, -⟩ := Event.others_keep h sys hn
    (fun contents he => hpacket ⟨contents, he⟩) hlost
  rcases hval with hnil | hreg
  · exact .inl (hreal.trans hnil)
  · exact .inr ⟨hreal.trans hreg, .inl ⟨hreg, hnick⟩⟩

instance (w : World) (n : Int) (contents : Bytes) : Decidable (RecordAsked w n contents) := by
  unfold RecordAsked
  infer_instance

instance (h : Host) (sys : Sys) : (e : Event) → Decidable (RecordsAsked h sys e)
  | .connect .. | .packet .. | .lost _ | .didpoll => by dsimp only [RecordsAsked]; infer_instance

end

section
attribute [local instance] smallEnv

/-- The first client of a server without records. -/
def firstClient : Host :=
  Host.run {} { w := startup {} fun _ => none }
    [.connect 1 false none, .packet 1 (loginPkt "one" "al" "x" "")]

theorem registered_authenticated_new :
    ((firstClient.after {} (.packet 1 (cmdPkt "p" "pw"))).w.uTab 1).realname = registered ∧
      ((firstClient.w.uTab 1).realname = registered ∧
        ((firstClient.after {} (.packet 1 (cmdPkt "p" "pw"))).w.uTab 1).nickname =
          (firstClient.w.uTab 1).nickname ∨
        ∃ contents, Event.packet 1 (cmdPkt "p" "pw") = .packet 1 contents ∧
          Authenticated (firstClient.toDaemon.at {}).w 1 contents
            ((firstClient.after {} (.packet 1 (cmdPkt "p" "pw"))).w.uTab 1).toUserId) := by
  obtain ⟨hr, hask, hlive, henabled, hne⟩ := Reachable.leads_run (P := RecordsAsked) (Q := fun h =>
      let e : Event := .packet 1 (cmdPkt "p" "pw")
      RecordsAsked h {} e ∧ h.w.live ∧ e.enabled h ∧ ((h.after {} e).w.uTab 1).realname ≠ [])
    (.start {} fun _ => none) (rfl : firstClient = Host.run {} _ _) (by decide +kernel)
  have hstep : Step firstClient {} (.packet 1 (cmdPkt "p" "pw"))
      (firstClient.after {} (.packet 1 (cmdPkt "p" "pw"))) := ⟨hlive, henabled, rfl⟩
  exact (registered_authenticated hr hask hstep rfl (mem_slots.mpr (by decide))).resolve_left hne

/-- A login on slot 0 as a nickname whose record is for another address, with an empty password: the
lookup answers 0 and the nickname is registered. -/
theorem slot_zero_registers : ∃ (h : Host) (contents : Bytes), Reachable (fun _ _ _ => True) h ∧
    Step h {} (.packet 0 contents) (h.after {} (.packet 0 contents)) ∧
    (h.w.uTab 0).realname = [] ∧
    ((h.after {} (.packet 0 contents)).w.uTab 0).realname = registered ∧
    ¬ Authenticated (h.toDaemon.at {}).w 0 contents
      ((h.after {} (.packet 0 contents)).w.uTab 0).toUserId := by
  have hrun : let h : Host := Host.run {} { w := knowsAl } [.connect 0 false none]
      let contents := loginPkt "al" "al" "1" ""
      let u := ((h.after {} (.packet 0 contents)).w.uTab 0).toUserId
      Host.follows (fun _ _ _ => True) {} { w := knowsAl } [.connect 0 false none] ∧ h.w.live ∧
        h.opened 0 ∧ (h.w.uTab 0).realname = [] ∧ u.realname = registered ∧
        presented (h.toDaemon.at {}).w 0 contents = some [] ∧
        lastCommand (h.toDaemon.at {}).w 0 contents = none ∧
        (h.toDaemon.at {}).w.db (dbKey u.nickname "password") = some (str "pw") ∧
        (h.toDaemon.at {}).w.db (dbKey u.nickname "home") = some (str "pw") ∧
        strcaseEq (str "pw") (u.loginid ++ str "@" ++ u.nodeid) = false := by decide +kernel
  obtain ⟨hf, hlive, hopen, hnil, hreg, hpw, hcmd, hstored, hhome, haddr⟩ := hrun
  have hstart : Reachable (fun _ _ _ => True) { w := knowsAl } := by
    unfold knowsAl
    exact .start {} _
  refine ⟨_, _, .run hstart hf, ⟨hlive, hopen, rfl⟩, hnil, hreg, ?_⟩
  intro hauth
  cases hauth with
  | password pw hpres hdb =>
    rw [hpw] at hpres
    obtain rfl := Option.some.inj hpres
    rw [hstored] at hdb
    exact absurd hdb (by decide)
  | newcomer text htext =>
    rw [hcmd] at htext
    cases htext
  | home home hdb heq =>
    rw [hhome] at hdb
    obtain rfl := Option.some.inj hdb
    rw [haddr] at heq
    cases heq

end

end Icbd.Server
