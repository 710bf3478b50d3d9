/-
# Icbd.Server.Orphans — no attribute without a password.

Whether somebody is registered stands in his entry of the user table, his record in the database, and
neither is told when the other goes. Where the functions of `access.c` look at the record before they
store into it, no attribute is stored for a nick without a password; seven of the commands of the
automatic user look at the entry only, and after a deletion they store into a record that is not there.
-/
import Icbd.Server.Accounts
import Icbd.Server.Authentication
import Icbd.Server.Final
import Icbd.Server.Foreign

-- every bind doubles the size of the search's argument
set_option synthInstance.maxSize 1000000000000000000000000000000000000000000000000
set_option synthInstance.maxHeartbeats 200000

namespace Icbd.Server

open Icbd.Lib

/-! ## §1 — records in the database -/

/-- The automatic user's own record. Start-up stores a time in it, and it has no password. -/
def ownRecord (nick : Bytes) : Prop := lcaseit nick = lcaseit (str "Server")

instance (nick : Bytes) : Decidable (ownRecord nick) := inferInstanceAs (Decidable (_ = _))

/-- The record of `nick` has a password, or needs none. -/
def Backed (db : Bytes → Option Bytes) (nick : Bytes) : Prop :=
  ownRecord nick ∨ (db (dbKey nick "password")).isSome

/-- **No orphans**: a nick with an attribute has a password. What follows the last dot of a key is the
attribute. -/
def NoOrphans (db : Bytes → Option Bytes) : Prop :=
  ∀ nick (attr : String), 46 ∉ str attr → ¬ ownRecord nick → (db (dbKey nick attr)).isSome →
    (db (dbKey nick "password")).isSome

/-- The attributes a deletion removes. -/
def Listed (attr : String) : Prop :=
  attr ∈ recordKeys ∨ ∃ (p : Part) (k : Nat), (1 ≤ k ∧ k ≤ maxWrites) ∧ attr = numbered p.base k

/-- A counter of letters that fit a mailbox. -/
def Counts (v : Bytes) : Prop := ∃ k : Nat, k ≤ maxWrites ∧ v = decimal k

/-- A value for an attribute of a record. -/
structure Fits (attr : String) (v : Bytes) : Prop where
  listed : Listed attr
  count : lcaseit (str attr) = lcaseit (str "nummsg") → Counts v

/-- Every key belongs to a record with a password and would be deleted with it. -/
structure Whole (db : Bytes → Option Bytes) : Prop where
  owned : ∀ key, (db key).isSome → ∃ nick attr, key = dbKey nick attr ∧ Listed attr ∧ Backed db nick
  count : ∀ nick v, db (countKey nick) = some v → Counts v

section
variable {db : Bytes → Option Bytes} {nick nick' v : Bytes} {attr : String}

theorem Listed.dot_notMem (h : Listed attr) : 46 ∉ str attr := by
  refine AccountAttr.dot_notMem (h.imp_right ?_)
  rintro ⟨p, k, -, rfl⟩
  exact ⟨p, k, rfl⟩

theorem Backed.congr (hnick : lcaseit nick = lcaseit nick') (h : Backed db nick) : Backed db nick' := by
  unfold Backed ownRecord at *
  rwa [← hnick, ← dbKey_congr hnick]

/-- A store takes no password away. -/
theorem Backed.set (h : Backed db nick) (key : Bytes) : Backed (Function.update db key (some v)) nick := by
  refine h.imp_right fun hpass => ?_
  rw [Function.update_apply]
  split
  · rfl
  · exact hpass

/-- The owner of a key has a password. -/
theorem Whole.backed (h : Whole db) (hdot : 46 ∉ str attr) (hsome : (db (dbKey nick attr)).isSome) :
    Backed db nick := by
  obtain ⟨nick', attr', heq, hlisted, hback⟩ := h.owned _ hsome
  exact hback.congr (dbKey_inj hdot hlisted.dot_notMem heq).1.symm

theorem Whole.noOrphans (h : Whole db) : NoOrphans db := fun _ _ hdot hown hsome =>
  (h.backed hdot hsome).resolve_left hown

theorem Whole.empty : Whole fun _ => none := ⟨nofun, nofun⟩

/-- An attribute is stored for a nick that has its password then. -/
theorem Whole.set (h : Whole db) (hfits : Fits attr v)
    (hback : Backed (Function.update db (dbKey nick attr) (some v)) nick) :
    Whole (Function.update db (dbKey nick attr) (some v)) where
  owned key hsome := by
    by_cases hkey : key = dbKey nick attr
    · exact ⟨nick, attr, hkey, hfits.listed, hback⟩
    · rw [Function.update_of_ne hkey] at hsome
      obtain ⟨nick', attr', heq, hlisted', hback'⟩ := h.owned key hsome
      exact ⟨nick', attr', heq, hlisted', hback'.set _⟩
  count nick' v' hv' := by
    by_cases hkey : countKey nick' = dbKey nick attr
    · rw [hkey, Function.update_self] at hv'
      obtain rfl := Option.some.inj hv'
      exact hfits.count (dbKey_inj (by decide) hfits.listed.dot_notMem hkey).2.symm
    · rw [Function.update_of_ne hkey] at hv'
      exact h.count nick' v' hv'

/-- An attribute other than the password is deleted. -/
theorem Whole.delete (h : Whole db) (hpass : ∀ nick', dbKey nick' "password" ≠ dbKey nick attr) :
    Whole (Function.update db (dbKey nick attr) none) where
  owned key hsome := by
    have hkey : key ≠ dbKey nick attr := by
      rintro rfl
      simp at hsome
    rw [Function.update_of_ne hkey] at hsome
    obtain ⟨nick', attr', heq, hlisted', hback'⟩ := h.owned key hsome
    refine ⟨nick', attr', heq, hlisted', hback'.imp_right fun hp => ?_⟩
    rwa [Function.update_of_ne (hpass nick')]
  count nick' v hv := by
    rw [Function.update_apply] at hv
    split at hv
    · cases hv
    · exact h.count nick' v hv

theorem fits_record (hattr : attr ∈ recordKeys) (hne : attr ≠ "nummsg") : Fits attr v where
  listed := .inl hattr
  count heq := by
    have hother : ∀ attr ∈ recordKeys, attr ≠ "nummsg" → lcaseit (str attr) ≠ lcaseit (str "nummsg") := by
      decide
    exact absurd heq (hother attr hattr hne)

theorem fits_part {p : Part} {k : Nat} (hk : 1 ≤ k ∧ k ≤ maxWrites) : Fits (numbered p.base k) v where
  listed := .inr ⟨p, k, hk, rfl⟩
  count heq := by
    refine absurd ?_ (@partKey_ne_countKey [] [] p k)
    simp only [partKey, countKey, dbKey, lcaseit, List.map_append] at heq ⊢
    rw [heq]

theorem fits_count (h : Counts v) : Fits "nummsg" v := ⟨.inl (by decide), fun _ => h⟩

theorem counts_zero : Counts (str "0") := ⟨0, Nat.zero_le _, by decide⟩

/-- The key of an attribute that is not the password. -/
theorem passwordKey_ne (hdot : 46 ∉ str attr) (hne : lcaseit (str "password") ≠ lcaseit (str attr))
    (nick' : Bytes) : dbKey nick' "password" ≠ dbKey nick attr :=
  fun heq => hne (dbKey_inj (by decide) hdot heq).2

theorem passwordKey_ne_part (p : Part) (k : Int) (nick' : Bytes) :
    dbKey nick' "password" ≠ dbKey nick (numbered p.base k) := by
  refine passwordKey_ne (dot_notMem_numbered p k) (fun heq => ?_) nick'
  have hhead := congrArg List.head? heq
  have hsplit : str (numbered p.base k) = str p.base ++ str (toString k) := by
    simp [numbered, str]
  rw [hsplit, lcaseit, lcaseit, List.map_append] at hhead
  cases p <;> exact absurd hhead (by simp [Part.base, str]; decide)

end

/-! ## §2 — the caller has a record -/

/-- A whole database stays whole. -/
def KeepsWhole (w w' : World) : Prop := Whole w.db → Whole w'.db

section
variable {n i : Int} {v : Bytes} {l : Login}

instance : Calm KeepsWhole where
  refl _ := id
  trans _ _ _ h₁ h₂ := h₂ ∘ h₁
  misc _ _ := id
  drops _ _ := id
  gopts _ _ _ := id
  toSends _ := ⟨fun _ _ => id⟩
  toUOpts _ := ⟨fun _ _ => id⟩

instance : NickTo KeepsWhole n v := ⟨fun _ => id⟩
instance : RealTo KeepsWhole n v := ⟨fun _ => id⟩
instance : IdentTo KeepsWhole n := ⟨fun _ _ _ _ => id⟩
instance : UGroupTo KeepsWhole n := ⟨fun _ _ => id⟩
instance : LoginTo KeepsWhole n l := ⟨fun _ => id⟩
instance : ModTo KeepsWhole i := ⟨fun _ _ => id⟩
instance : MissTo KeepsWhole := ⟨fun _ _ _ _ => id⟩
instance : GNameTo KeepsWhole := ⟨fun _ _ _ => id⟩

end

/-- The record of `nick` has a password. -/
structure Credited (nick : Bytes) (w : World) : Prop where
  whole : Whole w.db
  backed : w.sys.dbOpens = true → Backed w.db nick

/-- And slot `n` is `nick`. -/
structure Entitled (n : Int) (nick : Bytes) (w : World) : Prop extends Credited nick w where
  named : (w.uTab n).nickname = nick

section
variable {n i : Int} {nick v : Bytes} {attr : String}

instance : Base (Keep (Credited nick)) where
  misc _ _ := fun h => ⟨h.whole, h.backed⟩

instance : Posts (Keep (Credited nick)) where
  toPlain _ := ⟨fun _ _ _ h => ⟨h.whole, h.backed⟩⟩

theorem Credited.dbSet (h : Fits attr v) : Within (Keep (Credited nick)) (dbSet nick attr v) where
  within w := by
    intro hw
    unfold Server.dbSet
    split
    next hopen =>
      have hset := (hw.backed hopen).set (v := v) (dbKey nick attr)
      exact ⟨hw.whole.set h hset, fun _ => hset⟩
    · exact hw

theorem Credited.dbDelete (h : ∀ nick', dbKey nick' "password" ≠ dbKey nick attr) :
    Within (Keep (Credited nick)) (dbDelete nick attr) where
  within w := by
    intro hw
    unfold Server.dbDelete
    split
    · refine ⟨hw.whole.delete h, fun hopen => (hw.backed hopen).imp_right fun hpass => ?_⟩
      show (Function.update w.db (dbKey nick attr) none (dbKey nick "password")).isSome
      rwa [Function.update_of_ne (h nick)]
    · exact hw

/-- A write to the user table that leaves the nickname of `n` alone. -/
theorem Entitled.modU {w : World} {f : User → User} (hf : ∀ u, (f u).nickname = u.nickname) :
    Keep (Entitled n nick) w (w.modU i f) := by
  refine fun h => ⟨⟨h.whole, h.backed⟩, ?_⟩
  have hnick := h.named
  by_cases hi : n = i
  · subst hi
    simpa [World.modU, hf] using hnick
  · simpa [World.modU, Function.update_of_ne hi] using hnick

instance : Base (Keep (Entitled n nick)) where
  misc _ _ := fun h => ⟨⟨h.whole, h.backed⟩, h.named⟩

instance : Still (Keep (Entitled n nick)) where
  drops _ _ := fun h => ⟨⟨h.whole, h.backed⟩, h.named⟩
  toPlain _ := ⟨fun _ _ _ h => ⟨⟨h.whole, h.backed⟩, h.named⟩⟩
  toUOpts _ := ⟨fun _ _ => Entitled.modU fun _ => rfl⟩

instance : RealTo (Keep (Entitled n nick)) i v := ⟨fun _ => Entitled.modU fun _ => rfl⟩
instance : IdentTo (Keep (Entitled n nick)) i := ⟨fun _ _ _ _ => Entitled.modU fun _ => rfl⟩
instance : ModTo (Keep (Entitled n nick)) i := ⟨fun _ _ h => ⟨⟨h.whole, h.backed⟩, h.named⟩⟩
instance : MissTo (Keep (Entitled n nick)) := ⟨fun _ _ _ _ h => ⟨⟨h.whole, h.backed⟩, h.named⟩⟩

theorem Entitled.dbSet (h : Fits attr v) : Within (Keep (Entitled n nick)) (dbSet nick attr v) where
  within w hw := ⟨(Credited.dbSet h).within w hw.toCredited, by rw [dbSet_uTab]; exact hw.named⟩

theorem Entitled.dbDelete (h : ∀ nick', dbKey nick' "password" ≠ dbKey nick attr) :
    Within (Keep (Entitled n nick)) (dbDelete nick attr) where
  within w hw := ⟨(Credited.dbDelete h).within w hw.toCredited, by rw [dbDelete_uTab]; exact hw.named⟩

/-- The caller's own entry is the one with the nickname. -/
theorem Entitled.getU [Env] {α : Type} {f : User → W α}
    (h : ∀ u, u.nickname = nick → Within (Keep (Entitled n nick)) (f u)) :
    Within (Keep (Entitled n nick)) (getU n >>= f) where
  within w := fun hw => (h _ hw.named).within (Server.getU n w).2 ⟨⟨hw.whole, hw.backed⟩, hw.named⟩

end

section
variable [Env] {n : Int} {nick : Bytes}

instance : Within (Keep (Entitled n nick)) (nickckmsg n) := by
  refine Entitled.getU ?_
  rintro u rfl
  have : Within (Keep (Entitled n u.nickname)) (dbSet u.nickname "nummsg" (str "0")) :=
    Entitled.dbSet (fits_count counts_zero)
  infer_instance

instance : Within (Keep (Entitled n nick)) (mailNotice n) := by
  unfold mailNotice
  infer_instance

instance {signoff : Bool} : Within (Keep (Entitled n nick)) (nickwritetime n signoff) := by
  have (w : World) : Within (Keep (Entitled n nick)) (do
      let u ← getU n
      let known ← dbGet u.nickname "nick"
      let time := (Env.strftime w.sys.now).take 254
      whenever (u.realname ≠ []) do
        if signoff then whenever known.isSome (dbSet u.nickname "signoff" time)
        else dbSet u.nickname "signon" time) := by
    refine Entitled.getU ?_
    rintro u rfl
    have (v : Bytes) : Within (Keep (Entitled n u.nickname)) (dbSet u.nickname "signon" v) :=
      Entitled.dbSet (fits_record (by decide) (by decide))
    have (v : Bytes) : Within (Keep (Entitled n u.nickname)) (dbSet u.nickname "signoff" v) :=
      Entitled.dbSet (fits_record (by decide) (by decide))
    infer_instance
  unfold nickwritetime
  infer_instance

instance {secure : Bool} : Within (Keep (Entitled n nick)) (setsecure n secure) := by
  refine Entitled.getU ?_
  rintro u rfl
  have (v : Bytes) : Within (Keep (Entitled n u.nickname)) (dbSet u.nickname "secure" v) :=
    Entitled.dbSet (fits_record (by decide) (by decide))
  have : Within (Keep (Entitled n u.nickname)) (dbDelete u.nickname "secure") :=
    Entitled.dbDelete (passwordKey_ne (by decide) (by decide))
  infer_instance

theorem nickchinfo_entitled {tag : String} (htag : tag ∈ recordKeys) (hne : tag ≠ "nummsg") (data : Bytes)
    (max : Nat) (message : Bytes) :
    Within (Keep (Entitled n nick)) (nickchinfo n tag data max message) := by
  refine Entitled.getU ?_
  rintro u rfl
  have (v : Bytes) : Within (Keep (Entitled n u.nickname)) (dbSet u.nickname tag v) :=
    Entitled.dbSet (fits_record htag hne)
  infer_instance

end

/-! ## §3 — the functions that look at the record -/

/-- What is found in the database is there. -/
theorem wp_dbFound {w : World} {nick : Bytes} {attr : String} {Q : Option Bytes → World → Prop}
    (h : ∀ v, (v ≠ none → w.sys.dbOpens = true ∧ w.db (dbKey nick attr) = v) → Q v w) :
    wp (dbGet nick attr) Q w := by
  cases hopen : w.sys.dbOpens with
  | true => exact wp_dbGet hopen (h _ fun _ => ⟨hopen, rfl⟩)
  | false => exact wp_dbGet_closed hopen (h none fun hne => absurd rfl hne)

/-- A nick of whose record something has been found. -/
theorem Whole.credited {w : World} {nick : Bytes} {attr : String} {v : Option Bytes} (h : Whole w.db)
    (hdot : 46 ∉ str attr) (hne : v ≠ none) (hv : w.db (dbKey nick attr) = v) : Credited nick w := by
  refine ⟨h, fun _ => h.backed hdot ?_⟩
  rw [hv]
  exact Option.isSome_iff_ne_none.mpr hne

section
variable [Env] {n : Int} {nick : Bytes} {w : World}

/-- A sign-off is stored for a nick that is still in the database. -/
instance : Within KeepsWhole (nickwritetime n true) where
  within w hw := by
    show wp (nickwritetime n true) (fun _ w' => Whole w'.db) w
    refine wp_bind (wp_getW (wp_bind (wp_getU (wp_bind (wp_dbFound fun known hknown => ?_)))))
    refine wp_whenever (fun _ => ?_) fun _ => hw
    refine wp_whenever (fun hsome => ?_) fun _ => hw
    have hne : known ≠ none := Option.isSome_iff_ne_none.mp hsome
    have hcred : Credited (w.uTab n).nickname (getU n w).2 :=
      Whole.credited (w := (getU n w).2) hw (by decide) hne (hknown hne).2
    have hset (v : Bytes) : Within (Keep (Credited (w.uTab n).nickname))
        (dbSet (w.uTab n).nickname "signoff" v) :=
      Credited.dbSet (fits_record (by decide) (by decide))
    exact ((hset _).within _ hcred).whole

omit [Env] in
/-- The next letter fits the mailbox. -/
theorem next_letter {db : Bytes → Option Bytes} {user : Bytes} (hw : Whole db) {stored : Option Bytes}
    (hstored : stored ≠ none → db (dbKey user "nummsg") = stored)
    (hroom : ¬ toInt32 (atoi (stored.getD (str "0")) + 1) > maxWrites) :
    ∃ k : Nat, (1 ≤ k ∧ k ≤ maxWrites) ∧ toInt32 (atoi (stored.getD (str "0")) + 1) = (k : Int) := by
  obtain ⟨j, hj, heq⟩ : ∃ j : Nat, j ≤ maxWrites ∧ atoi (stored.getD (str "0")) = (j : Int) := by
    cases stored with
    | none => exact ⟨0, Nat.zero_le _, by decide⟩
    | some v =>
      obtain ⟨j, hj, rfl⟩ := hw.count user v (hstored nofun)
      exact ⟨j, hj, atoi_counter hj⟩
  have hnext : toInt32 ((j : Int) + 1) = (j + 1 : Nat) := by
    unfold toInt32
    unfold maxWrites at hj
    omega
  rw [heq, hnext] at hroom
  rw [heq, hnext]
  exact ⟨j + 1, by omega, rfl⟩

/-- A message is left for a nick that is in the database. -/
instance {user message : Bytes} : Within KeepsWhole (nickwritemsg n user message) where
  within w hw := by
    show wp (nickwritemsg n user message) (fun _ w' => Whole w'.db) w
    refine wp_bind (wp_getW (wp_bind (wp_getU (wp_bind (wp_dbFound fun known hknown => ?_)))))
    refine wp_bind (wp_dbFound fun stored hstored => ?_)
    have hkeep {x : W Unit} [Within KeepsWhole x] : wp x (fun _ w' => Whole w'.db) (getU n w).2 :=
      Within.wp KeepsWhole fun _ _ h => h hw
    refine wp_ite (fun _ => hkeep) fun _ => wp_ite (fun _ => hkeep) fun _ => ?_
    refine wp_ite (fun _ => hkeep) fun hne => wp_ite (fun _ => hkeep) fun hroom => ?_
    obtain ⟨k, hk, hcount⟩ := next_letter hw (fun h => (hstored h).2) hroom
    rw [hcount]
    have hcred : Credited user (getU n w).2 :=
      Whole.credited (w := (getU n w).2) hw (by decide) hne (hknown hne).2
    have (v : Bytes) : Within (Keep (Credited user)) (dbSet user (numbered "header" k) v) :=
      Credited.dbSet (fits_part (p := .header) hk)
    have (v : Bytes) : Within (Keep (Credited user)) (dbSet user (numbered "from" k) v) :=
      Credited.dbSet (fits_part (p := .sender) hk)
    have (v : Bytes) : Within (Keep (Credited user)) (dbSet user (numbered "message" k) v) :=
      Credited.dbSet (fits_part (p := .text) hk)
    have : Within (Keep (Credited user)) (dbSet user "nummsg" (decimal k)) :=
      Credited.dbSet (fits_count ⟨k, hk.2, rfl⟩)
    exact Within.wp (Keep (Credited user)) fun _ _ h => (h hcred).whole

instance {oldpw newpw : Bytes} : Within KeepsWhole (nickchpass n oldpw newpw) where
  within w hw := by
    show wp (nickchpass n oldpw newpw) (fun _ w' => Whole w'.db) w
    refine wp_bind (wp_getU (wp_bind (wp_dbFound fun v hv => ?_)))
    have hkeep {x : W Unit} [Within KeepsWhole x] : wp x (fun _ w' => Whole w'.db) (getU n w).2 :=
      Within.wp KeepsWhole fun _ _ h => h hw
    refine wp_ite (fun _ => hkeep) fun hright => wp_ite (fun _ => hkeep) fun _ => ?_
    have hne : v ≠ none := by
      rw [not_not.mp hright]
      nofun
    have hcred : Credited (w.uTab n).nickname (getU n w).2 :=
      Whole.credited (w := (getU n w).2) hw (by decide) hne (hv hne).2
    have (v : Bytes) : Within (Keep (Credited (w.uTab n).nickname))
        (dbSet (w.uTab n).nickname "password" v) :=
      Credited.dbSet (fits_record (by decide) (by decide))
    have (v : Bytes) : Within (Keep (Credited (w.uTab n).nickname))
        (dbSet (w.uTab n).nickname "home" v) :=
      Credited.dbSet (fits_record (by decide) (by decide))
    exact Within.wp (Keep (Credited (w.uTab n).nickname)) fun _ _ h => (h hcred).whole

/-- Registration leaves a record, and the caller entitled to it if he is told so. -/
theorem nickwrite_entitled (hw : Whole w.db) (password : Bytes) (verifyOnly : Bool) :
    wp (nickwrite n password verifyOnly)
      (fun ok w' => Whole w'.db ∧ (ok = true → Entitled n (w.uTab n).nickname w')) w := by
  have hrefuse {x : W Bool} [Within KeepsWhole x] (hfalse : ∀ t, (x t).1 = false) :
      wp x (fun ok w' => Whole w'.db ∧ (ok = true → Entitled n (w.uTab n).nickname w')) (getU n w).2 := by
    refine ⟨Within.within (R := KeepsWhole) (getU n w).2 hw, fun hok => ?_⟩
    rw [hfalse] at hok
    cases hok
  have haccept {x : W Bool} [Within (Keep (Entitled n (w.uTab n).nickname)) x] {t : World}
      (ht : Entitled n (w.uTab n).nickname t) :
      wp x (fun ok w' => Whole w'.db ∧ (ok = true → Entitled n (w.uTab n).nickname w')) t :=
    Within.wp (Keep (Entitled n (w.uTab n).nickname)) fun _ _ h => ⟨(h ht).whole, fun _ => h ht⟩
  refine wp_bind (wp_getU (wp_bind (wp_dbFound fun v hv => ?_)))
  refine wp_ite (fun _ => hrefuse fun _ => rfl) fun _ => wp_ite (fun _ => ?_) fun hne => ?_
  · refine wp_ite (fun _ => hrefuse fun _ => rfl) fun _ => wp_after ?_
    -- the password comes first
    have hfirst : Entitled n (w.uTab n).nickname
        (dbSet (w.uTab n).nickname "password" (cutPassword password) (getU n w).2).2 := by
      unfold dbSet
      split
      · have hback : Backed (Function.update w.db (dbKey (w.uTab n).nickname "password")
            (some (cutPassword password))) (w.uTab n).nickname := by
          right
          rw [Function.update_self]
          rfl
        exact ⟨⟨hw.set (fits_record (by decide) (by decide)) hback, fun _ => hback⟩, rfl⟩
      next hclosed => exact ⟨⟨hw, fun hopen => absurd hopen hclosed⟩, rfl⟩
    have (v : Bytes) : Within (Keep (Entitled n (w.uTab n).nickname))
        (dbSet (w.uTab n).nickname "nick" v) :=
      Entitled.dbSet (fits_record (by decide) (by decide))
    have (v : Bytes) : Within (Keep (Entitled n (w.uTab n).nickname))
        (dbSet (w.uTab n).nickname "home" v) :=
      Entitled.dbSet (fits_record (by decide) (by decide))
    exact haccept hfirst
  · refine wp_ite (fun _ => hrefuse fun _ => rfl) fun _ => ?_
    have hcred : Credited (w.uTab n).nickname (getU n w).2 :=
      Whole.credited (w := (getU n w).2) hw (by decide) hne (hv hne).2
    exact haccept ⟨hcred, rfl⟩

instance {password : Bytes} {verifyOnly : Bool} : Within KeepsWhole (nickwrite n password verifyOnly) where
  within _ hw := (nickwrite_entitled hw password verifyOnly).1

/-- A record is found under its address. -/
theorem nicklookup_found (m : Int) (nick : Bytes) :
    wp (nicklookup m nick) (fun r _ => r = 0 → w.sys.dbOpens = true ∧ (w.db (dbKey nick "home")).isSome)
      w := by
  refine wp_bind (wp_dbFound fun home hhome => ?_)
  have hfound (hsome : home.isSome) : w.sys.dbOpens = true ∧ (w.db (dbKey nick "home")).isSome := by
    obtain ⟨hopen, heq⟩ := hhome (Option.isSome_iff_ne_none.mp hsome)
    exact ⟨hopen, heq ▸ hsome⟩
  have hno : (-1 : Int) ≠ 0 := by decide
  refine wp_ite (fun _ => wp_after fun h => absurd h hno) fun _ => ?_
  refine wp_ite (fun _ => wp_after fun h => absurd h hno) fun _ => ?_
  refine wp_ite (fun hsome => ?_) fun _ => wp_after fun h => absurd h hno
  exact wp_ite (fun _ => wp_after fun _ => hfound hsome) fun _ => wp_after (wp_after fun _ => hfound hsome)

instance : Within (Keep (Entitled n nick)) (autoRegister n) := by
  unfold autoRegister
  infer_instance

/-- The silent check of a record lets in only who has one. -/
theorem nicklookup_entitled (hw : Whole w.db) (m : Int) :
    wp (nicklookup m (w.uTab n).nickname)
      (fun r w' => Whole w'.db ∧ (r = 0 → Entitled n (w.uTab n).nickname w') ∧ Stilly w w') w := by
  have hS : Stilly w (nicklookup m (w.uTab n).nickname w).2 := Within.within w
  have hfound := nicklookup_found (w := w) m (w.uTab n).nickname
  unfold wp at hfound ⊢
  refine ⟨hS.db ▸ hw, fun hr => ⟨⟨hS.db ▸ hw, fun _ => ?_⟩, ?_⟩, hS⟩
  · rw [hS.db]
    exact hw.backed (by decide) (hfound hr).2
  · exact congrArg UserId.nickname (hS.users n)

instance : Within KeepsWhole (authenticate n) where
  within w hw := by
    show wp (authenticate n) (fun _ w' => Whole w'.db) w
    have hkeep {x : W Unit} [Within KeepsWhole x] {t : World} (ht : Whole t.db) :
        wp x (fun _ w' => Whole w'.db) t := Within.wp KeepsWhole fun _ _ h => h ht
    have hauto {t : World} (ht : Entitled n (w.uTab n).nickname t) :
        wp (autoRegister n) (fun _ w' => Whole w'.db) t :=
      Within.wp (Keep (Entitled n (w.uTab n).nickname)) fun _ _ h => (h ht).whole
    have hlookup : wp (nicklookup (-n) (w.uTab n).nickname) _ (getU n w).2 :=
      nicklookup_entitled (w := (getU n w).2) hw (-n)
    refine wp_bind (wp_getU (wp_bind (wp_mono hlookup fun ret t ⟨ht, hret, hS⟩ => wp_bind ?_)))
    refine wp_ite (fun hask => ?_) fun hno => wp_pure (wp_bind ?_)
    · have hnick : (t.uTab n).nickname = (w.uTab n).nickname := congrArg UserId.nickname (hS.users n)
      refine wp_mono (nickwrite_entitled ht _ _) fun ok t₁ ⟨ht₁, hok⟩ => wp_bind ?_
      rw [hnick] at hok
      cases ok with
      | true =>
        refine wp_whenever (fun h => absurd h.2 (by decide)) fun _ => ?_
        exact wp_ite (fun _ => hauto (hok rfl)) fun h => absurd (.inr rfl) h
      | false =>
        refine Within.wp KeepsWhole fun _ t₂ h₂ => wp_ite (fun h => ?_) fun _ => hkeep (h₂ ht₁)
        rw [hask.1] at h
        exact absurd h (by decide)
    · by_cases hzero : ret = 0
      · refine Within.wp (Keep (Entitled n (w.uTab n).nickname)) fun _ t₁ h₁ => ?_
        exact wp_ite (fun _ => hauto (h₁ (hret hzero))) fun h => absurd (.inl hzero) h
      · refine Within.wp KeepsWhole fun _ t₁ h₁ => ?_
        exact wp_ite (fun h => absurd h (by simp [hzero])) fun _ => hkeep (h₁ ht)

instance : Within KeepsWhole (nameStatus n) where
  within w hw := by
    show wp (nameStatus n) (fun _ w' => Whole w'.db) w
    have hkeep {x : W Unit} [Within KeepsWhole x] {t : World} (ht : Whole t.db) :
        wp x (fun _ w' => Whole w'.db) t := Within.wp KeepsWhole fun _ _ h => h ht
    have hnick : ((setRealname n [] (getU n w).2).2.uTab n).nickname = (w.uTab n).nickname := by
      simp [setRealname, World.modU, getU]
    have hlookup := nicklookup_entitled (n := n) (w := (setRealname n [] (getU n w).2).2) hw (-n)
    rw [hnick] at hlookup
    refine wp_bind (wp_getU (wp_after (wp_bind (wp_mono hlookup fun ret t ⟨ht, hret, _⟩ => ?_))))
    refine wp_ite (fun hzero => ?_) fun _ => wp_ite (fun _ => hkeep ht) fun _ => hkeep ht
    exact Within.wp (Keep (Entitled n (w.uTab n).nickname)) fun _ _ h => (h (hret hzero)).whole

/-! ## §4 — a deletion -/

/-- Nothing is stored. -/
def Shrinks (w w' : World) : Prop := ∀ key, (w'.db key).isSome → w'.db key = w.db key

omit [Env] in
theorem Shrinks.same {w' : World} (h : w'.db = w.db) : Shrinks w w' := fun _ _ => by rw [h]

instance : Base Shrinks where
  refl _ _ _ := rfl
  trans _ _ _ h₁ h₂ key hsome := by
    have heq := h₂ key hsome
    exact heq.trans (h₁ key (heq ▸ hsome))
  misc _ _ := .same rfl

instance : Posts Shrinks where
  toPlain _ := ⟨fun _ _ _ => .same rfl⟩

instance {attr : String} : Within Shrinks (dbDelete nick attr) where
  within w key hsome := by
    unfold dbDelete at hsome ⊢
    split at hsome
    · by_cases hkey : key = dbKey nick attr
      · subst hkey
        simp at hsome
      · rw [if_pos ‹_›]
        exact Function.update_of_ne hkey _ _
    · rw [if_neg ‹_›]

/-- A deletion takes the whole record. -/
instance {password : Bytes} : Within KeepsWhole (nickdelete n password) where
  within w hw := by
    by_cases hdel : deletes w n password ∧ w.sys.dbOpens = true
    case neg =>
      show wp (nickdelete n password) (fun _ w' => Whole w'.db) w
      have hkeep {x : W Unit} [Within KeepsWhole x] : wp x (fun _ w' => Whole w'.db) (getU n w).2 :=
        Within.wp KeepsWhole fun _ _ h => h hw
      refine wp_bind (wp_getU (wp_bind (wp_dbFound fun v hv => ?_)))
      refine wp_ite (fun _ => hkeep) fun hpass => wp_ite (fun _ => hkeep) fun hreg => ?_
      refine wp_ite (fun _ => hkeep) fun hne => wp_ite (fun _ => hkeep) fun hright => ?_
      obtain ⟨hopen, hstored⟩ := hv hne
      exact absurd ⟨⟨hpass, hreg, hstored.trans (not_not.mp hright)⟩, hopen⟩ hdel
    obtain ⟨hdel, hopen⟩ := hdel
    have hshrinks : Shrinks w (nickdelete n password w).2 := by
      have : Within Shrinks (nickdelete n password) := by
        unfold nickdelete
        infer_instance
      exact this.within w
    have hothers : Outside (w.uTab n).nickname AccountAttr w (nickdelete n password w).2 :=
      ((nickdelete_owns password (fun _ => .inl) fun p k _ _ => .inr ⟨p, k, rfl⟩).within w rfl).2
    -- what is left belongs to somebody else
    have hgone {nick : Bytes} {attr : String} (hlisted : Listed attr)
        (hsome : ((nickdelete n password w).2.db (dbKey nick attr)).isSome) :
        lcaseit nick ≠ lcaseit (w.uTab n).nickname := by
      intro heq
      rw [dbKey_congr heq] at hsome
      rcases hlisted with hattr | ⟨p, k, hk, rfl⟩
      · rw [nickdelete_record hopen rfl hdel hattr] at hsome
        cases hsome
      · have hletter := nickdelete_letter (p := p) hopen rfl hdel hk
        rw [partKey] at hletter
        rw [hletter] at hsome
        cases hsome
    refine ⟨fun key hsome => ?_, fun nick v hv => ?_⟩
    · obtain ⟨nick, attr, rfl, hlisted, hback⟩ := hw.owned key (hshrinks key hsome ▸ hsome)
      refine ⟨nick, attr, rfl, hlisted, hback.imp_right fun hpass => ?_⟩
      rw [hothers _ fun attr' hattr' => dbKey_ne (.inl (by decide)) hattr' (hgone hlisted hsome)]
      exact hpass
    · refine hw.count nick v ?_
      rw [← hshrinks _ (by rw [hv]; rfl)]
      exact hv

/-! ## §5 — the commands that look at the entry only -/

/-- Does the command store into the caller's record without looking for it? -/
def AutoCmd.blind (arg : Bytes) : AutoCmd → Bool
  | .read | .secure => true
  | .real | .text | .addr | .phone | .email | .www => arg ≠ []
  | _ => false

/-- If `n` is registered, his record has a password. -/
def HasRecord (w : World) (n : Int) : Prop :=
  (w.uTab n).realname ≠ [] → w.sys.dbOpens = true → Backed w.db (w.uTab n).nickname

omit [Env] in
/-- What needs a record is done by those who have one, and refused to the others. -/
theorem Whole.of_record {x : W Unit} (hw : Whole w.db) (h : HasRecord w n)
    (hx : Within (Keep (Entitled n (w.uTab n).nickname)) x)
    (hnil : (w.uTab n).realname = [] → Whole (x w).2.db) : Whole (x w).2.db := by
  by_cases hreal : (w.uTab n).realname = []
  · exact hnil hreal
  · exact (hx.within w ⟨⟨hw, h hreal⟩, rfl⟩).whole

theorem setsecure_whole (hw : Whole w.db) (h : HasRecord w n) (secure : Bool) :
    Whole (setsecure n secure w).2.db := by
  refine hw.of_record h inferInstance fun hnil => ?_
  show wp (setsecure n secure) (fun _ w' => Whole w'.db) w
  refine wp_bind (wp_getU ?_)
  rw [if_pos hnil]
  exact Within.within (R := KeepsWhole) _ hw

/-- Security may be given up without a record. -/
instance : Within KeepsWhole (setsecure n false) where
  within w hw := by
    show wp (setsecure n false) (fun _ w' => Whole w'.db) w
    have hkeep {x : W Unit} [Within KeepsWhole x] {t : World} (ht : Whole t.db) :
        wp x (fun _ w' => Whole w'.db) t := Within.wp KeepsWhole fun _ _ h => h ht
    refine wp_bind (wp_getU (wp_ite (fun _ => hkeep hw) fun _ => wp_after (hkeep ?_)))
    unfold dbDelete
    split
    · exact hw.delete (passwordKey_ne (by decide) (by decide))
    · exact hw

theorem setInfo_whole {tag : String} (htag : tag ∈ recordKeys) (hne : tag ≠ "nummsg")
    (hw : Whole w.db) (max : Nat) (message usage : String) {arg : Bytes}
    (h : arg ≠ [] → HasRecord w n) : Whole (setInfo n tag max message usage arg w).2.db := by
  unfold setInfo
  split
  · exact Within.within (R := KeepsWhole) w hw
  next harg =>
    refine hw.of_record (h harg) (nickchinfo_entitled htag hne ..) fun hnil => ?_
    show wp (nickchinfo n tag arg max (str message)) (fun _ w' => Whole w'.db) w
    refine wp_bind (wp_getU ?_)
    rw [if_pos hnil]
    exact Within.within (R := KeepsWhole) _ hw

theorem autoArg_whole (hw : Whole w.db) {arg : Bytes} {c : AutoCmd}
    (h : c.blind arg → HasRecord w n) : Whole (autoArg n arg c w).2.db := by
  have hblind (hne : arg ≠ []) : decide (arg ≠ []) = true := decide_eq_true hne
  cases c with
  | real => exact setInfo_whole (by decide) (by decide) hw _ _ _ fun hne => h (hblind hne)
  | text => exact setInfo_whole (by decide) (by decide) hw _ _ _ fun hne => h (hblind hne)
  | addr => exact setInfo_whole (by decide) (by decide) hw _ _ _ fun hne => h (hblind hne)
  | phone => exact setInfo_whole (by decide) (by decide) hw _ _ _ fun hne => h (hblind hne)
  | email => exact setInfo_whole (by decide) (by decide) hw _ _ _ fun hne => h (hblind hne)
  | www => exact setInfo_whole (by decide) (by decide) hw _ _ _ fun hne => h (hblind hne)
  | _ =>
    unfold autoArg
    exact Within.within (R := KeepsWhole) w hw

theorem nickreadmsg_whole {cmd : Int → Bytes → M Unit} {d : Daemon} (hw : Whole d.w.db)
    (h : HasRecord d.w n) (hread : Entitled n (d.w.uTab n).nickname d.w → Whole (nickreadmsg cmd n d).2.w.db) :
    Whole (nickreadmsg cmd n d).2.w.db := by
  by_cases hreal : (d.w.uTab n).realname = []
  · show wp (nickreadmsg cmd n) (fun _ d' => Whole d'.w.db) d
    refine wp_bind (wp_onWorld (wp_getU (wp_bind (wp_onWorld (wp_dbFound fun _ _ => ?_)))))
    rw [if_pos hreal]
    exact wp_onWorld (Within.within (R := KeepsWhole) _ hw)
  · exact hread ⟨⟨hw, h hreal⟩, rfl⟩

/-! ## §6 — packets -/

/-- The command of a packet stores into the caller's record without looking for it. -/
def storesBlindly (d : Daemon) (n : Int) (contents : Bytes) : Prop :=
  ∃ c ∈ finalCommand d.w n (cstr contents).length (d.fields 1) (pktText contents),
    commandOf c.1 = .other ∧ lookup ((splitFields c.1).getD 0 []) autoTable ≥ 0 ∧ (autoOf c.1).blind c.2

/-- The packet is a command of somebody registered that stores into his record, and there is none. -/
def Revives (d : Daemon) (n : Int) (contents : Bytes) : Prop :=
  (cstr contents).head? = some pktCommand ∧ (d.w.uTab n).realname ≠ [] ∧ d.w.sys.dbOpens = true ∧
    ¬ ownRecord (d.w.uTab n).nickname ∧ d.w.db (dbKey (d.w.uTab n).nickname "password") = none ∧
    storesBlindly d n contents

omit [Env] in
theorem Prelude.hasRecord {w' : World} (hP : Prelude w w') (h : HasRecord w n) : HasRecord w' n := by
  have hid := hP.stilly.users n
  intro hreal hopen
  rw [hP.db, congrArg UserId.nickname hid]
  refine h ?_ (hP.sys ▸ hopen)
  rwa [← congrArg UserId.realname hid]

theorem cmdmsg_whole {d : Daemon} {contents : Bytes} (hn : inUsers n)
    (hout : (d.w.uTab (-1)).login ≠ .complete) (hw : Whole d.w.db)
    (h : storesBlindly d n contents → HasRecord d.w n) :
    Whole (cmdmsg (cstr contents).length n (pktText contents) d).2.w.db := by
  have hstill {d' : Daemon} (hP : Prelude d.w d'.w) :
      n < maxRealUsers ∨ (d'.w.uTab (-1)).login ≠ .complete := by
    refine .inr fun hc => hout ?_
    rw [← hc]
    exact (congrArg UserId.login (hP.stilly.users (-1))).symm
  have hset {nick : Bytes} : Within (Keep (Entitled n nick)) (dbSet nick "nummsg" (str "0")) :=
    Entitled.dbSet (fits_count counts_zero)
  have hdelete {nick : Bytes} (p : Part) (k : Int) :
      Within (Keep (Entitled n nick)) (dbDelete nick (numbered p.base k)) :=
    Entitled.dbDelete (passwordKey_ne_part p k)
  refine cmdmsg_final (R := KeepsWhole) hn ?_ ?_ hw
  · rintro c hc ⟨hother, hauto, hread⟩ depth d' hP hw'
    have hrec := h ⟨c, hc, hother, hauto, by rw [hread]; rfl⟩
    exact nickreadmsg_whole hw' (hP.hasRecord hrec) fun hent =>
      (nickreadmsg_asleep depth hset hdelete rfl (hstill hP) hent).whole
  intro c hc hm d' hP hr _
  show wp (runCommand noCmd n (splitCount c.1) (commandOf c.1)) (fun _ t => KeepsWhole d'.w t.w) d'
  by_cases hother : commandOf c.1 = .other
  · have hrec (hauto : lookup ((splitFields c.1).getD 0 []) autoTable ≥ 0)
        (hblind : (autoOf c.1).blind c.2) : HasRecord d'.w n :=
      hP.hasRecord (h ⟨c, hc, hother, hauto, hblind⟩)
    rw [hother]
    refine other_wp (R := KeepsWhole) hr (fun _ _ h => h) (fun hauto _ => ?_) fun hauto _ => ?_
    · exact fun t' ht' hw' => ht' (autoArg_whole hw' (hrec hauto))
    · suffices hplain : KeepsWhole d'.w (autoPlain noCmd n (autoOf c.1) d').2.w from
        fun t' ht' hw' => ht' (hplain hw')
      intro hw'
      cases hwho : autoOf c.1 with
      | read =>
        refine nickreadmsg_whole hw' (hrec hauto (by rw [hwho]; rfl)) fun hent => ?_
        exact (nickreadmsg_rel (fun _ => inferInstance) hset hdelete rfl hent).whole
      | secure => exact setsecure_whole hw' (hrec hauto (by rw [hwho]; rfl)) true
      | _ =>
        unfold autoPlain
        exact Within.within (R := OnWorld KeepsWhole) d' hw'
  · have hwithin : Within (OnWorld KeepsWhole)
        (runCommand noCmd n (splitCount c.1) (commandOf c.1)) := by
      apply runCommand_within
      rintro (hpass | hname | h)
      · rw [hpass]
        unfold runCommand
        infer_instance
      · rw [hname]
        unfold runCommand
        infer_instance
      · exact absurd h hother
    exact hwithin.within d'

/-- **A packet leaves no orphans** unless it is a command of somebody registered that stores into a
record he does not have. -/
theorem dispatch_whole {d : Daemon} {contents : Bytes} (hn : inUsers n)
    (hout : (d.w.uTab (-1)).login ≠ .complete) (hw : Whole d.w.db) (h : ¬ Revives d n contents) :
    Whole (dispatch n contents d).2.w.db := by
  have hkeep {x : M Unit} [Within (OnWorld KeepsWhole) x] : wp x (fun _ d' => Whole d'.w.db) d :=
    Within.within (R := OnWorld KeepsWhole) d hw
  show wp (dispatch n contents) (fun _ d' => Whole d'.w.db) d
  refine wp_ite (fun htype => ?_) fun _ => wp_ite (fun _ => hkeep) fun _ => wp_ite (fun htype => ?_) fun _ => ?_
  · exact loginCase_rel (R := KeepsWhole) htype (fun _ _ => Within.within _) hw
  · refine cmdmsg_whole hn hout hw fun hblind hreal hopen => ?_
    by_contra hno
    obtain ⟨hown, hpass⟩ := not_or.mp hno
    exact h ⟨htype, hreal, hopen, hown, Option.not_isSome_iff_eq_none.mp hpass, hblind⟩
  · exact wp_ite (fun _ => hkeep) fun _ => wp_ite (fun _ => hkeep) fun _ => hkeep

/-! ## §7 — runs -/

/-- The states reached from a given one by events that all satisfy a condition, and that come back. -/
inductive Reaches (P : Host → Sys → Event → Prop) (h₀ : Host) : Host → Prop
  | refl : Reaches P h₀ h₀
  | step {h h' : Host} {sys : Sys} {e : Event} :
      Reaches P h₀ h → P h sys e → Step h sys e h' → h'.w.live → Reaches P h₀ h'

theorem Reaches.reachable {P : Host → Sys → Event → Prop} {h₀ h : Host} (h₀r : Reachable P h₀)
    (hr : Reaches P h₀ h) : Reachable P h := by
  induction hr with
  | refl => exact h₀r
  | step _ hp hs hl ih => exact ih.step hp hs hl

/-- A list of events is a run. -/
theorem Reaches.run {P : Host → Sys → Event → Prop} {sys : Sys} {h₀ h : Host} {es : List Event}
    (hr : Reaches P h₀ h) (hf : h.follows P sys es) : Reaches P h₀ (h.run sys es) := by
  induction es generalizing h with
  | nil => exact hr
  | cons e es ih =>
    obtain ⟨hp, hl, he, hl', hf⟩ := hf
    exact ih (hr.step hp ⟨hl, he, rfl⟩ hl') hf

/-- No packet stores into a record that is not there; nothing is asked of other events. -/
def RecordStands (h : Host) (sys : Sys) : Event → Prop
  | .packet n contents => ¬ Revives (h.toDaemon.at sys) n contents
  | _ => True

theorem startup_whole (sys : Sys) : Whole (startup sys fun _ => none).db := by
  show wp (do
    fillUserEntry nickserv (str "server") Env.thishost (str "Server") [] (str "ICB") [] .complete 0 1 0
    modUOpts nickserv fun o => { o with tOn := sys.now, tRecv := sys.now }
    setRealname nickserv registered
    fillGroupEntry 0 (str "ICB") (str "...here to serve you!") .supersecret .restricted nickserv .quiet
    nickwritetime nickserv false) (fun _ w => Whole w.db) _
  refine wp_after (wp_after (wp_after (wp_after (Within.wp (Keep (Entitled nickserv (str "Server")))
    fun _ _ hkeep => (hkeep ⟨⟨.empty, fun _ => .inl rfl⟩, ?_⟩).whole))))
  simp [fillGroupEntry, fillUserEntry, setIdent, setNickname, setUserGroup, setLogin, setRealname,
    setGroupName, setMod, modGOpts, modUOpts, World.modU, World.modG]
  decide

/-- **No orphan records.** From an empty database on, a nick with an attribute has a password in every
state reached, as long as no registered user without a record has one of the commands carried out that
store into it unseen. -/
theorem no_orphans {sys : Sys} {h : Host}
    (hr : Reaches RecordStands { w := startup sys fun _ => none } h) : NoOrphans h.w.db := by
  suffices hw : Whole h.w.db from hw.noOrphans
  induction hr with
  | refl => exact startup_whole sys
  | @step h _ sys' e hr hp hs _ ih =>
    obtain ⟨-, he, rfl⟩ := hs
    obtain ⟨hinside, hopened⟩ := (hr.reachable (.start sys _)).inside
    cases e with
    | packet n contents =>
      refine dispatch_whole (d := h.toDaemon.at sys') (hopened n he) (fun hc => ?_) ih hp
      exact absurd (hinside (-1) (by rw [show (h.w.uTab (-1)).login = .complete from hc]; decide))
        (by simp [inUsers])
    | connect n secure remote => exact Within.within (R := KeepsWhole) _ ih
    | lost n => exact Within.within (R := KeepsWhole) _ ih
    | didpoll => exact Within.within (R := KeepsWhole) _ ih

instance (c : Bytes × Bytes) : Decidable (commandOf c.1 = .other ∧
    lookup ((splitFields c.1).getD 0 []) autoTable ≥ 0 ∧ (autoOf c.1).blind c.2) :=
  inferInstanceAs (Decidable (_ ∧ _))

instance (d : Daemon) (n : Int) (contents : Bytes) : Decidable (storesBlindly d n contents) := by
  unfold storesBlindly
  infer_instance

instance (d : Daemon) (n : Int) (contents : Bytes) : Decidable (Revives d n contents) :=
  inferInstanceAs (Decidable (_ ∧ _))

instance (h : Host) (sys : Sys) : (e : Event) → Decidable (RecordStands h sys e)
  | .connect .. | .packet .. | .lost _ | .didpoll => by dsimp only [RecordStands]; infer_instance

end

section
attribute [local instance] smallEnv

/-- `al` registers and goes on. -/
def registeredAl (es : List Event) : List Event :=
  [.connect 1 false none, .packet 1 (loginPkt "one" "al" "x" ""), .packet 1 (cmdPkt "p" "pw")] ++ es

/-- `al` asks for security and has a password. -/
theorem no_orphans_al :
    let h := Host.run {} { w := startup {} fun _ => none } (registeredAl [.packet 1 (cmdPkt "secure" "")])
    (h.w.db (dbKey (str "al") "secure")).isSome ∧ (h.w.db (dbKey (str "al") "password")).isSome := by
  intro h
  have hrun : Host.follows RecordStands {} { w := startup {} fun _ => none }
      (registeredAl [.packet 1 (cmdPkt "secure" "")]) := by decide +kernel
  have hsome : (h.w.db (dbKey (str "al") "secure")).isSome := by decide +kernel
  have hno : NoOrphans h.w.db := no_orphans (.run .refl hrun)
  exact ⟨hsome, hno (str "al") "secure" (by decide) (by decide) hsome⟩

/-- `al` deletes his record and then asks for security: that is all there is in his record. -/
theorem deleted_record_revived : ∃ h : Host,
    Reaches (fun _ _ _ => True) { w := startup {} fun _ => none } h ∧ ¬ NoOrphans h.w.db := by
  have hrun : Host.leads (fun _ _ _ => True) {} (fun h => (h.w.db (dbKey (str "al") "secure")).isSome ∧
      (h.w.db (dbKey (str "al") "password")).isSome = false) { w := startup {} fun _ => none }
      (registeredAl [.packet 1 (cmdPkt "delete" "pw"), .packet 1 (cmdPkt "secure" "")]) := by
    decide +kernel
  obtain ⟨hf, hsome, hnone⟩ := Host.leads_iff.mp hrun
  refine ⟨_, .run .refl hf, fun hno => ?_⟩
  exact absurd (hno (str "al") "secure" (by decide) (by decide) hsome) (ne_true_of_eq_false hnone)

end

end Icbd.Server
