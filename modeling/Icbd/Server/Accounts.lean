/-
# Icbd.Server.Accounts — whose record a function of `access.c` can change.

All records share one flat space of keys `nick.attribute`. The functions build every key from the
caller's own nickname, or from the name of the addressee for a message that is left, and their
attributes have no dot: so what stands before the last dot of a key names its owner.
-/
import Icbd.Dbm.IcbDb
import Icbd.Server.Mailbox

-- every bind doubles the size of the search's argument
set_option synthInstance.maxSize 1000000000000000000000000000000000000000000000000
set_option synthInstance.maxHeartbeats 200000

namespace Icbd.Server

open Icbd.Lib

/-! ## §1 — keys -/

/-- The attributes of a record: those `nickdelete` lists, and the numbered ones of the mailbox. -/
def AccountAttr (attr : String) : Prop :=
  attr ∈ recordKeys ∨ ∃ (p : Part) (k : Int), attr = numbered p.base k

theorem AccountAttr.dot_notMem {attr : String} (h : AccountAttr attr) : 46 ∉ str attr := by
  have hrecord : ∀ attr ∈ recordKeys, 46 ∉ str attr := by decide
  rcases h with hmem | ⟨p, k, rfl⟩
  · exact hrecord attr hmem
  · exact dot_notMem_numbered p k

/-- **Two nicknames share no key**, dots or not. -/
theorem dbKey_ne {nick nick' : Bytes} {attr attr' : String} (h : AccountAttr attr)
    (h' : AccountAttr attr') (hne : lcaseit nick ≠ lcaseit nick') :
    dbKey nick attr ≠ dbKey nick' attr' :=
  fun heq => hne (dbKey_inj h.dot_notMem h'.dot_notMem heq).1

/-- A key that fits the buffer of `icbdb_make_key` is not cut. -/
theorem icbdbMakeKey_eq {nick : Bytes} {attr : String}
    (hfits : nick.length + 1 + (str attr).length < Dbm.dblksiz) :
    Dbm.icbdbMakeKey (some nick) (str attr) = dbKey nick attr := by
  have hlen : (nick ++ str "." ++ str attr).length ≤ Dbm.dblksiz - 1 := by
    have hdot : (str ".").length = 1 := rfl
    rw [List.length_append, List.length_append, hdot]
    omega
  simp only [Dbm.icbdbMakeKey, snprintf, List.take_of_length_le hlen, dbKey]

/-! ## §2 — one record -/

/-- Only these attributes of the record of `nick` change. -/
def Outside (nick : Bytes) (A : String → Prop) (w w' : World) : Prop :=
  ∀ key, (∀ attr, A attr → key ≠ dbKey nick attr) → w'.db key = w.db key

/-- The same for what is done in the name of slot `n`, as long as `n` is `nick`; and `n` stays
`nick`. -/
def Owns (n : Int) (nick : Bytes) (A : String → Prop) (w w' : World) : Prop :=
  (w.uTab n).nickname = nick → (w'.uTab n).nickname = nick ∧ Outside nick A w w'

section
variable {n i : Int} {nick v : Bytes} {A : String → Prop} {attr : String}

instance : Base (Outside nick A) where
  refl _ _ _ := rfl
  trans _ _ _ h₁ h₂ key hkey := (h₂ key hkey).trans (h₁ key hkey)
  misc _ _ _ _ := rfl

instance : Posts (Outside nick A) where
  toPlain _ := ⟨fun _ _ _ _ _ => rfl⟩

instance : Base (Owns n nick A) where
  refl w hn := ⟨hn, refl_of _ w⟩
  trans _ _ _ h₁ h₂ hn := ⟨(h₂ (h₁ hn).1).1, trans_of (Outside nick A) (h₁ hn).2 (h₂ (h₁ hn).1).2⟩
  misc _ _ hn := ⟨hn, fun _ _ => rfl⟩

/-- A write to the user table that leaves the nickname of `n` alone. -/
theorem Owns.modU {w : World} {f : User → User} (hf : ∀ u, (f u).nickname = u.nickname) :
    Owns n nick A w (w.modU i f) := by
  refine fun hn => ⟨?_, fun _ _ => rfl⟩
  by_cases hi : n = i
  · subst hi
    simpa [World.modU, hf] using hn
  · simpa [World.modU, Function.update_of_ne hi] using hn

instance : Still (Owns n nick A) where
  drops _ _ hn := ⟨hn, fun _ _ => rfl⟩
  toPlain _ := ⟨fun _ _ _ hn => ⟨hn, fun _ _ => rfl⟩⟩
  toUOpts _ := ⟨fun _ _ => Owns.modU fun _ => rfl⟩

instance : RealTo (Owns n nick A) i v := ⟨fun _ => Owns.modU fun _ => rfl⟩
instance : IdentTo (Owns n nick A) i := ⟨fun _ _ _ _ => Owns.modU fun _ => rfl⟩
instance : ModTo (Owns n nick A) i := ⟨fun _ _ hn => ⟨hn, fun _ _ => rfl⟩⟩
instance : MissTo (Owns n nick A) := ⟨fun _ _ _ _ hn => ⟨hn, fun _ _ => rfl⟩⟩

/-- The accesses to the database write one key and leave the tables alone. -/
theorem Outside.dbSet (h : A attr) : Within (Outside nick A) (dbSet nick attr v) where
  within w key hkey := by
    unfold Server.dbSet
    split
    · exact Function.update_of_ne (hkey attr h) _ _
    · rfl

theorem Outside.dbDelete (h : A attr) : Within (Outside nick A) (dbDelete nick attr) where
  within w key hkey := by
    unfold Server.dbDelete
    split
    · exact Function.update_of_ne (hkey attr h) _ _
    · rfl

theorem dbSet_uTab (w : World) : (dbSet nick attr v w).2.uTab = w.uTab := by
  unfold dbSet
  split <;> rfl

theorem dbDelete_uTab (w : World) : (dbDelete nick attr w).2.uTab = w.uTab := by
  unfold dbDelete
  split <;> rfl

theorem Owns.dbSet (h : A attr) : Within (Owns n nick A) (dbSet nick attr v) where
  within w hn := ⟨by rwa [dbSet_uTab], (Outside.dbSet h).within w⟩

theorem Owns.dbDelete (h : A attr) : Within (Owns n nick A) (dbDelete nick attr) where
  within w hn := ⟨by rwa [dbDelete_uTab], (Outside.dbDelete h).within w⟩

/-- The caller's own entry is the one with the nickname. -/
theorem Owns.getU [Env] {α : Type} {f : User → W α}
    (h : ∀ u, u.nickname = nick → Within (Owns n nick A) (f u)) :
    Within (Owns n nick A) (getU n >>= f) where
  within w hn := (h _ hn).within (Server.getU n w).2 hn

end

/-! ## §3 — the functions -/

section
variable [Env] {n : Int} {nick : Bytes} {A : String → Prop}

theorem setsecure_owns (secure : Bool) (h : A "secure") :
    Within (Owns n nick A) (setsecure n secure) := by
  refine Owns.getU ?_
  rintro u rfl
  have : Within (Owns n u.nickname A) (dbSet u.nickname "secure" (str "SECURED")) := Owns.dbSet h
  have : Within (Owns n u.nickname A) (dbDelete u.nickname "secure") := Owns.dbDelete h
  infer_instance

theorem nickdelete_owns (password : Bytes) (hrecord : ∀ attr ∈ recordKeys, A attr)
    (hbox : ∀ (p : Part) (k : Int), 1 ≤ k → k ≤ maxWrites → A (numbered p.base k)) :
    Within (Owns n nick A) (nickdelete n password) := by
  refine Owns.getU ?_
  rintro u rfl
  have : Within (Owns n u.nickname A) (each recordKeys fun k => dbDelete u.nickname k) :=
    Within.each fun attr hattr => Owns.dbDelete (hrecord attr hattr)
  have hpart (p : Part) {i : Int} (hi : i ∈ slots maxWrites) :
      Within (Owns n u.nickname A) (dbDelete u.nickname (numbered p.base (i + 1))) := by
    obtain ⟨h0, hlt⟩ := mem_slots.mp hi
    exact Owns.dbDelete (hbox p _ (by omega) (by omega))
  have : Within (Owns n u.nickname A) (each (slots maxWrites) fun i => do
      dbDelete u.nickname (numbered "header" (i + 1))
      dbDelete u.nickname (numbered "message" (i + 1))
      dbDelete u.nickname (numbered "from" (i + 1))) := by
    refine Within.each fun i hi => ?_
    have := hpart .header hi
    have := hpart .text hi
    have := hpart .sender hi
    simp only [Part.base] at *
    infer_instance
  infer_instance

theorem nickwritetime_owns (signoff : Bool) (hon : A "signon") (hoff : A "signoff") :
    Within (Owns n nick A) (nickwritetime n signoff) := by
  have (w : World) : Within (Owns n nick A) (do
      let u ← getU n
      let known ← dbGet u.nickname "nick"
      let time := (Env.strftime w.sys.now).take 254
      whenever (u.realname ≠ []) do
        if signoff then whenever known.isSome (dbSet u.nickname "signoff" time)
        else dbSet u.nickname "signon" time) := by
    refine Owns.getU ?_
    rintro u rfl
    have (v : Bytes) : Within (Owns n u.nickname A) (dbSet u.nickname "signon" v) := Owns.dbSet hon
    have (v : Bytes) : Within (Owns n u.nickname A) (dbSet u.nickname "signoff" v) :=
      Owns.dbSet hoff
    infer_instance
  unfold nickwritetime
  infer_instance

theorem nickchinfo_owns {tag : String} (data message : Bytes) (max : Nat) (h : A tag) :
    Within (Owns n nick A) (nickchinfo n tag data max message) := by
  refine Owns.getU ?_
  rintro u rfl
  have (v : Bytes) : Within (Owns n u.nickname A) (dbSet u.nickname tag v) := Owns.dbSet h
  infer_instance

theorem nickchpass_owns (oldpw newpw : Bytes) (hpass : A "password") (hhome : A "home") :
    Within (Owns n nick A) (nickchpass n oldpw newpw) := by
  refine Owns.getU ?_
  rintro u rfl
  have (v : Bytes) : Within (Owns n u.nickname A) (dbSet u.nickname "password" v) :=
    Owns.dbSet hpass
  have (v : Bytes) : Within (Owns n u.nickname A) (dbSet u.nickname "home" v) := Owns.dbSet hhome
  infer_instance

theorem nickckmsg_owns (h : A "nummsg") : Within (Owns n nick A) (nickckmsg n) := by
  refine Owns.getU ?_
  rintro u rfl
  have (v : Bytes) : Within (Owns n u.nickname A) (dbSet u.nickname "nummsg" v) := Owns.dbSet h
  infer_instance

/-- The attributes `nickwrite` may store, by itself or by the functions it calls. -/
def nickwriteKeys : List String := ["password", "nick", "home", "signon", "signoff", "nummsg"]

theorem nickwrite_owns (password : Bytes) (verifyOnly : Bool)
    (h : ∀ attr ∈ nickwriteKeys, A attr) :
    Within (Owns n nick A) (nickwrite n password verifyOnly) := by
  refine Owns.getU ?_
  rintro u rfl
  have (v : Bytes) : Within (Owns n u.nickname A) (dbSet u.nickname "password" v) :=
    Owns.dbSet (h "password" (by decide))
  have (v : Bytes) : Within (Owns n u.nickname A) (dbSet u.nickname "nick" v) :=
    Owns.dbSet (h "nick" (by decide))
  have (v : Bytes) : Within (Owns n u.nickname A) (dbSet u.nickname "home" v) :=
    Owns.dbSet (h "home" (by decide))
  have : Within (Owns n u.nickname A) (nickwritetime n false) :=
    nickwritetime_owns false (h "signon" (by decide)) (h "signoff" (by decide))
  have : Within (Owns n u.nickname A) (nickckmsg n) := nickckmsg_owns (h "nummsg" (by decide))
  have : Within (Owns n u.nickname A) (mailNotice n) := by
    unfold mailNotice
    infer_instance
  infer_instance

/-- Reading mail: packets, deletions under one nick, and commands in the name of slot -1. -/
theorem nickreadmsg_rel {S : World → World → Prop} [Posts S] {cmd : Int → Bytes → M Unit}
    (hcmd : ∀ text, Within (OnWorld S) (cmd (-1) text))
    (hset : Within S (dbSet nick "nummsg" (str "0")))
    (hdelete : ∀ (p : Part) (k : Int), Within S (dbDelete nick (numbered p.base k))) {d : Daemon}
    (hnick : (d.w.uTab n).nickname = nick) : S d.w (nickreadmsg cmd n d).2.w := by
  have (k : Int) : Within (OnWorld S) (readOne cmd n nick k) := by
    have := hdelete .header k
    have := hdelete .sender k
    have := hdelete .text k
    unfold readOne sendPersonStored deliver
    simp only [Part.base] at *
    infer_instance
  have hrest (u : User) (hu : u.nickname = nick) : Within (OnWorld S) (do
      let stored ← onWorld (dbGet u.nickname "nummsg")
      let count := atoi (stored.getD [])
      if u.realname = [] then
        onWorld (senderror n (str "You must be registered to read any messages."))
      else do
        if stored = none ∨ count = 0 then onWorld (senderror n (str "No messages"))
        else each ((slots (count.toNat + 1)).drop 1) (readOne cmd n u.nickname)
        onWorld (dbSet u.nickname "nummsg" (str "0"))) := by
    subst hu
    infer_instance
  have hget : S d.w (getU n d.w).2 := Within.within d.w
  exact trans_of S hget ((hrest _ hnick).within { d with w := (getU n d.w).2 })

/-- Slot -1 is not logged in or has no part in it. -/
theorem nickreadmsg_asleep {S : World → World → Prop} [Still S] (depth : Nat)
    (hset : Within S (dbSet nick "nummsg" (str "0")))
    (hdelete : ∀ (p : Part) (k : Int), Within S (dbDelete nick (numbered p.base k))) {d : Daemon}
    (hnick : (d.w.uTab n).nickname = nick)
    (hout : n < maxRealUsers ∨ (d.w.uTab (-1)).login ≠ .complete) :
    S d.w (nickreadmsg (cmdmsg depth) n d).2.w := by
  rcases hout with hreal | hidle
  · have heq : nickreadmsg (cmdmsg depth) n = nickreadmsg noCmd n := by
      unfold nickreadmsg
      rw [readOne_real _ hreal]
    rw [heq]
    exact nickreadmsg_rel (fun _ => inferInstance) hset hdelete hnick
  · have hasleep {x : W Unit} (h : Within S x) (hsame : ∀ w, (x w).2.uTab = w.uTab) :
        Within (Asleep S) x :=
      ⟨fun w hw => ⟨h.within w, by rwa [hsame w]⟩⟩
    exact (nickreadmsg_rel (S := Asleep S) (fun _ => inferInstance) (hasleep hset dbSet_uTab)
      (fun p k => hasleep (hdelete p k) dbDelete_uTab) hnick hidle).1

/-- Mail is read and forgotten under the caller's name. -/
theorem nickreadmsg_owns (depth : Nat) (hcount : A "nummsg")
    (hbox : ∀ (p : Part) (k : Int), A (numbered p.base k)) {d : Daemon}
    (hnick : (d.w.uTab n).nickname = nick)
    (hout : n < maxRealUsers ∨ (d.w.uTab (-1)).login ≠ .complete) :
    Owns n nick A d.w (nickreadmsg (cmdmsg depth) n d).2.w :=
  nickreadmsg_asleep depth (Owns.dbSet hcount) (fun p k => Owns.dbDelete (hbox p k)) hnick hout

/-- A message that is left is stored under the name of its addressee. -/
theorem nickwritemsg_outside (user message : Bytes) (hcount : A "nummsg")
    (hbox : ∀ (p : Part) (k : Int), A (numbered p.base k)) :
    Within (Outside user A) (nickwritemsg n user message) := by
  have (v : Bytes) : Within (Outside user A) (dbSet user "nummsg" v) := Outside.dbSet hcount
  have (k : Int) (v : Bytes) : Within (Outside user A) (dbSet user (numbered "header" k) v) :=
    Outside.dbSet (hbox .header k)
  have (k : Int) (v : Bytes) : Within (Outside user A) (dbSet user (numbered "from" k) v) :=
    Outside.dbSet (hbox .sender k)
  have (k : Int) (v : Bytes) : Within (Outside user A) (dbSet user (numbered "message" k) v) :=
    Outside.dbSet (hbox .text k)
  unfold nickwritemsg
  infer_instance

end

/-! ## §4 — isolation -/

/-- A call that slot `n` makes for its own record. -/
inductive AccountCall
  | setsecure (secure : Bool)
  | nickdelete (password : Bytes)
  | nickckmsg
  | nickreadmsg
  | nickwritetime (signoff : Bool)
  | nickchinfo (tag : String) (data : Bytes) (max : Nat) (message : Bytes)
  | nickchpass (oldpw newpw : Bytes)
  | nickwrite (password : Bytes) (verifyOnly : Bool)
  | nicklookup (forWhom : Int) (theNick : Bytes)

/-- The attributes a call may store or delete. -/
def AccountCall.touches : AccountCall → String → Prop
  | .setsecure _, attr => attr = "secure"
  | .nickdelete _, attr => AccountAttr attr
  | .nickckmsg, attr => attr = "nummsg"
  | .nickreadmsg, attr => attr = "nummsg" ∨ ∃ (p : Part) (k : Int), attr = numbered p.base k
  | .nickwritetime _, attr => attr = "signon" ∨ attr = "signoff"
  | .nickchinfo tag _ _ _, attr => attr = tag
  | .nickchpass _ _, attr => attr = "password" ∨ attr = "home"
  | .nickwrite _ _, attr => attr ∈ nickwriteKeys
  | .nicklookup _ _, _ => False

section
variable [Env]

def AccountCall.prog (depth : Nat) (n : Int) : AccountCall → M Unit
  | .setsecure secure => onWorld (Server.setsecure n secure)
  | .nickdelete password => onWorld (Server.nickdelete n password)
  | .nickckmsg => onWorld do
      let _ ← Server.nickckmsg n
      pure ()
  | .nickreadmsg => Server.nickreadmsg (cmdmsg depth) n
  | .nickwritetime signoff => onWorld (Server.nickwritetime n signoff)
  | .nickchinfo tag data max message => onWorld (Server.nickchinfo n tag data max message)
  | .nickchpass oldpw newpw => onWorld (Server.nickchpass n oldpw newpw)
  | .nickwrite password verifyOnly => onWorld do
      let _ ← Server.nickwrite n password verifyOnly
      pure ()
  | .nicklookup forWhom theNick => onWorld do
      let _ ← Server.nicklookup forWhom theNick
      pure ()

/-- Mail of the automatic user is handed to `cmdmsg` in the name of slot -1. In front of the user
table there is nobody logged in. -/
def AccountCall.inTable (c : AccountCall) (n : Int) (w : World) : Prop :=
  c = .nickreadmsg → n < maxRealUsers ∨ (w.uTab (-1)).login ≠ .complete

/-- One call of the caller. -/
theorem AccountCall.owns (c : AccountCall) (depth : Nat) {n : Int} {d : Daemon}
    (hout : c.inTable n d.w) :
    Outside (d.w.uTab n).nickname c.touches d.w (c.prog depth n d).2.w := by
  have hworld {x : W Unit} (h : Within (Owns n (d.w.uTab n).nickname c.touches) x) :
      Outside (d.w.uTab n).nickname c.touches d.w (onWorld x d).2.w := (h.within d.w rfl).2
  cases c with
  | setsecure secure => exact hworld (setsecure_owns secure rfl)
  | nickdelete password =>
    exact hworld (nickdelete_owns password (fun _ => .inl) fun p k _ _ => .inr ⟨p, k, rfl⟩)
  | nickckmsg =>
    have hckmsg : Within (Owns n (d.w.uTab n).nickname AccountCall.nickckmsg.touches)
        (Server.nickckmsg n) := nickckmsg_owns rfl
    exact hworld inferInstance
  | nickreadmsg =>
    exact (nickreadmsg_owns depth (.inl rfl) (fun p k => .inr ⟨p, k, rfl⟩) rfl (hout rfl) rfl).2
  | nickwritetime signoff => exact hworld (nickwritetime_owns signoff (.inl rfl) (.inr rfl))
  | nickchinfo tag data max message => exact hworld (nickchinfo_owns data message max rfl)
  | nickchpass oldpw newpw => exact hworld (nickchpass_owns oldpw newpw (.inl rfl) (.inr rfl))
  | nickwrite password verifyOnly =>
    have hwrite : Within (Owns n (d.w.uTab n).nickname
        (AccountCall.nickwrite password verifyOnly).touches) (Server.nickwrite n password verifyOnly) :=
      nickwrite_owns password verifyOnly fun _ => id
    exact hworld inferInstance
  | nicklookup forWhom theNick => exact hworld inferInstance

/-- **Accounts are isolated.** The functions on the caller's record change no key but `nick.attribute`
for the caller's nickname, in upper or lower case, and one of the attributes of the call; a message
that is left changes no key but `nummsg` and the numbered ones of its addressee; nicknames that differ
in lower case, with dots or without, share no key of a record; and the keys are those `icbdb_make_key`
builds, for names that fit its buffer. -/
theorem accounts_isolated :
    (∀ depth n d (c : AccountCall), c.inTable n d.w → ∀ key,
      (∀ nick attr, lcaseit nick = lcaseit (d.w.uTab n).nickname → c.touches attr →
        key ≠ dbKey nick attr) →
      (c.prog depth n d).2.w.db key = d.w.db key) ∧
    (∀ n user message w key, key ≠ dbKey user "nummsg" →
      (∀ (p : Part) (k : Int), key ≠ dbKey user (numbered p.base k)) →
      (nickwritemsg n user message w).2.db key = w.db key) ∧
    (∀ nick nick' attr attr', AccountAttr attr → AccountAttr attr' →
      lcaseit nick ≠ lcaseit nick' → dbKey nick attr ≠ dbKey nick' attr') ∧
    ∀ (nick : Bytes) (attr : String), nick.length + 1 + (str attr).length < Dbm.dblksiz →
      Dbm.icbdbMakeKey (some nick) (str attr) = dbKey nick attr := by
  refine ⟨fun depth n d c hout key hkey => ?_, fun n user message w key hcount hbox => ?_,
    fun _ _ _ _ => dbKey_ne, fun _ _ => icbdbMakeKey_eq⟩
  · exact c.owns depth hout key fun attr hattr => hkey _ attr rfl hattr
  · have hwrites := nickwritemsg_outside (n := n) user message
      (A := fun attr => attr = "nummsg" ∨ ∃ (p : Part) (k : Int), attr = numbered p.base k) (.inl rfl)
      fun p k => .inr ⟨p, k, rfl⟩
    refine hwrites.within w key fun attr hattr => ?_
    rcases hattr with rfl | ⟨p, k, rfl⟩
    · exact hcount
    · exact hbox p k

end

section
attribute [local instance] smallEnv

/-- `bo` changes his mailbox and `al`'s password stays. -/
theorem accounts_isolated_two :
    (AccountCall.nickreadmsg.prog 1 1 twoUsers).2.w.db (dbKey (str "al") "password") =
      twoUsers.w.db (dbKey (str "al") "password") := by
  refine accounts_isolated.1 1 1 twoUsers .nickreadmsg (fun _ => .inl (by decide)) _ ?_
  intro nick attr hnick hattr
  have hother : lcaseit (str "al") ≠ lcaseit nick := by
    rw [hnick]
    decide
  refine dbKey_ne (.inl (by decide)) ?_ hother
  rcases hattr with rfl | hpart
  · exact .inl (by decide)
  · exact .inr hpart

end

end Icbd.Server
