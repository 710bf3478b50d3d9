/-
# Icbd.Server.Mailbox — stored messages as a queue.

A mailbox is three families of keys and a decimal counter. `Holds` reads them as a list of letters:
`nickwritemsg` puts one behind the others, `nickreadmsg` hands them all out and leaves none,
`nickckmsg` counts. Between these calls anything may happen that leaves the record of the nick alone.
-/
import Icbd.Decimal
import Icbd.Server.Nested

namespace Icbd.Server

open Icbd.Lib

/-! ## §1 — the keys -/

/-- What is stored of a letter. -/
inductive Part
  | header
  | sender
  | text
  deriving DecidableEq, Repr

/-- `header`, `from`, `message`. -/
def Part.base : Part → String
  | .header => "header"
  | .sender => "from"
  | .text => "message"

/-- The key `headerK`, `fromK` or `messageK` of a nick. -/
def partKey (nick : Bytes) (p : Part) (k : Nat) : Bytes := dbKey nick (numbered p.base k)

/-- The key `nummsg`. -/
def countKey (nick : Bytes) : Bytes := dbKey nick "nummsg"

/-- The digits of a number read back. -/
theorem foldl_str_repr (k : Nat) :
    (str k.repr).foldl (fun a b => 10 * a + (b.toNat - 48)) 0 = k := by
  have hdigits : ∀ c ∈ Nat.toDigits 10 k, c.toNat % 2 ^ 8 = c.toNat := by
    intro c hc
    have hdigit := Nat.isDigit_of_mem_toDigits (by decide) (by decide) hc
    simp only [Char.isDigit, Bool.and_eq_true, decide_eq_true_eq] at hdigit
    have hle : c.toNat ≤ 57 := hdigit.2
    omega
  have hfold (cs : List Char) (hcs : ∀ c ∈ cs, c.toNat % 2 ^ 8 = c.toNat) (a : Nat) :
      (cs.map fun c => UInt8.ofNat c.toNat).foldl (fun a b => 10 * a + (b.toNat - 48)) a =
        Nat.ofDigitChars 10 cs a := by
    induction cs generalizing a with
    | nil => rfl
    | cons c cs ih =>
      have hc : (UInt8.ofNat c.toNat).toNat = c.toNat := hcs c List.mem_cons_self
      rw [List.map_cons, List.foldl_cons, hc]
      exact ih (fun c' hc' => hcs c' (List.mem_cons_of_mem c hc')) _
  rw [str, Nat.toList_repr, hfold _ hdigits, Nat.ofDigitChars_ten_toDigits]

theorem repr_of_str_eq {k k' : Nat} (h : str k.repr = str k'.repr) : k = k' := by
  rw [← foldl_str_repr k, h, foldl_str_repr]

/-- Digits are neither upper-case letters nor dots. -/
theorem digit_of_mem_repr {k : Nat} {b : UInt8} (hb : b ∈ str k.repr) : 48 ≤ b ∧ b ≤ 57 := by
  rw [str, Nat.toList_repr] at hb
  obtain ⟨c, hc, rfl⟩ := List.mem_map.mp hb
  have hdigit := Nat.isDigit_of_mem_toDigits (by decide) (by decide) hc
  simp only [Char.isDigit, Bool.and_eq_true, decide_eq_true_eq] at hdigit
  have hge : 48 ≤ c.toNat := hdigit.1
  have hle : c.toNat ≤ 57 := hdigit.2
  simp only [UInt8.le_iff_toNat_le, UInt8.toNat_ofNat']
  have hmod : c.toNat % 2 ^ 8 = c.toNat := by omega
  rw [hmod]
  exact ⟨hge, hle⟩

theorem str_numbered (base : String) (k : Nat) :
    str (numbered base k) = str base ++ str k.repr := by
  show str (base ++ k.repr) = str base ++ str k.repr
  simp [str]

theorem lcaseit_numbered (base : String) (k : Nat) :
    lcaseit (str (numbered base k)) = lcaseit (str base) ++ str k.repr := by
  have hlower : lcaseit (str k.repr) = str k.repr := by
    refine (List.map_congr_left fun b hb => ?_).trans (List.map_id _)
    have hle := UInt8.le_iff_toNat_le.mp (digit_of_mem_repr hb).2
    have hno : ¬ (65 ≤ b ∧ b ≤ 90) := by
      rintro ⟨hge, -⟩
      have hge := UInt8.le_iff_toNat_le.mp hge
      exact absurd (hge.trans hle) (by decide)
    exact if_neg hno
  rw [str_numbered, lcaseit, List.map_append]
  exact congrArg (lcaseit (str base) ++ ·) hlower

/-- A numbered key has no dot, also with the negative number of a damaged counter. -/
theorem dot_notMem_numbered (p : Part) (k : Int) : 46 ∉ str (numbered p.base k) := by
  have hdigits (m : Nat) : 46 ∉ str m.repr := fun h =>
    absurd (digit_of_mem_repr h).1 (by decide)
  have happend (s t : String) : str (s ++ t) = str s ++ str t := by simp [str]
  have hbase : 46 ∉ str p.base := by cases p <;> decide
  cases k with
  | ofNat m =>
    show 46 ∉ str (p.base ++ m.repr)
    rw [happend, List.mem_append]
    exact not_or.mpr ⟨hbase, hdigits m⟩
  | negSucc m =>
    show 46 ∉ str (p.base ++ ("-" ++ (m + 1).repr))
    rw [happend, happend, List.mem_append, List.mem_append]
    exact not_or.mpr ⟨hbase, not_or.mpr ⟨by decide, hdigits (m + 1)⟩⟩

theorem partKey_inj {nick nick' : Bytes} {p p' : Part} {k k' : Nat}
    (h : partKey nick p k = partKey nick' p' k') :
    lcaseit nick = lcaseit nick' ∧ p = p' ∧ k = k' := by
  obtain ⟨hnick, hkey⟩ := dbKey_inj (dot_notMem_numbered p k) (dot_notMem_numbered p' k') h
  rw [lcaseit_numbered, lcaseit_numbered] at hkey
  -- the bases differ in their first letter
  have hp : p = p' := by
    have hhead := congrArg List.head? hkey
    cases p <;> cases p' <;> first | rfl | exact absurd hhead (by simp [Part.base, str, lcaseit]; decide)
  subst hp
  exact ⟨hnick, rfl, repr_of_str_eq (List.append_cancel_left hkey)⟩

theorem partKey_ne {nick nick' : Bytes} {p : Part} {k : Nat} {key : String}
    (hkey : key = "nummsg" ∨ key = "nick") : partKey nick p k ≠ dbKey nick' key := by
  intro h
  have hdot : 46 ∉ str key := by rcases hkey with rfl | rfl <;> decide
  have heq := (dbKey_inj (dot_notMem_numbered p k) hdot h).2
  rw [lcaseit_numbered] at heq
  have hhead := congrArg List.head? heq
  rcases hkey with rfl | rfl <;> cases p <;>
    exact absurd hhead (by simp [Part.base, str, lcaseit]; decide)

theorem partKey_ne_countKey {nick nick' : Bytes} {p : Part} {k : Nat} :
    partKey nick p k ≠ countKey nick' :=
  partKey_ne (.inl rfl)

theorem nickKey_ne_countKey {nick nick' : Bytes} : dbKey nick "nick" ≠ countKey nick' := by
  intro (h : dbKey nick "nick" = dbKey nick' "nummsg")
  exact absurd (dbKey_inj (by decide) (by decide) h).2 (by decide)

/-! ## §2 — letters in the database -/

/-- A stored message: its header line, the nick of who wrote it and the text. -/
structure Letter where
  header : Bytes
  sender : Bytes
  text : Bytes
  deriving DecidableEq, Repr

def Letter.part (l : Letter) : Part → Bytes
  | .header => l.header
  | .sender => l.sender
  | .text => l.text

/-- The counter of a nick, 0 if there is none. -/
def nummsg (db : Bytes → Option Bytes) (nick : Bytes) : Int :=
  atoi ((db (countKey nick)).getD (str "0"))

/-- The database holds these letters for a nick, the first under number 1, and no others. -/
structure Holds (db : Bytes → Option Bytes) (nick : Bytes) (box : List Letter) : Prop where
  count : nummsg db nick = box.length
  zero : ∀ p, db (partKey nick p 0) = none
  part : ∀ p k, db (partKey nick p (k + 1)) = box[k]?.map fun l => l.part p
  room : box.length ≤ maxWrites

/-- The record of a nick is left alone, as far as the mailbox needs it. -/
structure SameBox (nick : Bytes) (db db' : Bytes → Option Bytes) : Prop where
  known : db' (dbKey nick "nick") = db (dbKey nick "nick")
  count : db' (countKey nick) = db (countKey nick)
  part : ∀ p k, db' (partKey nick p k) = db (partKey nick p k)

theorem Holds.same {nick : Bytes} {db db' : Bytes → Option Bytes} {box : List Letter}
    (h : Holds db nick box) (hs : SameBox nick db db') : Holds db' nick box where
  count := by
    rw [nummsg, hs.count]
    exact h.count
  zero p := (hs.part p 0).trans (h.zero p)
  part p k := (hs.part p (k + 1)).trans (h.part p k)
  room := h.room

/-- Keys do not tell upper case from lower case. -/
theorem dbKey_congr {nick nick' : Bytes} (h : lcaseit nick = lcaseit nick') (key : String) :
    dbKey nick key = dbKey nick' key := by
  simp only [dbKey, lcaseit, List.map_append] at h ⊢
  rw [h]

theorem Holds.congr {nick nick' : Bytes} {db : Bytes → Option Bytes} {box : List Letter}
    (hnick : lcaseit nick = lcaseit nick') (h : Holds db nick box) : Holds db nick' box where
  count := by
    rw [nummsg, countKey, ← dbKey_congr hnick]
    exact h.count
  zero p := by
    rw [partKey, ← dbKey_congr hnick]
    exact h.zero p
  part p k := by
    rw [partKey, ← dbKey_congr hnick]
    exact h.part p k
  room := h.room

/-- The counter survives its way through the database. -/
theorem atoi_counter {k : Nat} (h : k ≤ maxWrites) : atoi (decimal k) = k := by
  have hmax : maxWrites < 2 ^ 31 := by decide
  exact atoi_decimal (by omega) (by omega)

/-- The database with letter `k` of a nick replaced or removed. -/
def setLetter (db : Bytes → Option Bytes) (nick : Bytes) (k : Nat) (l : Option Letter) :
    Bytes → Option Bytes :=
  Function.update (Function.update (Function.update db
    (partKey nick .header k) (l.map (·.header)))
    (partKey nick .sender k) (l.map (·.sender)))
    (partKey nick .text k) (l.map (·.text))

theorem setLetter_part (db : Bytes → Option Bytes) (nick : Bytes) (k : Nat) (l : Option Letter)
    (p : Part) (j : Nat) : setLetter db nick k l (partKey nick p j) =
      if j = k then l.map (·.part p) else db (partKey nick p j) := by
  have hkey (p' : Part) : partKey nick p j = partKey nick p' k ↔ p = p' ∧ j = k :=
    ⟨fun h => (partKey_inj h).2, fun ⟨hp, hj⟩ => by rw [hp, hj]⟩
  simp only [setLetter, Function.update_apply, hkey]
  cases p <;> by_cases hj : j = k <;> simp [hj, Letter.part]

theorem setLetter_of_ne {db : Bytes → Option Bytes} {nick key : Bytes} {k : Nat} {l : Option Letter}
    (h : ∀ p, key ≠ partKey nick p k) : setLetter db nick k l key = db key := by
  simp only [setLetter, Function.update_of_ne (h _)]

/-- A letter is put behind the others. -/
theorem Holds.push {nick : Bytes} {db : Bytes → Option Bytes} {box : List Letter}
    (h : Holds db nick box) (hroom : box.length < maxWrites) (l : Letter) :
    Holds (Function.update (setLetter db nick (box.length + 1) (some l)) (countKey nick)
      (some (decimal (box.length + 1 : Nat)))) nick (box ++ [l]) where
  count := by
    rw [nummsg, Function.update_self, Option.getD_some, atoi_counter hroom, List.length_append,
      List.length_singleton]
  zero p := by
    rw [Function.update_of_ne partKey_ne_countKey, setLetter_part, if_neg (by omega)]
    exact h.zero p
  part p k := by
    rw [Function.update_of_ne partKey_ne_countKey, setLetter_part, h.part]
    by_cases hk : k = box.length
    · rw [if_pos (by omega), hk, List.getElem?_concat_length]
    · rw [if_neg (by omega)]
      congr 1
      by_cases hlt : k < box.length
      · exact (List.getElem?_append_left hlt).symm
      · rw [List.getElem?_eq_none (by omega), List.getElem?_eq_none (by simp; omega)]
  room := by
    rw [List.length_append, List.length_singleton]
    omega

/-- A mailbox without letters. -/
theorem Holds.emptied {nick : Bytes} {db : Bytes → Option Bytes}
    (h : ∀ p k, db (partKey nick p k) = none) :
    Holds (Function.update db (countKey nick) (some (str "0"))) nick [] where
  count := by
    rw [nummsg, Function.update_self]
    decide
  zero p := by rw [Function.update_of_ne partKey_ne_countKey, h]
  part p k := by
    rw [Function.update_of_ne partKey_ne_countKey, h]
    rfl
  room := Nat.zero_le _

/-- A missing counter may as well say 0. -/
theorem Holds.counted {nick : Bytes} {db : Bytes → Option Bytes} {box : List Letter}
    (h : Holds db nick box) (hnone : db (countKey nick) = none) :
    Holds (Function.update db (countKey nick) (some (str "0"))) nick box where
  count := by
    rw [nummsg, Function.update_self, ← h.count, nummsg, hnone]
    rfl
  zero p := by rw [Function.update_of_ne partKey_ne_countKey, h.zero]
  part p k := by rw [Function.update_of_ne partKey_ne_countKey, h.part]
  room := h.room

/-! ## §3 — writing -/

section
variable {w : World}

theorem wp_dbSet {nick value : Bytes} {key : String} {Q : PUnit → World → Prop}
    (hopen : w.sys.dbOpens = true)
    (h : Q ⟨⟩ { w with db := Function.update w.db (dbKey nick key) (some value) }) :
    wp (dbSet nick key value) Q w := by
  have hset : (dbSet nick key value w).2 =
      { w with db := Function.update w.db (dbKey nick key) (some value) } := if_pos hopen
  rw [wp, hset]
  exact h

theorem wp_dbDelete {nick : Bytes} {key : String} {Q : PUnit → World → Prop}
    (hopen : w.sys.dbOpens = true)
    (h : Q ⟨⟩ { w with db := Function.update w.db (dbKey nick key) none }) :
    wp (dbDelete nick key) Q w := by
  have hdelete : (dbDelete nick key w).2 =
      { w with db := Function.update w.db (dbKey nick key) none } := if_pos hopen
  rw [wp, hdelete]
  exact h

end

section
variable [Env] {w : World} {n : Int} {user message : Bytes} {box : List Letter}

/-- What `nickwritemsg` stores of a message of `n`. -/
def letterOf (w : World) (n : Int) (message : Bytes) : Letter where
  header := snprintf 255 (str "Message left at " ++ (Env.strftime w.sys.now).take 127 ++ str ":")
  sender := (w.uTab n).nickname
  text := filtertext message (4096 - 1)

omit [Env] in
theorem Holds.next_count (h : Holds w.db user box) :
    toInt32 (atoi ((w.db (dbKey user "nummsg")).getD (str "0")) + 1) = (box.length + 1 : Nat) := by
  have hcount : atoi ((w.db (dbKey user "nummsg")).getD (str "0")) = box.length := h.count
  have hroom := h.room
  rw [hcount, toInt32]
  unfold maxWrites at hroom
  omega

/-- **A message is accepted**: a letter is put behind the others. -/
theorem nickwritemsg_stores (hopen : w.sys.dbOpens = true) (hreg : (w.uTab n).realname ≠ [])
    (huser : user ≠ []) (hknown : (w.db (dbKey user "nick")).isSome) (hmessage : message ≠ [])
    (hbox : Holds w.db user box) (hroom : box.length < maxWrites) :
    (nickwritemsg n user message w).2.db = Function.update
      (setLetter w.db user (box.length + 1) (some (letterOf w n message))) (countKey user)
      (some (decimal (box.length + 1 : Nat))) := by
  show wp (nickwritemsg n user message) (fun _ w' => w'.db = _) w
  refine wp_bind (wp_getW (wp_bind (wp_getU (wp_bind (wp_dbGet hopen (wp_bind (wp_dbGet hopen ?_)))))))
  show wp (if user = [] ∨ message = [] then _ else _) _ (getU n w).2
  rw [if_neg (by simp [huser, hmessage]), if_neg hreg]
  have hsome : w.db (dbKey user "nick") ≠ none := by
    rwa [← Option.isSome_iff_ne_none]
  rw [show (getU n w).2.db = w.db from rfl, hbox.next_count, if_neg hsome, if_neg (by omega)]
  refine wp_bind (wp_dbSet hopen (wp_bind (wp_dbSet hopen (wp_bind (wp_dbSet hopen
    (wp_bind (wp_dbSet hopen ?_)))))))
  exact Within.wp Stilly fun _ w' hS => hS.db

/-- **A full mailbox refuses**: the sender is told, and that is all. -/
theorem nickwritemsg_full (hin : inUsers n) (hopen : w.sys.dbOpens = true)
    (hreg : (w.uTab n).realname ≠ []) (huser : user ≠ [])
    (hknown : (w.db (dbKey user "nick")).isSome) (hmessage : message ≠ [])
    (hbox : Holds w.db user box) (hfull : box.length = maxWrites) :
    (nickwritemsg n user message w).2 = (senderror n (str "User mailbox full") w).2 := by
  show wp (nickwritemsg n user message) (fun _ w' => w' = _) w
  refine wp_bind (wp_getW (wp_bind (wp_getU ?_)))
  have hget : (getU n w).2 = w := by simp [getU, hin]
  rw [hget]
  refine wp_bind (wp_dbGet hopen (wp_bind (wp_dbGet hopen ?_)))
  show wp (if user = [] ∨ message = [] then _ else _) _ w
  rw [if_neg (by simp [huser, hmessage]), if_neg hreg]
  have hsome : w.db (dbKey user "nick") ≠ none := by
    rwa [← Option.isSome_iff_ne_none]
  rw [hbox.next_count, if_neg hsome, if_pos (by omega)]
  rfl

/-- Without a name, without a text or into a full mailbox nothing is stored. -/
theorem nickwritemsg_keeps (hopen : w.sys.dbOpens = true)
    (hrefused : user = [] ∨ message = [] ∨ Holds w.db user box ∧ box.length = maxWrites) :
    (nickwritemsg n user message w).2.db = w.db := by
  have hcount (hbox : Holds w.db user box) (hfull : box.length = maxWrites) :
      toInt32 (atoi ((w.db (dbKey user "nummsg")).getD (str "0")) + 1) > maxWrites := by
    rw [hbox.next_count]
    omega
  have hsend (msg : Bytes) : wp (senderror n msg) (fun _ w' => w'.db = w.db) (getU n w).2 :=
    Within.wp Stilly fun _ w' hS => hS.db
  show wp (nickwritemsg n user message) (fun _ w' => w'.db = _) w
  refine wp_bind (wp_getW (wp_bind (wp_getU (wp_bind (wp_dbGet hopen (wp_bind (wp_dbGet hopen ?_)))))))
  refine wp_ite (fun _ => Within.wp Stilly fun _ w' hS => hS.db) fun hgiven => ?_
  refine wp_ite (fun _ => hsend _) fun _ => wp_ite (fun _ => hsend _) fun _ => ?_
  refine wp_ite (fun _ => hsend _) fun hroom => ?_
  rcases hrefused with hnil | hnil | ⟨hbox, hfull⟩
  · exact absurd (.inl hnil) hgiven
  · exact absurd (.inr hnil) hgiven
  · exact absurd (hcount hbox hfull) hroom

omit [Env] in
/-- Writes under another nick leave the mailbox alone. -/
theorem SameBox.update {nick : Bytes} {db db' : Bytes → Option Bytes} {key : String}
    {v : Option Bytes} (h : SameBox nick db db') (hnick : lcaseit user ≠ lcaseit nick)
    (hdot : 46 ∉ str key) : SameBox nick db (Function.update db' (dbKey user key) v) := by
  have hother {key' : String} (hdot' : 46 ∉ str key') : dbKey nick key' ≠ dbKey user key :=
    fun heq => hnick (dbKey_inj hdot hdot' heq.symm).1
  constructor
  case known => rw [Function.update_of_ne (hother (by decide)), h.known]
  case count => rw [countKey, Function.update_of_ne (hother (by decide)), ← countKey, h.count]
  case part =>
    intro p k
    rw [partKey, Function.update_of_ne (hother (dot_notMem_numbered p k)), ← partKey, h.part]

/-- A message to somebody else leaves the mailbox alone. -/
theorem nickwritemsg_other (n : Int) (message : Bytes) {nick : Bytes} (hopen : w.sys.dbOpens = true)
    (hnick : lcaseit user ≠ lcaseit nick) :
    SameBox nick w.db (nickwritemsg n user message w).2.db := by
  have hrefl : SameBox nick w.db w.db := ⟨rfl, rfl, fun _ _ => rfl⟩
  have hsame {x : W Unit} {w' : World} [Within Stilly x] (h : SameBox nick w.db w'.db) :
      wp x (fun _ w' => SameBox nick w.db w'.db) w' :=
    Within.wp Stilly fun _ w₁ hS => by rwa [hS.db]
  show wp (nickwritemsg n user message) (fun _ w' => SameBox nick w.db w'.db) w
  refine wp_bind (wp_getW (wp_bind (wp_getU (wp_bind (wp_dbGet hopen (wp_bind (wp_dbGet hopen ?_)))))))
  refine wp_ite (fun _ => hsame hrefl) fun _ => wp_ite (fun _ => hsame hrefl) fun _ => ?_
  refine wp_ite (fun _ => hsame hrefl) fun _ => wp_ite (fun _ => hsame hrefl) fun _ => ?_
  refine wp_bind (wp_dbSet hopen (wp_bind (wp_dbSet hopen (wp_bind (wp_dbSet hopen
    (wp_bind (wp_dbSet hopen ?_)))))))
  refine hsame ((((hrefl.update hnick ?_).update hnick ?_).update hnick ?_).update hnick ?_)
  · exact dot_notMem_numbered .header _
  · exact dot_notMem_numbered .sender _
  · exact dot_notMem_numbered .text _
  · decide

end

/-! ## §4 — reading -/

/-- The daemon with another database. -/
def Daemon.withDb (d : Daemon) (db : Bytes → Option Bytes) : Daemon :=
  { d with w := { d.w with db := db } }

/-- Slot -1 is nobody's and the database opens. -/
structure Daemon.Ready (d : Daemon) : Prop where
  out : (d.w.uTab (-1)).login ≠ .complete
  opens : d.w.sys.dbOpens = true

/-- The second is the first with another database. -/
structure WithDb (db : Bytes → Option Bytes) (d d' : Daemon) : Prop where
  eq : d' = d.withDb db
  ready : d.Ready

section
variable {d : Daemon} {nick : Bytes} {key : String}

theorem wp_fetch {Q : Option Bytes → Daemon → Prop} {v : Option Bytes}
    (hopen : d.w.sys.dbOpens = true) (hv : d.w.db (dbKey nick key) = v) (h : Q v d) :
    wp (onWorld (dbGet nick key)) Q d := by
  subst hv
  exact wp_onWorld (wp_dbGet hopen h)

theorem wp_remove {Q : PUnit → Daemon → Prop} (hopen : d.w.sys.dbOpens = true)
    (h : Q ⟨⟩ (d.withDb (Function.update d.w.db (dbKey nick key) none))) :
    wp (onWorld (dbDelete nick key)) Q d :=
  wp_onWorld (wp_dbDelete hopen h)

end

section
variable [Env] {n : Int} {depth : Nat} {db : Bytes → Option Bytes}

instance {c : Bytes} : Agree (WithDb db) (onWorld (doSend n c)) where
  agree d d' h := by
    obtain ⟨rfl, hready⟩ := h
    have hsent {w : World} (hc : 0 ≤ n ∧ n < maxRealUsers ∧ w.sKill n ≤ 0) :
        doSend n c w = emit (.send n c) w := congrFun (whenever_pos hc) w
    have hlost {w : World} (hc : ¬ (0 ≤ n ∧ n < maxRealUsers ∧ w.sKill n ≤ 0)) :
        doSend n c w = (⟨⟩, w) := congrFun (whenever_neg hc) w
    by_cases hc : 0 ≤ n ∧ n < maxRealUsers ∧ d.w.sKill n ≤ 0
    · rw [onWorld, onWorld, hsent hc, hsent (w := (d.withDb db).w) hc]
      exact ⟨rfl, rfl, hready.out, hready.opens⟩
    · rw [onWorld, onWorld, hlost hc, hlost (w := (d.withDb db).w) hc]
      exact ⟨rfl, rfl, hready.out, hready.opens⟩

/-- A command of nobody is not looked at. -/
instance {text : Bytes} : Agree (WithDb db) (cmdmsg depth (-1) text) where
  agree d d' h := by
    obtain ⟨rfl, hready⟩ := h
    cases depth with
    | zero => exact ⟨rfl, rfl, hready.out, hready.opens⟩
    | succ depth =>
      have hnot {d : Daemon} (hout : (d.w.uTab (-1)).login ≠ .complete) :
          cmdmsg (depth + 1) (-1) text d = (⟨⟩, { d with w := (getU (-1) d.w).2 }) := by
        show whenever ((d.w.uTab (-1)).login = .complete) _ _ = _
        rw [whenever_neg hout]
        rfl
      rw [hnot hready.out, hnot (d := d.withDb db) hready.out]
      exact ⟨rfl, rfl, hready.out, hready.opens⟩

instance {nick msg : Bytes} : Agree (WithDb db) (sendPersonStored (cmdmsg depth) n nick msg) := by
  unfold sendPersonStored deliver
  have hsplit (pkt : Bytes) : Agree (WithDb db) (split pkt) := ⟨fun d d' h => by
    obtain ⟨rfl, hready⟩ := h
    exact ⟨rfl, rfl, hready.out, hready.opens⟩⟩
  have hfield (i : Nat) : Agree (WithDb db) (getField i) := ⟨fun d d' h => by
    obtain ⟨rfl, hready⟩ := h
    exact ⟨rfl, rfl, hready.out, hready.opens⟩⟩
  infer_instance

omit [Env] in
/-- A program that does not look at the database does not write it either. -/
theorem Agree.withDb {x : M Unit} [hx : ∀ db, Agree (WithDb db) x] {d : Daemon} (hready : d.Ready)
    (db : Bytes → Option Bytes) :
    (x (d.withDb db)).2 = (x d).2.withDb db ∧ (x d).2.w.db = d.w.db ∧ (x d).2.Ready := by
  have hother := ((hx db).agree d (d.withDb db) ⟨rfl, hready⟩).2
  have hsame := ((hx d.w.db).agree d d ⟨rfl, hready⟩).2
  exact ⟨hother.eq, congrArg (fun d => d.w.db) hsame.eq, hother.ready⟩

/-- What `nickreadmsg` does with a letter. -/
def handOver (cmd : Int → Bytes → M Unit) (n : Int) (l : Letter) : M Unit := do
  onWorld (sendsCmdout n l.header)
  sendPersonStored cmd n l.sender l.text

/-- What `nickreadmsg` tells the owner of a mailbox with these letters. -/
def handOut (cmd : Int → Bytes → M Unit) (n : Int) (box : List Letter) : M Unit :=
  if box = [] then onWorld (senderror n (str "No messages")) else each box (handOver cmd n)

instance {c : Bytes} : Agree (WithDb db) (onWorld (senderror n c)) :=
  inferInstanceAs (Agree (WithDb db) (onWorld (doSend n _)))

instance {c : Bytes} : Agree (WithDb db) (onWorld (sendsCmdout n c)) :=
  inferInstanceAs (Agree (WithDb db) (onWorld (doSend n _)))

instance {l : Letter} : Agree (WithDb db) (handOver (cmdmsg depth) n l) := by
  unfold handOver
  infer_instance

/-- One stored message is handed over and forgotten. -/
theorem readOne_eq (depth : Nat) (n : Int) {nick : Bytes} {k : Nat} {l : Letter} {d : Daemon}
    (hready : d.Ready)
    (hpart : ∀ p, d.w.db (partKey nick p k) = some (l.part p))
    (hshort : l.sender.length ≤ maxNickLen) :
    (readOne (cmdmsg depth) n nick k d).2 =
      (handOver (cmdmsg depth) n l d).2.withDb (setLetter d.w.db nick k none) := by
  have hheader : d.w.db (dbKey nick (numbered "header" k)) = some l.header := hpart .header
  obtain ⟨-, hdb₁, hready₁⟩ :=
    Agree.withDb (x := onWorld (sendsCmdout n l.header)) hready d.w.db
  generalize hd₁ : (onWorld (sendsCmdout n l.header) d).2 = d₁ at hdb₁ hready₁
  -- the sender and the text are still there when their turn comes
  have hsender : Function.update d₁.w.db (dbKey nick (numbered "header" k)) none
      (dbKey nick (numbered "from" k)) = some l.sender := by
    rw [hdb₁, Function.update_of_ne]
    · exact hpart .sender
    · intro (h : partKey nick .sender k = partKey nick .header k)
      exact nomatch (partKey_inj h).2.1
  have htext : Function.update (Function.update d₁.w.db (dbKey nick (numbered "header" k)) none)
      (dbKey nick (numbered "from" k)) none (dbKey nick (numbered "message" k)) = some l.text := by
    rw [hdb₁, Function.update_of_ne, Function.update_of_ne]
    · exact hpart .text
    · intro (h : partKey nick .text k = partKey nick .header k)
      exact nomatch (partKey_inj h).2.1
    · intro (h : partKey nick .text k = partKey nick .sender k)
      exact nomatch (partKey_inj h).2.1
  show wp (readOne (cmdmsg depth) n nick k) (fun _ d' => d' = _) d
  refine wp_bind (wp_fetch hready.opens hheader ?_)
  refine wp_bind (wp_mono (Q := fun _ t => t = d₁) hd₁ ?_)
  rintro _ d₁ rfl
  refine wp_bind (wp_remove hready₁.opens (wp_bind (wp_fetch hready₁.opens hsender ?_)))
  refine wp_bind (wp_remove hready₁.opens (wp_bind (wp_fetch hready₁.opens htext ?_)))
  obtain ⟨hsend, -, hready₂⟩ := Agree.withDb
    (x := sendPersonStored (cmdmsg depth) n (l.sender.take maxNickLen) l.text) hready₁
    (Function.update (Function.update d₁.w.db (dbKey nick (numbered "header" k)) none)
      (dbKey nick (numbered "from" k)) none)
  refine wp_bind (wp_mono (Q := fun _ t => t = _) hsend ?_)
  rintro _ _ rfl
  refine wp_remove hready₂.opens ?_
  rw [List.take_of_length_le hshort, hdb₁, ← hd₁]
  rfl

/-- The loop over the letters from number `j + 1` on. The induction is on the letters: the rest is
handed over in a world that differs from the one without deletions in the database only. -/
theorem readAll_eq (depth : Nat) (n : Int) (nick : Bytes) (box : List Letter) {j : Nat} {d : Daemon}
    (hready : d.Ready)
    (hpart : ∀ p i (hi : i < box.length), d.w.db (partKey nick p (j + 1 + i)) = some (box[i].part p))
    (hshort : ∀ l ∈ box, l.sender.length ≤ maxNickLen) :
    ∃ db', (each ((List.range' (j + 1) box.length).map Int.ofNat)
        (readOne (cmdmsg depth) n nick) d).2 =
          (each box (handOver (cmdmsg depth) n) d).2.withDb db' ∧
      (∀ p i, db' (partKey nick p i) =
        if j < i ∧ i ≤ j + box.length then none else d.w.db (partKey nick p i)) ∧
      ∀ key, (∀ p i, key ≠ partKey nick p i) → db' key = d.w.db key := by
  induction box generalizing j d with
  | nil =>
    refine ⟨d.w.db, rfl, fun p i => ?_, fun _ _ => rfl⟩
    rw [if_neg (by simp)]
  | cons l box ih =>
    have hone : (readOne (cmdmsg depth) n nick (j + 1 : Nat) d).2 =
        (handOver (cmdmsg depth) n l d).2.withDb (setLetter d.w.db nick (j + 1) none) :=
      readOne_eq depth n hready (fun p => hpart p 0 (Nat.zero_lt_succ _)) (hshort l List.mem_cons_self)
    obtain ⟨-, hdb, hready'⟩ := Agree.withDb (x := handOver (cmdmsg depth) n l) hready d.w.db
    generalize hd' : (handOver (cmdmsg depth) n l d).2 = d' at hone hdb hready'
    have hkept : ∀ p i (hi : i < box.length), setLetter d.w.db nick (j + 1) none
        (partKey nick p (j + 1 + 1 + i)) = some (box[i].part p) := by
      intro p i hi
      rw [setLetter_part, if_neg (by omega)]
      have hnext := hpart p (i + 1) (Nat.succ_lt_succ hi)
      rwa [show j + 1 + (i + 1) = j + 1 + 1 + i from by omega] at hnext
    obtain ⟨db', heq, hparts, hrest⟩ := ih (j := j + 1)
      (d := d'.withDb (setLetter d.w.db nick (j + 1) none)) ⟨hready'.out, hready'.opens⟩ hkept
      fun l' hl' => hshort l' (List.mem_cons_of_mem l hl')
    obtain ⟨hover, -, -⟩ := Agree.withDb (x := each box (handOver (cmdmsg depth) n)) hready'
      (setLetter d.w.db nick (j + 1) none)
    refine ⟨db', ?_, fun p i => ?_, fun key hkey => ?_⟩
    · show (each ((List.range' (j + 1 + 1) box.length).map Int.ofNat)
        (readOne (cmdmsg depth) n nick) (readOne (cmdmsg depth) n nick (j + 1 : Nat) d).2).2 =
        (each box (handOver (cmdmsg depth) n) (handOver (cmdmsg depth) n l d).2).2.withDb db'
      rw [hone, heq, hover, hd']
      rfl
    · rw [hparts p i]
      show (if _ then _ else setLetter d.w.db nick (j + 1) none (partKey nick p i)) = _
      rw [setLetter_part, List.length_cons]
      split_ifs <;> first | rfl | omega
    · rw [hrest key hkey]
      exact setLetter_of_ne fun p => hkey p (j + 1)

omit [Env] in
/-- The numbers the loop of `nickreadmsg` goes through. -/
theorem slots_drop_one (k : Nat) : (slots (k + 1)).drop 1 = (List.range' 1 k).map Int.ofNat := by
  rw [slots, List.range_eq_range', ← List.map_drop]
  rfl

/-- The letters of `nick` have been handed out: none is left and the rest of the record is as it was. -/
def HandedOut (depth : Nat) (n : Int) (nick : Bytes) (box : List Letter) (d d' : Daemon) : Prop :=
  ∃ db', d' = (handOut (cmdmsg depth) n box d).2.withDb db' ∧ Holds db' nick [] ∧
    db' (dbKey nick "nick") = d.w.db (dbKey nick "nick")

/-- The last step of `nickreadmsg`. -/
theorem HandedOut.of_set {nick : Bytes} {box : List Letter} {d d' : Daemon}
    (db' : Bytes → Option Bytes) (hd' : d' = (handOut (cmdmsg depth) n box d).2.withDb db')
    (hopen : d'.w.sys.dbOpens = true) (hparts : ∀ p i, db' (partKey nick p i) = none)
    (hrest : ∀ key, (∀ p i, key ≠ partKey nick p i) → db' key = d.w.db key) :
    wp (onWorld (dbSet nick "nummsg" (str "0")))
      (fun _ d' => HandedOut depth n nick box d d') d' := by
  refine wp_onWorld (wp_dbSet hopen
    ⟨Function.update db' (countKey nick) (some (str "0")), ?_, .emptied hparts, ?_⟩)
  · rw [hd']
    rfl
  · rw [Function.update_of_ne nickKey_ne_countKey]
    exact hrest _ fun p i => (partKey_ne (.inr rfl)).symm

/-- **The owner reads**: every letter is handed over, in order, and none is left. -/
theorem nickreadmsg_handedOut (depth : Nat) {box : List Letter} {d : Daemon} (hin : inUsers n)
    (hready : d.Ready) (hreg : (d.w.uTab n).realname ≠ [])
    (hbox : Holds d.w.db (d.w.uTab n).nickname box)
    (hshort : ∀ l ∈ box, l.sender.length ≤ maxNickLen) :
    HandedOut depth n (d.w.uTab n).nickname box d (nickreadmsg (cmdmsg depth) n d).2 := by
  have hget : (onWorld (getU n) d).2 = d := by simp [onWorld, getU, hin]
  have hcount : atoi ((d.w.db (dbKey (d.w.uTab n).nickname "nummsg")).getD (str "0")) = box.length :=
    hbox.count
  generalize hnick : (d.w.uTab n).nickname = nick at hbox hcount ⊢
  show wp (nickreadmsg (cmdmsg depth) n) (fun _ d' => HandedOut depth n nick box d d') d
  refine wp_bind (wp_mono (Q := fun u t => u = d.w.uTab n ∧ t = d) ⟨rfl, hget⟩ ?_)
  rintro _ d ⟨rfl, rfl⟩
  rw [hnick]
  refine wp_bind (wp_fetch hready.opens rfl ?_)
  generalize d.w.db (dbKey nick "nummsg") = stored at hcount ⊢
  rw [if_neg hreg]
  cases box with
  | nil =>
    have hnone : stored = none ∨ atoi (stored.getD []) = 0 := by
      cases stored with
      | none => exact .inl rfl
      | some v => exact .inr hcount
    rw [if_pos hnone]
    obtain ⟨-, hdb, hready'⟩ :=
      Agree.withDb (x := onWorld (senderror n (str "No messages"))) hready d.w.db
    refine wp_bind (.of_set d.w.db ?_ hready'.opens (fun p i => ?_) fun _ _ => rfl)
    · rw [← hdb]
      rfl
    · cases i with
      | zero => exact hbox.zero p
      | succ i => exact hbox.part p i
  | cons l box =>
    obtain ⟨v, rfl⟩ : ∃ v, stored = some v := by
      cases stored with
      | none =>
        have hzero : atoi (str "0") = 0 := by decide
        rw [Option.getD_none, hzero, List.length_cons] at hcount
        omega
      | some v => exact ⟨v, rfl⟩
    have hv : atoi v = (l :: box).length := hcount
    rw [if_neg (by simp [hv]; omega), Option.getD_some, hv, Int.toNat_natCast, slots_drop_one]
    have hpart : ∀ p i (hi : i < (l :: box).length),
        d.w.db (partKey nick p (0 + 1 + i)) = some ((l :: box)[i].part p) := by
      intro p i hi
      rw [show 0 + 1 + i = i + 1 from by omega, hbox.part, List.getElem?_eq_getElem hi]
      rfl
    obtain ⟨db', heq, hparts, hrest⟩ := readAll_eq depth n nick
      (l :: box) (j := 0) hready hpart hshort
    obtain ⟨-, -, hready'⟩ :=
      Agree.withDb (x := each (l :: box) (handOver (cmdmsg depth) n)) hready d.w.db
    refine wp_bind (.of_set db' heq ?_ (fun p i => ?_) hrest)
    · rw [heq]
      exact hready'.opens
    · rw [hparts p i]
      cases i with
      | zero => rw [if_neg (by omega), hbox.zero p]
      | succ i =>
        split_ifs with hi
        · rfl
        · rw [hbox.part, List.getElem?_eq_none (by omega)]
          rfl

/-! ## §5 — checking and deleting -/

/-- `nickckmsg` of the owner writes at most a counter of 0 where there was none. -/
theorem nickckmsg_holds {box : List Letter} {w : World} (hopen : w.sys.dbOpens = true)
    (hbox : Holds w.db (w.uTab n).nickname box) :
    Holds (nickckmsg n w).2.db (w.uTab n).nickname box ∧
      (nickckmsg n w).2.db (dbKey (w.uTab n).nickname "nick") =
        w.db (dbKey (w.uTab n).nickname "nick") := by
  show wp (nickckmsg n) (fun _ w' => Holds w'.db _ box ∧ w'.db _ = w.db _) w
  refine wp_bind (wp_getU (wp_bind (wp_dbGet hopen ?_)))
  refine wp_ite (fun _ => wp_pure ⟨hbox, rfl⟩) fun _ => wp_bind ?_
  refine wp_whenever (fun hnone => ?_) fun _ => wp_pure ⟨hbox, rfl⟩
  refine wp_dbSet hopen (wp_pure ⟨hbox.counted hnone, ?_⟩)
  exact Function.update_of_ne nickKey_ne_countKey _ _

/-- `nickdelete` gets past its checks. -/
def deletes (w : World) (n : Int) (password : Bytes) : Prop :=
  password ≠ [] ∧ (w.uTab n).realname ≠ [] ∧
    w.db (dbKey (w.uTab n).nickname "password") = some (cutPassword password)

/-- The key is gone, and the database opens. -/
def Gone (key : Bytes) (w : World) : Prop := w.sys.dbOpens = true ∧ w.db key = none

omit [Env] in
theorem wp_dbDelete_opens {nick : Bytes} {attr : String} {w : World} (h : w.sys.dbOpens = true) :
    wp (dbDelete nick attr) (fun _ w' => w'.sys.dbOpens = true) w :=
  wp_dbDelete h h

omit [Env] in
theorem wp_dbDelete_gone {nick : Bytes} {attr : String} {w : World} (h : w.sys.dbOpens = true) :
    wp (dbDelete nick attr) (fun _ => Gone (dbKey nick attr)) w :=
  wp_dbDelete h ⟨h, Function.update_self ..⟩

omit [Env] in
theorem Gone.delete {key nick : Bytes} {attr : String} {w : World} (h : Gone key w) :
    wp (dbDelete nick attr) (fun _ => Gone key) w := by
  refine wp_dbDelete h.1 ⟨h.1, ?_⟩
  show Function.update w.db (dbKey nick attr) none key = none
  rw [Function.update_apply, h.2, ite_self]

/-- One round of the second loop of `nickdelete`. -/
def deleteLetter (nick : Bytes) (i : Int) : W Unit := do
  dbDelete nick (numbered "header" (i + 1))
  dbDelete nick (numbered "message" (i + 1))
  dbDelete nick (numbered "from" (i + 1))

omit [Env] in
theorem Gone.deleteLetter {key nick : Bytes} {i : Int} {w : World} (h : Gone key w) :
    wp (deleteLetter nick i) (fun _ => Gone key) w :=
  wp_bind (wp_mono h.delete fun _ _ h => wp_bind (wp_mono h.delete fun _ _ h => h.delete))

omit [Env] in
theorem wp_deleteLetter_opens {nick : Bytes} {i : Int} {w : World} (h : w.sys.dbOpens = true) :
    wp (deleteLetter nick i) (fun _ w' => w'.sys.dbOpens = true) w :=
  wp_bind (wp_dbDelete h (wp_bind (wp_dbDelete h (wp_dbDelete h h))))

omit [Env] in
theorem wp_deleteLetter_gone {nick : Bytes} {p : Part} {k : Nat} {w : World}
    (h : w.sys.dbOpens = true) :
    wp (deleteLetter nick k) (fun _ => Gone (partKey nick p (k + 1))) w := by
  cases p with
  | header =>
    exact wp_bind (wp_mono (wp_dbDelete_gone h) fun _ _ h =>
      wp_bind (wp_mono h.delete fun _ _ h => h.delete))
  | text =>
    exact wp_bind (wp_dbDelete h (wp_bind (wp_mono (wp_dbDelete_gone h) fun _ _ h => h.delete)))
  | sender => exact wp_bind (wp_dbDelete h (wp_bind (wp_dbDelete h (wp_dbDelete_gone h))))

/-- The two loops of a deletion: what the first establishes may be what the second needs. -/
theorem nickdelete_gone {nick password key : Bytes} {J : World → Prop} {w : World}
    (hopen : w.sys.dbOpens = true) (hnick : (w.uTab n).nickname = nick) (hdel : deletes w n password)
    (hrecord : wp (each recordKeys fun k => dbDelete nick k) (fun _ => J) (getU n w).2)
    (hletters : ∀ t, J t → wp (each (slots maxWrites) (deleteLetter nick)) (fun _ => Gone key) t) :
    (nickdelete n password w).2.db key = none := by
  obtain ⟨hpass, hreg, hright⟩ := hdel
  rw [hnick] at hright
  subst hnick
  show wp (nickdelete n password) (fun _ w' => w'.db key = none) w
  refine wp_bind (wp_getU (wp_bind (wp_dbGet hopen ?_)))
  rw [show (getU n w).2.db = w.db from rfl, hright, if_neg hpass, if_neg hreg, if_neg nofun,
    if_neg (not_not_intro rfl)]
  refine wp_bind (wp_mono hrecord fun _ t ht => wp_bind (wp_mono (hletters t ht) fun _ t' hgone => ?_))
  exact Within.wp Stilly fun _ w' hS => (congrFun hS.db key).trans hgone.2

/-- A deletion removes what it lists. -/
theorem nickdelete_record {nick password : Bytes} {attr : String} {w : World}
    (hopen : w.sys.dbOpens = true) (hnick : (w.uTab n).nickname = nick) (hdel : deletes w n password)
    (hattr : attr ∈ recordKeys) : (nickdelete n password w).2.db (dbKey nick attr) = none := by
  refine nickdelete_gone (J := Gone (dbKey nick attr)) hopen hnick hdel ?_ fun t ht =>
    wp_each (fun _ _ _ h => h.deleteLetter) ht
  exact wp_each_of_mem (J := fun w => w.sys.dbOpens = true) hattr
    (fun _ h => wp_dbDelete_gone h) (fun _ _ _ h => h.delete) (fun _ _ _ h => wp_dbDelete_opens h) hopen

/-- And the letters that fit a mailbox. -/
theorem nickdelete_letter {nick password : Bytes} {p : Part} {k : Nat} {w : World}
    (hopen : w.sys.dbOpens = true) (hnick : (w.uTab n).nickname = nick) (hdel : deletes w n password)
    (hk : 1 ≤ k ∧ k ≤ maxWrites) : (nickdelete n password w).2.db (partKey nick p k) = none := by
  refine nickdelete_gone (J := fun w => w.sys.dbOpens = true) hopen hnick hdel
    (wp_each (fun _ _ _ h => wp_dbDelete_opens h) hopen) fun t ht => ?_
  obtain ⟨k, rfl⟩ : ∃ j, k = j + 1 := ⟨k - 1, by omega⟩
  exact wp_each_of_mem (J := fun w => w.sys.dbOpens = true) (b := (k : Int))
    (mem_slots.mpr (by omega)) (fun _ h => wp_deleteLetter_gone h) (fun _ _ _ h => h.deleteLetter)
    (fun _ _ _ h => wp_deleteLetter_opens h) ht

/-- **After a deletion nothing of the mailbox is left.** -/
theorem nickdelete_clears {nick password : Bytes} {box : List Letter} {w : World}
    (hopen : w.sys.dbOpens = true) (hnick : (w.uTab n).nickname = nick)
    (hbox : Holds w.db nick box) (hdel : deletes w n password) :
    (nickdelete n password w).2.db (countKey nick) = none ∧
      ∀ p k, (nickdelete n password w).2.db (partKey nick p k) = none := by
  refine ⟨nickdelete_record hopen hnick hdel (by decide), fun p k => ?_⟩
  by_cases hk : 1 ≤ k ∧ k ≤ maxWrites
  · exact nickdelete_letter hopen hnick hdel hk
  · -- the loop does not come here, and there was no letter
    have hnone : w.db (partKey nick p k) = none := by
      cases k with
      | zero => exact hbox.zero p
      | succ k =>
        have hroom := hbox.room
        rw [hbox.part, List.getElem?_eq_none (by omega)]
        rfl
    exact nickdelete_gone (J := Gone (partKey nick p k)) hopen hnick hdel
      (wp_each (fun _ _ _ h => h.delete) ⟨hopen, hnone⟩) fun t ht =>
        wp_each (fun _ _ _ h => h.deleteLetter) ht

/-! ## §6 — runs -/

/-- A call of the mailbox functions. -/
inductive MailCall
  | write (n : Int) (user message : Bytes)
  | read (n : Int)
  | check (n : Int)

def MailCall.prog (depth : Nat) : MailCall → M Unit
  | .write n user message => onWorld (nickwritemsg n user message)
  | .read n => nickreadmsg (cmdmsg depth) n
  | .check n => onWorld do
      let _ ← nickckmsg n
      pure ()

/-- `n` is a registered user. A nickname fits its array. -/
structure Member (w : World) (n : Int) : Prop where
  slot : inUsers n
  registered : (w.uTab n).realname ≠ []
  fits : (w.uTab n).nickname.length ≤ maxNickLen

/-- Anybody registered may write; the owner reads and checks. -/
def MailCall.valid (nick : Bytes) (w : World) : MailCall → Prop
  | .write n _ _ => Member w n
  | .read n | .check n => Member w n ∧ lcaseit (w.uTab n).nickname = lcaseit nick

/-- The queue after a call: messages to `nick` are accepted while there is room, a read takes all. -/
def MailCall.queue (nick : Bytes) (w : World) (box : List Letter) : MailCall → List Letter
  | .write n user message =>
      if lcaseit user = lcaseit nick ∧ user ≠ [] ∧ message ≠ [] ∧ box.length < maxWrites then
        box ++ [letterOf w n message]
      else box
  | .read _ => []
  | .check _ => box

/-- The messages accepted since the last read. -/
def pending (nick : Bytes) (log : List (Daemon × MailCall)) : List Letter :=
  log.foldl (fun box c => c.2.queue nick c.1.w box) []

/-- No mail is stored for a nick. -/
structure NoMail (db : Bytes → Option Bytes) (nick : Bytes) : Prop where
  count : nummsg db nick = 0
  part : ∀ p k, db (partKey nick p k) = none

/-- Calls from a registered nick without mail on, each with the state it was made in. Anything else
may happen in between that leaves the record of the nick alone. -/
inductive MailRun (depth : Nat) (nick : Bytes) : List (Daemon × MailCall) → Daemon → Prop
  | start {d : Daemon} (hknown : (d.w.db (dbKey nick "nick")).isSome) (hmail : NoMail d.w.db nick) :
      MailRun depth nick [] d
  | other {log : List (Daemon × MailCall)} {d d' : Daemon} (hr : MailRun depth nick log d)
      (hsame : SameBox nick d.w.db d'.w.db) : MailRun depth nick log d'
  | call {log : List (Daemon × MailCall)} {d : Daemon} (hr : MailRun depth nick log d)
      (hready : d.Ready) (c : MailCall) (hvalid : c.valid nick d.w) :
      MailRun depth nick (log ++ [(d, c)]) (c.prog depth d).2

/-- The mailbox holds the letters, each with a sender that fits, and the nick is known. -/
structure Filled (nick : Bytes) (db : Bytes → Option Bytes) (box : List Letter) : Prop where
  known : (db (dbKey nick "nick")).isSome
  holds : Holds db nick box
  short : ∀ l ∈ box, l.sender.length ≤ maxNickLen

/-- A message follows the queue. -/
theorem Filled.write {nick user message : Bytes} {box : List Letter} {w : World}
    (h : Filled nick w.db box) (hopen : w.sys.dbOpens = true) (hmember : Member w n) :
    Filled nick (nickwritemsg n user message w).2.db
      (MailCall.queue nick w box (.write n user message)) := by
  show Filled nick _ (if lcaseit user = lcaseit nick ∧ user ≠ [] ∧ message ≠ [] ∧
    box.length < maxWrites then box ++ [letterOf w n message] else box)
  by_cases hnick : lcaseit user = lcaseit nick
  · have hbox := h.holds.congr hnick.symm
    have hknown := h.known
    rw [← dbKey_congr hnick] at hknown
    by_cases haccept : user ≠ [] ∧ message ≠ [] ∧ box.length < maxWrites
    · obtain ⟨huser, hmessage, hroom⟩ := haccept
      rw [if_pos ⟨hnick, huser, hmessage, hroom⟩,
        nickwritemsg_stores hopen hmember.registered huser hknown hmessage hbox hroom]
      refine ⟨?_, (hbox.push hroom _).congr hnick, fun l hl => ?_⟩
      · rw [Function.update_of_ne nickKey_ne_countKey,
          setLetter_of_ne fun p => (partKey_ne (.inr rfl)).symm]
        exact h.known
      · rcases List.mem_append.mp hl with hold | hnew
        · exact h.short l hold
        · obtain rfl := List.mem_singleton.mp hnew
          exact hmember.fits
    · rw [if_neg fun hall => haccept hall.2]
      have hroom := hbox.room
      have hrefused : user = [] ∨ message = [] ∨ Holds w.db user box ∧ box.length = maxWrites := by
        by_contra hno
        simp only [not_or, not_and] at hno
        exact haccept ⟨hno.1, hno.2.1, by have := hno.2.2 hbox; omega⟩
      rw [nickwritemsg_keeps hopen hrefused]
      exact h
  · rw [if_neg fun hall => hnick hall.1]
    have hsame := nickwritemsg_other n message hopen hnick
    exact ⟨hsame.known ▸ h.known, h.holds.same hsame, h.short⟩

/-- One call follows the queue. -/
theorem Filled.call {nick : Bytes} {box : List Letter} {d : Daemon} (h : Filled nick d.w.db box)
    (hready : d.Ready) (c : MailCall) (hvalid : c.valid nick d.w) :
    Filled nick (c.prog depth d).2.w.db (c.queue nick d.w box) := by
  cases c with
  | write n user message => exact h.write hready.opens hvalid
  | read n =>
    obtain ⟨hmember, hnick⟩ := hvalid
    obtain ⟨db', heq, hholds, hknown⟩ := nickreadmsg_handedOut depth hmember.slot hready
      hmember.registered (h.holds.congr hnick.symm) h.short
    show Filled nick (nickreadmsg (cmdmsg depth) n d).2.w.db []
    rw [heq]
    refine ⟨?_, hholds.congr hnick, nofun⟩
    show (db' (dbKey nick "nick")).isSome
    rw [← dbKey_congr hnick, hknown, dbKey_congr hnick]
    exact h.known
  | check n =>
    obtain ⟨-, hnick⟩ := hvalid
    obtain ⟨hholds, hknown⟩ := nickckmsg_holds (n := n) hready.opens (h.holds.congr hnick.symm)
    refine ⟨?_, hholds.congr hnick, h.short⟩
    rw [dbKey_congr hnick] at hknown
    exact hknown ▸ h.known

theorem MailRun.filled {nick : Bytes} {log : List (Daemon × MailCall)} {d : Daemon}
    (hr : MailRun depth nick log d) : Filled nick d.w.db (pending nick log) := by
  induction hr with
  | start hknown hmail =>
    refine ⟨hknown, ⟨hmail.count, fun p => hmail.part p 0, fun p k => ?_, Nat.zero_le _⟩, nofun⟩
    rw [hmail.part]
    rfl
  | other _ hsame ih => exact ⟨hsame.known ▸ ih.known, ih.holds.same hsame, ih.short⟩
  | call _ hready c hvalid ih =>
    rw [pending, List.foldl_append]
    exact ih.call hready c hvalid

/-- **The mailbox is an exactly-once queue.** After any calls: the parts stored are those of the
letters 1 to `nummsg`, at most `MAX_WRITES`; a read by the owner hands the messages accepted since the
last one to `send_person_stored`, in their order and with their senders, and sets `nummsg` to 0; a
message to a full mailbox is refused and changes nothing; a successful deletion leaves no key. -/
theorem mailbox_exactly_once {nick : Bytes} {log : List (Daemon × MailCall)} {d : Daemon}
    (hr : MailRun depth nick log d) :
    (∀ p k, (d.w.db (partKey nick p k)).isSome ↔ 1 ≤ k ∧ k ≤ nummsg d.w.db nick) ∧
    nummsg d.w.db nick ≤ maxWrites ∧
    (∀ n, d.Ready → MailCall.valid nick d.w (.read n) →
      ∃ db', (nickreadmsg (cmdmsg depth) n d).2 =
          (handOut (cmdmsg depth) n (pending nick log) d).2.withDb db' ∧ nummsg db' nick = 0) ∧
    (∀ n user message, d.Ready → Member d.w n → lcaseit user = lcaseit nick → user ≠ [] →
      message ≠ [] → nummsg d.w.db nick = maxWrites →
      (nickwritemsg n user message d.w).2 = (senderror n (str "User mailbox full") d.w).2) ∧
    ∀ n password, d.Ready → lcaseit (d.w.uTab n).nickname = lcaseit nick → deletes d.w n password →
      (nickdelete n password d.w).2.db (countKey nick) = none ∧
        ∀ p k, (nickdelete n password d.w).2.db (partKey nick p k) = none := by
  obtain ⟨hknown, hholds, hshort⟩ := hr.filled
  refine ⟨fun p k => ?_, ?_, fun n hready hvalid => ?_, ?_, ?_⟩
  · rw [hholds.count]
    cases k with
    | zero => simp [hholds.zero p]
    | succ k =>
      have hlen : (pending nick log)[k]?.isSome ↔ k < (pending nick log).length := by simp
      rw [hholds.part, Option.isSome_map, hlen]
      omega
  · rw [hholds.count]
    exact_mod_cast hholds.room
  · obtain ⟨hmember, hnick⟩ := hvalid
    obtain ⟨db', heq, hempty, -⟩ := nickreadmsg_handedOut depth hmember.slot hready
      hmember.registered (hholds.congr hnick.symm) hshort
    exact ⟨db', heq, (hempty.congr hnick).count⟩
  · intro n user message hready hmember hnick huser hmessage hfull
    rw [← dbKey_congr hnick] at hknown
    rw [hholds.count] at hfull
    exact nickwritemsg_full hmember.slot hready.opens hmember.registered huser hknown hmessage
      (hholds.congr hnick.symm) (by exact_mod_cast hfull)
  · intro n password hready hnick hdel
    have hclear := nickdelete_clears hready.opens rfl (hholds.congr hnick.symm) hdel
    rw [countKey, dbKey_congr hnick] at hclear
    refine ⟨hclear.1, fun p k => ?_⟩
    rw [partKey, ← dbKey_congr hnick]
    exact hclear.2 p k

end

section
attribute [local instance] smallEnv

/-- Slots 1 and 2 belong to `bo` and `al`, who has registered. -/
def twoUsers : Daemon where
  w :=
    { uTab := fun n =>
        if n = 1 then { nickname := str "bo", realname := registered, login := .complete }
        else if n = 2 then { nickname := str "Al", realname := registered, login := .complete }
        else {}
      db := fun key => if key = dbKey (str "al") "nick" then some (str "al") else none }

/-- `bo` leaves a message and `al` is handed it. -/
theorem mailbox_exactly_once_one :
    let c : MailCall := .write 1 (str "AL") (str "hi")
    let l : Letter := letterOf twoUsers.w 1 (str "hi")
    l.sender = str "bo" ∧ l.text = str "hi" ∧
      ∃ db', (nickreadmsg (cmdmsg 1) 2 (c.prog 1 twoUsers).2).2 =
        (handOut (cmdmsg 1) 2 [l] (c.prog 1 twoUsers).2).2.withDb db' ∧ nummsg db' (str "al") = 0 := by
  intro c l
  have hmail : NoMail twoUsers.w.db (str "al") := by
    refine ⟨by decide, fun p k => if_neg (partKey_ne (.inr rfl))⟩
  have hwriter : Member twoUsers.w 1 := ⟨by decide, by decide, by decide⟩
  have hrun : MailRun 1 (str "al") [(twoUsers, c)] (c.prog 1 twoUsers).2 :=
    .call (.start (by decide) hmail) ⟨by decide, rfl⟩ c hwriter
  refine ⟨by decide, by decide, (mailbox_exactly_once hrun).2.2.1 2 ⟨by decide, by decide⟩ ?_⟩
  exact ⟨⟨by decide, by decide, by decide⟩, by decide⟩

end

end Icbd.Server
