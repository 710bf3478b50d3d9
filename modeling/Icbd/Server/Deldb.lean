/-
# Icbd.Server.Deldb — `deldb.py` beside `nickdelete`.

A nick is deleted by its owner, with a command to the server, or by the operator, with a program that writes the file
while the server is down. The one removes the attributes it lists and every letter a mailbox can hold, the other the
same attributes and as many letters as the counter says. `deldb_nickdelete_iff` says when the two leave the same.
-/
import Icbd.Dbm.Edits
import Icbd.Server.Orphans
import Mathlib.Data.Bool.AllAny

namespace Icbd.Server

open Icbd.Dbm Icbd.Lib

/-! ## §1 — the program -/

/-- `SUFFIXES`. -/
def suffixes : List String :=
  ["addr", "email", "home", "nick", "nummsg", "password", "phone", "realname", "secure", "signoff", "signon", "text",
   "www"]

/-- `db.get(key, default)`. -/
def getDefault (db : PyDb) (key default : PyStr) : PyStr := (db.data.get? key).getD default

/-- `f"{nick}.{s}"`. -/
def pyKey (nick : PyStr) (s : String) : PyStr := nick ++ '.' :: s.toList

/-- The keys that are deleted, those of them that are there. -/
def deldbKeys (nick : PyStr) (num : Int) : List PyStr :=
  suffixes.map (pyKey nick) ++
    (List.range num.toNat).flatMap fun i =>
      ["header", "from", "message"].map fun p => pyKey nick (p ++ toString (i + 1))

section
variable (strLower : PyStr → PyStr) (strInt : PyStr → Option Int)

/-- One round of the loop over the nicks, without what it prints; `none` is a `ValueError`. -/
def deldbNick (db : PyDb) (nick : PyStr) : Option PyDb :=
  let nick := if getDefault db (pyKey nick "nick") [] = [] then strLower nick else nick
  let num := getDefault db (pyKey nick "nummsg") ['0']
  (strInt (if num = [] then ['0'] else num)).map fun num =>
    ((deldbKeys nick num).map Edit.del).foldl Edit.on db

/-- The loop. An exception ends it, and `__exit__` saves the database all the same. -/
def deldbNicks (db : PyDb) : List PyStr → PyDb
  | [] => db
  | nick :: nicks =>
      match deldbNick strLower strInt db nick with
      | none => db
      | some db => deldbNicks db nicks

/-- `deldb.py`: the file it leaves. -/
def deldb (disk : Option Bytes) (nicks : List PyStr) : Option (Option Bytes) := do
  let db ← pyOpen disk
  (deldbNicks strLower strInt db nicks).flush disk

/-- `str.lower` of a text in ASCII, and `int` of digits. -/
structure PyStrings : Prop where
  lower : ∀ cs : PyStr, (∀ c ∈ cs, c.toNat < 128) → strLower cs = cs.map Char.toLower
  int : ∀ k : Nat, strInt (toString k).toList = some (k : Int)

end

/-! ## §2 — ASCII -/

theorem encodeText_append (s t : PyStr) : encodeText (s ++ t) = encodeText s ++ encodeText t := List.flatMap_append

/-- An ASCII text is encoded character by character. -/
theorem encodeText_ascii {cs : PyStr} (h : ∀ c ∈ cs, c.toNat < 128) :
    encodeText cs = cs.map fun c => UInt8.ofNat c.toNat := by
  have hone : ∀ n : Fin 128, encode (Char.ofNat n) = [UInt8.ofNat n] := by decide +kernel
  induction cs with
  | nil => rfl
  | cons c cs ih =>
    obtain ⟨hc, hcs⟩ := List.forall_mem_cons.mp h
    have hchar : encode c = [UInt8.ofNat c.toNat] := by
      have := hone ⟨c.toNat, hc⟩
      rwa [Char.ofNat_toNat] at this
    have hcons : encodeText (c :: cs) = encode c ++ encodeText cs := List.flatMap_cons
    rw [hcons, hchar, ih hcs]
    rfl

/-- `str.lower` and `lcaseit` agree on ASCII. -/
theorem encodeText_toLower {cs : PyStr} (h : ∀ c ∈ cs, c.toNat < 128) :
    encodeText (cs.map Char.toLower) = lcaseit (encodeText cs) := by
  have hone : ∀ n : Fin 128, (Char.ofNat n).toLower.toNat < 128 ∧
      UInt8.ofNat (Char.ofNat n).toLower.toNat = lower (UInt8.ofNat n) := by decide +kernel
  have hchar {c : Char} (hc : c ∈ cs) : c.toLower.toNat < 128 ∧
      UInt8.ofNat c.toLower.toNat = lower (UInt8.ofNat c.toNat) := by
    have := hone ⟨c.toNat, h c hc⟩
    rwa [Char.ofNat_toNat] at this
  have hlow : ∀ c ∈ cs.map Char.toLower, c.toNat < 128 := by
    intro c hc
    obtain ⟨c', hc', rfl⟩ := List.mem_map.mp hc
    exact (hchar hc').1
  rw [encodeText_ascii h, encodeText_ascii hlow, lcaseit, List.map_map, List.map_map]
  exact List.map_congr_left fun c hc => (hchar hc).2

/-- An attribute in ASCII and lower case. -/
def LowerAttr (attr : String) : Prop := (∀ c ∈ attr.toList, c.toNat < 128) ∧ lcaseit (str attr) = str attr

/-- The key of an attribute, in both languages. -/
theorem encodeText_pyKey {nick : PyStr} {nick' : Bytes} (hnick : encodeText nick = lcaseit nick') {attr : String}
    (hattr : LowerAttr attr) : encodeText (pyKey nick attr) = dbKey nick' attr := by
  have hdot : encodeText ('.' :: attr.toList) = str "." ++ str attr := by
    rw [encodeText_ascii (List.forall_mem_cons.mpr ⟨by decide, hattr.1⟩)]
    rfl
  rw [pyKey, encodeText_append, hnick, hdot, dbKey, lcaseit, lcaseit, List.map_append, List.map_append,
    List.append_assoc]
  congr 2
  exact hattr.2.symm

theorem lowerAttr_record {attr : String} (h : attr ∈ recordKeys) : LowerAttr attr := by
  have hascii : ∀ attr ∈ recordKeys, attr.toList.all (·.toNat < 128) := by decide
  have hlower : ∀ attr ∈ recordKeys, lcaseit (str attr) = str attr := by decide
  exact ⟨List.all_iff_forall_prop.mp (hascii attr h), hlower attr h⟩

theorem lowerAttr_part (p : Part) (k : Nat) : LowerAttr (numbered p.base k) := by
  have hascii : p.base.toList.all (·.toNat < 128) := by cases p <;> decide
  have hlower : lcaseit (str p.base) = str p.base := by cases p <;> decide
  constructor
  · intro c hc
    have hsplit : (numbered p.base k).toList = p.base.toList ++ k.repr.toList := String.toList_append
    rw [hsplit, List.mem_append] at hc
    rcases hc with hc | hc
    · exact List.all_iff_forall_prop.mp hascii c hc
    · rw [Nat.toList_repr] at hc
      have hdigit := Nat.isDigit_of_mem_toDigits (by decide) (by decide) hc
      simp only [Char.isDigit, Bool.and_eq_true, decide_eq_true_eq] at hdigit
      have hle : c.toNat ≤ 57 := hdigit.2
      omega
  · rw [lcaseit_numbered, str_numbered, hlower]

/-! ## §3 — what is deleted -/

section
variable {f : Contents} {nick : Bytes} {key : Bytes}

/-- The keys that `deldb.py` deletes when the counter says `num`. -/
def Forgotten (nick : Bytes) (num : Int) (key : Bytes) : Prop :=
  ∃ attr, key = dbKey nick attr ∧
    (attr ∈ recordKeys ∨ ∃ (p : Part) (k : Nat), 1 ≤ k ∧ (k : Int) ≤ num ∧ attr = numbered p.base k)

theorem mem_deldbKeys {nick' : PyStr} (hnick : encodeText nick' = lcaseit nick) (num : Int) :
    (∃ k ∈ deldbKeys nick' num, encodeText k = key) ↔ Forgotten nick num key := by
  have hsuffixes : ∀ s, s ∈ suffixes ↔ s ∈ recordKeys := by
    intro s
    simp only [suffixes, recordKeys, List.mem_cons, List.not_mem_nil, or_false]
    tauto
  constructor
  · rintro ⟨k, hk, rfl⟩
    rcases List.mem_append.mp hk with hk | hk
    · obtain ⟨s, hs, rfl⟩ := List.mem_map.mp hk
      have hrecord := (hsuffixes s).mp hs
      exact ⟨s, encodeText_pyKey hnick (lowerAttr_record hrecord), .inl hrecord⟩
    · obtain ⟨i, hi, hk⟩ := List.mem_flatMap.mp hk
      obtain ⟨base, hbase, rfl⟩ := List.mem_map.mp hk
      have hlt := List.mem_range.mp hi
      obtain ⟨p, rfl⟩ : ∃ p : Part, base = p.base := by
        simp only [List.mem_cons, List.not_mem_nil, or_false] at hbase
        rcases hbase with rfl | rfl | rfl
        exacts [⟨.header, rfl⟩, ⟨.sender, rfl⟩, ⟨.text, rfl⟩]
      refine ⟨numbered p.base (i + 1 : Nat), encodeText_pyKey hnick (lowerAttr_part p (i + 1)), .inr ?_⟩
      exact ⟨p, i + 1, by omega, by omega, rfl⟩
  · rintro ⟨attr, rfl, hrecord | ⟨p, k, hpos, hle, rfl⟩⟩
    · refine ⟨pyKey nick' attr, ?_, encodeText_pyKey hnick (lowerAttr_record hrecord)⟩
      exact List.mem_append_left _ (List.mem_map_of_mem ((hsuffixes attr).mpr hrecord))
    · obtain ⟨i, rfl⟩ : ∃ i, k = i + 1 := ⟨k - 1, by omega⟩
      refine ⟨pyKey nick' (numbered p.base (i + 1 : Nat)), ?_, encodeText_pyKey hnick (lowerAttr_part p (i + 1))⟩
      refine List.mem_append_right _ (List.mem_flatMap.mpr ⟨i, List.mem_range.mpr (by omega), ?_⟩)
      refine List.mem_map.mpr ⟨p.base, ?_, rfl⟩
      cases p <;> decide

/-- A smaller counter reaches fewer letters. -/
theorem Forgotten.mono {num num' : Int} (hle : num ≤ num') (h : Forgotten nick num key) : Forgotten nick num' key := by
  obtain ⟨attr, rfl, hrecord | ⟨p, k, hpos, hk, rfl⟩⟩ := h
  · exact ⟨attr, rfl, .inl hrecord⟩
  · exact ⟨_, rfl, .inr ⟨p, k, hpos, hk.trans hle, rfl⟩⟩

/-- What a smaller counter does not reach is a letter behind it. -/
theorem Forgotten.beyond {num num' : Int} (h : Forgotten nick num' key) (hnot : ¬ Forgotten nick num key) :
    ∃ (p : Part) (k : Nat), num < k ∧ k ≤ num' ∧ key = partKey nick p k := by
  obtain ⟨attr, rfl, hrecord | ⟨p, k, hpos, hk, rfl⟩⟩ := h
  · exact absurd ⟨attr, rfl, .inl hrecord⟩ hnot
  · refine ⟨p, k, ?_, hk, rfl⟩
    by_contra hreached
    exact hnot ⟨_, rfl, .inr ⟨p, k, hpos, by omega, rfl⟩⟩

/-- Keys are deleted one after the other. -/
theorem foldl_del (ks : List PyStr) (f : Contents) (key : Bytes) :
    (ks.map Edit.del).foldl Edit.change f key = if key ∈ ks.map encodeText then none else f key := by
  induction ks generalizing f with
  | nil => rfl
  | cons k ks ih =>
    rw [List.map_cons, List.foldl_cons, ih, Edit.change, Function.update_apply]
    by_cases hk : key = encodeText k <;> simp [hk]

/-- Something is deleted. -/
theorem touches_del {ks : List PyStr} (h : ∃ k ∈ ks, (f (encodeText k)).isSome) : touches f (ks.map Edit.del) := by
  induction ks with
  | nil =>
    obtain ⟨k, hk, -⟩ := h
    cases hk
  | cons k ks ih =>
    obtain ⟨k', hk', hsome⟩ := h
    rw [List.map_cons, touches, Bool.or_eq_true]
    obtain rfl | hk' := List.mem_cons.mp hk'
    · exact .inl hsome
    · exact .inr (ih ⟨k', hk', hsome⟩)

/-- What the program leaves of a nick with a password. -/
theorem edited_deldb {nick' : PyStr} (hnick : encodeText nick' = lcaseit nick)
    (hpass : (f (dbKey nick "password")).isSome) (num : Int) (key : Bytes) :
    (Forgotten nick num key → edited f ((deldbKeys nick' num).map Edit.del) key = none) ∧
      (¬ Forgotten nick num key → edited f ((deldbKeys nick' num).map Edit.del) key = (f key).map replaced) := by
  have htouch : touches f ((deldbKeys nick' num).map Edit.del) := by
    obtain ⟨k, hk, hkey⟩ := (mem_deldbKeys hnick num).mpr ⟨"password", rfl, .inl (by decide)⟩
    exact touches_del ⟨k, hk, by rwa [hkey]⟩
  have hmem : key ∈ (deldbKeys nick' num).map encodeText ↔ Forgotten nick num key := by
    rw [List.mem_map]
    exact mem_deldbKeys hnick num
  rw [edited, if_pos htouch, foldl_del, ← hmem]
  exact ⟨fun hkey => if_pos hkey, fun hkey => if_neg hkey⟩

/-- What `nickdelete` removes. -/
theorem nickdelete_forgotten [Env] {w : World} {n : Int} {password : Bytes} (hopen : w.sys.dbOpens = true)
    (hdel : deletes w n password) (hkey : Forgotten (w.uTab n).nickname maxWrites key) :
    (nickdelete n password w).2.db key = none := by
  obtain ⟨attr, rfl, hrecord | ⟨p, k, hpos, hle, rfl⟩⟩ := hkey
  · exact nickdelete_record hopen rfl hdel hrecord
  · exact nickdelete_letter hopen rfl hdel ⟨hpos, by exact_mod_cast hle⟩

/-- What it leaves. -/
theorem nickdelete_kept [Env] (w : World) (n : Int) (password : Bytes)
    (hkey : ¬ Forgotten (w.uTab n).nickname maxWrites key) : (nickdelete n password w).2.db key = w.db key := by
  have hothers : Outside (w.uTab n).nickname
      (fun attr => attr ∈ recordKeys ∨ ∃ (p : Part) (k : Nat), 1 ≤ k ∧ (k : Int) ≤ maxWrites ∧ attr = numbered p.base k)
      w (nickdelete n password w).2 := by
    refine ((nickdelete_owns password (fun _ => .inl) fun p k hpos hle => .inr ?_).within w rfl).2
    exact ⟨p, k.toNat, by omega, by omega, by rw [Int.toNat_of_nonneg (by omega)]⟩
  exact hothers key fun attr hattr heq => hkey ⟨attr, heq, hattr⟩

end

/-! ## §4 — agreement -/

section
variable {strLower : PyStr → PyStr} {strInt : PyStr → Option Int} {f : Contents} {nick : Bytes}
  {disk disk' : Option Bytes} {arg : PyStr}

/-- The counter as `deldb.py` reads it. -/
theorem strInt_nummsg (hpy : PyStrings strLower strInt) {data : OrderedDict PyStr PyStr}
    (hstands : Stands data fun q => (f q).map replaced) (hcount : ∀ v, f (countKey nick) = some v → Counts v)
    {nick' : PyStr} (hnick : encodeText nick' = lcaseit nick) :
    let num := getDefault ⟨data, false⟩ (pyKey nick' "nummsg") ['0']
    strInt (if num = [] then ['0'] else num) = some (nummsg f nick) := by
  have hkey : encodeText (pyKey nick' "nummsg") = countKey nick :=
    encodeText_pyKey hnick (lowerAttr_record (by decide))
  have hget := hstands.get (pyKey nick' "nummsg")
  rw [hkey] at hget
  intro num
  cases hv : f (countKey nick) with
  | none =>
    rw [hv, Option.map_none, eq_comm, Option.map_eq_none_iff] at hget
    have hnum : num = ['0'] := by rw [show num = (data.get? _).getD ['0'] from rfl, hget, Option.getD_none]
    have hzero : atoi (str "0") = 0 := by decide
    rw [hnum, if_neg (by decide), nummsg, hv, Option.getD_none, hzero]
    exact hpy.int 0
  | some v =>
    obtain ⟨k, hk, rfl⟩ := hcount v hv
    have hascii : ∀ c ∈ (toString k).toList, c.toNat < 128 := by
      intro c hc
      exact (lowerAttr_part .header k).1 c (by
        rw [show (numbered Part.header.base k).toList = "header".toList ++ (toString k).toList from
          String.toList_append]
        exact List.mem_append_right _ hc)
    have htext : encodeText (toString k).toList = decimal k := encodeText_ascii hascii
    rw [hv, Option.map_some, ← htext, replaced, decodeReplace_encodeText, eq_comm, Option.map_eq_some_iff] at hget
    obtain ⟨x, hx, henc⟩ := hget
    obtain rfl := encodeText_injective henc
    have hnum : num = (toString k).toList := by
      rw [show num = (data.get? _).getD ['0'] from rfl, hx, Option.getD_some]
    have hne : (toString k).toList ≠ [] := by
      show k.repr.toList ≠ []
      rw [Nat.toList_repr]
      exact Nat.toDigits_ne_nil
    have hmax : maxWrites < 100 := by decide
    rw [hnum, if_neg hne, hpy.int k, nummsg, hv, Option.getD_some, atoi_decimal (by omega) (by omega)]

/-- The name the program looks for, in lower case. -/
theorem encodeText_found (hpy : PyStrings strLower strInt) {data : OrderedDict PyStr PyStr}
    (hstands : Stands data fun q => (f q).map replaced) (hkeys : ∀ key, (f key).isSome → lcaseit key = key)
    (harg : ∀ c ∈ arg, c.toNat < 128) (hname : lcaseit (encodeText arg) = lcaseit nick) :
    encodeText (if getDefault ⟨data, false⟩ (pyKey arg "nick") [] = [] then strLower arg else arg) =
      lcaseit nick := by
  split
  next => rw [hpy.lower arg harg, encodeText_toLower harg, hname]
  next hfound =>
    -- a key is in lower case as it is
    have hget := hstands.get (pyKey arg "nick")
    have hsome : (f (encodeText (pyKey arg "nick"))).isSome := by
      by_contra hnone
      rw [Option.not_isSome_iff_eq_none.mp hnone, Option.map_none, eq_comm, Option.map_eq_none_iff] at hget
      apply hfound
      show (data.get? _).getD [] = []
      rw [hget, Option.getD_none]
    have hlower := hkeys _ hsome
    rw [pyKey, encodeText_append, lcaseit, List.map_append] at hlower
    rw [← hname]
    exact (List.append_inj_left hlower (List.length_map _)).symm

/-- **One nick**: the program deletes its keys. -/
theorem deldb_eq_edit (hpy : PyStrings strLower strInt) (h : Saved disk f)
    (hkeys : ∀ key, (f key).isSome → lcaseit key = key) (hcount : ∀ v, f (countKey nick) = some v → Counts v)
    (harg : ∀ c ∈ arg, c.toNat < 128) (hname : lcaseit (encodeText arg) = lcaseit nick) :
    ∃ nick', encodeText nick' = lcaseit nick ∧
      deldb strLower strInt disk [arg] = edit disk ((deldbKeys nick' (nummsg f nick)).map Edit.del) := by
  obtain ⟨data, hopen, hstands⟩ := h.opens
  have hfound := encodeText_found hpy hstands hkeys harg hname
  refine ⟨_, hfound, ?_⟩
  have hnum := strInt_nummsg hpy hstands hcount hfound
  have hround : deldbNick strLower strInt ⟨data, false⟩ arg = some (((deldbKeys
      (if getDefault ⟨data, false⟩ (pyKey arg "nick") [] = [] then strLower arg else arg)
      (nummsg f nick)).map Edit.del).foldl Edit.on ⟨data, false⟩) := by
    rw [deldbNick]
    dsimp only at hnum ⊢
    rw [hnum]
    rfl
  rw [deldb, edit, hopen]
  show (deldbNicks strLower strInt ⟨data, false⟩ [arg]).flush disk = _
  rw [deldbNicks, hround]
  rfl

/-- The counter is that of a mailbox. -/
theorem nummsg_le (hcount : ∀ v, f (countKey nick) = some v → Counts v) :
    0 ≤ nummsg f nick ∧ nummsg f nick ≤ maxWrites := by
  have hmax : maxWrites < 100 := by decide
  rw [nummsg]
  cases hv : f (countKey nick) with
  | none =>
    have hzero : atoi (str "0") = 0 := by decide
    rw [Option.getD_none, hzero]
    omega
  | some v =>
    obtain ⟨k, hk, rfl⟩ := hcount v hv
    rw [Option.getD_some, atoi_decimal (by omega) (by omega)]
    omega

/-- A letter that is deleted has a number within the counter. -/
theorem forgotten_part {p : Part} {k : Nat} {num : Int} (h : Forgotten nick num (partKey nick p k)) :
    1 ≤ k ∧ (k : Int) ≤ num := by
  obtain ⟨attr, heq, hrecord | ⟨p', k', hpos, hle, rfl⟩⟩ := h
  · -- no attribute of a record ends in a digit
    have hdigits : ∀ attr ∈ recordKeys, ∀ b ∈ lcaseit (str attr), ¬ (48 ≤ b ∧ b ≤ 57) := by
      simp only [← List.all_iff_forall_prop]
      decide
    have hdot : 46 ∉ str attr := (Listed.dot_notMem (.inl hrecord))
    have hattr := (dbKey_inj (dot_notMem_numbered p k) hdot heq).2
    rw [lcaseit_numbered] at hattr
    obtain ⟨b, hb⟩ := List.exists_mem_of_ne_nil (str k.repr) (by
      rw [str, Nat.toList_repr, Ne, List.map_eq_nil_iff]
      exact Nat.toDigits_ne_nil)
    exact absurd (digit_of_mem_repr hb) (hdigits attr hrecord b (hattr ▸ List.mem_append_right _ hb))
  · have hpart : partKey nick p k = partKey nick p' k' := heq
    obtain ⟨-, -, rfl⟩ := partKey_inj hpart
    exact ⟨hpos, hle⟩

/-- The program and `nickdelete` leave the same of a database, just when the counter reaches all letters. -/
theorem edited_nickdelete_iff [Env] {w : World} {n : Int} {password : Bytes} (hopen : w.sys.dbOpens = true)
    (hdel : deletes w n password) {nick' : PyStr} (hnick : encodeText nick' = lcaseit (w.uTab n).nickname)
    {num : Int} (hnonneg : 0 ≤ num) (hroom : num ≤ maxWrites) :
    ((fun key => ((nickdelete n password w).2.db key).map replaced) =
        edited w.db ((deldbKeys nick' num).map Edit.del)) ↔
      ∀ (p : Part) (k : Nat), num < k → k ≤ maxWrites → w.db (partKey (w.uTab n).nickname p k) = none := by
  have hleft := edited_deldb hnick (by rw [hdel.2.2]; rfl) num (f := w.db)
  rw [funext_iff]
  constructor
  · intro hsame p k hlt hle
    have hkey := hsame (partKey (w.uTab n).nickname p k)
    have hletter : Forgotten (w.uTab n).nickname maxWrites (partKey (w.uTab n).nickname p k) :=
      ⟨_, rfl, .inr ⟨p, k, by omega, by exact_mod_cast hle, rfl⟩⟩
    have hstays : ¬ Forgotten (w.uTab n).nickname num (partKey (w.uTab n).nickname p k) := by
      intro hforgotten
      have := (forgotten_part hforgotten).2
      omega
    rw [nickdelete_forgotten hopen hdel hletter, (hleft _).2 hstays, Option.map_none, eq_comm,
      Option.map_eq_none_iff] at hkey
    exact hkey
  · intro hnone key
    by_cases hkey : Forgotten (w.uTab n).nickname maxWrites key
    · rw [nickdelete_forgotten hopen hdel hkey, Option.map_none]
      by_cases hgone : Forgotten (w.uTab n).nickname num key
      · rw [(hleft key).1 hgone]
      · -- what the program does not delete of these is a letter beyond the counter
        obtain ⟨p, k, hlt, hle, rfl⟩ := hkey.beyond hgone
        rw [(hleft _).2 hgone, hnone p k hlt (by exact_mod_cast hle), Option.map_none]
    · have hstays : ¬ Forgotten (w.uTab n).nickname num key := fun hgone => hkey (hgone.mono hroom)
      rw [nickdelete_kept w n password hkey, (hleft key).2 hstays]

/-- **Deleting from outside.** The program always leaves a file, and the server finds in it what `nickdelete` would
have left, with U+FFFD for what is not UTF-8, just when no letter has a number the counter does not reach. -/
theorem deldb_nickdelete_iff [Env] (hpy : PyStrings strLower strInt) {w : World} {n : Int} {password : Bytes}
    (h : Saved disk w.db) (hfits : Dbm.Fits fun key => (w.db key).map replaced)
    (hkeys : ∀ key, (w.db key).isSome → lcaseit key = key)
    (hcount : ∀ v, w.db (countKey (w.uTab n).nickname) = some v → Counts v)
    (hopen : w.sys.dbOpens = true) (hdel : deletes w n password)
    (harg : ∀ c ∈ arg, c.toNat < 128) (hname : lcaseit (encodeText arg) = lcaseit (w.uTab n).nickname) :
    ∃ disk', deldb strLower strInt disk [arg] = some disk' ∧
      (Reads disk' (fun key => ((nickdelete n password w).2.db key).map replaced) ↔
        ∀ (p : Part) (k : Nat), nummsg w.db (w.uTab n).nickname < k → k ≤ maxWrites →
          w.db (partKey (w.uTab n).nickname p k) = none) := by
  obtain ⟨nick', hnick', hdeldb⟩ := deldb_eq_edit hpy h hkeys hcount harg hname
  obtain ⟨hnonneg, hroom⟩ := nummsg_le hcount
  have hpass : (w.db (dbKey (w.uTab n).nickname "password")).isSome := by
    rw [hdel.2.2]
    rfl
  have hfits' : Dbm.Fits (edited w.db ((deldbKeys nick' (nummsg w.db (w.uTab n).nickname)).map Edit.del)) := by
    apply hfits.mono
    intro key v hkey
    obtain ⟨hgone, hstays⟩ := edited_deldb hnick' hpass (nummsg w.db (w.uTab n).nickname) key
    by_cases hforgotten : Forgotten (w.uTab n).nickname (nummsg w.db (w.uTab n).nickname) key
    · rw [hgone hforgotten] at hkey
      cases hkey
    · rwa [hstays hforgotten] at hkey
  obtain ⟨disk', hrun⟩ := edit_isSome h hfits'
  refine ⟨disk', hdeldb.trans hrun, ?_⟩
  rw [(h.edit hrun).reads_iff, and_iff_left hfits']
  exact edited_nickdelete_iff hopen hdel hnick' hnonneg hroom

end

section
attribute [local instance] smallEnv

/-- The record of `al`, who has a letter. -/
def alDisk : List (Entry Bytes Bytes) :=
  [⟨str "al.password", str "pw"⟩, ⟨str "al.nummsg", str "1"⟩, ⟨str "al.from1", str "bo"⟩]

theorem deldb_nickdelete_iff_al :
    let w : World := { uTab := fun _ => { nickname := str "Al", realname := registered }, db := alDisk.dlookup }
    ∃ disk, deldb (List.map Char.toLower) (fun s => some (Nat.ofDigitChars 10 s 0)) (some (encodeFile alDisk))
        [['A', 'L']] = some disk ∧ Reads disk fun key => ((nickdelete 1 (str "pw") w).2.db key).map replaced := by
  intro w
  have hrecord {p : Bytes → Bytes → Prop} (hp : ∀ e ∈ alDisk, p e.1 e.2) {k v : Bytes} (hk : w.db k = some v) :
      p k v := hp ⟨k, v⟩ (List.of_mem_dlookup hk)
  have hnd : alDisk.NodupKeys := by
    show alDisk.keys.Nodup
    decide +kernel
  have hkeys : ∀ e ∈ alDisk, replaced e.1 = e.1 := by decide +kernel
  have hsaved : Saved (some (encodeFile alDisk)) w.db :=
    .file hnd (by decide) (by decide) hkeys
  have hvalues : ∀ e ∈ alDisk, replaced e.2 = e.2 := by decide +kernel
  have hsame : (fun key => (w.db key).map replaced) = w.db := by
    funext key
    cases hk : w.db key with
    | none => rfl
    | some v => rw [Option.map_some, hrecord (p := fun _ v => replaced v = v) hvalues hk]
  have hfits : Dbm.Fits fun key => (w.db key).map replaced := by
    rw [hsame]
    refine ⟨fun k v hk => hrecord (p := fun k v => SmallEntry ⟨k, v⟩) ?_ hk, ?_⟩
    · intro e he
      simp only [alDisk, List.mem_cons, List.not_mem_nil, or_false] at he
      rcases he with rfl | rfl | rfl <;> simp [SmallEntry, maxRecsize, str]
    · rw [show w.db = fun q => alDisk.dlookup q from rfl, encard_keys hnd]
      exact_mod_cast (by decide : alDisk.length ≤ maxEntries)
  have hpy : PyStrings (List.map Char.toLower) fun s => some (Nat.ofDigitChars 10 s 0) := by
    refine ⟨fun _ _ => rfl, fun k => ?_⟩
    show some ((Nat.ofDigitChars 10 k.repr.toList 0 : Nat) : Int) = some (k : Int)
    rw [Nat.toList_repr, Nat.ofDigitChars_ten_toDigits]
  have hlower : ∀ key, (w.db key).isSome → lcaseit key = key := by
    intro key hkey
    obtain ⟨v, hv⟩ := Option.isSome_iff_exists.mp hkey
    exact hrecord (p := fun k _ => lcaseit k = k) (by decide) hv
  have hcount : ∀ v, w.db (countKey (w.uTab 1).nickname) = some v → Counts v := by
    intro v hv
    have hone : w.db (countKey (w.uTab 1).nickname) = some (str "1") := by decide +kernel
    obtain rfl := Option.some.inj (hone.symm.trans hv)
    exact ⟨1, by decide, by decide⟩
  have hdel : deletes w 1 (str "pw") := ⟨by decide, by decide, by decide +kernel⟩
  have hascii : ∀ c ∈ ['A', 'L'], c.toNat < 128 := List.all_iff_forall_prop.mp (by decide)
  obtain ⟨disk, hrun, hiff⟩ :=
    deldb_nickdelete_iff hpy hsaved hfits hlower hcount rfl hdel hascii (by decide +kernel)
  refine ⟨disk, hrun, hiff.mpr ?_⟩
  intro p k hlt hle
  have hnum : nummsg w.db (w.uTab 1).nickname = 1 := by decide +kernel
  have hletters : ∀ p : Part, ∀ k ∈ List.range (maxWrites + 1), 1 < k →
      w.db (partKey (w.uTab 1).nickname p k) = none := by
    intro p
    cases p <;> decide +kernel
  rw [hnum] at hlt
  exact hletters p k (List.mem_range.mpr (by omega)) (by omega)

end

end Icbd.Server
