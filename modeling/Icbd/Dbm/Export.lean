/-
# Icbd.Dbm.Export — `dbexport.py` and `dbimport.py`.

A database is written as lines of text, key and value with a bar between them, and read back line by line.
Nothing is quoted: a bar in a key ends the key too early, and a newline anywhere ends the line. Standard
input and output are UTF-8, and lines end at a newline only, as they do outside Windows.
-/
import Icbd.Dbm.Python
import Icbd.Dbm.Refused
import Icbd.Lib.OrderedDict
import Mathlib.Data.List.DropRight

namespace Icbd.Dbm

open Icbd.Lib (OrderedDict Entry)

/-! ## §1 — `IcbDb` -/

/-- A `str`. Nothing that was decoded with `errors="replace"` holds a surrogate. -/
abbrev PyStr := List Char

/-- `IcbDb`, without its path. -/
structure PyDb where
  data : OrderedDict PyStr PyStr
  dirty : Bool

/-- The loop over the records in `_load`. -/
def loadItems : Nat → OrderedDict PyStr PyStr → Bytes → Option (OrderedDict PyStr PyStr)
  | 0, data, _ => some data
  | count + 1, data, f =>
      let recHdr := f.take 8
      if recHdr.length < 8 then none
      else
        let klen := get32 recHdr
        let vlen := get32 (recHdr.drop 4)
        let f := f.drop 8
        let key := decodeReplace (f.take klen)
        let f := f.drop klen
        let val := decodeReplace (f.take vlen)
        loadItems count (data.set key val) (f.drop vlen)

/-- `__init__`; `none` is a `ValueError`. -/
def pyOpen (disk : Option Bytes) : Option PyDb :=
  match disk with
  | none => some ⟨.empty, false⟩
  | some content =>
      let hdr := content.take 8
      if hdr.length < 8 then none
      else if hdr.take 4 ≠ magic then none
      else (loadItems (get32 (hdr.drop 4)) .empty (content.drop 8)).map fun data => ⟨data, false⟩

/-- `__setitem__`. -/
def PyDb.setitem (db : PyDb) (key val : PyStr) : PyDb := ⟨db.data.set key val, true⟩

/-- `key.encode("utf-8")` and `val.encode("utf-8")`. -/
def encodeItem (i : PyStr × PyStr) : Entry Bytes Bytes := ⟨encodeText i.1, encodeText i.2⟩

/-- `.decode("utf-8", errors="replace")` of a key and its value. -/
def decodeEntry (e : Entry Bytes Bytes) : PyStr × PyStr := (decodeReplace e.1, decodeReplace e.2)

/-- `struct.pack("<I", ..)` takes the number of items and all their lengths. -/
def Packs (data : OrderedDict PyStr PyStr) : Prop :=
  data.items.length < 2 ^ 32 ∧
    ∀ i ∈ data.items, (encodeItem i).1.length < 2 ^ 32 ∧ (encodeItem i).2.length < 2 ^ 32

instance (data : OrderedDict PyStr PyStr) : Decidable (Packs data) := inferInstanceAs (Decidable (_ ∧ _))

/-- `flush`; `none` is a `struct.error`. -/
def PyDb.flush (db : PyDb) (disk : Option Bytes) : Option (Option Bytes) :=
  if db.dirty = false then some disk
  else if Packs db.data then
    some (some (magic ++ put32 db.data.items.length ++
      db.data.items.flatMap fun i => encodeEntry (encodeItem i)))
  else none

/-- The reader with the order reads what the one without it reads. -/
theorem pyLoad_eq (disk : Option Bytes) : pyLoad disk = (pyOpen disk).map fun db => db.data.toMap := by
  have hloop (n : Nat) (data : OrderedDict PyStr PyStr) (f : Bytes) :
      pyLoadEntries n data.toMap f = (loadItems n data f).map OrderedDict.toMap := by
    induction n generalizing data f with
    | zero => rfl
    | succ n ih =>
      rw [pyLoadEntries, loadItems]
      dsimp only
      split
      · rfl
      · rw [← OrderedDict.toMap_set, ih]
  cases disk with
  | none => rfl
  | some content =>
    simp only [pyLoad, pyOpen]
    split
    · rfl
    · split
      · rfl
      · rw [Option.map_map]
        exact hloop _ .empty _

/-! ## §2 — the two programs -/

/-- `print(f"{key}|{val}")` for every item. -/
def printed (items : List (PyStr × PyStr)) : PyStr := items.flatMap fun i => i.1 ++ '|' :: (i.2 ++ ['\n'])

/-- `dbexport.py`: what it prints. -/
def dbexport (disk : Option Bytes) : Option Bytes :=
  (pyOpen disk).map fun db => encodeText (printed db.data.items)

/-- The lines of a text, with their ends. -/
def lines : PyStr → List PyStr
  | [] => []
  | c :: cs =>
      if c = '\n' then [c] :: lines cs
      else
        match lines cs with
        | [] => [[c]]
        | l :: ls => (c :: l) :: ls

/-- The loop of `dbimport.py` over the lines, without what it prints. -/
def importLine (db : PyDb) (line : PyStr) : PyDb :=
  let line := line.rdropWhile fun c => c = '\n'
  if '|' ∈ line then
    db.setitem (line.takeWhile fun c => c ≠ '|') ((line.dropWhile fun c => c ≠ '|').drop 1)
  else db

/-- Standard input; a text that is not UTF-8 is an error. -/
def decodeStrict (s : Bytes) : Option PyStr := if replaced s = s then some (decodeReplace s) else none

/-- `dbimport.py`: the file it leaves behind; `none` is an exception. -/
def dbimport (disk : Option Bytes) (stdin : Bytes) : Option (Option Bytes) := do
  let db ← pyOpen disk
  let text ← decodeStrict stdin
  ((lines text).foldl importLine db).flush disk

/-! ## §3 — lines -/

/-- A line is what stands in front of a newline. -/
theorem lines_line {l : PyStr} (h : '\n' ∉ l) (t : PyStr) :
    lines (l ++ '\n' :: t) = (l ++ ['\n']) :: lines t := by
  induction l with
  | nil => rfl
  | cons c l ih =>
    obtain ⟨hc, hl⟩ := List.ne_and_not_mem_of_not_mem_cons h
    rw [List.cons_append, lines, if_neg (Ne.symm hc), ih hl]
    rfl

/-- No line goes on behind a newline. -/
theorem mem_lines {l t : PyStr} (h : l ∈ lines t) : ∃ body, '\n' ∉ body ∧ (l = body ++ ['\n'] ∨ l = body) := by
  induction t generalizing l with
  | nil => cases h
  | cons c cs ih =>
    rw [lines] at h
    split at h
    next hc =>
      obtain rfl | hl := List.mem_cons.mp h
      · exact ⟨[], List.not_mem_nil, .inl (by rw [hc]; rfl)⟩
      · exact ih hl
    next hc =>
      split at h
      next =>
        obtain rfl := List.mem_singleton.mp h
        exact ⟨[c], by simpa using Ne.symm hc, .inr rfl⟩
      next l' ls hls =>
        rw [hls] at ih
        obtain rfl | hl := List.mem_cons.mp h
        · -- the character is in front of the line that was next
          obtain ⟨body, hbody, hends⟩ := ih List.mem_cons_self
          refine ⟨c :: body, ?_, hends.imp (congrArg (c :: ·)) (congrArg (c :: ·))⟩
          rw [List.mem_cons, not_or]
          exact ⟨Ne.symm hc, hbody⟩
        · exact ih (List.mem_cons_of_mem _ hl)

/-- `rstrip("\n")` of a line. -/
theorem rstrip_line {body : PyStr} (h : '\n' ∉ body) :
    (body ++ ['\n']).rdropWhile (fun c => c = '\n') = body ∧ body.rdropWhile (fun c => c = '\n') = body := by
  have hbody : body.rdropWhile (fun c => c = '\n') = body := by
    rw [List.rdropWhile_eq_self_iff]
    intro hne hlast
    exact h ((of_decide_eq_true hlast) ▸ List.getLast_mem hne)
  constructor
  · rw [List.rdropWhile_concat_pos _ _ _ (by decide), hbody]
  · exact hbody

/-- An item that a line of text can hold: its key ends at the first bar, and nothing in it ends the line. -/
structure Plain (i : PyStr × PyStr) : Prop where
  bar : '|' ∉ i.1
  key : '\n' ∉ i.1
  val : '\n' ∉ i.2

instance (i : PyStr × PyStr) : Decidable (Plain i) :=
  decidable_of_iff ('|' ∉ i.1 ∧ '\n' ∉ i.1 ∧ '\n' ∉ i.2)
    ⟨fun h => ⟨h.1, h.2.1, h.2.2⟩, fun h => ⟨h.bar, h.key, h.val⟩⟩

/-- The line of a plain item sets it again. -/
theorem importLine_plain (db : PyDb) {i : PyStr × PyStr} (h : Plain i) :
    importLine db (i.1 ++ '|' :: (i.2 ++ ['\n'])) = db.setitem i.1 i.2 := by
  have hline : i.1 ++ '|' :: (i.2 ++ ['\n']) = (i.1 ++ '|' :: i.2) ++ ['\n'] := by
    rw [List.append_assoc, List.cons_append]
  have hbody : '\n' ∉ i.1 ++ '|' :: i.2 := by
    rw [List.mem_append, List.mem_cons, not_or, not_or]
    exact ⟨h.key, by decide, h.val⟩
  have hkey : ∀ c ∈ i.1, (decide (c ≠ '|')) = true := by
    intro c hc
    exact decide_eq_true fun heq => h.bar (heq ▸ hc)
  rw [importLine, hline, (rstrip_line hbody).1]
  rw [if_pos (List.mem_append_right _ List.mem_cons_self), List.takeWhile_append_of_pos hkey,
    List.dropWhile_append_of_pos hkey, List.takeWhile_cons_of_neg (by decide),
    List.dropWhile_cons_of_neg (by decide), List.append_nil]
  rfl

/-- What a line sets is plain. -/
theorem importLine_cases (db : PyDb) {line : PyStr}
    (h : ∃ body, '\n' ∉ body ∧ (line = body ++ ['\n'] ∨ line = body)) :
    importLine db line = db ∨ ∃ i, Plain i ∧ importLine db line = db.setitem i.1 i.2 := by
  obtain ⟨body, hbody, hends⟩ := h
  have hstrip : line.rdropWhile (fun c => c = '\n') = body := by
    rcases hends with rfl | rfl
    · exact (rstrip_line hbody).1
    · exact (rstrip_line hbody).2
  rw [importLine, hstrip]
  split
  · right
    refine ⟨(_, _), ⟨?_, ?_, ?_⟩, rfl⟩
    · intro hbar
      have hne : decide ('|' ≠ '|') = true := List.mem_takeWhile_imp (p := fun c => decide (c ≠ '|')) hbar
      exact of_decide_eq_true hne rfl
    · exact fun hnl => hbody (List.takeWhile_subset _ hnl)
    · exact fun hnl => hbody (List.dropWhile_subset _ (List.mem_of_mem_drop hnl))
  · exact .inl rfl

/-! ## §4 — there and back -/

/-- The lines of plain items. -/
theorem lines_printed {items : List (PyStr × PyStr)} (h : ∀ i ∈ items, Plain i) :
    lines (printed items) = items.map fun i => i.1 ++ '|' :: (i.2 ++ ['\n']) := by
  induction items with
  | nil => rfl
  | cons i items ih =>
    obtain ⟨hi, hitems⟩ := List.forall_mem_cons.mp h
    have hbody : '\n' ∉ i.1 ++ '|' :: i.2 := by
      rw [List.mem_append, List.mem_cons, not_or, not_or]
      exact ⟨hi.key, by decide, hi.val⟩
    have hfirst : printed (i :: items) = (i.1 ++ '|' :: i.2) ++ '\n' :: printed items := by
      simp [printed]
    rw [hfirst, lines_line hbody, ih hitems, List.map_cons, List.append_assoc, List.cons_append]

/-- The loop over the lines of plain items sets them all. -/
theorem foldl_importLine {items : List (PyStr × PyStr)} (h : ∀ i ∈ items, Plain i) (db : PyDb) :
    (items.map fun i => i.1 ++ '|' :: (i.2 ++ ['\n'])).foldl importLine db =
      ⟨db.data.setAll items, db.dirty || !items.isEmpty⟩ := by
  induction items generalizing db with
  | nil =>
    simp only [List.map_nil, List.foldl_nil, List.isEmpty_nil, Bool.not_true, Bool.or_false]
    rfl
  | cons i items ih =>
    obtain ⟨hi, hitems⟩ := List.forall_mem_cons.mp h
    rw [List.map_cons, List.foldl_cons, importLine_plain db hi, ih hitems]
    simp only [PyDb.setitem, Bool.true_or, List.isEmpty_cons, Bool.not_false, Bool.or_true]
    rfl

/-- **Whatever is imported is plain.** -/
theorem plain_imported (text : PyStr) {db : PyDb} (h : ∀ i ∈ db.data.items, Plain i) :
    ∀ i ∈ ((lines text).foldl importLine db).data.items, Plain i := by
  have hlines : ∀ l ∈ lines text, ∃ body, '\n' ∉ body ∧ (l = body ++ ['\n'] ∨ l = body) :=
    fun l hl => mem_lines hl
  generalize lines text = ls at hlines
  induction ls generalizing db with
  | nil => exact h
  | cons l ls ih =>
    obtain ⟨hl, hls⟩ := List.forall_mem_cons.mp hlines
    rw [List.foldl_cons]
    rcases importLine_cases db hl with hsame | ⟨i, hi, hset⟩
    · rw [hsame]
      exact ih h hls
    · rw [hset]
      apply ih _ hls
      exact OrderedDict.forall_setAll (p := fun k v => Plain (k, v)) [i] h
        (fun j hj => by rwa [List.mem_singleton.mp hj])

/-! ## §5 — the file -/

/-- Records of a file, in their order. -/
theorem loadItems_encode (es : List (Entry Bytes Bytes)) (data : OrderedDict PyStr PyStr)
    (h : ∀ e ∈ es, e.1.length < 2 ^ 32 ∧ e.2.length < 2 ^ 32) :
    loadItems es.length data (es.flatMap encodeEntry) =
      some (data.setAll (es.map decodeEntry)) := by
  induction es generalizing data with
  | nil => rfl
  | cons e es ih =>
    obtain ⟨⟨hk, hv⟩, hes⟩ := List.forall_mem_cons.mp h
    have hhead : (encodeEntry e ++ es.flatMap encodeEntry).take 8 =
        put32 e.1.length ++ put32 e.2.length := by
      rw [encodeEntry, List.append_assoc, List.append_assoc]
      exact List.take_left' rfl
    have hrest : (encodeEntry e ++ es.flatMap encodeEntry).drop 8 =
        e.1 ++ (e.2 ++ es.flatMap encodeEntry) := by
      rw [encodeEntry, List.append_assoc, List.append_assoc]
      exact List.drop_left' rfl
    have hklen : get32 (put32 e.1.length ++ put32 e.2.length) = e.1.length :=
      get32_put32_append hk _
    have hvlen : get32 ((put32 e.1.length ++ put32 e.2.length).drop 4) = e.2.length := by
      have := get32_put32_append hv []
      rwa [List.append_nil] at this
    rw [List.flatMap_cons, List.length_cons, loadItems]
    simp only [hhead, hrest, hklen, hvlen, List.drop_left, List.take_left]
    rw [if_neg (by simp), ih _ hes]
    rfl

/-- A file is opened. -/
theorem pyOpen_encode {es : List (Entry Bytes Bytes)} (hlen : es.length < 2 ^ 32)
    (h : ∀ e ∈ es, e.1.length < 2 ^ 32 ∧ e.2.length < 2 ^ 32) :
    pyOpen (some (magic ++ put32 es.length ++ es.flatMap encodeEntry)) =
      some ⟨OrderedDict.empty.setAll (es.map decodeEntry), false⟩ := by
  have hhead : (magic ++ put32 es.length ++ es.flatMap encodeEntry).take 8 = magic ++ put32 es.length :=
    List.take_left' rfl
  have hbody : (magic ++ put32 es.length ++ es.flatMap encodeEntry).drop 8 = es.flatMap encodeEntry :=
    List.drop_left' rfl
  have hcount : get32 ((magic ++ put32 es.length).drop 4) = es.length := by
    have := get32_put32_append hlen []
    rwa [List.append_nil] at this
  simp only [pyOpen, hhead, hbody, hcount]
  have hmagic : (magic ++ put32 es.length).take 4 = magic := rfl
  rw [if_neg (by simp [magic]), if_neg (not_not.mpr hmagic), loadItems_encode es _ h]
  rfl

/-- What is flushed is read again. -/
theorem pyOpen_flush {db : PyDb} {into disk : Option Bytes}
    (hclean : db.dirty = false → pyOpen into = some ⟨db.data, false⟩) (h : db.flush into = some disk) :
    pyOpen disk = some ⟨db.data, false⟩ := by
  unfold PyDb.flush at h
  split at h
  next hsame =>
    obtain rfl := Option.some.inj h
    exact hclean hsame
  next =>
    split at h
    next hpacks =>
      obtain rfl := Option.some.inj h
      have hback : (db.data.items.map encodeItem).map decodeEntry = db.data.items := by
        rw [List.map_map]
        apply List.map_id''
        intro i
        show (decodeReplace (encodeText i.1), decodeReplace (encodeText i.2)) = i
        rw [decodeReplace_encodeText, decodeReplace_encodeText]
      have hlens : ∀ e ∈ db.data.items.map encodeItem, e.1.length < 2 ^ 32 ∧ e.2.length < 2 ^ 32 := by
        intro e he
        obtain ⟨i, hi, rfl⟩ := List.mem_map.mp he
        exact hpacks.2 i hi
      have hopen := pyOpen_encode (by rw [List.length_map]; exact hpacks.1) hlens
      rw [hback, OrderedDict.setAll_items, List.length_map, List.flatMap_map] at hopen
      exact hopen
    next => cases h

/-! ## §6 — bytes and characters -/

/-- A byte below 32 stands for itself, whatever it comes behind. -/
theorem tailState_low (s : Nat) {b : Nat} (hb : b < 32) : tailState s b = 1 := by
  have hlo : 128 ≤ (tailRange s).1 := by
    unfold tailRange
    split_ifs <;> simp
  exact if_neg fun h => by omega

/-- A newline is nothing but a newline. -/
theorem newline_of_encode {c : Char} {q : Bytes} {b : UInt8} (h : encode c = q ++ [b]) (hq : q = [] ∨ b ≠ 10) :
    c = '\n' ↔ b = 10 := by
  have hnewline : encode '\n' = [10] := by decide
  constructor
  · rintro rfl
    have hlast : [10].getLast? = (q ++ [b]).getLast? := congrArg List.getLast? (hnewline.symm.trans h)
    rw [List.getLast?_concat] at hlast
    exact (Option.some.inj hlast).symm
  · rintro rfl
    rw [hq.resolve_right (fun hne => hne rfl), List.nil_append] at h
    exact encode_injective (h.trans hnewline.symm)

/-- What a byte completes: whether a newline is in it, and where the reader stands. -/
structure Completes (b : UInt8) (r : List Char × Nat × Nat) : Prop where
  sound : ∃ d : Reader, d.Sound ∧ r.2 = (d.state, d.codep)
  newline : '\n' ∈ r.1 ↔ b = 10
  few : r.1.length ≤ 2

theorem completes_start (b : UInt8) : Completes b (decodeOnce (0, 0) b) ∧ (decodeOnce (0, 0) b).1.length ≤ 1 := by
  have hten : b = 10 → (decode 0 0 b).1 = 0 := by
    rintro rfl
    rw [decode_start_state]
    rfl
  have hcases := decodeOnce_cases (Reader.once_start b)
  simp only [Reader.start, List.nil_append] at hcases
  rcases hcases with ⟨c, hc, -, honce⟩ | hrej | ⟨hacc, -, hmore, honce⟩
  · rw [honce]
    refine ⟨⟨⟨.start, .start, rfl⟩, ?_, by simp⟩, by simp⟩
    rw [List.mem_singleton, eq_comm]
    exact newline_of_encode (q := []) hc (.inl rfl)
  · have honce : decodeOnce (0, 0) b = ([replacementChar], 0, 0) := by
      simp only [decodeOnce]
      rw [if_neg (by omega), if_pos hrej]
    rw [honce]
    refine ⟨⟨⟨.start, .start, rfl⟩, ?_, by simp⟩, by simp⟩
    constructor
    · intro h
      exact absurd (List.mem_singleton.mp h) (by decide)
    · intro h
      rw [hten h] at hrej
      cases hrej
  · rw [honce]
    refine ⟨⟨⟨⟨_, _, [b]⟩, .within hmore, rfl⟩, ?_, by simp⟩, by simp⟩
    constructor
    · intro h
      cases h
    · exact fun h => absurd (hten h) hacc

/-- **One byte.** -/
theorem completes_byte {d : Reader} (hd : d.Sound) (b : UInt8) :
    Completes b (decodeByte (d.state, d.codep) b) := by
  cases hd with
  | start =>
    have hbyte : decodeByte (Reader.start.state, Reader.start.codep) b = decodeOnce (0, 0) b :=
      if_neg fun h => h.1 rfl
    rw [hbyte]
    exact (completes_start b).1
  | within hd =>
    obtain ⟨h2, h9, -, hseq⟩ := hd.bounds
    have hstate := decode_tail_state h2 h9 d.codep b
    have hten : b = 10 → (decode d.state d.codep b).1 = 1 := by
      rintro rfl
      rw [hstate, tailState_low _ (by decide)]
    rcases decodeOnce_cases (Reader.once_within hd b) with ⟨c, hc, hacc, honce⟩ | hrej |
      ⟨hacc, hrej, hmore, honce⟩
    · have hne : b ≠ 10 := fun h => by simp [hten h] at hacc
      rw [decodeByte_taken (p := (d.state, d.codep)) (by simp [hacc]), honce]
      refine ⟨⟨.start, .start, rfl⟩, ?_, by simp⟩
      rw [List.mem_singleton, eq_comm]
      exact newline_of_encode hc (.inr hne)
    · -- the sequence breaks off, and the byte is looked at again
      have hbyte : decodeByte (d.state, d.codep) b =
          (replacementChar :: (decodeOnce (0, 0) b).1, (decodeOnce (0, 0) b).2) :=
        if_pos ⟨by show d.state ≠ 0; omega, hrej⟩
      obtain ⟨⟨hsound, hnewline, -⟩, hone⟩ := completes_start b
      rw [hbyte]
      refine ⟨hsound, ?_, Nat.succ_le_succ hone⟩
      rw [List.mem_cons, hnewline]
      exact or_iff_right (by decide)
    · have hne : b ≠ 10 := fun h => hrej (hten h)
      rw [decodeByte_taken (p := (d.state, d.codep)) hrej, honce]
      refine ⟨⟨⟨_, _, d.seq ++ [b]⟩, .within hmore, rfl⟩, ?_, by simp⟩
      constructor
      · intro h
        cases h
      · exact fun h => absurd h hne

/-- **A decoded text has a newline where the bytes have one.** -/
theorem newline_mem_decode (s : Bytes) : '\n' ∈ decodeReplace s ↔ 10 ∈ s := by
  have hfrom {d : Reader} (hd : d.Sound) : '\n' ∈ decodeFrom (d.state, d.codep) s ↔ 10 ∈ s := by
    induction s generalizing d with
    | nil =>
      rw [decodeFrom]
      constructor
      · intro h
        split at h
        · cases h
        · exact absurd (List.mem_singleton.mp h) (by decide)
      · intro h
        cases h
    | cons b bs ih =>
      obtain ⟨⟨d', hd', hnext⟩, hnewline, -⟩ := completes_byte hd b
      rw [decodeFrom, List.mem_append, hnewline, hnext, ih hd', List.mem_cons, eq_comm]
  exact hfrom .start

/-- A decoded text is not much longer than its bytes. -/
theorem length_replaced_le (s : Bytes) : (encodeText (decodeReplace s)).length ≤ 8 * s.length + 4 := by
  have hchars (cs : List Char) : (encodeText cs).length ≤ 4 * cs.length := by
    induction cs with
    | nil => exact Nat.le_refl 0
    | cons c cs ih =>
      have hone : (encode c).length ≤ 4 := by
        rw [encode, String.length_utf8EncodeChar]
        exact c.utf8Size_le_four
      have hcons : encodeText (c :: cs) = encode c ++ encodeText cs := List.flatMap_cons
      rw [hcons, List.length_append, List.length_cons]
      omega
  have hfrom {d : Reader} (hd : d.Sound) : (decodeFrom (d.state, d.codep) s).length ≤ 2 * s.length + 1 := by
    induction s generalizing d with
    | nil =>
      rw [decodeFrom]
      split
      · exact Nat.zero_le _
      · exact Nat.le_refl 1
    | cons b bs ih =>
      obtain ⟨⟨d', hd', hnext⟩, -, hfew⟩ := completes_byte hd b
      rw [decodeFrom, hnext, List.length_append, List.length_cons]
      have := ih hd'
      omega
  have hlen := hfrom .start
  have := hchars (decodeReplace s)
  have hsame : decodeReplace s = decodeFrom (Reader.start.state, Reader.start.codep) s := rfl
  rw [← hsame] at hlen
  omega

/-! ## §7 — what is carried over -/

/-- The file is exported and imported into an empty database, and both files hold the same keys and values. -/
def CarriesOver (into : Option Bytes) (content : Bytes) : Prop :=
  ∃ out disk, dbexport (some content) = some out ∧ dbimport into out = some disk ∧
    pyLoad disk = pyLoad (some content)

section
variable {into : Option Bytes} {content : Bytes} {data : OrderedDict PyStr PyStr}

theorem dbimport_text (hinto : pyOpen into = some ⟨.empty, false⟩) (text : PyStr) :
    dbimport into (encodeText text) = ((lines text).foldl importLine ⟨.empty, false⟩).flush into := by
  have hstdin : decodeStrict (encodeText text) = some text := by
    rw [decodeStrict, replaced, decodeReplace_encodeText, if_pos rfl]
  rw [dbimport, hinto, Option.bind_eq_bind, Option.bind_some, hstdin]
  rfl

/-- While nothing was set the database is as it was opened. -/
theorem importLines_clean (ls : List PyStr) (db : PyDb) (h : (ls.foldl importLine db).dirty = false) :
    ls.foldl importLine db = db := by
  induction ls generalizing db with
  | nil => rfl
  | cons l ls ih =>
    rw [List.foldl_cons] at h ⊢
    have hsame := ih _ h
    rw [hsame] at h ⊢
    simp only [importLine] at h ⊢
    split at h
    · cases h
    next hbar => exact if_neg hbar

/-- **The items that are carried over.** -/
theorem carriesOver_iff_plain (hinto : pyOpen into = some ⟨.empty, false⟩)
    (hopen : pyOpen (some content) = some ⟨data, false⟩) (hpacks : Packs data) :
    CarriesOver into content ↔ ∀ i ∈ data.items, Plain i := by
  have hout : dbexport (some content) = some (encodeText (printed data.items)) := by
    rw [dbexport, hopen]
    rfl
  have hload : pyLoad (some content) = some data.toMap := by
    rw [pyLoad_eq, hopen]
    rfl
  have hback {db : PyDb} {disk : Option Bytes}
      (hdb : (lines (printed data.items)).foldl importLine ⟨.empty, false⟩ = db)
      (hflush : db.flush into = some disk) : pyLoad disk = some db.data.toMap := by
    have hclean : db.dirty = false → pyOpen into = some ⟨db.data, false⟩ := by
      rintro hsame
      subst hdb
      rw [importLines_clean _ _ hsame, hinto]
    rw [pyLoad_eq, pyOpen_flush hclean hflush]
    rfl
  constructor
  · rintro ⟨out, disk, hexport, himport, hsame⟩ i hi
    obtain rfl := Option.some.inj (hexport.symm.trans hout)
    rw [dbimport_text hinto] at himport
    rw [hback rfl himport, hload] at hsame
    have hget := (OrderedDict.toMap_eq_iff.mp (Option.some.inj hsame)) i.1
    rw [OrderedDict.get?_eq_some_iff.mpr (show (i.1, i.2) ∈ data.items from hi),
      OrderedDict.get?_eq_some_iff] at hget
    exact plain_imported (printed data.items) (fun j hj => by cases hj) i hget
  · intro hplain
    have hfold : (lines (printed data.items)).foldl importLine ⟨.empty, false⟩ =
        ⟨data, false || !data.items.isEmpty⟩ := by
      rw [lines_printed hplain, foldl_importLine hplain, OrderedDict.setAll_items]
    obtain ⟨disk, hflush⟩ : ∃ disk, PyDb.flush ⟨data, false || !data.items.isEmpty⟩ into = some disk := by
      unfold PyDb.flush
      rw [if_pos hpacks]
      split
      · exact ⟨_, rfl⟩
      · exact ⟨_, rfl⟩
    refine ⟨_, disk, hout, ?_, ?_⟩
    · rw [dbimport_text hinto, hfold, hflush]
    · rw [hback hfold hflush, hload]

end

/-- A key in ASCII without a bar and without a newline. -/
def PlainKey (k : Bytes) : Prop := ∀ b ∈ k, b < 128 ∧ b ≠ 124 ∧ b ≠ 10

theorem PlainKey.append {s t : Bytes} (hs : PlainKey s) (ht : PlainKey t) : PlainKey (s ++ t) := by
  intro b hb
  rcases List.mem_append.mp hb with hb | hb
  · exact hs b hb
  · exact ht b hb

/-- Decoding an ASCII text loses nothing. -/
theorem PlainKey.encode_decode {k : Bytes} (h : PlainKey k) : encodeText (decodeReplace k) = k := by
  have hone : ∀ n : Fin 128, encode (Char.ofNat n) = [UInt8.ofNat n] := by decide +kernel
  have hall : encodeText (k.map fun b => Char.ofNat b.toNat) = k := by
    induction k with
    | nil => rfl
    | cons b k ih =>
      obtain ⟨⟨hb, -⟩, hk⟩ := List.forall_mem_cons.mp h
      have hbyte : encode (Char.ofNat b.toNat) = [b] := by
        have := hone ⟨b.toNat, UInt8.lt_iff_toNat_lt.mp hb⟩
        rwa [UInt8.ofNat_toNat] at this
      rw [List.map_cons, show encodeText (Char.ofNat b.toNat :: k.map fun b => Char.ofNat b.toNat) =
        encode (Char.ofNat b.toNat) ++ encodeText (k.map fun b => Char.ofNat b.toNat) from
          List.flatMap_cons, hbyte, ih hk]
      rfl
  rw [← hall, decodeReplace_encodeText]

/-- There is no bar in it. -/
theorem PlainKey.bar {k : Bytes} (h : PlainKey k) : '|' ∉ decodeReplace k := by
  intro hmem
  have hin : (124 : UInt8) ∈ encodeText (decodeReplace k) := List.mem_flatMap.mpr ⟨'|', hmem, by decide⟩
  rw [h.encode_decode] at hin
  exact (h 124 hin).2.1 rfl

/-- There is no newline in it. -/
theorem PlainKey.newline {k : Bytes} (h : PlainKey k) : '\n' ∉ decodeReplace k := by
  rw [newline_mem_decode]
  exact fun hmem => (h 10 hmem).2.2 rfl

/-- The Python reader opens a file of records whose keys are different and UTF-8: it finds them all, in their order. -/
theorem pyOpen_records {es : List (Entry Bytes Bytes)} (hnd : es.NodupKeys) (hlen : es.length < 2 ^ 32)
    (hlens : ∀ e ∈ es, e.1.length < 2 ^ 32 ∧ e.2.length < 2 ^ 32) (hkeys : ∀ e ∈ es, replaced e.1 = e.1) :
    ∃ data, pyOpen (some (magic ++ put32 es.length ++ es.flatMap encodeEntry)) = some ⟨data, false⟩ ∧
      data.items = es.map decodeEntry := by
  -- the keys are still different when they are decoded
  have hnodup : ((es.map decodeEntry).map Prod.fst).Nodup := by
    rw [List.map_map]
    apply List.Nodup.map_on
    · intro e he e' he' heq
      have hkey : e.1 = e'.1 := by
        rw [← hkeys e he, ← hkeys e' he']
        exact congrArg encodeText heq
      exact hnd.eq_of_fst_eq he he' hkey
    · exact hnd.nodup
  exact ⟨_, pyOpen_encode hlen hlens, OrderedDict.items_setAll (d := .empty) hnodup⟩

/-- The Python reader opens the file of a table whose keys are plain: it finds the items of the table. -/
theorem pyOpen_table {db : IcbDbm} {m : DbMap} (h : Represents db m) (hsmall : SmallMap m)
    (hkeys : ∀ e ∈ db.buckets.flatten, PlainKey e.1) :
    ∃ data, pyOpen (some (fileBytes db)) = some ⟨data, false⟩ ∧
      data.items = db.buckets.flatten.map decodeEntry ∧ Packs data := by
  have hlens : ∀ e ∈ db.buckets.flatten, e.1.length ≤ maxRecsize ∧ e.2.length ≤ maxRecsize := h.small hsmall
  have hmax : maxRecsize = 2 ^ 20 := rfl
  have hfew : db.buckets.flatten.length < 2 ^ 30 := h.count ▸ h.sized.nentries_lt
  obtain ⟨data, hopen, hitems⟩ := pyOpen_records h.placed.nodup (by omega)
    (fun e he => by
      have := hlens e he
      omega)
    fun e he => (hkeys e he).encode_decode
  refine ⟨data, ?_, hitems, ?_⟩
  · rw [fileBytes, h.count]
    exact hopen
  · rw [Packs, hitems, List.length_map]
    refine ⟨by omega, ?_⟩
    intro i hi
    obtain ⟨e, he, rfl⟩ := List.mem_map.mp hi
    have hlen := hlens e he
    have hk := length_replaced_le e.1
    have hv := length_replaced_le e.2
    simp only [encodeItem, decodeEntry]
    omega

/-- **What is carried over of a table** whose keys are plain: everything, if no value holds a newline. -/
theorem carriesOver_table_iff {db : IcbDbm} {m : DbMap} {into : Option Bytes}
    (hinto : pyOpen into = some ⟨.empty, false⟩) (h : Represents db m) (hsmall : SmallMap m)
    (hkeys : ∀ k ∈ m, PlainKey k) :
    CarriesOver into (fileBytes db) ↔ ∀ k v, m.lookup k = some v → 10 ∉ v := by
  have hplain : ∀ e ∈ db.buckets.flatten, PlainKey e.1 := fun e he =>
    hkeys e.1 (Finmap.mem_of_lookup_eq_some ((h.mem_iff e).mp he))
  obtain ⟨data, hopen, hitems, hpacks⟩ := pyOpen_table h hsmall hplain
  rw [carriesOver_iff_plain hinto hopen hpacks, hitems]
  constructor
  · intro hall k v hlookup
    have hmem : (⟨k, v⟩ : Entry Bytes Bytes) ∈ db.buckets.flatten := (h.mem_iff ⟨k, v⟩).mpr hlookup
    rw [← newline_mem_decode]
    exact (hall _ (List.mem_map_of_mem hmem)).val
  · intro hall i hi
    obtain ⟨e, he, rfl⟩ := List.mem_map.mp hi
    refine ⟨(hplain e he).bar, (hplain e he).newline, ?_⟩
    rw [decodeEntry, newline_mem_decode]
    exact hall e.1 e.2 ((h.mem_iff e).mp he)

end Icbd.Dbm
