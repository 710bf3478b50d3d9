/-
# Icbd.Server.Export — what the exported database keeps of the records of clients.

The keys are plain: a nickname has been filtered, and the attributes are fixed. The values are not: the
commands that set an attribute of a record store the text of the packet as it came, newlines included, while
a letter goes through `filtertext`.
-/
import Icbd.Dbm.Export
import Icbd.Server.Orphans
import Mathlib.Data.Bool.AllAny

namespace Icbd.Server

open Icbd.Dbm Icbd.Lib

/-! ## §1 — the keys -/

/-- `nick.attribute`, for a nickname that has been filtered and an attribute of a record or of a letter. -/
def ClientKey (key : Bytes) : Prop :=
  ∃ nick attr, filternickname nick = nick ∧ Listed attr ∧ key = dbKey nick attr

/-- What `filternickname` lets through, in lower case. -/
theorem lower_filtered (b : UInt8) :
    lower (filterNameChar okNickChars b) < 128 ∧ lower (filterNameChar okNickChars b) ≠ 124 ∧
      lower (filterNameChar okNickChars b) ≠ 10 := by
  have h : ∀ n : Fin 256, lower (filterNameChar okNickChars (UInt8.ofFin n)) < 128 ∧
      lower (filterNameChar okNickChars (UInt8.ofFin n)) ≠ 124 ∧
        lower (filterNameChar okNickChars (UInt8.ofFin n)) ≠ 10 := by decide +kernel
  exact h b.toFin

/-- The attributes are plain. -/
theorem Listed.plain {attr : String} (h : Listed attr) : PlainKey (lcaseit (str attr)) := by
  rcases h with hrecord | ⟨p, k, -, rfl⟩
  · have hall : ∀ attr ∈ recordKeys, ∀ b ∈ lcaseit (str attr), b < 128 ∧ b ≠ 124 ∧ b ≠ 10 := by
      simp only [← List.all_iff_forall_prop]
      decide
    exact hall attr hrecord
  · have hbase : ∀ b ∈ lcaseit (str p.base), b < 128 ∧ b ≠ 124 ∧ b ≠ 10 := by
      rw [← List.all_iff_forall_prop]
      cases p <;> decide
    rw [str_numbered, lcaseit, List.map_append]
    apply PlainKey.append hbase
    intro b hb
    obtain ⟨d, hd, rfl⟩ := List.mem_map.mp hb
    have hall : ∀ n : Fin 256, 48 ≤ UInt8.ofFin n → UInt8.ofFin n ≤ 57 → lower (UInt8.ofFin n) < 128 ∧
        lower (UInt8.ofFin n) ≠ 124 ∧ lower (UInt8.ofFin n) ≠ 10 := by decide +kernel
    obtain ⟨hlo, hhi⟩ := digit_of_mem_repr hd
    exact hall d.toFin hlo hhi

/-- **The keys of clients are plain.** -/
theorem ClientKey.plain {key : Bytes} (h : ClientKey key) : PlainKey key := by
  obtain ⟨nick, attr, hnick, hattr, rfl⟩ := h
  have hplain : PlainKey (lcaseit nick) := by
    rw [← hnick]
    intro b hb
    simp only [lcaseit, filternickname, List.map_map, List.mem_map, Function.comp] at hb
    obtain ⟨c, -, rfl⟩ := hb
    exact lower_filtered c
  have hdot : PlainKey (str ".") := by
    intro b hb
    obtain rfl := List.mem_singleton.mp hb
    decide
  rw [dbKey, lcaseit, List.map_append, List.map_append]
  exact (hplain.append hdot).append hattr.plain

/-! ## §2 — the values -/

section
variable [Env] {w : World} {n : Int} {tag : String} {data message : Bytes} {max : Nat}

/-- The text of a letter holds no newline. -/
theorem newline_notMem_letter : 10 ∉ (letterOf w n message).text := by
  intro h
  exact absurd (filtertext_printable h) (by decide)

/-- **An attribute is stored as it came**, cut to its length. -/
theorem nickchinfo_stores (hopen : w.sys.dbOpens = true) (hreg : (w.uTab n).realname ≠ []) :
    (nickchinfo n tag data max message w).2.db =
      Function.update w.db (dbKey (w.uTab n).nickname tag) (some (data.take max)) := by
  show wp (nickchinfo n tag data max message) (fun _ w' => w'.db = _) w
  refine wp_bind (wp_getU ?_)
  rw [if_neg hreg]
  refine wp_bind (Within.wp Stilly fun _ w₁ h₁ => ?_)
  have hopen₁ : w₁.sys.dbOpens = true := by
    rw [h₁.sys]
    exact hopen
  refine wp_bind (wp_dbSet hopen₁ (Within.wp Stilly fun _ w₂ h₂ => ?_))
  rw [h₂.db]
  dsimp only
  rw [h₁.db]
  rfl

end

/-! ## §3 — the database -/

/-- **Export, then import.** For every database with keys of clients, whatever the values, the database
imported from what was exported holds the same if and only if no value holds a newline. -/
theorem export_import_iff {db : IcbDbm} {m : DbMap} {into : Option Bytes}
    (hinto : pyOpen into = some ⟨.empty, false⟩) (h : Represents db m) (hsmall : SmallMap m)
    (hkeys : ∀ k ∈ m, ClientKey k) :
    CarriesOver into (fileBytes db) ↔ ∀ k v, m.lookup k = some v → 10 ∉ v :=
  carriesOver_table_iff hinto h hsmall fun k hk => (hkeys k hk).plain

/-- The database of which one record is left, the text of `al`. -/
def textOnly (v : Bytes) : DbMap := Finmap.insert (dbKey (str "al") "text") v ∅

theorem lookup_textOnly {v x k : Bytes} (h : (textOnly v).lookup k = some x) :
    k = dbKey (str "al") "text" ∧ x = v := by
  by_cases hk : k = dbKey (str "al") "text"
  · subst hk
    rw [textOnly, Finmap.lookup_insert] at h
    exact ⟨rfl, (Option.some.inj h).symm⟩
  · rw [textOnly, Finmap.lookup_insert_of_ne _ hk, Finmap.lookup_empty] at h
    cases h

theorem textOnly_small {v : Bytes} (hv : v.length ≤ maxRecsize) : SmallMap (textOnly v) := by
  intro k x h
  obtain ⟨rfl, rfl⟩ := lookup_textOnly h
  have hkey : (dbKey (str "al") "text").length ≤ maxRecsize := by decide
  exact ⟨hkey, hv⟩

theorem textOnly_client (v : Bytes) : ∀ k ∈ textOnly v, ClientKey k := by
  intro k hk
  obtain ⟨x, hx⟩ := Option.isSome_iff_exists.mp (Finmap.lookup_isSome.mpr hk)
  exact ⟨str "al", "text", by decide, .inl (by decide), (lookup_textOnly hx).1⟩

/-- One line is carried over. -/
theorem export_import_iff_oneLine :
    CarriesOver none (fileBytes (oneRecordDb (dbKey (str "al") "text") (str "hello"))) ↔
      ∀ k v, (textOnly (str "hello")).lookup k = some v → 10 ∉ v :=
  export_import_iff rfl (oneRecordDb_repr _ _) (textOnly_small (by decide)) (textOnly_client _)

section
attribute [local instance] smallEnv

/-- `al` is registered and sets a text of two lines. -/
def twoLines : List Event := registeredAl [.packet 1 (cmdPkt "text" "a\nb")]

/-- The text of two lines is stored as it came, and a database that holds it is not carried over: only its
first line is. -/
theorem second_line_lost :
    let h := Host.run {} { w := startup {} fun _ => none } twoLines
    h.w.db (dbKey (str "al") "text") = some (str "a\nb") ∧
      ¬ ∀ (db : IcbDbm) (m : DbMap), Represents db m → SmallMap m → (∀ k ∈ m, ClientKey k) →
        CarriesOver none (fileBytes db) := by
  intro h
  constructor
  · decide +kernel
  · intro hall
    have hcarries := hall _ (textOnly (str "a\nb")) (oneRecordDb_repr _ _) (textOnly_small (by decide))
      (textOnly_client _)
    rw [carriesOver_table_iff rfl (oneRecordDb_repr _ _) (textOnly_small (by decide))
      fun k hk => (textOnly_client _ k hk).plain] at hcarries
    exact hcarries (dbKey (str "al") "text") (str "a\nb") (Finmap.lookup_insert _) (by decide)

end

end Icbd.Server
