/-
# Icbd.Server.Formats — the formats the server makes of clients' texts.

Three texts of clients are handed to `printf` as its format: an away message, inside a line that
`away_handle` composes for a client who wants to see everything; the idle-boot message of a group; the
message of a boot. Each is tested by `filterfmt` when it comes in. `s_away` then puts a `%s` of its own in
front of the text, and cuts: what it stores has one conversion too many for `away_handle`, unless the cut
takes the client's away.
-/
import Icbd.Decimal
import Icbd.Server.Final
import Icbd.Server.Foreign

-- every bind doubles the size of the search's argument
set_option synthInstance.maxSize 1000000000000000000000000000000000000000000000000
set_option synthInstance.maxHeartbeats 200000

namespace Icbd.Server

open Icbd.Lib

/-! ## §1 — the formats -/

section
variable [Env]

/-- The line `away_handle` composes: `tbuf`. -/
def awayFormat (now : Int) (src dest : User) : Bytes :=
  snprintf maxPktData (str "<*to: " ++ src.nickname ++ str "*> [=@" ++ clock now ++ str "=] " ++ dest.awaymsg)

/-- The message of an idle boot. -/
def idleFormat (g : Group) : Bytes := if g.idlebootMsg ≠ [] then g.idlebootMsg else idleBootMsg

/-- A text of a client, with what the server has added to it and cut from it, that may be handed to
`printf` in this state, and how many arguments come with it. -/
inductive Formats (w : World) : Bytes → Nat → Prop
  /-- `away_handle (src, dest)`, at any time. -/
  | away (now src dest : Int) (hset : (w.uTab dest).awaymsg ≠ []) (hverbose : (w.uTab dest).echoback = 2) :
      Formats w (awayFormat now (w.uTab src) (w.uTab dest)) 1
  /-- An idle boot in `s_didpoll`. -/
  | idle (i : Int) : Formats w (idleFormat (w.gTab i)) 1
  /-- `s_boot`, with any message that is not an error and not just put behind the name. -/
  | boot (msg : Bytes) (hmsg : msg ≠ []) (hone : (filterfmt msg 1).2 ≠ 0) (hok : (filterfmt msg 1).1 = none) :
      Formats w msg 1

/-- `away_handle` composes the line and hands it over. -/
theorem awayHandle_eq (src dest : Int) : awayHandle src dest = (do
    let w ← getW
    let u ← getU src
    let v ← getU dest
    whenever (v.awaymsg ≠ [] ∧
        (v.lastaway ≠ src ∨ w.sys.now - v.lastawaytime > awayNosendTime)) do
      modUOpts dest fun o => { o with lastaway := src, lastawaytime := w.sys.now }
      sendstatus src (str "Away") (snprintf maxPktData v.awaymsg)
      whenever (v.echoback = 2)
        (sendsCmdout dest (snprintf maxPktData (applyFmt (awayFormat w.sys.now u v) v.nickname)))) := rfl

end

/-! ## §2 — conversions -/

/-- Text without a percent sign in front of a format. -/
theorem scanFmt_append {pre : Bytes} (h : 37 ∉ pre) (fmt : Bytes) : scanFmt (pre ++ fmt) = scanFmt fmt := by
  induction pre with
  | nil => rfl
  | cons b bs ih =>
    rw [List.mem_cons, not_or] at h
    rw [List.cons_append, ← ih h.2]
    exact scanFmt.eq_5 b (bs ++ fmt) (fun _ hb _ => h.1 hb.symm) (fun _ hb _ => h.1 hb.symm) fun hb => h.1 hb.symm

/-- What `filterfmt` lets through has as many `%s` as it was asked for, and no other conversion. -/
theorem filterfmt_none {msg : Bytes} {k : Nat} : (filterfmt msg k).1 = none ↔ scanFmt msg = (k, 0) := by
  simp only [filterfmt]
  by_cases hbad : (scanFmt msg).2 > 0
  · simp only [if_pos hbad, reduceCtorEq, false_iff]
    intro h
    rw [h] at hbad
    exact absurd hbad (lt_irrefl 0)
  · have hzero : (scanFmt msg).2 = 0 := by omega
    by_cases hnum : ((scanFmt msg).1 : Int) = k
    · simp only [if_neg hbad, hnum, ne_eq, not_true_eq_false, ↓reduceIte, true_iff]
      exact Prod.ext (Int.ofNat.inj hnum) hzero
    · simp only [if_neg hbad, ne_eq, hnum, not_false_eq_true, ↓reduceIte, reduceCtorEq, false_iff]
      intro h
      rw [h] at hnum
      exact hnum rfl

section
variable [Env]

/-- The time of day is short and has no percent sign in it. -/
theorem clock_plain (now : Int) : 37 ∉ clock now ∧ (clock now).length ≤ 7 := by
  have hhour : ∀ h : Fin 24, let s := decimal (if (h.val : Int) > 12 then (h.val : Int) - 12 else
      if (h.val : Int) = 0 then 12 else h.val); 37 ∉ s ∧ s.length ≤ 2 := by decide +kernel
  have hminute : ∀ m : Fin 60, 37 ∉ decimal02 m.val ∧ (decimal02 m.val).length ≤ 2 := by decide +kernel
  obtain ⟨hh, hhl⟩ := hhour (Env.hour now)
  obtain ⟨hm, hml⟩ := hminute (Env.minute now)
  have hampm (p : Prop) [Decidable p] : 37 ∉ (if p then str "pm" else str "am") ∧
      (if p then str "pm" else str "am").length = 2 := by
    split <;> decide
  have hap := hampm (((Env.hour now).val : Int) > 11)
  have hcolon : 37 ∉ str ":" ∧ (str ":").length = 1 := by decide
  unfold clock
  refine ⟨?_, ?_⟩
  · simp only [List.mem_append, not_or]
    exact ⟨⟨⟨hh, hcolon.1⟩, hm⟩, hap.1⟩
  · simp only [List.length_append]
    omega

/-! ## §3 — the invariant -/

/-- What is stored for a user fits what `away_handle` makes of it. -/
structure User.Formatted (u : User) : Prop where
  nick : 37 ∉ u.nickname ∧ u.nickname.length ≤ maxNickLen
  short : u.awaymsg.length < maxAwayLen
  away : u.awaymsg ≠ [] → u.echoback = 2 → scanFmt u.awaymsg = (1, 0)

/-- What is stored for a group fits what `s_didpoll` makes of it. -/
def Group.Formatted (g : Group) : Prop := g.idlebootMsg ≠ [] → scanFmt g.idlebootMsg = (1, 0)

/-- Everything that is stored fits. -/
structure Formatted (w : World) : Prop where
  users : ∀ i, (w.uTab i).Formatted
  groups : ∀ i, (w.gTab i).Formatted

/-- **In such a state every format fits its arguments.** -/
theorem Formatted.formats {w : World} (h : Formatted w) {fmt : Bytes} {k : Nat} (hf : Formats w fmt k) :
    scanFmt fmt = (k, 0) := by
  cases hf with
  | away now src dest hset hverbose =>
    obtain ⟨hpct, hlen⟩ := (h.users src).nick
    obtain ⟨hclock, hclen⟩ := clock_plain now
    have hshort := (h.users dest).short
    have hto : 37 ∉ str "<*to: " ∧ (str "<*to: ").length = 6 := by decide
    have hat : 37 ∉ str "*> [=@" ∧ (str "*> [=@").length = 6 := by decide
    have hend : 37 ∉ str "=] " ∧ (str "=] ").length = 3 := by decide
    have hpre : 37 ∉ str "<*to: " ++ (w.uTab src).nickname ++ str "*> [=@" ++ clock now ++ str "=] " := by
      simp only [List.mem_append, not_or]
      exact ⟨⟨⟨⟨hto.1, hpct⟩, hat.1⟩, hclock⟩, hend.1⟩
    -- nothing is cut from it
    have hwhole : awayFormat now (w.uTab src) (w.uTab dest) =
        str "<*to: " ++ (w.uTab src).nickname ++ str "*> [=@" ++ clock now ++ str "=] " ++
          (w.uTab dest).awaymsg := by
      refine List.take_of_length_le ?_
      simp only [List.length_append, hto.2, hat.2, hend.2]
      simp only [maxAwayLen, maxInputStr, maxNickLen, maxPktData, maxPktLen] at *
      omega
    rw [hwhole, scanFmt_append hpre]
    exact (h.users dest).away hset hverbose
  | idle i =>
    unfold idleFormat
    split
    · exact h.groups i ‹_›
    · decide
  | boot msg _ _ hok => exact filterfmt_none.mp hok

omit [Env] in
theorem Formatted.modU {w : World} (h : Formatted w) {n : Int} {f : User → User}
    (hf : (w.uTab n).Formatted → (f (w.uTab n)).Formatted) : Formatted (w.modU n f) := by
  refine ⟨fun i => ?_, h.groups⟩
  by_cases hi : i = n
  · subst hi
    simpa [World.modU] using hf (h.users i)
  · simpa [World.modU, hi] using h.users i

omit [Env] in
theorem Formatted.modG {w : World} (h : Formatted w) {i : Int} {f : Group → Group}
    (hf : (w.gTab i).Formatted → (f (w.gTab i)).Formatted) : Formatted (w.modG i f) := by
  refine ⟨h.users, fun j => ?_⟩
  by_cases hj : j = i
  · subst hj
    simpa [World.modG] using hf (h.groups j)
  · simpa [World.modG, hj] using h.groups j

omit [Env] in
theorem Formatted.modUOpts {w : World} (h : Formatted w) {n : Int} {f : UserOpts → UserOpts}
    (hf : (w.uTab n).Formatted → User.Formatted { w.uTab n with toUserOpts := f (w.uTab n).toUserOpts }) :
    Formatted (modUOpts n f w).2 :=
  h.modU (f := fun u => { u with toUserOpts := f u.toUserOpts }) hf

omit [Env] in
theorem Formatted.modGOpts {w : World} (h : Formatted w) {i : Int} {f : GroupOpts → GroupOpts}
    (hf : (f (w.gTab i).toGroupOpts).idlebootMsg ≠ [] →
      scanFmt (f (w.gTab i).toGroupOpts).idlebootMsg = (1, 0)) :
    Formatted (modGOpts i f w).2 :=
  h.modG (f := fun g => { g with toGroupOpts := f g.toGroupOpts }) fun _ => hf

/-- The invariant over worlds. -/
abbrev KeepsFormats : World → World → Prop := Keep Formatted

section
variable {n i j : Int} {v b arg : Bytes} {l : Login} {key : String}

instance : Base KeepsFormats where
  misc _ _ h := ⟨h.users, h.groups⟩

instance : ULight KeepsFormats n := by
  refine ⟨fun w f hf h => h.modU fun hu => ?_⟩
  rcases hf.lightly (w.uTab n).toUserOpts with hnil | ⟨hmsg, hecho⟩
  · exact ⟨hu.nick, by rw [hnil]; decide, fun hne => absurd hnil hne⟩
  · exact ⟨hu.nick, by rw [hmsg]; exact hu.short, fun hne hv => by
      rw [hmsg] at hne ⊢
      exact hu.away hne (hecho ▸ hv)⟩

instance : Soft KeepsFormats where
  drops _ _ h := ⟨h.users, h.groups⟩
  toPlain _ := ⟨fun _ _ _ h => ⟨h.users, h.groups⟩⟩
  toUNeat _ := inferInstance

instance : SendsTo KeepsFormats n := ⟨fun _ _ h => ⟨h.users, h.groups⟩⟩
instance : DbTo KeepsFormats key := ⟨fun _ _ _ h => ⟨h.users, h.groups⟩⟩
instance : RealTo KeepsFormats n v := ⟨fun _ h => h.modU fun hu => ⟨hu.nick, hu.short, hu.away⟩⟩
instance : IdentTo KeepsFormats n := ⟨fun _ _ _ _ h => h.modU fun hu => ⟨hu.nick, hu.short, hu.away⟩⟩
instance : UGroupTo KeepsFormats n := ⟨fun _ _ h => h.modU fun hu => ⟨hu.nick, hu.short, hu.away⟩⟩
instance : LoginTo KeepsFormats n l := ⟨fun _ h => h.modU fun hu => ⟨hu.nick, hu.short, hu.away⟩⟩
instance : ModTo KeepsFormats i := ⟨fun _ _ h => h.modG id⟩
instance : MissTo KeepsFormats := ⟨fun _ _ _ _ h => h.modG id⟩
instance : GNameTo KeepsFormats := ⟨fun _ _ _ h => h.modG id⟩

instance (i : Int) : GLightAt KeepsFormats i where
  glight w f hf h := h.modG fun hg hne => by
    rcases hf.lightly (w.gTab i).toGroupOpts with hnil | hmsg
    · exact absurd hnil hne
    · change (f (w.gTab i).toGroupOpts).idlebootMsg ≠ [] at hne
      show scanFmt (f (w.gTab i).toGroupOpts).idlebootMsg = (1, 0)
      rw [hmsg] at hne ⊢
      exact hg hne

omit [Env] in
theorem filternickname_plain (s : Bytes) : 37 ∉ filternickname s := by
  intro h
  obtain ⟨b, -, hb⟩ := List.mem_map.mp h
  unfold filterNameChar at hb
  split_ifs at hb with halnum hok
  · rw [hb] at halnum
    exact absurd halnum (by decide)
  · rw [hb] at hok
    exact absurd hok (by decide)
  · cases hb
  · cases hb

omit [Env] in
/-- A name without a percent sign that fits its array. -/
theorem nickTo_formats (hv : 37 ∉ v) (hlen : v.length ≤ maxNickLen) : NickTo KeepsFormats n v :=
  ⟨fun _ h => h.modU fun hu => ⟨⟨hv, hlen⟩, hu.short, hu.away⟩⟩

instance : NickTo KeepsFormats n [] := nickTo_formats (by decide) (by decide)

instance : NickTo KeepsFormats n ((str "Server").take maxNickLen) := nickTo_formats (by decide) (by decide)

instance : NickTo KeepsFormats n ((filternickname b).take maxNickLen) :=
  nickTo_formats (fun h => filternickname_plain b (List.mem_of_mem_take h)) (List.length_take_le _ _)

instance : NickTo KeepsFormats n (newName arg) := by
  refine nickTo_formats (filternickname_plain _) ?_
  rw [newName, filternickname, List.length_map]
  exact List.length_take_le _ _

end

/-! ## §4 — what is stored -/

section
variable {n gi : Int} {w : World} {arg text : Bytes} {f : Flags}

instance : Within KeepsFormats (setIdlebootMsg n gi arg) where
  within w h := by
    show wp (setIdlebootMsg n gi arg) (fun _ => Formatted) w
    refine wp_ite (fun _ => Within.within (R := KeepsFormats) w h) fun _ => ?_
    refine wp_ite (fun _ => Within.within (R := KeepsFormats) w h) fun hok => ?_
    rw [Option.not_isSome_iff_eq_none] at hok
    exact wp_bind (Within.within (R := KeepsFormats) (x := sendstatus n _ _) _
      (h.modGOpts fun _ => filterfmt_none.mp hok))

instance : Within KeepsFormats (cancelBody n f) where
  within w h := by
    show wp (cancelBody n f) (fun _ => Formatted) w
    have hget : Formatted (getG (groupOf w n) w).2 := Within.within (R := KeepsFormats) w h
    refine wp_bind (wp_getW (wp_bind (wp_getG (wp_ite (fun _ => wp_bind ?_) fun _ => ?_))))
    · -- the entry that was read is written back, with other lists
      refine Within.within (R := KeepsFormats) _ (hget.modGOpts ?_)
      split <;> exact h.groups _
    · exact Within.within (R := KeepsFormats) _ hget

instance {dest : Int} : Within KeepsFormats (bootUser n dest arg text) where
  within w h := by
    show wp (bootUser n dest arg text) (fun _ => Formatted) w
    have hget : Formatted (getG (groupOf w dest) (getU dest (getU n w).2).2).2 :=
      ⟨h.users, h.groups⟩
    refine wp_bind (wp_getW (wp_bind (wp_getU (wp_bind (wp_getU (wp_bind (wp_getG ?_)))))))
    refine wp_ite (fun _ => wp_bind ?_) fun _ => ?_
    · exact Within.within (R := KeepsFormats) _ (hget.modGOpts (h.groups _))
    · exact Within.within (R := KeepsFormats) _ hget

/-- What `s_away` puts in front of the text. -/
def awayStamp (now : Int) : Bytes := str "(%s@" ++ clock now ++ str ") "

/-- What there is room for behind it. -/
def awayPart (now : Int) (arg : Bytes) : Bytes := arg.take (maxAwayLen - 1 - (awayStamp now).length)

/-- The stamp is short, and its `%s` is one conversion more. -/
theorem scanFmt_awayStamp (now : Int) (arg : Bytes) : (awayStamp now).length ≤ 13 ∧
    scanFmt (awayStamp now ++ arg) = ((scanFmt arg).1 + 1, (scanFmt arg).2) := by
  obtain ⟨hclock, hclen⟩ := clock_plain now
  have hrest : 37 ∉ str "@" ++ clock now ++ str ") " := by
    simp only [List.mem_append, not_or]
    exact ⟨⟨by decide, hclock⟩, by decide⟩
  have hstamp : awayStamp now = 40 :: 37 :: 115 :: (str "@" ++ clock now ++ str ") ") := rfl
  refine ⟨?_, ?_⟩
  · have hend : (str "@").length = 1 ∧ (str ") ").length = 2 := by decide
    rw [hstamp]
    simp only [List.length_cons, List.length_append, hend]
    omega
  · rw [hstamp]
    show ((scanFmt (str "@" ++ clock now ++ str ") " ++ arg)).1 + 1,
      (scanFmt (str "@" ++ clock now ++ str ") " ++ arg)).2) = _
    rw [scanFmt_append hrest]

/-- What `s_away` stores is the stamp and that part of the text. -/
theorem away_stored (now : Int) (arg : Bytes) :
    snprintf maxAwayLen (str "(%s@" ++ clock now ++ str ") " ++ arg) = awayStamp now ++ awayPart now arg := by
  obtain ⟨hlen, -⟩ := scanFmt_awayStamp now arg
  have hroom : 13 ≤ maxAwayLen - 1 := by decide
  show List.take (maxAwayLen - 1) (awayStamp now ++ arg) = _
  rw [List.take_append, List.take_of_length_le (by omega)]
  rfl

/-- A command after which somebody who sees everything has an away message that takes another number of
arguments than one: a text of which a conversion is left behind the stamp; or the option, with such a
message set. -/
def spoils (w : World) (n : Int) (c : Bytes × Bytes) : Prop :=
  (commandOf c.1 = .away ∧ splitCount c.1 ≤ 2 ∧ c.2 ≠ [] ∧ scanFmt c.2 = (1, 0) ∧
    (w.uTab n).echoback = 2 ∧ scanFmt (awayPart w.sys.now c.2) ≠ (0, 0)) ∨
  (commandOf c.1 = .echoback ∧ splitCount c.1 = 2 ∧ offOnVerbose c.2 = some 2 ∧
    (w.uTab n).awaymsg ≠ [] ∧ scanFmt (w.uTab n).awaymsg ≠ (1, 0))

theorem sAway_formatted (h : Formatted w) (hspoil : arg ≠ [] → scanFmt arg = (1, 0) →
    (w.uTab n).echoback = 2 → scanFmt (awayPart w.sys.now arg) = (0, 0)) :
    Formatted (sAway n arg w).2 := by
  show wp (sAway n arg) (fun _ => Formatted) w
  have hget : Formatted (getU n w).2 := Within.within (R := KeepsFormats) w h
  refine wp_bind (wp_getW (wp_bind (wp_getU ?_)))
  refine wp_ite (fun _ => Within.within (R := KeepsFormats) _ hget) fun hne => ?_
  refine wp_ite (fun _ => Within.within (R := KeepsFormats) _ hget) fun hok => ?_
  rw [Option.not_isSome_iff_eq_none] at hok
  rw [away_stored]
  refine wp_bind (Within.within (R := KeepsFormats) (x := sendstatus n _ _) _ (hget.modUOpts fun hu => ?_))
  refine ⟨hu.nick, ?_, fun _ hverbose => ?_⟩
  · show (awayStamp w.sys.now ++ awayPart w.sys.now arg).length < maxAwayLen
    rw [← away_stored]
    exact lt_of_le_of_lt (List.length_take_le _ _) (by decide)
  · show scanFmt (awayStamp w.sys.now ++ awayPart w.sys.now arg) = (1, 0)
    rw [(scanFmt_awayStamp _ _).2, hspoil hne (filterfmt_none.mp hok) hverbose]

theorem sEchoback_formatted (h : Formatted w) (hspoil : offOnVerbose arg = some 2 →
    (w.uTab n).awaymsg ≠ [] → scanFmt (w.uTab n).awaymsg = (1, 0)) :
    Formatted (sEchoback n arg w).2 := by
  show wp (sEchoback n arg) (fun _ => Formatted) w
  refine wp_ite (fun hsome => ?_) fun _ => Within.within (R := KeepsFormats) w h
  refine wp_bind (Within.within (R := KeepsFormats) (x := sendstatus n _ _) _ (h.modUOpts fun hu => ?_))
  refine ⟨hu.nick, hu.short, fun hne hverbose => hspoil ?_ hne⟩
  obtain ⟨k, hk⟩ := Option.isSome_iff_exists.mp hsome
  rw [hk] at hverbose ⊢
  exact congrArg some hverbose

end

/-! ## §5 — packets -/

section
variable {n : Int} {d : Daemon}

omit [Env] in
theorem Prelude.spoils {w w' : World} (hP : Prelude w w') (n : Int) (c : Bytes × Bytes) [Env] :
    spoils w' n c ↔ spoils w n c := by
  have hecho : (w'.uTab n).echoback = (w.uTab n).echoback := hP.user n (·.echoback) fun _ _ => rfl
  have haway : (w'.uTab n).awaymsg = (w.uTab n).awaymsg := hP.user n (·.awaymsg) fun _ _ => rfl
  simp only [Server.spoils, hecho, haway, hP.sys]

theorem runCommand_formatted {text arg : Bytes} (hr : d.Runs text arg)
    (hspoil : ¬ spoils d.w n (text, arg)) :
    KeepsFormats d.w (runCommand noCmd n (splitCount text) (commandOf text) d).2.w := by
  by_cases haway : commandOf text = .away
  · intro h
    rw [haway]
    show wp (runCommand noCmd n (splitCount text) .away) (fun _ d' => Formatted d'.w) d
    refine wp_whenever (fun hargs => wp_bind (wp_getField ?_)) fun _ => h
    rw [hr.arg]
    refine wp_onWorld (sAway_formatted h fun hne hone hverbose => ?_)
    by_contra hleft
    exact hspoil (.inl ⟨haway, hargs, hne, hone, hverbose, hleft⟩)
  by_cases hecho : commandOf text = .echoback
  · intro h
    rw [hecho]
    show wp (runCommand noCmd n (splitCount text) .echoback) (fun _ d' => Formatted d'.w) d
    refine wp_whenever (fun htwo => wp_bind (wp_getField ?_)) fun _ => h
    rw [hr.arg]
    refine wp_onWorld (sEchoback_formatted h fun hverbose hset => ?_)
    by_contra hbad
    exact hspoil (.inr ⟨hecho, htwo, hverbose, hset, hbad⟩)
  · have : Within (OnWorld KeepsFormats) (runCommand noCmd n (splitCount text) (commandOf text)) := by
      apply runCommand_light
      rintro (hpass | hname | hother | h | h)
      · rw [hpass]
        unfold runCommand
        infer_instance
      · rw [hname]
        unfold runCommand
        infer_instance
      · rw [hother]
        unfold runCommand
        infer_instance
      · exact absurd h haway
      · exact absurd h hecho
    exact this.within d

/-- The command of a packet leaves a client with a bad away message. -/
def SpoilsFormats (d : Daemon) (n : Int) (contents : Bytes) : Prop :=
  (cstr contents).head? = some pktCommand ∧ (d.w.uTab n).login = .complete ∧
    ∃ c ∈ finalCommand d.w n (cstr contents).length (d.fields 1) (pktText contents), spoils d.w n c

/-- **A packet keeps the formats** unless its command leaves a client with a bad away message. -/
theorem dispatch_formatted {contents : Bytes} (hn : inUsers n) (hout : (d.w.uTab (-1)).login ≠ .complete)
    (hspoil : ¬ SpoilsFormats d n contents) : KeepsFormats d.w (dispatch n contents d).2.w := by
  have hkeep {x : M Unit} [Within (OnWorld KeepsFormats) x] : wp x (fun _ d' => KeepsFormats d.w d'.w) d :=
    Within.within (R := OnWorld KeepsFormats) d
  show wp (dispatch n contents) (fun _ d' => KeepsFormats d.w d'.w) d
  refine wp_ite (fun htype => ?_) fun _ => wp_ite (fun _ => hkeep) fun _ => wp_ite (fun htype => ?_) fun _ => ?_
  · exact loginCase_rel htype fun _ _ => Within.within _
  · by_cases hlogin : (d.w.uTab n).login = .complete
    case neg => exact cmdmsg_idle hlogin _ _
    refine cmdmsg_final hn (fun _ _ _ depth d' hP => ?_) fun c hc _ d' hP hr _ => ?_
    · refine nickreadmsg_out (fun hc => hout ?_) fun _ => inferInstance
      rw [← hc]
      exact (congrArg UserId.login (hP.stilly.users (-1))).symm
    · refine runCommand_formatted hr fun hs => hspoil ⟨htype, hlogin, c, hc, ?_⟩
      exact (hP.spoils n c).mp hs
  · exact wp_ite (fun _ => hkeep) fun _ => wp_ite (fun _ => hkeep) fun _ => hkeep

end

/-! ## §6 — runs -/

/-- No packet leaves a client with a bad away message; nothing is asked of other events. -/
def FormatsKept (h : Host) (sys : Sys) : Event → Prop
  | .packet n contents => ¬ SpoilsFormats (h.toDaemon.at sys) n contents
  | _ => True

theorem startup_formatted (sys : Sys) (db : Bytes → Option Bytes) : Formatted (startup sys db) := by
  refine startup_rel (R := KeepsFormats) sys db ⟨fun _ => ?_, fun _ h => absurd rfl h⟩
  exact ⟨⟨List.not_mem_nil, Nat.zero_le _⟩, show 0 < maxAwayLen by decide, fun h => absurd rfl h⟩

theorem reachable_formatted {h : Host} (hr : Reachable FormatsKept h) : Formatted h.w := by
  induction hr with
  | start sys db => exact startup_formatted sys db
  | @step h _ sys' e hr hp hs _ ih =>
    obtain ⟨-, he, rfl⟩ := hs
    obtain ⟨hinside, hopened⟩ := hr.inside
    cases e with
    | packet n contents =>
      refine dispatch_formatted (d := h.toDaemon.at sys') (hopened n he) (fun hc => ?_) hp
        ⟨ih.users, ih.groups⟩
      exact absurd (hinside (-1) (by rw [show (h.w.uTab (-1)).login = .complete from hc]; decide))
        (by simp [inUsers])
    | connect n secure remote => exact Within.within (R := KeepsFormats) _ ⟨ih.users, ih.groups⟩
    | lost n => exact Within.within (R := KeepsFormats) _ ⟨ih.users, ih.groups⟩
    | didpoll => exact Within.within (R := KeepsFormats) _ ⟨ih.users, ih.groups⟩

/-- **Formats fit their arguments.** Whatever clients have stored and send, every text of theirs that may
be used as a format takes as many strings as there are arguments and has no other conversion, as long as
no command leaves a client who sees everything with an away message of two conversions. -/
theorem formats_fit {h : Host} (hr : Reachable FormatsKept h) {fmt : Bytes} {k : Nat}
    (hf : Formats h.w fmt k) : scanFmt fmt = (k, 0) := (reachable_formatted hr).formats hf

instance (w : World) (n : Int) (c : Bytes × Bytes) : Decidable (spoils w n c) :=
  inferInstanceAs (Decidable (_ ∨ _))

instance (d : Daemon) (n : Int) (contents : Bytes) : Decidable (SpoilsFormats d n contents) := by
  unfold SpoilsFormats
  infer_instance

instance (h : Host) (sys : Sys) : (e : Event) → Decidable (FormatsKept h sys e)
  | .connect .. | .packet .. | .lost _ | .didpoll => by dsimp only [FormatsKept]; infer_instance

end

section
attribute [local instance] smallEnv

/-- The first client sees everything and goes away. -/
def goesAway (text : String) : List Event :=
  [.connect 1 false none, .packet 1 (loginPkt "one" "al" "x" ""), .packet 1 (cmdPkt "echoback" "verbose"),
   .packet 1 (cmdPkt "away" text)]

/-- A group of its own, and a message for those who idle in it. -/
def idleMessage : List Event :=
  [.connect 1 false none, .packet 1 (loginPkt "one" "al" "x" ""),
   .packet 1 (cmdPkt "status" "idlebootmsg %s fell asleep.")]

/-- The message is a format of one conversion. -/
theorem formats_fit_idle :
    let h := Host.run {} { w := startup {} fun _ => none } idleMessage
    (h.w.gTab 1).idlebootMsg ≠ [] ∧ scanFmt (idleFormat (h.w.gTab 1)) = (1, 0) := by
  intro h
  obtain ⟨hr, hset⟩ := Reachable.leads_run (P := FormatsKept) (Q := fun h => (h.w.gTab 1).idlebootMsg ≠ [])
    (.start {} fun _ => none) (rfl : h = Host.run {} _ idleMessage) (by decide +kernel)
  exact ⟨hset, formats_fit hr (.idle 1)⟩

/-- A text of one conversion makes a format of two. -/
theorem away_two_conversions : ∃ h : Host, Reachable (fun _ _ _ => True) h ∧
    ∃ fmt, Formats h.w fmt 1 ∧ scanFmt fmt = (2, 0) := by
  have hrun : Host.leads (fun _ _ _ => True) {} (fun h =>
      (h.w.uTab 1).awaymsg ≠ [] ∧ (h.w.uTab 1).echoback = 2 ∧
        scanFmt (awayFormat 0 (h.w.uTab 1) (h.w.uTab 1)) = (2, 0))
      { w := startup {} fun _ => none } (goesAway "back soon, %s") := by
    decide +kernel
  obtain ⟨h, hr, hset, hverbose, htwo⟩ := Reachable.leads (.start {} fun _ => none) hrun
  exact ⟨h, hr, _, .away 0 1 1 hset hverbose, htwo⟩

end

end Icbd.Server
