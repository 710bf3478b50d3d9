/-
# Icbd.Server.Unavailable — who becomes registered while the database does not open.

`icbdb_get` answers 0 for an absent key and for a database that does not open. `nicklookup` takes
both for "no record" and grants nothing; `nickwrite` takes both for "a new nick" and registers it. So
a login and a change of name fail closed, and the command `p` with any password fails open.
-/
import Icbd.Server.Authentication
import Icbd.Server.Final

-- every bind doubles the size of the search's argument
set_option synthInstance.maxSize 1000000000000000000000000000000000000000000000000
set_option synthInstance.maxHeartbeats 200000

namespace Icbd.Server

open Icbd.Lib

section
variable [Env]

/-! ## §1 — nobody is registered -/

/-- While the database stays closed, who of these slots is not registered stays so. -/
def Unregistered (K : Int → Prop) (w w' : World) : Prop :=
  w.sys.dbOpens = false → w'.sys.dbOpens = false ∧
    ∀ i, K i → (w.uTab i).realname = [] → (w'.uTab i).realname = []

section
variable {K : Int → Prop} {n m : Int} {v a b : Bytes} {l : Login} {key : String} {flag : Bool}

omit [Env] in
theorem Unregistered.modU {w : World} {f : User → User}
    (hf : ∀ u, K n → u.realname = [] → (f u).realname = []) : Unregistered K w (w.modU n f) := by
  refine fun hclosed => ⟨hclosed, fun i hK hi => ?_⟩
  by_cases h : i = n
  · subst h
    simpa [World.modU] using hf _ hK hi
  · simpa [World.modU, Function.update_of_ne h] using hi

instance : Calm (Unregistered K) where
  refl _ hclosed := ⟨hclosed, fun _ _ => id⟩
  trans _ _ _ h₁ h₂ hclosed :=
    ⟨(h₂ (h₁ hclosed).1).1, fun i hK hi => (h₂ (h₁ hclosed).1).2 i hK ((h₁ hclosed).2 i hK hi)⟩
  misc _ _ hclosed := ⟨hclosed, fun _ _ => id⟩
  drops _ _ hclosed := ⟨hclosed, fun _ _ => id⟩
  gopts _ _ _ hclosed := ⟨hclosed, fun _ _ => id⟩
  toSends _ := ⟨fun _ _ hclosed => ⟨hclosed, fun _ _ => id⟩⟩
  toUOpts _ := ⟨fun _ _ => .modU fun _ _ => id⟩

instance : DbTo (Unregistered K) key := ⟨fun _ _ _ hclosed => ⟨hclosed, fun _ _ => id⟩⟩
instance : NickTo (Unregistered K) n v := ⟨fun _ => .modU fun _ _ => id⟩
instance : RealTo (Unregistered K) n [] := ⟨fun _ => .modU fun _ _ _ => rfl⟩

instance [h : Fact (¬ K n)] : RealTo (Unregistered K) n registered :=
  ⟨fun _ => .modU fun _ hK => absurd hK h.out⟩

instance : IdentTo (Unregistered K) n := ⟨fun _ _ _ _ => .modU fun _ _ => id⟩
instance : UGroupTo (Unregistered K) n := ⟨fun _ _ => .modU fun _ _ => id⟩
instance : LoginTo (Unregistered K) n l := ⟨fun _ => .modU fun _ _ => id⟩
instance : GNameTo (Unregistered K) := ⟨fun _ _ _ hclosed => ⟨hclosed, fun _ _ => id⟩⟩
instance : ModTo (Unregistered K) m := ⟨fun _ _ hclosed => ⟨hclosed, fun _ _ => id⟩⟩
instance : MissTo (Unregistered K) := ⟨fun _ _ _ _ hclosed => ⟨hclosed, fun _ _ => id⟩⟩

omit [Env] in
/-- A program only has to behave on a closed database. -/
theorem Unregistered.of_closed {α : Type} {x : W α}
    (h : ∀ w, w.sys.dbOpens = false → Unregistered K w (x w).2) : Within (Unregistered K) x :=
  ⟨fun w hclosed => h w hclosed hclosed⟩

/-! ## §2 — logins and names -/

/-- The silent check finds no record. -/
theorem wp_nicklookup_closed {w : World} (hclosed : w.sys.dbOpens = false) :
    wp (nicklookup n v) (fun r t => r = -1 ∧ Unregistered K w t) w :=
  ⟨nicklookup_closed hclosed, Within.within w⟩

/-- A password is checked against nothing. -/
theorem nickwrite_closed (h : K n → flag = true ∨ a = []) :
    Within (Unregistered K) (nickwrite n a flag) := by
  by_cases hK : K n
  case neg =>
    have : Fact (¬ K n) := ⟨hK⟩
    infer_instance
  have h := h hK
  refine Unregistered.of_closed fun w hclosed => ?_
  show wp (nickwrite n a flag) (fun _ w' => Unregistered K w w') w
  refine wp_bind (wp_getU (wp_bind (wp_dbGet_closed hclosed ?_)))
  have hkeep {x : W Bool} [Within (Unregistered K) x] :
      wp x (fun _ w' => Unregistered K w w') (getU n w).2 :=
    trans_of (Unregistered K) (Within.within (x := getU n) w) (Within.within _)
  refine wp_ite (fun _ => hkeep) fun hne => wp_ite (fun _ => ?_) fun hsome => absurd rfl hsome
  exact wp_ite (fun _ => hkeep) fun hno => absurd (h.resolve_right hne) hno

instance : Within (Unregistered K) (authenticate n) := by
  refine Unregistered.of_closed fun w hclosed => ?_
  show wp (authenticate n) (fun _ w' => Unregistered K w w') w
  have hget : Unregistered K w (getU n w).2 := Within.within w
  refine wp_bind (wp_getU (wp_bind ?_))
  refine wp_mono (wp_nicklookup_closed (K := K) (hget hclosed).1) fun r t ⟨hr, ht⟩ => ?_
  subst hr
  refine wp_bind (wp_ite (fun h => absurd h.1 (by decide)) fun _ => wp_pure (wp_bind ?_))
  refine wp_whenever (fun h => absurd h.1 (by decide)) fun _ => ?_
  refine wp_ite (fun h => absurd h (by decide)) fun _ => ?_
  exact trans_of (Unregistered K) (trans_of (Unregistered K) hget ht) (Within.within t)

instance : Within (Unregistered K) (nameStatus n) := by
  refine Unregistered.of_closed fun w hclosed => ?_
  show wp (nameStatus n) (fun _ w' => Unregistered K w w') w
  have hstart : Unregistered K w (setRealname n [] (getU n w).2).2 :=
    trans_of (Unregistered K) (Within.within (x := getU n) w) (Within.within _)
  refine wp_bind (wp_getU (wp_after (wp_bind ?_)))
  refine wp_mono (wp_nicklookup_closed (K := K) (hstart hclosed).1) fun r t ⟨hr, ht⟩ => ?_
  subst hr
  refine wp_ite (fun h => absurd h (by decide)) fun _ => wp_ite (fun h => absurd h (by decide)) fun _ => ?_
  exact trans_of (Unregistered K) (trans_of (Unregistered K) hstart ht) (Within.within t)

/-- No mail is found. -/
theorem nickreadmsg_closed {cmd : Int → Bytes → M Unit} {d : Daemon} :
    Unregistered K d.w (nickreadmsg cmd n d).2.w := by
  intro hclosed
  suffices h : Unregistered K d.w (nickreadmsg cmd n d).2.w from h hclosed
  show wp (nickreadmsg cmd n) (fun _ d' => Unregistered K d.w d'.w) d
  have hget : Unregistered K d.w (getU n d.w).2 := Within.within d.w
  refine wp_bind (wp_onWorld (wp_getU (wp_bind (wp_onWorld (wp_dbGet_closed hclosed ?_)))))
  refine wp_ite (fun _ => trans_of (Unregistered K) hget (Within.within _)) fun _ => wp_bind ?_
  refine wp_onWorld (Within.wp (Unregistered K) fun _ t ht => wp_onWorld ?_)
  exact trans_of (Unregistered K) (trans_of (Unregistered K) hget ht) (Within.within t)

/-- The automatic user's commands, but for `p` with a word. -/
theorem autoArg_closed {c : AutoCmd} (h : K n → c = .register → getword a = []) :
    Within (Unregistered K) (autoArg n a c) := by
  cases c with
  | register =>
    have : Within (Unregistered K) (nickwrite n (getword a) false) := nickwrite_closed fun hK => .inr (h hK rfl)
    unfold autoArg
    infer_instance
  | _ =>
    unfold autoArg
    infer_instance

end

/-! ## §3 — what a command packet comes down to -/

/-- The text comes down to `p` with a password, by itself or inside messages to the automatic user.
`left` is what earlier packets have left in `fields[1]`. -/
def registers (w : World) (n : Int) : Nat → Bytes → Bytes → Bool
  | 0, _, _ => false
  | depth + 1, left, text =>
      if commandOf text = .m then
        splitCount text = 2 ∧ heard w n (argOf text) ∧
          registers w n depth (messageText (w.uTab n).nickname (getTail (argOf text)))
            (serverText (w.uTab n).nickname (getTail (argOf text)))
      else
        isRegister text ∧ getword (if splitCount text = 1 then left else argOf text) ≠ []

section
variable {K : Int → Prop} {n : Int} {w w' : World} {d : Daemon}

/-- Registration in terms of the command of the packet. -/
theorem registers_iff (w : World) (n : Int) (depth : Nat) (left text : Bytes) :
    registers w n depth left text = true ↔
      ∃ c ∈ finalCommand w n depth left text, isRegister c.1 ∧ getword c.2 ≠ [] := by
  induction depth generalizing left text with
  | zero => simp [registers, finalCommand]
  | succ depth ih =>
    rw [registers, finalCommand]
    by_cases hm : commandOf text = .m
    · rw [if_pos hm, if_pos hm, decide_eq_true_iff, ih]
      split
      next h => simp [h]
      next h => exact ⟨fun h' => absurd ⟨h'.1, h'.2.1⟩ h, by simp⟩
    · rw [if_neg hm, if_neg hm]
      simp

/-- `p` with a word registers. -/
theorem register_opens {a : Bytes} (ha : a ≠ []) (hclosed : w.sys.dbOpens = false) :
    ((nickwrite n a false w).2.uTab n).realname = registered := by
  show wp (nickwrite n a false) (fun _ w' => (w'.uTab n).realname = registered) w
  refine wp_bind (wp_getU (wp_bind (wp_dbGet_closed hclosed ?_)))
  rw [if_neg ha, if_pos rfl, if_neg Bool.false_ne_true]
  refine wp_bind (Within.wp (KeepsUser n fun _ => True) fun _ _ _ => ?_)
  refine wp_bind (Within.wp (KeepsUser n fun _ => True) fun _ _ _ => ?_)
  refine wp_bind (Within.wp (KeepsUser n fun _ => True) fun _ _ _ => ?_)
  refine wp_bind (Within.wp (KeepsUser n fun _ => True) fun _ _ _ => ?_)
  have : Plain fun _ : UserId => True := ⟨fun _ _ => id, fun _ _ => id, fun _ _ => id⟩
  exact wp_mono (wp_register (J := fun _ => True) rfl trivial) fun _ _ h => h.2

/-- **A command packet fails closed** unless it comes down to `p` with a password. -/
theorem cmdmsg_closed (hn : inUsers n) {depth : Nat} {text : Bytes}
    (h : K n → ¬ registers d.w n depth (d.fields 1) text) :
    Unregistered K d.w (cmdmsg depth n text d).2.w := by
  refine cmdmsg_final (R := Unregistered K) hn (fun _ _ _ _ _ _ => nickreadmsg_closed) ?_
  intro c hc hm d' hP hr _
  show wp (runCommand noCmd n (splitCount c.1) (commandOf c.1)) (fun _ t => Unregistered K d'.w t.w) d'
  by_cases hother : commandOf c.1 = .other
  · rw [hother]
    refine other_wp (R := Unregistered K) hr (fun _ _ h => h) (fun hauto _ => ?_) fun _ _ => ?_
    · have : Within (Unregistered K) (autoArg n c.2 (autoOf c.1)) := by
        refine autoArg_closed fun hK hreg => ?_
        by_contra hword
        exact h hK ((registers_iff ..).mpr ⟨c, hc, ⟨hother, hauto, hreg⟩, hword⟩)
      exact fun t' ht' => trans_of (Unregistered K) (this.within d'.w) ht'
    · suffices hplain : Unregistered K d'.w (autoPlain noCmd n (autoOf c.1) d').2.w from
        fun t' ht' => trans_of (Unregistered K) hplain ht'
      cases autoOf c.1 with
      | read => exact nickreadmsg_closed
      | _ =>
        unfold autoPlain
        exact Within.within (R := OnWorld (Unregistered K)) d'
  · have hwithin : Within (OnWorld (Unregistered K))
        (runCommand noCmd n (splitCount c.1) (commandOf c.1)) := by
      apply runCommand_within
      rintro (hpass | hname | h)
      · rw [hpass]
        unfold runCommand
        infer_instance
      · rw [hname]
        unfold runCommand
        infer_instance
      · exact absurd h hother
    exact hwithin.within d'

/-- **A command packet fails open** when it comes down to `p` with a password. -/
theorem cmdmsg_opens {depth : Nat} {text : Bytes} (hclosed : d.w.sys.dbOpens = false)
    (hlogin : (d.w.uTab n).login = .complete) (h : registers d.w n depth (d.fields 1) text) :
    ((cmdmsg depth n text d).2.w.uTab n).realname = registered := by
  obtain ⟨c, hc, ⟨hother, hauto, hp⟩, hword⟩ := (registers_iff ..).mp h
  have hkeep (t t' : Daemon) (hR : KeepsUser n (fun u => u.realname = registered) t.w t'.w)
      (ht : (t.w.uTab n).realname = registered) : (t'.w.uTab n).realname = registered := hR ht
  show wp (cmdmsg depth n text) (fun _ d' => (d'.w.uTab n).realname = registered) d
  refine cmdmsg_final_wp (R := KeepsUser n fun u => u.realname = registered) hlogin hc hkeep ?_
  intro depth d' hP hr
  rw [hother]
  have hclosed' : d'.w.sys.dbOpens = false := (congrArg Sys.dbOpens hP.sys).trans hclosed
  have hreads : (autoOf c.1).readsArg := by
    rw [hp]
    rfl
  refine other_wp (R := KeepsUser n fun u => u.realname = registered) hr (fun hno => absurd hauto hno)
    (fun _ _ => ?_) fun _ hno => absurd hreads hno
  rw [hp]
  exact fun t' ht' => ht' (register_opens (n := n) hword hclosed')

end

/-! ## §4 — packets -/

/-- The packet is a command of a logged-in user who is not registered, and comes down to `p` with a
password. -/
def Registers (d : Daemon) (n : Int) (contents : Bytes) : Prop :=
  (cstr contents).head? = some pktCommand ∧ (d.w.uTab n).login = .complete ∧
    (d.w.uTab n).realname = [] ∧
    registers d.w n (cstr contents).length (d.fields 1) (pktText contents)

instance (d : Daemon) (n : Int) (contents : Bytes) : Decidable (Registers d n contents) :=
  inferInstanceAs (Decidable (_ ∧ _))

/-- **When authentication fails closed.** While the database does not open, a packet registers nobody
if and only if it is not a command of a logged-in, unregistered user that comes down to `p` with a
password. -/
theorem fails_closed_iff {n : Int} {d : Daemon} {contents : Bytes} (hn : inUsers n)
    (hclosed : d.w.sys.dbOpens = false) :
    (∀ i, (d.w.uTab i).realname = [] →
      ((dispatch n contents d).2.w.uTab i).realname ≠ registered) ↔ ¬ Registers d n contents := by
  constructor
  · rintro h ⟨htype, hlogin, hnil, hreg⟩
    refine h n hnil ?_
    have hcmd := cmdmsg_opens hclosed hlogin hreg
    have hnot : (cstr contents).head? ≠ some pktLogin := by
      rw [htype]
      decide
    have hopen : (cstr contents).head? ≠ some pktOpen := by
      rw [htype]
      decide
    rwa [dispatch, if_neg hnot, otherCase, if_neg hopen, if_pos htype]
  · intro h i hnil
    let K : Int → Prop := fun i => (d.w.uTab i).realname = []
    suffices hkeep : Unregistered K d.w (dispatch n contents d).2.w by
      rw [(hkeep hclosed).2 i hnil hnil]
      decide
    by_cases htype : (cstr contents).head? = some pktLogin
    · rw [dispatch, if_pos htype]
      exact loginCase_rel htype fun _ _ => Within.within _
    · rw [dispatch, if_neg htype]
      have hkeep {x : M Unit} [Within (OnWorld (Unregistered K)) x] :
          wp x (fun _ d' => Unregistered K d.w d'.w) d := Within.within (R := OnWorld (Unregistered K)) d
      show wp (otherCase n (cstr contents)) (fun _ d' => Unregistered K d.w d'.w) d
      refine wp_ite (fun _ => hkeep) fun _ => ?_
      refine wp_ite (fun hcmd => ?_) fun _ => ?_
      · by_cases hlogin : (d.w.uTab n).login = .complete
        · exact cmdmsg_closed hn fun hK hreg => h ⟨hcmd, hlogin, hK, hreg⟩
        · exact cmdmsg_idle hlogin _ _
      · exact wp_ite (fun _ => hkeep) fun _ => wp_ite (fun _ => hkeep) fun _ => hkeep

end

section
attribute [local instance] smallEnv

/-- The first client changes its name and is not registered. -/
theorem fails_closed_name :
    ((firstClient.toDaemon.at { dbOpens := false }).w.uTab 1).realname = [] ∧
      ((dispatch 1 (cmdPkt "name" "bo")
        (firstClient.toDaemon.at { dbOpens := false })).2.w.uTab 1).realname ≠ registered := by
  have ⟨hnil, hnot⟩ : ((firstClient.toDaemon.at { dbOpens := false }).w.uTab 1).realname = [] ∧
      ¬ Registers (firstClient.toDaemon.at { dbOpens := false }) 1 (cmdPkt "name" "bo") := by
    decide +kernel
  exact ⟨hnil, (fails_closed_iff (by decide) rfl).mpr hnot 1 hnil⟩

/-- The first client sends `p pw` and is registered, with no database to ask. -/
theorem closed_database_registers : ∃ (h : Host) (contents : Bytes),
    Reachable (fun _ _ _ => True) h ∧ h.opened 1 ∧ (h.w.uTab 1).realname = [] ∧
    ((dispatch 1 contents (h.toDaemon.at { dbOpens := false })).2.w.uTab 1).realname = registered := by
  have hrun := Reachable.leads_run (P := fun _ _ _ => True) (Q := fun h => h.opened 1 ∧ (h.w.uTab 1).realname = [] ∧
      ((dispatch 1 (cmdPkt "p" "pw") (h.toDaemon.at { dbOpens := false })).2.w.uTab 1).realname = registered)
    (.start {} fun _ => none) (rfl : firstClient = Host.run {} _ _) (by decide +kernel)
  exact ⟨firstClient, cmdPkt "p" "pw", hrun⟩

end

end Icbd.Server
