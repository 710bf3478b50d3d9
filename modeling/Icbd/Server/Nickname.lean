/-
# Icbd.Server.Nickname — no two slots hold the same nickname.

Two functions store nicknames. `s_name` cuts and filters the name, looks it up and stores it.
`loginmsg` looks up the name of the packet and stores the filtered one: a name that the filter turns
into somebody else's is let in.
-/
import Icbd.Server.Login

-- every bind doubles the size of the search's argument
set_option synthInstance.maxSize 1000000000000000000000000000000000000000000000000
set_option synthInstance.maxHeartbeats 200000

namespace Icbd.Server

open Icbd.Lib

section
variable [Env]

/-! ## §1 — the invariant -/

/-- No two slots hold non-empty nicknames that are equal up to case. -/
def NickUnique (nick : Int → Bytes) : Prop :=
  ∀ i j, inUsers i → inUsers j → nick i ≠ [] → strcaseEq (nick i) (nick j) → i = j

/-- And nobody but `n`, if that is a slot, holds `v`. -/
def NickReserved (n : Int) (v : Bytes) (nick : Int → Bytes) : Prop :=
  NickUnique nick ∧ ∀ j, inUsers n → inUsers j → j ≠ n → ¬ strcaseEq (nick j) v

/-- The invariant over worlds. -/
abbrev KeepsNicks (J : (Int → Bytes) → Prop) : World → World → Prop :=
  ViewInv (fun u => u.nickname) (fun _ => ()) fun nick _ => J nick

section
variable {J : (Int → Bytes) → Prop} {n i : Int} {v : Bytes} {l : Login}

instance : Calm (KeepsNicks J) where
  toSends _ := inferInstance
  toUOpts _ := ⟨fun _ _ => ViewInv.modU fun _ => rfl⟩
  drops := Drops.drops
  gopts _ _ _ := ViewInv.modG fun _ => rfl

instance : RealTo (KeepsNicks J) n v := ⟨fun _ => ViewInv.modU fun _ => rfl⟩
instance : IdentTo (KeepsNicks J) n := ⟨fun _ _ _ _ => ViewInv.modU fun _ => rfl⟩
instance : UGroupTo (KeepsNicks J) n := ⟨fun _ _ => ViewInv.modU fun _ => rfl⟩
instance : LoginTo (KeepsNicks J) n l := ⟨fun _ => ViewInv.modU fun _ => rfl⟩
instance : ModTo (KeepsNicks J) i := ⟨fun _ _ => ViewInv.modG fun _ => rfl⟩
instance : MissTo (KeepsNicks J) := ⟨fun _ _ _ _ => ViewInv.modG fun _ => rfl⟩
instance : GNameTo (KeepsNicks J) := ⟨fun _ _ _ => ViewInv.modG fun _ => rfl⟩

end

/-- A slot may give its name up. -/
theorem NickUnique.erase {nick : Int → Bytes} (h : NickUnique nick) (n : Int) :
    NickUnique (Function.update nick n []) := by
  intro i j hi hj hne heq
  have hin : i ≠ n := by
    rintro rfl
    simp at hne
  rw [Function.update_of_ne hin] at hne heq
  by_cases hjn : j = n
  · subst hjn
    rw [Function.update_self] at heq
    exact absurd (strcaseEq_nil heq) hne
  · rw [Function.update_of_ne hjn] at heq
    exact h i j hi hj hne heq

/-- A slot may take a name that nobody else holds. -/
theorem NickReserved.store {n : Int} {v : Bytes} {nick : Int → Bytes} (h : NickReserved n v nick) :
    NickReserved n v (Function.update nick n v) := by
  refine ⟨fun i j hi hj hne heq => ?_, fun j hn hj hjn => ?_⟩
  · by_cases hin : i = n <;> by_cases hjn : j = n
    · rw [hin, hjn]
    · rw [hin, Function.update_self, Function.update_of_ne hjn, strcaseEq_comm] at heq
      exact absurd heq (h.2 j (hin ▸ hi) hj hjn)
    · rw [hjn, Function.update_self, Function.update_of_ne hin] at heq
      exact absurd heq (h.2 i (hjn ▸ hj) hi hin)
    · rw [Function.update_of_ne hin, Function.update_of_ne hjn] at heq
      rw [Function.update_of_ne hin] at hne
      exact h.1 i j hi hj hne heq
  · rw [Function.update_of_ne hjn]
    exact h.2 j hn hj hjn

instance (n : Int) : NickTo (KeepsNicks NickUnique) n [] := ⟨fun _ => .writeU fun h => h.erase n⟩

instance (n : Int) (v : Bytes) : NickTo (KeepsNicks (NickReserved n v)) n v :=
  ⟨fun _ => .writeU fun h => h.store⟩

/-- The nicknames of a world. -/
def World.nick (w : World) (i : Int) : Bytes := (w.uTab i).nickname

/-! ## §2 — `/name` -/

section
variable {w : World} {n : Int} {arg : Bytes}

/-- A name that passes the test of `s_name` is free, and it is the name that is stored. -/
theorem nameFree_reserved (hu : NickUnique w.nick) (harg : arg ≠ [])
    (h : nameFree w n (newName arg)) : NickReserved n (newName arg) w.nick := by
  refine ⟨hu, fun j hn hj hjn heq => ?_⟩
  simp only [nameFree, Bool.and_eq_true, Bool.or_eq_true, decide_eq_true_eq] at h
  have hname : newName arg ≠ [] := by
    simp [newName, filternickname, harg, maxNickLen]
  obtain hnone | hown := h.1
  · exact findUser_neg hname hnone hj heq
  · have hsame : strcaseEq (w.nick j) (w.nick n) := strcaseEq_trans heq hown
    have hne : w.nick j ≠ [] := by
      intro h0
      rw [h0, strcaseEq_comm] at heq
      exact hname (strcaseEq_nil heq)
    exact hjn (hu j n hj hn hne hsame)

instance : Within (KeepsNicks NickUnique) (sName n arg) where
  within w hu := by
    change wp (sName n arg) (fun _ w' => NickUnique w'.nick) w
    refine wp_bind (wp_getW (wp_bind (wp_getU ?_)))
    refine wp_ite (fun _ => Within.within (R := KeepsNicks NickUnique) _ hu) fun harg => ?_
    refine wp_ite (fun _ => Within.within (R := KeepsNicks NickUnique) _ hu) fun hfree => ?_
    have hres : NickReserved n (newName arg) w.nick :=
      nameFree_reserved hu harg (Decidable.not_not.mp hfree)
    exact Within.wp (KeepsNicks (NickReserved n (newName arg))) fun _ _ hkeep => (hkeep hres).1

end

/-! ## §3 — the other packets -/

section
variable {n : Int} {text contents : Bytes}

instance {cmd : Int → Bytes → M Unit}
    [∀ src text, Within (OnWorld (KeepsNicks NickUnique)) (cmd src text)] :
    Within (OnWorld (KeepsNicks NickUnique)) (cmdmsgWith cmd n text) := by
  have (k : Nat) (c : Command) : Within (OnWorld (KeepsNicks NickUnique)) (runCommand cmd n k c) := by
    apply runCommand_within
    rintro (rfl | rfl | rfl) <;> (unfold runCommand; infer_instance)
  unfold cmdmsgWith
  infer_instance

instance {depth : Nat} : Within (OnWorld (KeepsNicks NickUnique)) (cmdmsg depth n text) := by
  induction depth generalizing n text with
  | zero =>
    unfold cmdmsg
    infer_instance
  | succ depth ih =>
    unfold cmdmsg
    infer_instance

/-- A packet keeps the names apart if the name it stores for its slot is not another slot's. -/
theorem dispatch_nickUnique {d : Daemon} (hu : NickUnique d.w.nick)
    (h : ∀ v ∈ storedNick d.w n contents, ∀ j ∈ slots Env.maxUsers, j ≠ n →
      ¬ strcaseEq (d.w.nick j) v) :
    NickUnique (dispatch n contents d).2.w.nick := by
  unfold dispatch
  split
  next htype =>
    refine loginCase_rel (R := KeepsNicks NickUnique) htype (fun hlogin p hu => ?_) hu
    have hstored : storedNick d.w n contents =
        loginStores d.w n (pktField contents 0) (pktField contents 1) := if_pos hlogin
    cases hs : loginStores d.w n (pktField contents 0) (pktField contents 1) with
    | none => exact login_refused (R := KeepsNicks NickUnique) hs hu
    | some v =>
      have hv : (filternickname (pktField contents 1)).take maxNickLen = v := by
        unfold loginStores at hs
        split at hs
        · exact Option.some.inj hs
        · cases hs
      subst hv
      have hres : NickReserved n ((filternickname (pktField contents 1)).take maxNickLen) d.w.nick :=
        ⟨hu, fun j _ hj hjn => h _ (by rw [hstored, hs]; rfl) j (inUsers_iff.mp hj) hjn⟩
      exact (Within.within (R := KeepsNicks (NickReserved n _)) (getU n d.w).2 hres).1
  · exact Within.within (R := OnWorld (KeepsNicks NickUnique)) d hu

end

/-! ## §4 — runs -/

/-- A login packet that gets as far as the user's entry stores a name no other slot holds; nothing is
asked of other events. -/
def LoginNameFree (h : Host) (sys : Sys) : Event → Prop
  | .packet n contents => ∀ v ∈ storedNick (h.toDaemon.at sys).w n contents,
      ∀ j ∈ slots Env.maxUsers, j ≠ n → ¬ strcaseEq (h.w.nick j) v
  | _ => True

theorem startup_nickUnique (sys : Sys) (db : Bytes → Option Bytes) :
    NickUnique (startup sys db).nick := by
  have h := startup_rel (R := KeepsNicks (NickReserved nickserv ((str "Server").take maxNickLen)))
    sys db
  refine (h ⟨fun i j _ _ hne => absurd rfl hne, fun j _ _ _ => ?_⟩).1
  change ¬ strcaseEq [] ((str "Server").take maxNickLen) = true
  decide

/-- No two slots hold the same nickname, whatever the clients send, as long as no login is let in
under a name that the filter has turned into another slot's. -/
theorem nickname_unique {h : Host} (hr : Reachable LoginNameFree h) : NickUnique h.w.nick := by
  refine hr.invariant (I := fun h => NickUnique h.w.nick) startup_nickUnique ?_
  intro h sys e hu hp _ _
  cases e with
  | packet n contents => exact dispatch_nickUnique (d := h.toDaemon.at sys) hu hp
  | connect n secure remote => exact Within.within (R := KeepsNicks NickUnique) _ hu
  | lost n => exact Within.within (R := KeepsNicks NickUnique) _ hu
  | didpoll => exact Within.within (R := KeepsNicks NickUnique) _ hu

instance (h : Host) (sys : Sys) : (e : Event) → Decidable (LoginNameFree h sys e)
  | .connect .. | .packet .. | .lost _ | .didpoll => by dsimp only [LoginNameFree]; infer_instance

end

section
attribute [local instance] smallEnv

/-- Two clients log in. -/
def twoLogins (nick₁ nick₂ : String) : List Event :=
  [.connect 1 false none, .packet 1 (loginPkt "one" nick₁ "x" ""),
   .connect 2 false none, .packet 2 (loginPkt "two" nick₂ "x" "")]

theorem nickname_unique_two :
    NickUnique (Host.run {} { w := startup {} fun _ => none } (twoLogins "foo_bar" "foo baz")).w.nick :=
  nickname_unique (.run (.start {} fun _ => none) (by decide +kernel))

theorem filtered_login_takes_name : ∃ h : Host,
    Reachable (fun _ _ _ => True) h ∧ ¬ NickUnique h.w.nick := by
  have hrun : Host.leads (fun _ _ _ => True) {} (fun h => h.w.nick 1 ≠ [] ∧ strcaseEq (h.w.nick 1) (h.w.nick 2))
      { w := startup {} fun _ => none } (twoLogins "foo_bar" "foo bar") := by
    decide +kernel
  obtain ⟨h, hr, hne, heq⟩ := Reachable.leads (.start {} fun _ => none) hrun
  refine ⟨h, hr, fun hu => ?_⟩
  exact absurd (hu 1 2 (by decide) (by decide) hne heq) (by decide)

end

end Icbd.Server
