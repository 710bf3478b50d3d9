/-
# Icbd.Server.Regain — the moderator who comes back.

A nickname that is registered and not yet authenticated is told which groups wait for it, and asked for
its password. The notices go by the spelling of the nickname up to case, over all the groups. What
`nickwrite` gives back goes by the exact spelling, from group 1 on, and only if there is a password to
check.
-/
import Icbd.Server.Drop
import Icbd.Server.Refusal

-- every bind doubles the size of the search's argument
set_option synthInstance.maxSize 1000000000000000000000000000000000000000000000000
set_option synthInstance.maxHeartbeats 200000

namespace Icbd.Server

open Icbd.Lib

section
variable [Env]

/-! ## §1 — the promise -/

/-- The notice in `loginmsg` and `s_name` about a group that waits. -/
def moderatorNotice (group : Bytes) : Bytes :=
  packet pktStatus (classText (str "Mod") (str "You are moderator of group " ++ group))

/-- The request behind the notices, for one group or for several. -/
def regainRequest (groups : Bytes) : Bytes :=
  packet pktStatus (classText (str "Mod")
    (str "You must register using /p <password> to regain mod of the above " ++ groups))

/-- A packet of `n` makes the server tell him that he moderates group `i`, and ask for the password. -/
structure Promised (sys : Sys) (n i : Int) (contents : Bytes) (h h' : Host) : Prop where
  step : Step h sys (.packet n contents) h'
  told : Called (.send n (moderatorNotice (h'.w.gTab i).name)) h.w h'.w
  asked : Called (.send n (regainRequest (str "group."))) h.w h'.w ∨
    Called (.send n (regainRequest (str "groups."))) h.w h'.w

/-- Nothing but polls. -/
def Polled : Host → Host → Prop := Relation.ReflTransGen fun h h' => ∃ sys, Step h sys .didpoll h'

/-- `n` is promised group `i`, and then authenticates successfully while its timeout is pending. -/
structure Reclaims (sys : Sys) (n i : Int) (pw : Bytes) (flag : Bool) (h h' : Host) : Prop where
  promised : ∃ sys contents h₁, Promised sys n i contents h h₁ ∧ Polled h₁ h'
  pending : 0 < (h'.w.gTab i).modtimeout
  authenticated : (nickwrite n pw flag (h'.toDaemon.at sys).w).1 = true

/-! ## §2 — what is kept of it -/

section
variable {n i : Int} {w w' : World} {pw : Bytes} {flag : Bool}

omit [Env] in
/-- A group that is given back has the moderator it waited for. -/
theorem GivesBack.mod_iff (h : GivesBack n w w') (hR : Regains n w w') (hpend : 0 < (w.gTab i).modtimeout) :
    (w'.gTab i).mod = n ↔ (w.gTab i).mod = n ∨
      i ∈ (slots maxGroups).drop 1 ∧ (w.gTab i).missingmod = (w.uTab n).nickname := by
  by_cases hwaits : i ∈ (slots maxGroups).drop 1 ∧ awaits w i (w.uTab n).nickname
  · refine iff_of_true ?_ (.inr ⟨hwaits.1, hwaits.2.2⟩)
    obtain hsame | hgiven := hR.groups i
    · exact absurd (hsame ▸ hpend) (h.given i hwaits.1 hwaits.2)
    · exact hgiven.2.2 ▸ rfl
  · rw [h.rest i hwaits]
    exact ⟨.inl, fun hor => hor.resolve_right fun hr => hwaits ⟨hr.1, hpend, hr.2⟩⟩

/-- **What a successful `nickwrite` gives back.** -/
theorem nickwrite_mod_iff (hpend : 0 < (w.gTab i).modtimeout) (hok : (nickwrite n pw flag w).1 = true) :
    ((nickwrite n pw flag w).2.gTab i).mod = n ↔ (w.gTab i).mod = n ∨
      (i ∈ (slots maxGroups).drop 1 ∧ (w.gTab i).missingmod = (w.uTab n).nickname) ∧
        (dbGet (w.uTab n).nickname "password" w).1.isSome := by
  have hpw : pw ≠ [] := by
    rintro rfl
    exact nomatch hok
  obtain ⟨hright, -, hgives⟩ | ⟨-, hnew, hsame⟩ := nickwrite_gives (n := n) (w := w) flag hpw
  · rw [hgives.mod_iff (Within.within w) hpend, hright]
    simp
  · -- the record is new, and the groups are not asked
    rw [hsame, (hnew hok).2]
    simp

/-- **When the promise is kept.** -/
theorem reclaims_mod_iff {sys : Sys} {h h' : Host} (hc : Reclaims sys n i pw flag h h') :
    let w := (h'.toDaemon.at sys).w
    ((nickwrite n pw flag w).2.gTab i).mod = n ↔ (w.gTab i).mod = n ∨
      (i ∈ (slots maxGroups).drop 1 ∧ (w.gTab i).missingmod = (w.uTab n).nickname) ∧
        (dbGet (w.uTab n).nickname "password" w).1.isSome :=
  nickwrite_mod_iff (w := (h'.toDaemon.at sys).w) hc.pending hc.authenticated

end

end

/-! ## §3 — two spellings -/

section
attribute [local instance] smallEnv

/-- The record of a nickname that is registered from one address. -/
def alRecord : Bytes → Option Bytes :=
  Function.update (Function.update (fun _ => none) (dbKey (str "al") "home") (some (str "one@")))
    (dbKey (str "al") "password") (some (str "pw"))

/-- A registered moderator signs off, and somebody is left in his group. -/
def signsOff : List Event :=
  [.connect 1 false none, .packet 1 (loginPkt "one" "al" "x" ""), .connect 2 false none,
   .packet 2 (loginPkt "two" "bo" "x" ""), .lost 1]

/-- The other one takes his nickname and is promised the group. -/
def Takes (nick : String) (h : Host) : Prop :=
  let h' := h.after {} (.packet 2 (cmdPkt "name" nick))
  let told := Out.send 2 (moderatorNotice (str "x"))
  let asked := Out.send 2 (regainRequest (str "group."))
  (h.w.live ∧ h.opened 2 ∧ told ∉ h.w.out ∧ asked ∉ h.w.out) ∧
    (h'.w.gTab 1).name = str "x" ∧ told ∈ h'.w.out ∧ asked ∈ h'.w.out ∧
    (h'.w.uTab 2).nickname = str nick ∧ 0 < (h'.w.gTab 1).modtimeout ∧
    (h'.w.gTab 1).missingmod = str "al" ∧ (h'.w.gTab 1).mod ≠ 2 ∧
    h'.w.db (dbKey (str nick) "password") = some (str "pw")

instance (nick : String) : DecidablePred (Takes nick) := fun _ => inferInstanceAs (Decidable (_ ∧ _))

/-- The host after the change of nickname. -/
abbrev renamed (h : Host) (nick : String) : Host := h.after {} (.packet 2 (cmdPkt "name" nick))

theorem Takes.stored {nick : String} {h : Host} (ht : Takes nick h) :
    let w := ((renamed h nick).toDaemon.at {}).w
    (dbGet (w.uTab 2).nickname "password" w).1 = some (str "pw") := by
  obtain ⟨-, -, -, -, hnick, -, -, -, hdb⟩ := ht
  show (if true then (renamed h nick).w.db (dbKey ((renamed h nick).w.uTab 2).nickname "password") else none) = _
  rw [hnick]
  exact hdb

theorem Takes.reclaims {nick : String} {h : Host} (ht : Takes nick h) :
    Reclaims {} 2 1 (str "pw") false h (renamed h nick) := by
  have hpw : str "pw" ≠ [] := by decide
  have hright := nickwrite_right false hpw ht.stored
  obtain ⟨⟨hlive, hopen, hnot, hnot'⟩, hname, htold, hasked, -, hpend, -⟩ := ht
  have hgrows := h.grows {} (.packet 2 (cmdPkt "name" nick))
  refine ⟨⟨{}, _, _, ⟨⟨hlive, hopen, rfl⟩, ?_, .inl ?_⟩, .refl⟩, hpend, hright⟩
  · rw [hname]
    exact hgrows.called htold hnot
  · exact hgrows.called hasked hnot'

/-- The facts under which the password brings the group back. -/
theorem Takes.gives {nick : String} {h : Host} (ht : Takes nick h) :
    let w := ((renamed h nick).toDaemon.at {}).w
    ((w.gTab 1).mod = 2 ∨ ((1 : Int) ∈ (slots maxGroups).drop 1 ∧
      (w.gTab 1).missingmod = (w.uTab 2).nickname) ∧
        (dbGet (w.uTab 2).nickname "password" w).1.isSome) ↔ str "al" = str nick := by
  intro w
  have hstored : (dbGet (w.uTab 2).nickname "password" w).1.isSome := by
    rw [show (dbGet (w.uTab 2).nickname "password" w).1 = some (str "pw") from ht.stored]
    rfl
  obtain ⟨-, -, -, -, hnick, -, hmissing, hother, -⟩ := ht
  rw [show (w.gTab 1).missingmod = str "al" from hmissing, show (w.uTab 2).nickname = str nick from hnick] at *
  exact ⟨fun h => (h.resolve_left hother).1.2, fun h => .inr ⟨⟨by decide, h⟩, hstored⟩⟩

theorem Takes.gives_iff {nick : String} {h : Host} (ht : Takes nick h) :
    ((nickwrite 2 (str "pw") false ((renamed h nick).toDaemon.at {}).w).2.gTab 1).mod = 2 ↔
      str "al" = str nick :=
  (nickwrite_mod_iff (w := ((renamed h nick).toDaemon.at {}).w) ht.reclaims.pending
    ht.reclaims.authenticated).trans ht.gives

/-- The nickname can be taken in both spellings. -/
theorem takes_both : ∃ h : Host, Reachable (fun _ _ _ => True) h ∧ Takes "al" h ∧ Takes "AL" h := by
  have hrun : Host.leads (fun _ _ _ => True) {} (fun h => Takes "al" h ∧ Takes "AL" h)
      { w := startup {} alRecord } signsOff := by
    decide +kernel
  exact Reachable.leads (.start {} alRecord) hrun

/-- Who spells it as it was gets the group back. -/
theorem reclaims_mod_iff_al : ∃ h h' : Host, Reachable (fun _ _ _ => True) h ∧
    Reclaims {} 2 1 (str "pw") false h h' ∧
      ((nickwrite 2 (str "pw") false (h'.toDaemon.at {}).w).2.gTab 1).mod = 2 := by
  obtain ⟨h, hr, ht, -⟩ := takes_both
  exact ⟨h, renamed h "al", hr, ht.reclaims, (reclaims_mod_iff ht.reclaims).mpr (ht.gives.mpr rfl)⟩

/-- Who spells it otherwise is promised it just the same. -/
theorem other_spelling : ∃ h h' : Host, Reachable (fun _ _ _ => True) h ∧
    Reclaims {} 2 1 (str "pw") false h h' ∧
      ((nickwrite 2 (str "pw") false (h'.toDaemon.at {}).w).2.gTab 1).mod ≠ 2 := by
  obtain ⟨h, hr, -, ht⟩ := takes_both
  have hspelled : str "al" ≠ str "AL" := by decide
  exact ⟨h, renamed h "AL", hr, ht.reclaims, fun hmod => hspelled (ht.gives_iff.mp hmod)⟩

end

end Icbd.Server
