/-
# Icbd.System.Delivery — from the server's calls to the client's packets.

The server hands contents to the packet layer, the packet layer queues them or refuses them, and `write` takes
what it likes. `delivered` follows the contents through the whole program: what a client can read off its stream
by the length bytes are contents the server sent to its slot, whole, in order and none twice.
-/
import Icbd.System.Run

namespace Icbd

open Icbd.Lib Icbd.Server

/-! ## §1 — one connection -/

namespace Pkt

/-- Where the packets a connection has taken are: on the wire or in the queue, or, when the buffers are freed,
as far as they had come. -/
def Carried (p : Proc) (sent : List Bytes) : Prop :=
  Streaming p.conn sent ∨ p.conn.cbuf.state.down = true ∧ p.conn.wire.outbound <+: sent.flatten

section
variable {l : Label} {p p' : Proc} {sent : List Bytes}

theorem Carried.outbound (h : Carried p sent) : p.conn.wire.outbound <+: sent.flatten := by
  rcases h with hs | ⟨-, hprefix⟩
  · exact ⟨_, hs.bytes⟩
  · exact hprefix

/-- With nothing queued all of it is on the wire. -/
theorem Carried.all (h : Carried p sent) (hup : p.conn.cbuf.state.down = false) (hq : p.conn.cbuf.wlist = []) :
    p.conn.wire.outbound = sent.flatten := by
  rcases h with hs | ⟨hdown, -⟩
  · rw [← hs.bytes, hq]
    simp
  · rw [hup] at hdown
    cases hdown

theorem Carried.shut (h : Carried p sent) : Carried p.shut sent := by
  rcases h with hs | hdown
  · exact .inl (hs.of_same rfl rfl rfl)
  · exact .inr hdown

theorem Proc.accepted_carried (fd : Nat) {w : Wire} (hw : w.outbound = []) : Carried (Proc.accepted fd w) [] := by
  refine .inl ⟨fun _ hm => absurd hm List.not_mem_nil, ?_, rfl, Nat.zero_le _⟩
  simpa [Proc.accepted, Cbuf.fresh] using hw

/-- Nothing is queued on a connection whose buffers are freed. -/
theorem queuedBy_down (hok : l.polite p = true) (hs : p.conn.cbuf.state.down = true) : queuedBy l p = [] := by
  cases l with
  | call a =>
    simp only [Label.polite] at hok
    rw [SocketState.not_served_of_down hs] at hok
    cases hok
  | _ => rfl

/-- **Every polite step** carries the packets on. -/
theorem Moves.carried (hm : Moves l p p') (hplain : Plaintext p) (hs : Served p) (hok : l.polite p = true)
    (h : Carried p sent) : Carried p' (sent ++ queuedBy l p) := by
  by_cases hfree : l = .freed
  · subst hfree
    cases hm with
    | lost =>
      refine .inr ⟨rfl, ?_⟩
      rw [show queuedBy .freed _ = [] from rfl, List.append_nil]
      exact h.outbound
  · rcases h with hstream | ⟨hdown, hprefix⟩
    · exact .inl (hm.streaming hplain hfree hstream)
    · obtain ⟨hdown', hout, -⟩ := hm.down hs hok hdown
      rw [queuedBy_down hok hdown, List.append_nil]
      exact .inr ⟨hdown', by rw [hout]; exact hprefix⟩

end

/-- A move of the server's: one connection carries its packets on, and the others are left alone. -/
theorem HubStep.carried {maxUsers fd : Nat} {l : Label} {h h' : Hub} {sent : Nat → List Bytes}
    (hstep : HubStep maxUsers (.move fd l) h h') (hs : h.Serving maxUsers) (hok : (HubLabel.move fd l).polite h)
    (hsent : ∀ fd p, h.proc fd = some p → Carried p (sent fd)) {fd' : Nat} {p' : Proc}
    (hp' : h'.proc fd' = some p') : (fd' ≠ fd ∧ Carried p' (sent fd')) ∨
      fd' = fd ∧ ∃ p, h.proc fd = some p ∧ Carried p' (sent fd ++ queuedBy l p) := by
  by_cases heq : fd' = fd
  · subst heq
    refine .inr ⟨rfl, ?_⟩
    cases hstep with
    | moveOpen hp _ hmove =>
      simp only [Function.update_self, Option.some.injEq] at hp'
      subst hp'
      exact ⟨_, hp, hmove.carried (hs.plain _ _ hp) (hs.served _ _ hp) (hok _ hp) (hsent _ _ hp)⟩
    | @moveClosed _ _ _ p _ hp _ hmove =>
      simp only [Function.update_self, Option.some.injEq] at hp'
      subst hp'
      have hsame : queuedBy l p.shut = queuedBy l p := by
        cases l with
        | call a => cases a <;> rfl
        | _ => rfl
      have hpolite : l.polite p.shut = true := (Label.polite_shut l p).trans (hok p hp)
      refine ⟨p, hp, ?_⟩
      rw [← hsame]
      exact hmove.carried (hs.plain _ _ hp).shut (hs.served _ _ hp).shut hpolite (hsent _ _ hp).shut
  · refine .inl ⟨heq, hsent fd' p' ?_⟩
    rw [← hp']
    cases hstep with
    | moveOpen | moveClosed => exact (Function.update_of_ne heq _ _).symm

end Pkt

/-! ## §2 — the whole program -/

section
variable [Env]

omit [Env] in
theorem sentTo_append (n : Int) (os os' : List Out) : sentTo n (os' ++ os) = sentTo n os ++ sentTo n os' := by
  simp only [sentTo, List.reverse_append, List.filterMap_append]

omit [Env] in
/-- A call gives a connection what it carries, or nothing. -/
theorem Server.Out.takenBy_sublist (o : Out) (p : Pkt.Proc) : (o.takenBy p).Sublist (sentTo o.slot [o]) := by
  cases o with
  | disconnect n => exact List.nil_sublist _
  | send n content =>
    have hsent : sentTo n [.send n content] = [content] := by simp [sentTo]
    rw [Out.slot, hsent, Out.takenBy]
    split
    · exact List.Sublist.refl _
    · exact List.nil_sublist _

omit [Env] in
/-- The packets it queues are its contents in frames. -/
theorem Server.Out.queuedBy_action (o : Out) (p : Pkt.Proc) :
    Pkt.queuedBy (.call o.action) p = (o.takenBy p).map packetbuffer := by
  cases o with
  | disconnect n => rfl
  | send n content =>
    show (if p.conn.takes then [packetbuffer content] else []) = (if p.conn.takes then [content] else []).map packetbuffer
    split <;> rfl

/-- **The invariant.** What each connection has taken is carried, and it is part of what the server sent to its
slot, in order; the calls that are still to be made come after it. -/
structure System.Carries (s : System) : Prop where
  carried : ∀ fd p, s.hub.proc fd = some p → Pkt.Carried p ((s.taken fd).map packetbuffer)
  asked : ∀ fd : Nat, (s.taken fd ++ sentTo fd s.calls.reverse).Sublist (sentTo fd s.host.w.out)

/-- A move of the packet layer by itself. -/
theorem System.Carries.moved {s : System} {hub' : Pkt.Hub} {fd : Nat} {l : Pkt.Label} (hs : s.Carries)
    (hserving : s.hub.Serving Env.maxUsers) (hhub : Pkt.HubStep Env.maxUsers (.move fd l) s.hub hub')
    (hok : (Pkt.HubLabel.move fd l).polite s.hub) (hcall : l.isCall = false) (fd' : Nat) (p' : Pkt.Proc)
    (hp' : hub'.proc fd' = some p') : Pkt.Carried p' ((s.taken fd').map packetbuffer) := by
  rcases hhub.carried hserving hok hs.carried hp' with ⟨-, hsame⟩ | ⟨rfl, p, -, hnext⟩
  · exact hsame
  · have hnone : Pkt.queuedBy l p = [] := by
      cases l with
      | call => cases hcall
      | _ => rfl
    rwa [hnone, List.append_nil] at hnext

omit [Env] in
/-- The calls of a callback follow what was sent before. -/
theorem System.Carries.raised {s : System} {out new : List Out} (hs : s.Carries) (hnone : s.calls = [])
    (hout : out = new ++ s.host.w.out) (fd : Nat) :
    (s.taken fd ++ sentTo fd new.reverse.reverse).Sublist (sentTo fd out) := by
  have hbefore := hs.asked fd
  rw [hnone] at hbefore
  rw [List.reverse_reverse, hout, sentTo_append]
  exact List.Sublist.append_right (by simpa [sentTo] using hbefore) _

/-- **Every step that meets its condition keeps the invariant.** -/
theorem SystemStep.carries {a : Act} {s s' : System} (hstep : SystemStep a s s') (hok : a.obliging s) (hs : s.Sound)
    (hc : s.Carries) : s'.Carries := by
  cases hstep with
  | @accept _ hub' fd w hnone hw hhub =>
    refine ⟨fun fd' p' hp' => ?_, fun fd' => ?_⟩
    · cases hhub with
      | accept =>
        by_cases heq : fd' = fd
        · subst heq
          simp only [Function.update_self, Option.some.injEq] at hp' ⊢
          rw [← hp']
          exact Pkt.Proc.accepted_carried fd' hw
        · simp only [Function.update_of_ne heq] at hp' ⊢
          exact hc.carried fd' p' hp'
    · by_cases heq : fd' = fd
      · subst heq
        simp [hnone, sentTo]
      · simp only [Function.update_of_ne heq]
        exact hc.asked fd'
  | quiet _ hquiet hhub =>
    refine ⟨fun fd' p' hp' => ?_, hc.asked⟩
    rcases hhub.proc_cases hp' with hsame | ⟨w, rfl, -⟩ | ⟨l₀, _, _, rfl, -⟩
    · exact hc.carried fd' p' hsame
    · cases hquiet
    · cases hquiet
  | move _ hcall hhub _ => exact ⟨hc.moved hs.serving hhub hok hcall, hc.asked⟩
  | callback hnone hhub hcall _ _ _ _ hout => exact ⟨hc.moved hs.serving hhub hok hcall, hc.raised hnone hout⟩
  | idle hnone _ _ _ hout => exact ⟨hc.carried, hc.raised hnone hout⟩
  | @call _ hub' o os fd p hcalls hslot hp hhub =>
    have hpolite : (Pkt.HubLabel.move fd (.call o.action)).polite s.hub := fun p' hp' => hok fd p' hslot hp'
    refine ⟨fun fd' p' hp' => ?_, fun fd' => ?_⟩
    · rcases hhub.carried hs.serving hpolite hc.carried hp' with ⟨hne, hsame⟩ | ⟨rfl, p₁, hp₁, hnext⟩
      · simp only [Function.update_of_ne hne]
        exact hsame
      · obtain rfl := Option.some.inj (hp.symm.trans hp₁)
        rw [o.queuedBy_action, ← List.map_append] at hnext
        simpa only [Function.update_self] using hnext
    · have hasked := hc.asked fd'
      rw [hcalls, List.reverse_cons, sentTo_append] at hasked
      refine List.Sublist.trans ?_ hasked
      rw [← List.append_assoc]
      refine List.Sublist.append_right ?_ _
      dsimp only
      by_cases heq : fd' = fd
      · subst heq
        rw [Function.update_self, ← hslot]
        exact List.Sublist.append_left (o.takenBy_sublist p) _
      · rw [Function.update_of_ne heq]
        exact List.sublist_append_left _ _
  | @nobody _ o os hcalls _ =>
    refine ⟨hc.carried, fun fd' => ?_⟩
    have hasked := hc.asked fd'
    rw [hcalls, List.reverse_cons, sentTo_append] at hasked
    refine List.Sublist.trans ?_ hasked
    exact List.Sublist.append_left (List.sublist_append_right _ _) _

theorem System.start_carries (sys : Sys) (db : Bytes → Option Bytes) : (System.start sys db).Carries := by
  constructor
  · intro fd p hp
    cases hp
  · intro fd
    exact List.nil_sublist _

theorem Runs.carries {sys : Sys} {db : Bytes → Option Bytes} {ls : List Act} {s : System}
    (h : Runs (System.start sys db) ls s) : s.Sound ∧ s.Carries := by
  refine h.invariant (I := fun s => s.Sound ∧ s.Carries) ⟨System.start_sound sys db, System.start_carries sys db⟩ ?_
  rintro a t t' ⟨hs, hc⟩ ⟨hok, hstep⟩
  exact ⟨hstep.sound hok hs, hstep.carries hok hs hc⟩

/-- **What the server sends is what the client gets, until it is cut off.** In every run that meets the
condition, for every connection: the contents it has taken since it was accepted are contents the server sent to
its slot, in order; the client who reads by the length bytes has got the first of them, each whole, and the
beginning of the next; and if nothing is queued and the buffers are not freed he has got all of them. -/
theorem delivered {sys : Sys} {db : Bytes → Option Bytes} {ls : List Act} {s : System}
    (h : Runs (System.start sys db) ls s) {fd : Nat} {p : Pkt.Proc} (hp : s.hub.proc fd = some p) :
    (s.taken fd).Sublist (sentTo fd s.host.w.out) ∧
      (∃ k ≤ (s.taken fd).length,
        (blocks.read p.conn.wire.outbound).1.map Block.body = ((s.taken fd).take k).map (· ++ [0]) ∧
          ((blocks.read p.conn.wire.outbound).2 = [] ∨ ∃ c, (s.taken fd)[k]? = some c ∧
            (blocks.read p.conn.wire.outbound).2 <+: packetbuffer c ∧
            (blocks.read p.conn.wire.outbound).2 ≠ packetbuffer c)) ∧
      (p.conn.cbuf.state.down = false → p.conn.cbuf.wlist = [] →
        p.conn.wire.outbound = ((s.taken fd).map packetbuffer).flatten) := by
  obtain ⟨hs, hc⟩ := h.carries
  have hcarried := hc.carried fd p hp
  have hasked : (s.taken fd).Sublist (sentTo fd s.host.w.out) :=
    (List.sublist_append_left _ _).trans (hc.asked fd)
  refine ⟨hasked, ?_, fun hup hq => hcarried.all hup hq⟩
  have hpacked (c : Bytes) (hmem : c ∈ s.taken fd) : Packed c := by
    obtain ⟨o, ho, heq⟩ := List.mem_filterMap.mp (hasked.subset hmem)
    cases o with
    | disconnect => cases heq
    | send m c' =>
      simp only [Option.ite_none_right_eq_some, Option.some.injEq] at heq
      obtain ⟨rfl, rfl⟩ := heq
      exact hs.reachable.packed (List.mem_reverse.mp ho)
  obtain ⟨k, hk, hread, -, hrest⟩ := read_packets hpacked hcarried.outbound
  exact ⟨k, hk, hread, hrest⟩

end

section
attribute [local instance] smallEnv

/-- A client whose socket took forty bytes: the greeting is on its way. -/
theorem delivered_greeting : ∃ ls, Runs (System.start {} fun _ => none) ls (greetedSystem 40) ∧
    ∃ p, (greetedSystem 40).hub.proc 1 = some p ∧ p.conn.wire.outbound = (packetbuffer greeting).take 40 ∧
      ((greetedSystem 40).taken 1).Sublist (sentTo 1 (greetedSystem 40).host.w.out) := by
  obtain ⟨ls, hrun⟩ := greetedSystem_runs 40
  have hp : (greetedSystem 40).hub.proc 1 = some _ := Pkt.Hub.single_proc _
  exact ⟨ls, hrun, _, hp, by decide +kernel, (delivered hrun hp).1⟩

end

end Icbd
