/-
# Icbd.Pkt.Callbacks — the order in which the server is called.

The server keeps an entry for each descriptor and trusts the packet layer to call `new_client` before anything
else about it and `lost_client` last. `callbacks_in_order` says when that is so: as long as `poll` reports no
exceptional bit about a connection that has not been greeted or whose buffers are freed, and the server asks for
nothing about such a connection either. The same holds of every connection of a server that has many.
-/
import Icbd.Pkt.Pollout
import Icbd.Pkt.Teardown

namespace Icbd.Pkt

open Icbd.Lib

/-! ## §1 — the phases of a connection -/

/-- The states of a connection the server knows and may use. -/
def SocketState.served : SocketState → Bool
  | .accepted | .wantRawDisconnect | .disconnected => false
  | _ => true

/-- The condition on a step: exceptional bits and calls are about connections in use. -/
def Label.polite (p : Proc) : Label → Bool
  | .poll b => !b.exception || p.conn.cbuf.state.served
  | .call _ => p.conn.cbuf.state.served
  | _ => true

/-- The server was told of the connection, and then got packets from it. -/
def Greeted (ts : List Trace) : Prop := ∃ ps : List Bytes, ts = .newClient :: ps.map .dispatch

/-- And then it was told that the connection is lost. -/
def Parted (ts : List Trace) : Prop := ∃ ts', Greeted ts' ∧ ts = ts' ++ [.lostClient]

/-- The control is in none of the callbacks. -/
def Control.atRest : Control → Bool
  | .waiting | .running _ _ => true
  | _ => false

/-- The control is in `lost_client`. -/
def Control.isLosing : Control → Bool
  | .losing _ => true
  | _ => false

/-- **The invariant**: where a connection stands and what the server has been told of it. -/
inductive Served : Proc → Prop
  | fresh {c : Conn} {k : Control} : c.trace = [] → c.cbuf.state = .accepted → k.atRest → Served ⟨c, k⟩
  | up {c : Conn} {k : Control} : Greeted c.trace → c.cbuf.state.served → k.isLosing = false → Served ⟨c, k⟩
  | losing {c : Conn} {back : Option (Bool × Bool)} :
      Parted c.trace → c.cbuf.state.served → Served ⟨c, .losing back⟩
  | freed {c : Conn} {k : Control} : Parted c.trace → c.cbuf.state = .wantRawDisconnect → k.atRest →
      Served ⟨c, k⟩
  | closed {c : Conn} {k : Control} : (∃ ts, Parted ts ∧ c.trace = ts ++ [.closed]) →
      c.cbuf.state = .disconnected → k.atRest → Served ⟨c, k⟩

/-- What the server may be told in the course of a connection. -/
def InOrder (ts : List Trace) : Prop :=
  ts = [] ∨ Greeted ts ∨ Parted ts ∨ ∃ ts', Parted ts' ∧ ts = ts' ++ [.closed]

theorem Served.inOrder {p : Proc} (h : Served p) : InOrder p.conn.trace := by
  cases h with
  | fresh h => exact .inl h
  | up h => exact .inr (.inl h)
  | losing h => exact .inr (.inr (.inl h))
  | freed h => exact .inr (.inr (.inl h))
  | closed h => exact .inr (.inr (.inr h))

/-! ## §2 — one step -/

theorem SocketState.served_of_afterCallback {s : SocketState} (h : s.afterCallback = true) : s.served = true := by
  cases s with
  | wantHeader | wantWrite | wantDisconnect => rfl
  | _ => cases h

theorem Greeted.dispatch {ts : List Trace} (h : Greeted ts) (pkt : Bytes) : Greeted (ts ++ [.dispatch pkt]) := by
  obtain ⟨ps, rfl⟩ := h
  exact ⟨ps ++ [pkt], by simp⟩

/-- A step that leaves the trace and the state word alone, between two points outside the callbacks. -/
theorem Served.same {c c' : Conn} {k k' : Control} (h : Served ⟨c, k⟩) (htrace : c'.trace = c.trace)
    (hstate : c'.cbuf.state = c.cbuf.state) (hk : k.atRest) (hk' : k'.atRest) : Served ⟨c', k'⟩ := by
  have hlosing : k'.isLosing = false := by
    cases k' with
    | losing back => cases hk'
    | _ => rfl
  cases h with
  | fresh ht hs _ => exact .fresh (htrace.trans ht) (hstate.trans hs) hk'
  | up ht hs _ => exact .up (by rw [htrace]; exact ht) (by rw [hstate]; exact hs) hlosing
  | losing => cases hk
  | freed ht hs _ => exact .freed (by rw [htrace]; exact ht) (hstate.trans hs) hk'
  | closed ht hs _ => exact .closed (by rw [htrace]; exact ht) (hstate.trans hs) hk'

/-- A connection in use outside `lost_client`. -/
theorem Served.greeted {c : Conn} {k : Control} (h : Served ⟨c, k⟩) (hs : c.cbuf.state.served)
    (hk : k.isLosing = false) : Greeted c.trace := by
  cases h with
  | fresh _ hacc _ =>
    rw [hacc] at hs
    cases hs
  | up ht _ _ => exact ht
  | losing => cases hk
  | freed _ hraw _ =>
    rw [hraw] at hs
    cases hs
  | closed _ hgone _ =>
    rw [hgone] at hs
    cases hs

theorem cycleToWrite_served {c : Conn} (h : c.cbuf.state.served) : (cycleToWrite c).cbuf.state.served := by
  unfold cycleToWrite
  split
  · rfl
  · exact h

/-- The calls of the server about a connection in use. -/
theorem Served.call {c : Conn} {k : Control} (h : Served ⟨c, k⟩) (hssl : c.cbuf.isSsl = false)
    (hs : c.cbuf.state.served) (a : Action) : Served ⟨a.run c, k⟩ := by
  have hrun : (a.run c).trace = c.trace ∧ (a.run c).cbuf.state.served := by
    cases a with
    | disconnect => exact ⟨rfl, rfl⟩
    | send pkt =>
      refine ⟨(pktservSend_untouched c pkt hssl).trace, ?_⟩
      rcases pktservSend_state c pkt hssl with ⟨_, hsame⟩ | hcb
      · show (pktservSend c pkt).2.cbuf.state.served
        rw [hsame]
        exact hs
      · exact SocketState.served_of_afterCallback hcb
  cases h with
  | fresh _ hacc _ =>
    rw [hacc] at hs
    cases hs
  | up ht _ hk => exact .up (by rw [hrun.1]; exact ht) hrun.2 hk
  | losing ht _ => exact .losing (by rw [hrun.1]; exact ht) hrun.2
  | freed _ hraw _ =>
    rw [hraw] at hs
    cases hs
  | closed _ hgone _ =>
    rw [hgone] at hs
    cases hs

/-- **Every polite step keeps the order.** -/
theorem Moves.served {l : Label} {p p' : Proc} (hm : Moves l p p') (hp : Plaintext p) (h : Served p)
    (hok : l.polite p = true) : Served p' := by
  have hssl := hp.isSsl
  cases hm with
  | network =>
    cases h with
    | fresh ht hs hk => exact .fresh ht hs hk
    | up ht hs hk => exact .up ht hs hk
    | losing ht hs => exact .losing ht hs
    | freed ht hs hk => exact .freed ht hs hk
    | closed ht hs hk => exact .closed ht hs hk
  | call a _ => exact h.call hssl hok a
  | @except c b hb hgone =>
    have hs : c.cbuf.state.served := by
      simpa [Label.polite, hb] using hok
    exact .losing ⟨c.trace, h.greeted hs rfl, rfl⟩ hs
  | @poll c b _ =>
    obtain ⟨d, hd⟩ := Conn.polled_disp c b
    exact h.same (by rw [hd]) (by rw [hd]) rfl rfl
  | rest _ => exact h.same rfl rfl rfl rfl
  | @greet c r w _ hs =>
    have htrace : c.trace = [] := by
      cases h with
      | fresh ht _ _ => exact ht
      | up _ hserved _ =>
        rw [hs] at hserved
        cases hserved
      | freed _ hraw _ => cases hs.symm.trans hraw
      | closed _ hgone _ => cases hs.symm.trans hgone
    refine .up ⟨[], ?_⟩ rfl rfl
    show c.trace ++ [.newClient] = _
    rw [htrace]
    rfl
  | greeted =>
    cases h with
    | up ht hs _ => exact .up ht hs rfl
    | fresh _ _ hk | freed _ _ hk | closed _ _ hk => cases hk
  | @write c r w _ hs =>
    have hup : Greeted c.trace := h.greeted (by rw [hs]; rfl) rfl
    rcases writeCase_cases r w hs with hsame | ⟨d, hpass⟩
    · rw [hsame]
      exact .up hup (by rw [hs]; rfl) rfl
    · rw [hpass]
      refine .up ?_ (SocketState.served_of_afterCallback (writeLoop_state c c.cbuf.wlist hssl)) rfl
      show Greeted (writeLoop c c.cbuf.wlist).2.trace
      rw [(writeLoop_untouched c _ hssl).trace]
      exact hup
  | @packet c w _ hs hdone =>
    have hup : Greeted c.trace := h.greeted (by rcases hs with hs | hs <;> rw [hs] <;> rfl) rfl
    refine .up ?_ (by show (pktsocketRead c).2.cbuf.state.served; rw [hdone]; rfl) rfl
    show Greeted ((pktsocketRead c).2.trace ++ [.dispatch _])
    rw [(pktsocketRead_readOnly hssl).1.trace]
    exact hup.dispatch _
  | @fragment c w _ hs hpart =>
    have hserved : c.cbuf.state.served := by rcases hs with hs | hs <;> rw [hs] <;> rfl
    obtain ⟨hkeep, hst⟩ := pktsocketRead_readOnly hssl
    refine .up ?_ (cycleToWrite_served ?_) rfl
    · rw [cycleToWrite_trace, hkeep.trace]
      exact h.greeted hserved rfl
    · rcases hst with hst | hst | hst | hst
      · rw [hst]
        exact hserved
      · rw [hst]
        rfl
      · exact absurd hst hpart
      · rw [hst]
        rfl
  | @skip c r w _ hs =>
    have hserved : c.cbuf.state.served := by rcases hs with hs | hs <;> rw [hs] <;> rfl
    refine .up ?_ (cycleToWrite_served hserved) rfl
    rw [cycleToWrite_trace]
    exact h.greeted hserved rfl
  | @dispatched c =>
    cases h with
    | up ht _ _ =>
      refine .up ?_ (cycleToWrite_served rfl) rfl
      rw [Conn.afterDispatch, cycleToWrite_trace]
      exact ht
    | fresh _ _ hk | freed _ _ hk | closed _ _ hk => cases hk
  | @lose c r w _ hs =>
    have hserved : c.cbuf.state.served := by rw [hs]; rfl
    exact .losing ⟨c.trace, h.greeted hserved rfl, rfl⟩ hserved
  | @lost c back =>
    have hk : (Control.resumed back).atRest := by
      rcases back with _ | ⟨_, _⟩ <;> rfl
    cases h with
    | losing ht _ => exact .freed ht rfl hk
    | up _ _ hk' => cases hk'
    | fresh _ _ hk' | freed _ _ hk' | closed _ _ hk' => cases hk'
  | @close c r w _ hs =>
    cases h with
    | freed ht _ hk => exact .closed ⟨c.trace, ht, rfl⟩ rfl hk
    | fresh _ hacc _ => cases hs.symm.trans hacc
    | up _ hserved _ =>
      rw [hs] at hserved
      cases hserved
    | closed _ hgone _ => cases hs.symm.trans hgone
  | gone _ hs => exact h.same rfl rfl rfl rfl

theorem Proc.accepted_served (fd : Nat) (w : Wire) : Served (Proc.accepted fd w) := .fresh rfl rfl rfl

/-- **The callbacks come in order.** In every run whose steps meet the condition, the server is told of a
connection first and once, then gets its packets, is told of its loss once and nothing more after that, and only
then is the descriptor closed. -/
theorem callbacks_in_order {fd : Nat} {w : Wire} {ls : List Label} {p : Proc}
    (h : Path (Under (fun l p => l.polite p = true) Moves) (Proc.accepted fd w) ls p) : InOrder p.conn.trace := by
  have hinv : Plaintext p ∧ Served p := by
    refine h.invariant (I := fun p => Plaintext p ∧ Served p)
      ⟨Proc.accepted_plaintext fd w, Proc.accepted_served fd w⟩ ?_
    rintro l p p' ⟨hplain, hs⟩ ⟨hok, hm⟩
    exact ⟨hm.plaintext hplain, hm.served hplain hs hok⟩
  exact hinv.2.inOrder

/-- A connection that is greeted and marked for disconnection by the server, and its tear-down. -/
theorem callbacks_in_order_greeted :
    ∃ ls p, Path (Under (fun l p => l.polite p = true) Moves) (Proc.accepted 5 {}) ls p ∧
      p.conn.trace = [.newClient, .lostClient, .closed] ∧ InOrder p.conn.trace := by
  have hgreet : Path (Under (fun l p => l.polite p = true) Moves) (Proc.accepted 5 {}) _ _ :=
    Path.cons ⟨rfl, Moves.poll { pollout := true } rfl⟩ (Path.single ⟨rfl, Moves.greet rfl rfl⟩)
  have hasked := hgreet.snoc _ ⟨rfl, Moves.call .disconnect rfl⟩
  have hlost := ((hasked.snoc _ ⟨rfl, Moves.greeted⟩).snoc _ ⟨rfl, Moves.lose rfl rfl⟩).snoc _ ⟨rfl, Moves.lost⟩
  have hclosed := hlost.snoc _ ⟨rfl, Moves.close rfl rfl⟩
  exact ⟨_, _, hclosed, rfl, callbacks_in_order hclosed⟩

/-! ## §3 — many connections -/

/-- What a step may do to one descriptor: nothing, or it is a new connection's, or that connection moves. -/
theorem HubStep.proc_cases {maxUsers : Nat} {l : HubLabel} {h h' : Hub} (hstep : HubStep maxUsers l h h') {fd : Nat}
    {p' : Proc} (hp' : h'.proc fd = some p') :
    h.proc fd = some p' ∨ (∃ w, l = .accept fd w ∧ p' = Proc.accepted fd w ∧ fd < maxUsers) ∨
      ∃ l₀ p q, l = .move fd l₀ ∧ h.proc fd = some p ∧ (q = p ∨ q = p.shut) ∧ Moves l₀ q p' := by
  have hcase {fd₀ : Nat} {q : Option Proc} (hq : Function.update h.proc fd₀ q fd = some p') :
      fd = fd₀ ∧ q = some p' ∨ h.proc fd = some p' := by
    by_cases heq : fd = fd₀
    · subst heq
      rw [Function.update_self] at hq
      exact .inl ⟨rfl, hq⟩
    · rw [Function.update_of_ne heq] at hq
      exact .inr hq
  cases hstep with
  | accept fd₀ w hlt hnew =>
    rcases hcase hp' with ⟨rfl, hq⟩ | hsame
    · exact .inr (.inl ⟨w, rfl, (Option.some.inj hq).symm, hlt⟩)
    · exact .inl hsame
  | opened fd₀ hnew =>
    rcases hcase hp' with ⟨-, hq⟩ | hsame
    · cases hq
    · exact .inl hsame
  | closed | poll => exact .inl hp'
  | moveOpen hp _ hmove =>
    rcases hcase hp' with ⟨rfl, hq⟩ | hsame
    · rw [Option.some.inj hq] at hmove
      exact .inr (.inr ⟨_, _, _, rfl, hp, .inl rfl, hmove⟩)
    · exact .inl hsame
  | moveClosed hp _ hmove =>
    rcases hcase hp' with ⟨rfl, hq⟩ | hsame
    · rw [Option.some.inj hq] at hmove
      exact .inr (.inr ⟨_, _, _, rfl, hp, .inr rfl, hmove⟩)
    · exact .inl hsame

/-- `poll` takes nothing out of the set. -/
theorem Hub.requested_has {maxUsers : Nat} {h : Hub} {other : Nat → SocketState} {revents : Nat → PollBits} {fd : Nat}
    (hin : h.set.Has fd) : ((h.requested maxUsers other).poll revents).Has fd := by
  obtain ⟨k, hk, rfl⟩ := hin
  refine ⟨k, hk, ?_⟩
  have hreq : ((h.requested maxUsers other).slot k).fd = (h.set.slot k).fd := by
    simp only [Hub.requested, PollSet.updatePollfdEvents]
    split <;> rfl
  rw [← hreq]
  simp only [PollSet.poll]
  split <;> rfl

/-- A connection that is outside the set after a step was outside before, or has just been closed. -/
theorem HubStep.out_cases {maxUsers : Nat} {l : HubLabel} {h h' : Hub} (hstep : HubStep maxUsers l h h') {fd : Nat}
    {p' : Proc} (hp' : h'.proc fd = some p') (hout : ¬ h'.set.Has fd) :
    (¬ h.set.Has fd ∧ ∀ w, l ≠ .accept fd w) ∨ p'.conn.cbuf.state = .disconnected := by
  cases hstep with
  | accept fd₀ w _ hnew =>
    refine .inl ⟨fun hin => hout (PollSet.addPollfd_has hin), ?_⟩
    rintro w' ⟨⟩
    exact hout (PollSet.addPollfd_self _ _)
  | opened fd₀ hnew => exact .inl ⟨fun hin => hout (PollSet.addPollfd_has hin), by rintro w' ⟨⟩⟩
  | closed fd₀ hnone =>
    refine .inl ⟨fun hin => hout (PollSet.deletePollfd_has ?_ hin), by rintro w' ⟨⟩⟩
    rintro rfl
    cases hnone.symm.trans hp'
  | @moveOpen _ fd₀ _ p q hp hin hmove =>
    by_cases heq : fd = fd₀
    · subst heq
      simp only [Function.update_self, Option.some.injEq] at hp'
      by_cases hgone : q.conn.cbuf.state = .disconnected
      · exact .inr (by rw [← hp', hgone])
      · rw [if_neg hgone] at hout
        exact absurd hin hout
    · refine .inl ⟨fun hin => hout ?_, by rintro w' ⟨⟩⟩
      dsimp only
      split
      · exact PollSet.deletePollfd_has heq hin
      · exact hin
  | moveClosed _ _ _ => exact .inl ⟨hout, by rintro w' ⟨⟩⟩
  | poll other revents _ => exact .inl ⟨fun hin => hout (Hub.requested_has hin), by rintro w' ⟨⟩⟩

/-- The buffers are freed. -/
def SocketState.down : SocketState → Bool
  | .wantRawDisconnect | .disconnected => true
  | _ => false

theorem SocketState.not_served_of_down {s : SocketState} (h : s.down = true) : s.served = false := by
  cases s with
  | wantRawDisconnect | disconnected => rfl
  | _ => cases h

/-- Nothing is written on a connection whose buffers are freed, and one that is closed stays closed. -/
theorem Moves.down {l : Label} {p p' : Proc} (hm : Moves l p p') (h : Served p) (hok : l.polite p = true)
    (hs : p.conn.cbuf.state.down = true) :
    p'.conn.cbuf.state.down = true ∧ p'.conn.wire.outbound = p.conn.wire.outbound ∧
      (p.conn.cbuf.state = .disconnected → p'.conn.cbuf.state = .disconnected) := by
  have hserved := SocketState.not_served_of_down hs
  have hno {s : SocketState} (heq : p.conn.cbuf.state = s) (hup : s.down = false) : False := by
    rw [heq, hup] at hs
    cases hs
  cases hm with
  | network | except | rest | greeted | gone => exact ⟨hs, rfl, id⟩
  | call a _ =>
    simp only [Label.polite] at hok
    rw [hserved] at hok
    cases hok
  | @poll c b _ =>
    obtain ⟨d, hd⟩ := Conn.polled_disp c b
    rw [hd]
    exact ⟨hs, rfl, id⟩
  | dispatched =>
    cases h with
    | up _ hup _ => cases hserved.symm.trans hup
    | fresh _ _ hk | freed _ _ hk | closed _ _ hk => cases hk
  | lost =>
    cases h with
    | losing _ hup => cases hserved.symm.trans hup
    | up _ _ hk => cases hk
    | fresh _ _ hk | freed _ _ hk | closed _ _ hk => cases hk
  | close => exact ⟨rfl, rfl, fun _ => rfl⟩
  | greet _ hs' | write _ hs' | lose _ hs' => exact (hno hs' rfl).elim
  | packet _ hs' _ | fragment _ hs' _ | skip _ hs' => rcases hs' with hs' | hs' <;> exact (hno hs' rfl).elim

/-- The condition on a step of the server. -/
def HubLabel.polite (h : Hub) : HubLabel → Prop
  | .move fd l => ∀ p, h.proc fd = some p → l.polite p = true
  | _ => True

/-- What holds of every connection. -/
structure Hub.Serving (maxUsers : Nat) (h : Hub) : Prop where
  bound : ∀ fd p, h.proc fd = some p → fd < maxUsers
  plain : ∀ fd p, h.proc fd = some p → Plaintext p
  served : ∀ fd p, h.proc fd = some p → Served p
  gone : ∀ fd p, h.proc fd = some p → ¬ h.set.Has fd → p.conn.cbuf.state = .disconnected

theorem Plaintext.shut {p : Proc} (h : Plaintext p) : Plaintext p.shut := ⟨h.isSsl, h.state⟩

theorem Served.shut {p : Proc} (h : Served p) : Served p.shut := by
  cases h with
  | fresh ht hs hk => exact .fresh ht hs hk
  | up ht hs hk => exact .up ht hs hk
  | losing ht hs => exact .losing ht hs
  | freed ht hs hk => exact .freed ht hs hk
  | closed ht hs hk => exact .closed ht hs hk

theorem Label.polite_shut (l : Label) (p : Proc) : l.polite p.shut = l.polite p := by
  cases l <;> rfl

/-- **Every polite step of the server keeps the order on every connection.** -/
theorem HubStep.serving {maxUsers : Nat} {l : HubLabel} {h h' : Hub} (hstep : HubStep maxUsers l h h')
    (hok : l.polite h) (hs : h.Serving maxUsers) : h'.Serving maxUsers := by
  have hmoved {fd : Nat} {l₀ : Label} {p q : Proc} (hl : l = .move fd l₀) (hp : h.proc fd = some p)
      (hq : q = p ∨ q = p.shut) : Plaintext q ∧ Served q ∧ l₀.polite q = true := by
    subst hl
    rcases hq with rfl | rfl
    · exact ⟨hs.plain fd _ hp, hs.served fd _ hp, hok _ hp⟩
    · exact ⟨(hs.plain fd p hp).shut, (hs.served fd p hp).shut, by rw [Label.polite_shut]; exact hok p hp⟩
  refine ⟨fun fd p' hp' => ?_, fun fd p' hp' => ?_, fun fd p' hp' => ?_, fun fd p' hp' hout => ?_⟩
  · rcases hstep.proc_cases hp' with hsame | ⟨w, -, -, hlt⟩ | ⟨l₀, p, q, -, hp, -, -⟩
    · exact hs.bound fd p' hsame
    · exact hlt
    · exact hs.bound fd p hp
  · rcases hstep.proc_cases hp' with hsame | ⟨w, -, rfl, -⟩ | ⟨l₀, p, q, hl, hp, hq, hmove⟩
    · exact hs.plain fd p' hsame
    · exact Proc.accepted_plaintext fd w
    · exact hmove.plaintext (hmoved hl hp hq).1
  · rcases hstep.proc_cases hp' with hsame | ⟨w, -, rfl, -⟩ | ⟨l₀, p, q, hl, hp, hq, hmove⟩
    · exact hs.served fd p' hsame
    · exact Proc.accepted_served fd w
    · obtain ⟨hplain, hserved, hpolite⟩ := hmoved hl hp hq
      exact hmove.served hplain hserved hpolite
  · rcases hstep.out_cases hp' hout with ⟨hbefore, hnew⟩ | hgone
    · rcases hstep.proc_cases hp' with hsame | ⟨w, hl, -, -⟩ | ⟨l₀, p, q, hl, hp, hq, hmove⟩
      · exact hs.gone fd p' hsame hbefore
      · exact absurd hl (hnew w)
      · obtain ⟨-, hserved, hpolite⟩ := hmoved hl hp hq
        have hgone : q.conn.cbuf.state = .disconnected := by
          have hgone := hs.gone fd p hp hbefore
          rcases hq with rfl | rfl <;> exact hgone
        exact (hmove.down hserved hpolite (by rw [hgone]; rfl)).2.2 hgone
    · exact hgone

theorem Hub.start_serving (maxUsers : Nat) : Hub.start.Serving maxUsers := by
  constructor <;> intro fd p hp <;> cases hp

end Icbd.Pkt
