/-
# Icbd.Pkt.Returns — when a call of the state machine comes back.

The loop leaves every state but one after finitely many iterations. The exception is `WANT_WRITE`:
without write readiness nothing in its case changes anything, and with it the loop only moves on
when the queue drains or the socket fails before `MAX_SENDPACKET_RETRIES` short or blocked writes
have been counted, because `pktsocket_write` then answers `-1` without touching the state and the
answer is ignored. `drains` reads that off the queue and the write script; `callReturns` is the
resulting exact condition for the call.
-/
import Icbd.Pkt.Serv

namespace Icbd.Pkt

/-! ## §1 — draining a queue -/

/-- The queue `q` empties, or the socket fails, before the retry counter (at `r` now) passes its
limit, when `write` answers as scripted. -/
def drains (r : Nat) (q : List MsgBuf) : List WriteResult → Bool
  | [] => decide (r ≤ maxSendpacketRetries) && q.isEmpty
  | w :: ws =>
      decide (r ≤ maxSendpacketRetries) &&
        match q with
        | [] => true
        | m :: q =>
            match w with
            | .error => true
            | .wouldBlock => drains (r + 1) (m :: q) ws
            | .wrote k =>
                let n := min k (m.data.drop m.pos).length
                if n < m.len - m.pos then drains (r + 1) ({ m with pos := m.pos + n } :: q) ws
                else drains 0 q ws

/-- `drains`, on what a connection holds. -/
def Conn.drains (c : Conn) : Bool := Pkt.drains c.cbuf.retries c.cbuf.wlist c.wire.writes

theorem drains_of_retries {r : Nat} {q : List MsgBuf} {ws : List WriteResult}
    (h : maxSendpacketRetries < r) : drains r q ws = false := by
  cases ws <;> simp [drains, Nat.not_le.mpr h]

theorem drains_nil {r : Nat} {ws : List WriteResult} (h : r ≤ maxSendpacketRetries) :
    drains r [] ws = true := by
  cases ws <;> simp [drains, h]

/-- What one pass of the write loop leaves: an empty queue, a failed socket, or `WANT_WRITE` again
with exactly the draining still to do that was to do before, on a shorter script unless the script
has run out. -/
structure WritePass (c c' : Conn) (before : Bool) : Prop where
  disp : c'.cbuf.disp = c.cbuf.disp
  isSsl : c'.cbuf.isSsl = c.cbuf.isSsl
  outcome :
    (c'.cbuf.state = .wantHeader ∧ c'.cbuf.wlist = [] ∧ before = true) ∨
    (c'.cbuf.state = .wantDisconnect ∧ before = true) ∨
    (c'.cbuf.state = .wantWrite ∧ c'.drains = before ∧
      (c'.wire.writes.length < c.wire.writes.length ∨ before = false))

theorem writeLoop_pass (c : Conn) (q : List MsgBuf) (hssl : c.cbuf.isSsl = false)
    (hr : c.cbuf.retries ≤ maxSendpacketRetries) :
    WritePass c (writeLoop c q).2 (drains c.cbuf.retries q c.wire.writes) := by
  induction q generalizing c with
  | nil =>
      refine ⟨rfl, rfl, Or.inl ⟨rfl, rfl, ?_⟩⟩
      exact drains_nil hr
  | cons m ms ih =>
      rcases hw : c.wire.writes with _ | ⟨w, ws⟩
      · -- the script has run out: the socket blocks for good
        refine ⟨?_, ?_, Or.inr (Or.inr ⟨?_, ?_, Or.inr ?_⟩)⟩ <;>
          simp [writeLoop, sockWrite, hssl, Wire.write, hw, Conn.drains, drains]
      · cases w with
        | error =>
            refine ⟨?_, ?_, Or.inr (Or.inl ⟨?_, ?_⟩)⟩ <;>
              simp [writeLoop, sockWrite, hssl, Wire.write, hw, drains, hr]
        | wouldBlock =>
            refine ⟨?_, ?_, Or.inr (Or.inr ⟨?_, ?_, Or.inl ?_⟩)⟩ <;>
              simp [writeLoop, sockWrite, hssl, Wire.write, hw, Conn.drains, drains, hr]
        | wrote k =>
            by_cases hn : min k (m.data.length - m.pos) < m.len - m.pos
            · refine ⟨?_, ?_, Or.inr (Or.inr ⟨?_, ?_, Or.inl ?_⟩)⟩ <;>
                simp [writeLoop, sockWrite, hssl, Wire.write, hw, Conn.drains, drains, hr, hn]
            · -- the head packet is out: the rest of the queue, with a fresh counter
              set c₁ : Conn :=
                { c with
                  wire := { c.wire with
                    writes := ws, outbound := c.wire.outbound ++ (m.data.drop m.pos).take k }
                  cbuf := { c.cbuf with
                    wlist := ms, wlistSize := c.cbuf.wlistSize - 1, retries := 0 } } with hc₁
              have hloop : writeLoop c (m :: ms) = writeLoop c₁ ms := by
                simp [writeLoop, sockWrite, hssl, Wire.write, hw, hn, hc₁]
              have hdr : drains c.cbuf.retries (m :: ms) (.wrote k :: ws) = drains 0 ms ws := by
                simp [drains, hr, hn]
              obtain ⟨hd, hs, ho⟩ := ih c₁ hssl (Nat.zero_le _)
              rw [hloop, hdr]
              refine ⟨hd, hs, ?_⟩
              rcases ho with h | h | ⟨h₁, h₂, h₃⟩
              · exact Or.inl h
              · exact Or.inr (Or.inl h)
              · refine Or.inr (Or.inr ⟨h₁, h₂, ?_⟩)
                rcases h₃ with h₃ | h₃
                · left
                  have hlen : c₁.wire.writes.length = ws.length := rfl
                  simp only [hw, List.length_cons]
                  omega
                · exact Or.inr h₃

/-- One `pktsocket_write` on a connection that wants to write and has retries left. -/
theorem pktsocketWrite_pass (c : Conn) (hssl : c.cbuf.isSsl = false)
    (hr : c.cbuf.retries ≤ maxSendpacketRetries) : WritePass c (pktsocketWrite c).2 c.drains := by
  unfold pktsocketWrite Conn.drains
  rw [if_neg (Nat.not_lt.mpr hr)]
  exact writeLoop_pass c c.cbuf.wlist hssl hr

/-! ## §2 — the loop from each state -/

section Loop

variable {u : Upcalls} {readable writeable : Bool}

theorem machineLoop_not_ok {c : Conn} (h : c.cbuf.disp ≠ .ok) (fuel : Nat) :
    machineLoop u readable writeable fuel c = some c := by
  unfold machineLoop
  simp [h]

theorem machineLoop_again {c c' : Conn} (h : c.cbuf.disp = .ok)
    (hb : machineBody u readable writeable c = .again c') (fuel : Nat) :
    machineLoop u readable writeable (fuel + 1) c = machineLoop u readable writeable fuel c' := by
  conv_lhs => unfold machineLoop
  simp [h, hb]

theorem machineLoop_ret {c c' : Conn} (h : c.cbuf.disp = .ok)
    (hb : machineBody u readable writeable c = .ret c') (fuel : Nat) :
    machineLoop u readable writeable (fuel + 1) c = some c' := by
  unfold machineLoop
  simp [h, hb]

theorem machineLoop_zero {c : Conn} (h : c.cbuf.disp = .ok) :
    machineLoop u readable writeable 0 c = none := by
  unfold machineLoop
  simp [h]

/-- The loop returns from this connection with enough fuel. -/
def LoopReturns (u : Upcalls) (readable writeable : Bool) (c : Conn) : Prop :=
  ∃ fuel, (machineLoop u readable writeable fuel c).isSome

theorem LoopReturns.of_ret {c t : Conn} (h : machineBody u readable writeable c = .ret t) :
    LoopReturns u readable writeable c := by
  by_cases hd : c.cbuf.disp = .ok
  · exact ⟨1, by rw [machineLoop_ret hd h]; rfl⟩
  · exact ⟨0, by rw [machineLoop_not_ok hd]; rfl⟩

theorem LoopReturns.of_again {c t : Conn} (h : machineBody u readable writeable c = .again t)
    (hc : LoopReturns u readable writeable t) : LoopReturns u readable writeable c := by
  by_cases hd : c.cbuf.disp = .ok
  · obtain ⟨fuel, hf⟩ := hc
    exact ⟨fuel + 1, by rw [machineLoop_again hd h]; exact hf⟩
  · exact ⟨0, by rw [machineLoop_not_ok hd]; rfl⟩

theorem LoopReturns.again_iff {c c' : Conn} (hd : c.cbuf.disp = .ok)
    (h : machineBody u readable writeable c = .again c') :
    LoopReturns u readable writeable c ↔ LoopReturns u readable writeable c' := by
  refine ⟨?_, LoopReturns.of_again h⟩
  rintro ⟨fuel, hf⟩
  cases fuel with
  | zero =>
      rw [machineLoop_zero hd] at hf
      cases hf
  | succ fuel => exact ⟨fuel, by rwa [machineLoop_again hd h] at hf⟩

/-- From `WANT_DISCONNECT` on, the tear-down chain ends the loop. -/
theorem loopReturns_closing {c : Conn} (h : c.cbuf.state.closing = true) :
    LoopReturns u readable writeable c := by
  have hdisc : ∀ c : Conn, c.cbuf.state = .disconnected → LoopReturns u readable writeable c := by
    intro c hc
    refine LoopReturns.of_again (t := { c with cbuf := { c.cbuf with disp := .blocked } }) ?_ ?_
    · simp [machineBody, hc]
    · exact ⟨0, by rw [machineLoop_not_ok (by simp)]; rfl⟩
  have hraw : ∀ c : Conn, c.cbuf.state = .wantRawDisconnect → LoopReturns u readable writeable c := by
    intro c hc
    refine LoopReturns.of_again (t := handleRawDisconnect c) ?_ ?_
    · simp [machineBody, hc]
    · exact hdisc _ rfl
  cases hs : c.cbuf.state with
  | disconnected => exact hdisc c hs
  | wantRawDisconnect => exact hraw c hs
  | wantDisconnect =>
      refine LoopReturns.of_again
        (t := handleDisconnect (runActions (c.report .lostClient) u.lostClient)) ?_ ?_
      · simp [machineBody, hs]
      · exact hraw _ rfl
  | _ => simp [SocketState.closing, hs] at h

theorem loopReturns_wantHeader {c : Conn} (h : c.cbuf.state = .wantHeader) :
    LoopReturns u readable writeable c :=
  LoopReturns.of_ret (t := readCase u readable c) (by simp [machineBody, h])

/-- The `WANT_WRITE` case after a pass of `pktsocket_write` that drained or failed. -/
theorem loopReturns_writeCase {c : Conn} (hw : writeable = true)
    (h : (pktsocketWrite c).2.cbuf.state = .wantHeader ∨
      (pktsocketWrite c).2.cbuf.state = .wantDisconnect) :
    LoopReturns u readable writeable (writeCase readable writeable c) := by
  unfold writeCase
  subst hw
  simp only [if_true]
  split
  · rcases h with h | h
    · exact loopReturns_wantHeader h
    · exact loopReturns_closing (by simp [h, SocketState.closing])
  · rcases h with h | h
    · exact loopReturns_wantHeader h
    · exact loopReturns_closing (by simp [h, SocketState.closing])

/-- A pass that leaves `WANT_WRITE` behind leaves the disposition alone. -/
theorem writeCase_of_wantWrite {c : Conn} (hw : writeable = true)
    (h : (pktsocketWrite c).2.cbuf.state = .wantWrite) :
    writeCase readable writeable c = (pktsocketWrite c).2 := by
  subst hw
  simp [writeCase, h]

/-- **Enough.** With write readiness and a queue that drains, the loop returns. The induction is on
the write script, which every pass that stays in `WANT_WRITE` shortens. -/
theorem loopReturns_of_drains {c : Conn} (hs : c.cbuf.state = .wantWrite)
    (hssl : c.cbuf.isSsl = false) (hw : writeable = true) (hdr : c.drains = true) :
    LoopReturns u readable writeable c := by
  induction hn : c.wire.writes.length using Nat.strongRecOn generalizing c with
  | _ n ih =>
      have hr : c.cbuf.retries ≤ maxSendpacketRetries := by
        by_contra hlt
        rw [Conn.drains, drains_of_retries (Nat.lt_of_not_le hlt)] at hdr
        cases hdr
      have hbody : machineBody u readable writeable c = .again (writeCase readable writeable c) := by
        simp [machineBody, hs]
      refine LoopReturns.of_again hbody ?_
      obtain ⟨hd, hs', ho⟩ := pktsocketWrite_pass c hssl hr
      rcases ho with ⟨h, _, _⟩ | ⟨h, _⟩ | ⟨h₁, h₂, h₃⟩
      · exact loopReturns_writeCase hw (Or.inl h)
      · exact loopReturns_writeCase hw (Or.inr h)
      · rw [writeCase_of_wantWrite hw h₁]
        have hlt : (pktsocketWrite c).2.wire.writes.length < n := by
          rcases h₃ with h₃ | h₃
          · omega
          · rw [hdr] at h₃; cases h₃
        exact ih _ hlt h₁ (by rw [hs', hssl]) (by rw [h₂, hdr]) rfl

/-- **Needed.** Without write readiness, or with a queue that does not drain, the loop stays in
`WANT_WRITE` whatever the fuel. -/
theorem machineLoop_spins {c : Conn} (hs : c.cbuf.state = .wantWrite)
    (hssl : c.cbuf.isSsl = false) (hd : c.cbuf.disp = .ok)
    (hstuck : ¬ (writeable = true ∧ c.drains = true)) (fuel : Nat) :
    machineLoop u readable writeable fuel c = none := by
  induction fuel generalizing c with
  | zero => exact machineLoop_zero hd
  | succ fuel ih =>
      have hbody : machineBody u readable writeable c = .again (writeCase readable writeable c) := by
        simp [machineBody, hs]
      rw [machineLoop_again hd hbody]
      cases hw : writeable with
      | false =>
          have hsame : writeCase readable false c = c := by simp [writeCase, hs]
          rw [hsame]
          exact hw ▸ ih hs hssl hd hstuck
      | true =>
          have hdr : c.drains = false := by
            by_contra h
            exact hstuck ⟨hw, by simpa using h⟩
          by_cases hr : c.cbuf.retries ≤ maxSendpacketRetries
          · obtain ⟨hd', hs', ho⟩ := pktsocketWrite_pass c hssl hr
            rcases ho with ⟨_, _, h⟩ | ⟨_, h⟩ | ⟨h₁, h₂, _⟩
            · rw [hdr] at h; cases h
            · rw [hdr] at h; cases h
            · rw [writeCase_of_wantWrite rfl h₁]
              refine hw ▸ ih h₁ (by rw [hs', hssl]) (by rw [hd', hd]) ?_
              rintro ⟨_, h⟩
              rw [h₂, hdr] at h
              cases h
          · -- the retry limit has been passed: `pktsocket_write` answers -1 and changes nothing
            have hsame : writeCase readable true c = c := by
              have hp : (pktsocketWrite c).2 = c := by
                simp [pktsocketWrite, Nat.lt_of_not_le hr]
              simp [writeCase, hp, hs]
            rw [hsame]
            exact hw ▸ ih hs hssl hd hstuck

theorem loopReturns_wantWrite_iff {c : Conn} (hs : c.cbuf.state = .wantWrite)
    (hssl : c.cbuf.isSsl = false) (hd : c.cbuf.disp = .ok) :
    LoopReturns u readable writeable c ↔ writeable = true ∧ c.drains = true := by
  constructor
  · rintro ⟨fuel, hf⟩
    by_contra hstuck
    rw [machineLoop_spins hs hssl hd hstuck fuel] at hf
    cases hf
  · rintro ⟨hw, hdr⟩
    exact loopReturns_of_drains hs hssl hw hdr

end Loop

/-! ## §3 — one call of the state machine -/

/-- The state words in which a callback can leave a connection that was waiting for a header. -/
def SocketState.afterCallback : SocketState → Bool
  | .wantHeader | .wantWrite | .wantDisconnect => true
  | _ => false

/-- What a call into the packet layer keeps: the disposition and the kind of socket, and a state
word that is one of the three of `afterCallback`. -/
theorem Action.run_keeps (a : Action) {c : Conn} (hssl : c.cbuf.isSsl = false)
    (hs : c.cbuf.state.afterCallback = true) :
    (a.run c).cbuf.disp = c.cbuf.disp ∧ (a.run c).cbuf.isSsl = false ∧
      (a.run c).cbuf.state.afterCallback = true := by
  cases a with
  | disconnect => exact ⟨rfl, hssl, rfl⟩
  | send pkt =>
      simp only [Action.run, pktservSend]
      split
      · exact ⟨rfl, hssl, hs⟩
      · split
        · exact ⟨rfl, hssl, rfl⟩
        · by_cases hr : (c.queued pkt).cbuf.retries ≤ maxSendpacketRetries
          · obtain ⟨hd, hi, ho⟩ := pktsocketWrite_pass (c.queued pkt) hssl hr
            have hst : (pktsocketWrite (c.queued pkt)).2.cbuf.state.afterCallback = true := by
              rcases ho with ⟨h, _⟩ | ⟨h, _⟩ | ⟨h, _⟩ <;> rw [h] <;> rfl
            split
            · exact ⟨hd, hi.trans hssl, rfl⟩
            · exact ⟨hd, hi.trans hssl, hst⟩
          · have hp : pktsocketWrite (c.queued pkt) = (-1, c.queued pkt) := by
              simp [pktsocketWrite, Nat.lt_of_not_le hr]
            rw [hp]
            exact ⟨rfl, hssl, rfl⟩

/-- The same for everything a callback does. -/
theorem runActions_keeps (as : List Action) {c : Conn} (hssl : c.cbuf.isSsl = false)
    (hs : c.cbuf.state.afterCallback = true) :
    (runActions c as).cbuf.disp = c.cbuf.disp ∧ (runActions c as).cbuf.isSsl = false ∧
      (runActions c as).cbuf.state.afterCallback = true := by
  induction as generalizing c with
  | nil => exact ⟨rfl, hssl, hs⟩
  | cons a as ih =>
      obtain ⟨hd, hi, hst⟩ := a.run_keeps hssl hs
      obtain ⟨hd', hi', hst'⟩ := ih hi hst
      exact ⟨hd'.trans hd, hi', hst'⟩

/-- The connection as the `new_client` callback leaves it. -/
def Conn.greeted (c : Conn) (u : Upcalls) : Conn :=
  runActions ((c.setState .wantHeader).report .newClient) u.newClient

/-- The connection as the loop finds it: any event makes its disposition OK. -/
def Conn.polled (c : Conn) (b : PollBits) : Conn :=
  if b.pollin || b.pollout then { c with cbuf := { c.cbuf with disp := .ok } } else c

/-- The loop does not stay in `WANT_WRITE` (for a fresh client: where its greeting leaves it), because
it is not there or because there is write readiness and the queue drains before the retry limit. The
transient `COMPLETE_PACKET` never outlives a call on a plaintext connection; starting there would
spin. -/
def loopEnds (u : Upcalls) (writeable : Bool) (c : Conn) : Bool :=
  match c.cbuf.state with
  | .accepted => (c.greeted u).cbuf.state != .wantWrite || (writeable && (c.greeted u).drains)
  | .wantWrite => writeable && c.drains
  | .completePacket => false
  | _ => true

/-- **The exact condition** for one call: an exceptional bit, a connection that is not OK and has no
event, or a loop that ends. -/
def callReturns (u : Upcalls) (b : PollBits) (c : Conn) : Bool :=
  b.exception || (c.polled b).cbuf.disp != .ok || loopEnds u b.pollout (c.polled b)

theorem loopReturns_afterCallback_iff {u : Upcalls} {readable writeable : Bool} {c : Conn}
    (hs : c.cbuf.state.afterCallback = true) (hssl : c.cbuf.isSsl = false)
    (hd : c.cbuf.disp = .ok) :
    LoopReturns u readable writeable c ↔
      (c.cbuf.state ≠ .wantWrite ∨ (writeable = true ∧ c.drains = true)) := by
  cases h : c.cbuf.state with
  | wantHeader => exact ⟨fun _ => Or.inl (by simp), fun _ => loopReturns_wantHeader h⟩
  | wantDisconnect =>
      exact ⟨fun _ => Or.inl (by simp), fun _ => loopReturns_closing (by simp [h, SocketState.closing])⟩
  | wantWrite =>
      rw [loopReturns_wantWrite_iff h hssl hd]
      exact ⟨Or.inr, fun o => o.resolve_left (fun hne => hne rfl)⟩
  | _ => simp [SocketState.afterCallback, h] at hs

theorem loopReturns_completePacket {u : Upcalls} {readable writeable : Bool} {c : Conn}
    (h : c.cbuf.state = .completePacket) (hd : c.cbuf.disp = .ok) :
    ¬ LoopReturns u readable writeable c := by
  rintro ⟨fuel, hf⟩
  induction fuel with
  | zero =>
      rw [machineLoop_zero hd] at hf
      cases hf
  | succ fuel ih =>
      have hbody : machineBody u readable writeable c = .again c := by simp [machineBody, h]
      rw [machineLoop_again hd hbody] at hf
      exact ih hf

/-- The loop, entered with disposition OK, from any state of a plaintext connection. -/
theorem loopReturns_iff (u : Upcalls) (readable writeable : Bool) {c : Conn}
    (hssl : c.cbuf.isSsl = false) (hd : c.cbuf.disp = .ok) :
    LoopReturns u readable writeable c ↔ loopEnds u writeable c = true := by
  cases h : c.cbuf.state with
  | accepted =>
      have hbody : machineBody u readable writeable c = .again (c.greeted u) := by
        simp [machineBody, h, Conn.greeted]
      obtain ⟨hd', hi', hs'⟩ := runActions_keeps u.newClient
        (c := (c.setState .wantHeader).report .newClient) hssl rfl
      have hiff : LoopReturns u readable writeable (c.greeted u) ↔ _ :=
        loopReturns_afterCallback_iff hs' hi' (hd'.trans hd)
      rw [LoopReturns.again_iff hd hbody, hiff]
      simp [loopEnds, h]
  | wantWrite =>
      rw [loopReturns_wantWrite_iff h hssl hd]
      simp [loopEnds, h]
  | completePacket =>
      have hnot : ¬ LoopReturns u readable writeable c := loopReturns_completePacket h hd
      simp [loopEnds, h, hnot]
  | wantDisconnect | wantRawDisconnect | disconnected =>
      have hret : LoopReturns u readable writeable c :=
        loopReturns_closing (by simp [h, SocketState.closing])
      simp [loopEnds, h, hret]
  | _ =>
      -- every other case of the switch ends in a `return`
      have hret : LoopReturns u readable writeable c := by
        refine LoopReturns.of_ret (t := ?_) ?_
        rotate_left
        · simp only [machineBody, h]
          rfl
      simp [loopEnds, h, hret]

/-- **When the state machine returns.** On a plaintext connection, in whatever state, under any poll
bits, callbacks and results of `read` and `write`, one call performs finitely many iterations
exactly when `callReturns` holds. -/
theorem pollfdStateMachine_returns_iff (u : Upcalls) (b : PollBits) (c : Conn)
    (hssl : c.cbuf.isSsl = false) :
    (∃ fuel, (pollfdStateMachine u b fuel c).isSome) ↔ callReturns u b c = true := by
  cases hb : b.exception with
  | true => simp [pollfdStateMachine, callReturns, hb]
  | false =>
      have hcall : ∀ fuel, pollfdStateMachine u b fuel c =
          machineLoop u b.pollin b.pollout fuel (c.polled b) := by
        intro fuel
        simp [pollfdStateMachine, hb, Conn.polled]
      have hssl' : (c.polled b).cbuf.isSsl = false := by
        unfold Conn.polled
        split <;> exact hssl
      simp only [hcall]
      by_cases hd : (c.polled b).cbuf.disp = .ok
      · have hiff := loopReturns_iff u b.pollin b.pollout hssl' hd
        simp only [callReturns, hb, hd, bne_self_eq_false, Bool.or_self, Bool.false_or]
        exact hiff
      · have hnot : callReturns u b c = true := by simp [callReturns, hd]
        exact ⟨fun _ => hnot, fun _ => ⟨0, by rw [machineLoop_not_ok hd]; rfl⟩⟩

/-! ### A connection on which the call does not return -/

/-- A fresh client, the way it stands after its first poll and one packet that `write` refuses to
take: nothing special has happened to it, and it waits in `WANT_WRITE`. -/
def blockedConn : Conn :=
  (Action.send [1, 65]).run
    ((pollfdStateMachine {} { pollin := true } 2
      { cbuf := Cbuf.fresh 5 false, wire := { writes := [.wouldBlock] } }).getD
        { cbuf := Cbuf.fresh 5 false })

theorem blockedConn_reachable : Reachable blockedConn := by
  refine Reachable.call _ ?_
  refine Reachable.poll {} { pollin := true } 2
    (Reachable.accept 5 { writes := [.wouldBlock] }) ?_
  decide

/-- The peer sends something to `blockedConn`: readable, not writeable, and the loop spins. -/
theorem pollfdStateMachine_readable_spins :
    ¬ ∀ (c : Conn) (u : Upcalls) (b : PollBits), Reachable c → c.cbuf.isSsl = false →
        ∃ fuel, (pollfdStateMachine u b fuel c).isSome := by
  intro h
  have hret := h blockedConn {} { pollin := true } blockedConn_reachable (by decide)
  have hnot : ¬ LoopReturns {} true false (blockedConn.polled { pollin := true }) := by
    rw [loopReturns_wantWrite_iff (by decide) (by decide) (by decide)]
    simp
  exact hnot hret

/-- Write readiness and a socket that takes the packet: the same connection gets out. -/
theorem pollfdStateMachine_returns_writeable :
    ∃ fuel, (pollfdStateMachine {} { pollout := true } fuel
      { blockedConn with wire := { writes := [.wrote 2] } }).isSome :=
  (pollfdStateMachine_returns_iff {} { pollout := true } _ (by decide)).mpr (by decide)

end Icbd.Pkt
