/-
# Icbd.Pkt.Teardown — how a connection goes down.

A disconnect is a request: the state word becomes `WANT_DISCONNECT`, and the state machine tells the
server (`lost_client`), frees the buffers (`WANT_RAW_DISCONNECT`) and closes the descriptor
(`DISCONNECTED`). Three things get in the way. The state machine writes `WANT_HEADER` after every
dispatch, over whatever the callback left there; `pktserv_send` and `pktserv_disconnect` do not look
at `DISCONNECTED`, and `pktserv_disconnect` not at `WANT_RAW_DISCONNECT`; and an exceptional bit
starts the tear-down over in every state. Runs without these keep every request and tell the server
once.
-/
import Icbd.Pkt.Steps
import Mathlib.Data.List.TakeWhile
import Mathlib.Logic.Relation

namespace Icbd.Pkt

open Icbd.Lib

/-! ## §1 — requests that are kept -/

/-- A write fails before one blocks or comes back short, when `write` answers as scripted. -/
def writeFails : List MsgBuf → List WriteResult → Bool
  | _ :: _, .error :: _ => true
  | m :: q, .wrote k :: ws =>
      if min k (m.data.drop m.pos).length < m.len - m.pos then false else writeFails q ws
  | _, _ => false

/-- The condition on a step. A disconnect is not asked for inside the `dispatch` callback, nor after
the server has been told; a send finds the descriptor open, and inside the callback it does not
fail. -/
def Label.keepsRequests (p : Proc) : Label → Bool
  | .call .disconnect =>
      p.ctl != .dispatching && p.conn.cbuf.state != .wantRawDisconnect &&
        p.conn.cbuf.state != .disconnected
  | .call (.send pkt) =>
      p.conn.cbuf.state != .disconnected &&
        (p.ctl != .dispatching || decide (p.conn.cbuf.wlistSize ≥ maxSendpacketQueue) ||
          !writeFails (p.conn.queued pkt).cbuf.wlist p.conn.wire.writes)
  | _ => true

/-- The tear-down chain. -/
inductive SocketState.Down : SocketState → SocketState → Prop
  | free : Down .wantDisconnect .wantRawDisconnect
  | close : Down .wantRawDisconnect .disconnected

/-- What the writing side keeps while the connection is up: the counter is the length of the queue,
and an empty queue has no retries. -/
structure Conn.Tidy (c : Conn) : Prop where
  size : c.cbuf.wlistSize = c.cbuf.wlist.length
  fresh : c.cbuf.wlist = [] → c.cbuf.retries = 0

/-- **The invariant.** A connection that is up is tidy; one that waits for input has nothing queued;
inside the `dispatch` callback the connection is up, with at most one retry per packet; and the
`lost_client` callback runs before the descriptor is closed. -/
structure Steady (p : Proc) : Prop where
  plain : Plaintext p
  tidy : p.conn.cbuf.state.closing = false → p.conn.Tidy
  empty : p.conn.cbuf.state = .accepted ∨ p.conn.cbuf.state = .wantHeader ∨
    p.conn.cbuf.state = .wantRead → p.conn.cbuf.wlist = []
  dispatch : p.ctl = .dispatching → p.conn.cbuf.state.closing = false ∧ p.conn.paced
  losing : ∀ back, p.ctl = .losing back → p.conn.cbuf.state ≠ .disconnected

/-- A pass of the write loop that does not run into a failing write succeeds. -/
theorem writeLoop_succeeds (c : Conn) (q : List MsgBuf) (hssl : c.cbuf.isSsl = false)
    (h : writeFails q c.wire.writes = false) :
    (writeLoop c q).1 = 0 ∧ (writeLoop c q).2.cbuf.state.closing = false := by
  induction q generalizing c with
  | nil => exact ⟨rfl, rfl⟩
  | cons m ms ih =>
      have hsock := sockWrite_plain hssl (m.data.drop m.pos)
      rcases hw : c.wire.writes with _ | ⟨x, ws⟩
      · simp [writeLoop, hsock, Wire.write, hw, SocketState.closing]
      · cases x with
        | error => simp [writeFails, hw] at h
        | wouldBlock => simp [writeLoop, hsock, Wire.write, hw, SocketState.closing]
        | wrote k =>
            by_cases hn : min k (m.data.length - m.pos) < m.len - m.pos
            · simp [writeLoop, hsock, Wire.write, hw, hssl, hn, SocketState.closing]
            · -- the head packet is out and the rest of the script is for the rest of the queue
              have hrest : writeFails ms ws = false := by simpa [writeFails, hw, hn] using h
              simp only [writeLoop, hsock, Wire.write, hw, hssl, List.length_drop, hn,
                Bool.false_eq_true, and_false, if_false]
              exact ih _ rfl hrest

theorem writeLoop_tidy (c : Conn) (q : List MsgBuf) (hssl : c.cbuf.isSsl = false)
    (hsize : c.cbuf.wlistSize = q.length) (hfresh : q = [] → c.cbuf.retries = 0) :
    (writeLoop c q).2.Tidy ∧
      ((writeLoop c q).2.cbuf.state = .wantHeader → (writeLoop c q).2.cbuf.wlist = []) := by
  induction q generalizing c with
  | nil => exact ⟨⟨hsize, fun _ => hfresh rfl⟩, fun _ => rfl⟩
  | cons m ms ih =>
      obtain ⟨w, _, ⟨m', h⟩ | ⟨_, h⟩ | h⟩ := writeLoop_step c m ms hssl
      · rw [h]
        refine ⟨⟨hsize, ?_⟩, ?_⟩
        · intro hnil; cases hnil
        · intro hs; cases hs
      · rw [h]
        refine ⟨⟨hsize, ?_⟩, ?_⟩
        · intro hnil; cases hnil
        · intro hs; cases hs
      · rw [h]
        refine ih _ hssl ?_ (fun _ => rfl)
        simp only [List.length_cons] at hsize
        show c.cbuf.wlistSize - 1 = (ms.length : Int)
        omega

/-- A tidy connection with one more packet queued, just before it is written. -/
theorem Conn.Tidy.queued {c : Conn} (h : c.Tidy) (pkt : Bytes) :
    (c.queued pkt).cbuf.wlistSize = (c.queued pkt).cbuf.wlist.length := by
  have := h.size
  simp only [Conn.queued, List.length_append, List.length_cons, List.length_nil]
  omega

/-- **A send from a connection that is up.** It stays tidy, unless it goes down. -/
theorem pktservSend_tidy {c : Conn} (pkt : Bytes) (hssl : c.cbuf.isSsl = false)
    (hup : c.cbuf.state.closing = false) (ht : c.Tidy) :
    ((pktservSend c pkt).2.cbuf.state.closing = false → (pktservSend c pkt).2.Tidy) ∧
      ((pktservSend c pkt).2.cbuf.state = .wantHeader → (pktservSend c pkt).2.cbuf.wlist = []) ∧
      (pktservSend c pkt).2.cbuf.state.afterCallback = true := by
  refine ⟨?_, ?_, ?_⟩
  · intro hst
    rcases pktservSend_cases c pkt with ⟨hs, _⟩ | ⟨_, h⟩ | ⟨_, _, h⟩ | ⟨_, _, h⟩
    · rcases hs with hs | hs <;> rw [hs] at hup <;> cases hup
    · rw [h]
      exact ⟨ht.size, ht.fresh⟩
    · rw [h] at hst
      cases hst
    · have hloop := writeLoop_tidy (c.queued pkt) _ hssl (ht.queued pkt) (by simp [Conn.queued])
      rw [h] at hst ⊢
      dsimp only at hst ⊢
      split
      · next hneg =>
          rw [if_pos hneg] at hst
          cases hst
      · exact hloop.1
  · intro hst
    rcases pktservSend_cases c pkt with ⟨hs, _⟩ | ⟨_, h⟩ | ⟨_, _, h⟩ | ⟨_, _, h⟩
    · rcases hs with hs | hs <;> rw [hs] at hup <;> cases hup
    · rw [h] at hst
      cases hst
    · rw [h] at hst
      cases hst
    · have hloop := writeLoop_tidy (c.queued pkt) _ hssl (ht.queued pkt) (by simp [Conn.queued])
      rw [h] at hst ⊢
      dsimp only at hst ⊢
      split
      · next hneg =>
          rw [if_pos hneg] at hst
          cases hst
      · next hneg =>
          rw [if_neg hneg] at hst
          exact hloop.2 hst
  · rcases pktservSend_state c pkt hssl with ⟨hs, _⟩ | h
    · rcases hs with hs | hs <;> rw [hs] at hup <;> cases hup
    · exact h

/-- **A send inside the `dispatch` callback** that does not fail leaves the connection up. The retry
limit is above the length of the queue, so it is not what drops the connection there. -/
theorem pktservSend_dispatching {c : Conn} (pkt : Bytes) (hssl : c.cbuf.isSsl = false)
    (hup : c.cbuf.state.closing = false) (hp : c.paced)
    (hok : c.cbuf.wlistSize ≥ maxSendpacketQueue ∨
      writeFails (c.queued pkt).cbuf.wlist c.wire.writes = false) :
    (pktservSend c pkt).2.cbuf.state.closing = false := by
  rcases pktservSend_cases c pkt with ⟨hs, _⟩ | ⟨_, h⟩ | ⟨hq, hr, _⟩ | ⟨hq, _, h⟩
  · rcases hs with hs | hs <;> rw [hs] at hup <;> cases hup
  · rw [h]; rfl
  · obtain ⟨hsize, hle⟩ := hp
    simp only [maxSendpacketQueue, maxSendpacketRetries] at hq hr
    omega
  · rcases hok with hfull | hok
    · omega
    · obtain ⟨h₀, hst⟩ := writeLoop_succeeds (c.queued pkt) _ hssl hok
      rw [h]
      simp only [h₀, Int.lt_irrefl, if_false]
      exact hst

/-- A connection going down has only its kind to keep, outside the callback. -/
theorem Steady.of_closing {p : Proc} (hp : Plaintext p) (hc : p.conn.cbuf.state.closing = true)
    (hk : p.ctl ≠ .dispatching)
    (hl : ∀ back, p.ctl = .losing back → p.conn.cbuf.state ≠ .disconnected) : Steady p := by
  refine ⟨hp, ?_, ?_, fun h => absurd h hk, hl⟩
  · intro hup
    rw [hc] at hup
    cases hup
  · rintro (h | h | h) <;> rw [h] at hc <;> cases hc

/-- A connection that differs from a steady one in its wire, its disposition and its trace only. -/
theorem Steady.of_same {p p' : Proc} (h : Steady p) (hp : Plaintext p')
    (hstate : p'.conn.cbuf.state = p.conn.cbuf.state) (hwlist : p'.conn.cbuf.wlist = p.conn.cbuf.wlist)
    (hsize : p'.conn.cbuf.wlistSize = p.conn.cbuf.wlistSize)
    (hretries : p'.conn.cbuf.retries = p.conn.cbuf.retries)
    (hctl : p'.ctl = .dispatching → p.ctl = .dispatching)
    (hl : ∀ back, p'.ctl = .losing back → p'.conn.cbuf.state ≠ .disconnected) : Steady p' := by
  refine ⟨hp, ?_, ?_, ?_, hl⟩
  · intro hup
    rw [hstate] at hup
    obtain ⟨h₁, h₂⟩ := h.tidy hup
    exact ⟨by rw [hsize, hwlist, h₁], by rw [hwlist, hretries]; exact h₂⟩
  · rw [hstate, hwlist]
    exact h.empty
  · intro hk
    obtain ⟨hup, h₁, h₂⟩ := h.dispatch (hctl hk)
    exact ⟨by rw [hstate]; exact hup, by rw [hsize, hwlist]; exact h₁,
      by rw [hretries, hwlist]; exact h₂⟩

theorem cycleToWrite_of_empty {c : Conn} (h : c.cbuf.wlist = []) : cycleToWrite c = c := by
  simp [cycleToWrite, h]

/-- The calls of the server keep the invariant. -/
theorem Steady.call {c : Conn} {k : Control} (a : Action) (h : Steady ⟨c, k⟩)
    (hok : (Label.call a).keepsRequests ⟨c, k⟩ = true) (hp : Plaintext ⟨a.run c, k⟩) :
    Steady ⟨a.run c, k⟩ := by
  cases a with
  | disconnect =>
      have hk : k ≠ .dispatching := by
        simp only [Label.keepsRequests, Bool.and_eq_true, bne_iff_ne, ne_eq] at hok
        exact hok.1.1
      refine Steady.of_closing hp rfl hk ?_
      rintro _ _ ⟨⟩
  | send pkt =>
      simp only [Label.keepsRequests, Bool.and_eq_true, bne_iff_ne, ne_eq, Bool.or_eq_true,
        decide_eq_true_eq, Bool.not_eq_true'] at hok
      obtain ⟨hopen, hdisp⟩ := hok
      have hssl : c.cbuf.isSsl = false := h.plain.isSsl
      cases hc : c.cbuf.state.closing with
      | true =>
          -- going down and not closed yet, so the send is refused
          have hsame : Action.run c (.send pkt) = c := by
            rcases pktservSend_state c pkt hssl with ⟨_, hsame⟩ | _
            · exact hsame
            · have hs : c.cbuf.state = .wantDisconnect ∨ c.cbuf.state = .wantRawDisconnect := by
                cases hs : c.cbuf.state with
                | wantDisconnect => exact Or.inl rfl
                | wantRawDisconnect => exact Or.inr rfl
                | disconnected => exact absurd hs hopen
                | _ => rw [hs] at hc; cases hc
              simp [Action.run, pktservSend, hs]
          rw [hsame]
          exact h
      | false =>
          obtain ⟨htidy, hempty, hcb⟩ := pktservSend_tidy pkt hssl hc (h.tidy hc)
          refine ⟨hp, htidy, ?_, ?_, ?_⟩
          · intro hst
            have hst' : (pktservSend c pkt).2.cbuf.state = .wantHeader := by
              rcases hst with hst | hst | hst
              · change (pktservSend c pkt).2.cbuf.state = .accepted at hst
                rw [hst] at hcb
                cases hcb
              · exact hst
              · change (pktservSend c pkt).2.cbuf.state = .wantRead at hst
                rw [hst] at hcb
                cases hcb
            exact hempty hst'
          · intro hk
            obtain ⟨_, hpaced⟩ := h.dispatch hk
            have hdisp' : c.cbuf.wlistSize ≥ maxSendpacketQueue ∨
                writeFails (c.queued pkt).cbuf.wlist c.wire.writes = false := by
              rcases hdisp with (hne | hfull) | hok
              · exact absurd hk hne
              · exact Or.inl hfull
              · exact Or.inr hok
            exact ⟨pktservSend_dispatching pkt hssl hc hpaced hdisp',
              pktservSend_paced c pkt hssl hpaced⟩
          · intro back _ hgone
            change (pktservSend c pkt).2.cbuf.state = .disconnected at hgone
            rw [hgone] at hcb
            cases hcb

/-- **Every step that meets its condition keeps the invariant.** -/
theorem Moves.steady {l : Label} {p p' : Proc} (hm : Moves l p p') (h : Steady p)
    (hok : l.keepsRequests p = true) : Steady p' := by
  have hp' : Plaintext p' := hm.plaintext h.plain
  have hssl := h.plain.isSsl
  cases hm with
  | network => exact h.of_same hp' rfl rfl rfl rfl id h.losing
  | call a _ => exact h.call a hok hp'
  | except b _ hopen =>
      exact h.of_same hp' rfl rfl rfl rfl (by rintro ⟨⟩) (fun _ _ => hopen)
  | @poll c b _ =>
      obtain ⟨d, hd⟩ := c.polled_disp b
      rw [hd] at hp' ⊢
      exact h.of_same hp' rfl rfl rfl rfl (by rintro ⟨⟩) (by rintro _ ⟨⟩)
  | rest _ | greeted => exact h.of_same hp' rfl rfl rfl rfl (by rintro ⟨⟩) (by rintro _ ⟨⟩)
  | greet _ hs =>
      have htidy := h.tidy (by rw [hs]; rfl)
      exact ⟨hp', fun _ => ⟨htidy.size, htidy.fresh⟩, fun _ => h.empty (Or.inl hs),
        (by rintro ⟨⟩), (by rintro _ ⟨⟩)⟩
  | @write c r w _ hs =>
      rcases writeCase_cases r w hs with hsame | ⟨d, hpass⟩
      · rw [hsame]
        exact h
      · have htidy := h.tidy (by rw [hs]; rfl)
        obtain ⟨hloop, hempty⟩ := writeLoop_tidy c c.cbuf.wlist hssl htidy.size htidy.fresh
        have hcb := writeLoop_state c c.cbuf.wlist hssl
        rw [hpass] at hp' ⊢
        refine ⟨hp', fun _ => ⟨hloop.size, hloop.fresh⟩, ?_, (by rintro ⟨⟩), (by rintro _ ⟨⟩)⟩
        rintro (hst | hst | hst)
        · change (writeLoop c c.cbuf.wlist).2.cbuf.state = .accepted at hst
          rw [hst] at hcb
          cases hcb
        · exact hempty hst
        · change (writeLoop c c.cbuf.wlist).2.cbuf.state = .wantRead at hst
          rw [hst] at hcb
          cases hcb
  | @packet c w _ hs hdone =>
      obtain ⟨hro, _⟩ := pktsocketRead_readOnly hssl
      have hempty : c.cbuf.wlist = [] := h.empty (Or.inr hs)
      have htidy := h.tidy (by rcases hs with hs | hs <;> rw [hs] <;> rfl)
      have hsize : (pktsocketRead c).2.cbuf.wlistSize = (pktsocketRead c).2.cbuf.wlist.length := by
        rw [hro.wlistSize, hro.wlist, htidy.size]
      have hretries : (pktsocketRead c).2.cbuf.retries = 0 := by
        rw [hro.retries]
        exact htidy.fresh hempty
      refine ⟨hp', fun _ => ⟨hsize, fun _ => hretries⟩, ?_, fun _ => ⟨?_, hsize, ?_⟩,
        (by rintro _ ⟨⟩)⟩
      · rintro (hst | hst | hst) <;> exact absurd (hst.symm.trans hdone) (by decide)
      · show (pktsocketRead c).2.cbuf.state.closing = false
        rw [hdone]
        rfl
      · show (pktsocketRead c).2.cbuf.retries ≤ _
        rw [hretries]
        exact Nat.zero_le _
  | @fragment c w _ hs _ =>
      obtain ⟨hro, _⟩ := pktsocketRead_readOnly hssl
      have hempty : c.cbuf.wlist = [] := h.empty (Or.inr hs)
      have htidy := h.tidy (by rcases hs with hs | hs <;> rw [hs] <;> rfl)
      have hempty' : (pktsocketRead c).2.cbuf.wlist = [] := hro.wlist.trans hempty
      rw [cycleToWrite_of_empty hempty'] at hp' ⊢
      refine ⟨hp', fun _ => ⟨?_, fun _ => ?_⟩, fun _ => hempty', (by rintro ⟨⟩), (by rintro _ ⟨⟩)⟩
      · show (pktsocketRead c).2.cbuf.wlistSize = (pktsocketRead c).2.cbuf.wlist.length
        rw [hro.wlistSize, hro.wlist, htidy.size]
      · show (pktsocketRead c).2.cbuf.retries = 0
        rw [hro.retries]
        exact htidy.fresh hempty
  | @skip c r w _ hs =>
      have hempty : c.cbuf.wlist = [] := h.empty (Or.inr hs)
      rw [cycleToWrite_of_empty hempty] at hp' ⊢
      exact h.of_same hp' rfl rfl rfl rfl (by rintro ⟨⟩) (by rintro _ ⟨⟩)
  | @dispatched c =>
      obtain ⟨hup, _⟩ := h.dispatch rfl
      have htidy := h.tidy hup
      by_cases hq : c.cbuf.wlist = []
      · have hsame : c.afterDispatch =
            { c with cbuf := { c.cbuf with rbuf := none, state := .wantHeader } } :=
          cycleToWrite_of_empty hq
        rw [hsame] at hp' ⊢
        exact ⟨hp', fun _ => ⟨htidy.size, htidy.fresh⟩, fun _ => hq, (by rintro ⟨⟩), (by rintro _ ⟨⟩)⟩
      · have hsame : c.afterDispatch =
            { c with cbuf := { c.cbuf with rbuf := none, state := .wantWrite } } := by
          simp [Conn.afterDispatch, cycleToWrite, hq, Conn.setState]
        rw [hsame] at hp' ⊢
        refine ⟨hp', fun _ => ⟨htidy.size, htidy.fresh⟩, ?_, (by rintro ⟨⟩), (by rintro _ ⟨⟩)⟩
        rintro (hst | hst | hst) <;> cases hst
  | @lose c _ _ _ hs =>
      refine Steady.of_closing hp' (by rw [Conn.report_cbuf, hs]; rfl) (by simp) ?_
      intro _ _ hgone
      cases hs.symm.trans hgone
  | @lost c back =>
      refine Steady.of_closing hp' rfl (by cases back <;> simp [Control.resumed]) ?_
      rintro _ _ ⟨⟩
  | close _ _ => exact Steady.of_closing hp' rfl (by simp) (by rintro _ ⟨⟩)
  | gone _ hs => exact Steady.of_closing hp' (by rw [hs]; rfl) (by simp) (by rintro _ ⟨⟩)

/-- **One step of a connection that is going down**: down the chain or not at all, and nothing is
dispatched. -/
theorem Moves.closing {l : Label} {p p' : Proc} (hm : Moves l p p') (h : Steady p)
    (hok : l.keepsRequests p = true) (hc : p.conn.cbuf.state.closing = true) :
    Relation.ReflTransGen SocketState.Down p.conn.cbuf.state p'.conn.cbuf.state ∧
      p'.conn.dispatched = p.conn.dispatched := by
  have hread : ∀ {c : Conn}, c.cbuf.state.closing = true →
      c.cbuf.state = .wantHeader ∨ c.cbuf.state = .wantRead → False := by
    rintro c hc (hs | hs) <;> rw [hs] at hc <;> cases hc
  cases hm with
  | network => exact ⟨.refl, rfl⟩
  | @call c k a _ =>
      cases a with
      | disconnect =>
          have hs : c.cbuf.state = .wantDisconnect := by
            simp only [Label.keepsRequests, Bool.and_eq_true, bne_iff_ne, ne_eq] at hok
            cases hs : c.cbuf.state with
            | wantDisconnect => rfl
            | wantRawDisconnect => exact absurd hs hok.1.2
            | disconnected => exact absurd hs hok.2
            | _ => rw [hs] at hc; cases hc
          rw [hs]
          exact ⟨.refl, rfl⟩
      | send pkt =>
          have hs : c.cbuf.state = .wantDisconnect ∨ c.cbuf.state = .wantRawDisconnect := by
            simp only [Label.keepsRequests, Bool.and_eq_true, bne_iff_ne, ne_eq] at hok
            cases hs : c.cbuf.state with
            | wantDisconnect => exact Or.inl rfl
            | wantRawDisconnect => exact Or.inr rfl
            | disconnected => exact absurd hs hok.1
            | _ => rw [hs] at hc; cases hc
          have hsame : Action.run c (.send pkt) = c := by simp [Action.run, pktservSend, hs]
          rw [hsame]
          exact ⟨.refl, rfl⟩
  | except b _ _ => exact ⟨.refl, Conn.dispatched_report_other _ _ (by simp)⟩
  | poll b _ =>
      obtain ⟨d, hd⟩ := Conn.polled_disp _ b
      rw [hd]
      exact ⟨.refl, rfl⟩
  | rest _ | greeted => exact ⟨.refl, rfl⟩
  | greet _ hs => rw [hs] at hc; cases hc
  | write _ hs => rw [hs] at hc; cases hc
  | packet _ hs _ => exact absurd hs (fun hs => hread hc hs)
  | fragment _ hs _ => exact absurd hs (fun hs => hread hc hs)
  | skip _ hs => exact absurd hs (fun hs => hread hc hs)
  | dispatched =>
      obtain ⟨hup, _⟩ := h.dispatch rfl
      rw [hup] at hc
      cases hc
  | lose _ hs => exact ⟨.refl, Conn.dispatched_report_other _ _ (by simp)⟩
  | @lost c back =>
      refine ⟨?_, rfl⟩
      show Relation.ReflTransGen SocketState.Down c.cbuf.state .wantRawDisconnect
      cases hs : c.cbuf.state with
      | wantDisconnect => exact .single .free
      | wantRawDisconnect => exact .refl
      | disconnected => exact absurd hs (h.losing back rfl)
      | _ => rw [hs] at hc; cases hc
  | close _ hs =>
      rw [hs]
      exact ⟨.single .close, Conn.dispatched_report_other _ _ (by simp)⟩
  | gone _ _ => exact ⟨.refl, rfl⟩

theorem Proc.accepted_steady (fd : Nat) (w : Wire) : Steady (Proc.accepted fd w) :=
  ⟨Proc.accepted_plaintext fd w, fun _ => ⟨rfl, fun _ => rfl⟩, fun _ => rfl, nofun, nofun⟩

/-- A run whose steps all meet the condition. -/
abbrev KeepingPath := Lib.Path (Under (fun l p => Label.keepsRequests p l = true) Moves)

theorem steady_of_path {p p' : Proc} {ls : List Label} (h : KeepingPath p ls p')
    (hp : Steady p) : Steady p' :=
  h.invariant hp fun _ _ _ ht hstep => hstep.2.steady ht hstep.1

/-- **A disconnect request is not lost.** In every run whose steps meet the condition, a connection
that has begun to go down goes down the chain and nowhere else, and no packet of it is dispatched
any more. -/
theorem disconnect_request_kept {fd : Nat} {w : Wire} {ls ls' : List Label} {p p' : Proc}
    (h : KeepingPath (Proc.accepted fd w) ls p) (hc : p.conn.cbuf.state.closing = true)
    (h' : KeepingPath p ls' p') :
    Relation.ReflTransGen SocketState.Down p.conn.cbuf.state p'.conn.cbuf.state ∧
      p'.conn.dispatched = p.conn.dispatched := by
  have hdown : ∀ {s s'}, Relation.ReflTransGen SocketState.Down s s' → s.closing = true →
      s'.closing = true := by
    intro s s' hss hs
    induction hss with
    | refl => exact hs
    | tail _ hstep _ => cases hstep <;> rfl
  have hsteady := steady_of_path h (Proc.accepted_steady fd w)
  induction h' with
  | nil => exact ⟨.refl, rfl⟩
  | snoc l hpath hstep ih =>
      obtain ⟨hchain, hsame⟩ := ih
      obtain ⟨hchain', hsame'⟩ :=
        hstep.2.closing (steady_of_path hpath hsteady) hstep.1 (hdown hchain hc)
      exact ⟨hchain.trans hchain', hsame'.trans hsame⟩

/-- A client greeted after its first poll; `w` is its wire. -/
def greetedConn (w : Wire) : Conn :=
  (({ cbuf := Cbuf.fresh 5 false, wire := w } : Conn).setState .wantHeader).report .newClient

/-- Its steps so far, each of them free of any call of the server. -/
theorem greetedConn_path (ok : Label → Proc → Prop) (w : Wire) (h : ∀ b p, ok (.poll b) p)
    (h' : ∀ p, ok .internal p) :
    Path (Under ok Moves) (Proc.accepted 5 w) [.poll { pollin := true }, .internal, .internal]
      ⟨greetedConn w, .running true false⟩ := by
  refine Path.cons ⟨h _ _, Moves.poll { pollin := true } rfl⟩ ?_
  refine Path.cons ⟨h' _, Moves.greet rfl rfl⟩ ?_
  exact Path.single ⟨h' _, Moves.greeted⟩

/-- A client whose first packet makes the server ask for its disconnect, as the server does when it
is full. -/
def refusedConn : Conn :=
  pktservDisconnect
    (pktsocketRead (greetedConn { inbound := [1, 97], reads := [.data 0, .data 0] })).2.handOver

/-- The request made inside the `dispatch` callback is gone when the callback is back: the
connection waits for its next packet. -/
theorem disconnect_in_dispatch_lost :
    ¬ ∀ (fd : Nat) (w : Wire) (ls ls' : List Label) (p p' : Proc),
        Path Moves (Proc.accepted fd w) ls p → p.conn.cbuf.state = .wantDisconnect →
        Path Moves p ls' p' →
        p'.conn.cbuf.state.closing = true ∧ p'.conn.dispatched = p.conn.dispatched := by
  intro h
  have hgreeted := (greetedConn_path (fun _ _ => True)
    { inbound := [1, 97], reads := [.data 0, .data 0] } (fun _ _ => trivial)
    (fun _ => trivial)).of_under
  have hpacket := Path.snoc _ hgreeted (Moves.packet rfl (Or.inl rfl) (by decide))
  have hasked : Path Moves (Proc.accepted 5 _) _ ⟨refusedConn, .dispatching⟩ :=
    Path.snoc _ hpacket (Moves.call .disconnect rfl)
  have hback := h 5 _ _ _ _ _ hasked rfl (Path.single Moves.dispatched)
  exact absurd hback.1 (by decide)

/-- A client that hangs up. -/
def hungUpConn : Conn := (pktsocketRead (greetedConn { reads := [.eof] })).2

/-- Such a client goes all the way down at its next poll. -/
theorem disconnect_request_kept_eof :
    ∃ ls ls', KeepingPath (Proc.accepted 5 { reads := [.eof] }) ls ⟨hungUpConn, .waiting⟩ ∧
      hungUpConn.cbuf.state = .wantDisconnect ∧
      ∃ p', KeepingPath ⟨hungUpConn, .waiting⟩ ls' p' ∧
        p'.conn.cbuf.state = .disconnected ∧
        Relation.ReflTransGen SocketState.Down .wantDisconnect p'.conn.cbuf.state ∧
        p'.conn.dispatched = [] := by
  have hgreeted := greetedConn_path (fun l p => Label.keepsRequests p l = true)
    { reads := [.eof] } (fun _ _ => rfl) (fun _ => rfl)
  have heof : KeepingPath (Proc.accepted 5 { reads := [.eof] }) _ ⟨hungUpConn, .waiting⟩ :=
    Path.snoc _ hgreeted ⟨rfl, Moves.fragment rfl (Or.inl rfl) (by decide)⟩
  have hdown : KeepingPath ⟨hungUpConn, .waiting⟩ _ _ :=
    Path.cons ⟨rfl, Moves.poll { pollin := true } rfl⟩
      (Path.cons ⟨rfl, Moves.lose rfl rfl⟩
        (Path.cons ⟨rfl, Moves.lost⟩ (Path.single ⟨rfl, Moves.close rfl rfl⟩)))
  obtain ⟨hchain, hsame⟩ := disconnect_request_kept heof rfl hdown
  exact ⟨_, _, heof, rfl, _, hdown, rfl, hchain, hsame⟩

/-! ## §2 — telling the server once -/

/-- How often the server has been told, up to the close of the descriptor. -/
def Conn.timesLost (c : Conn) : Nat := (c.trace.takeWhile (· ≠ .closed)).count .lostClient

/-- The condition on a step: once the buffers are freed, `poll` reports no exceptional bit and the
server asks for no disconnect. -/
def Label.leavesFreed (p : Proc) : Label → Bool
  | .poll b => !b.exception || p.conn.cbuf.state != .wantRawDisconnect
  | .call .disconnect => p.conn.cbuf.state != .wantRawDisconnect
  | _ => true

/-- **The invariant.** While the descriptor is open the server has not been told, or it is being
told, or the buffers are freed and nothing but the close is left to do. -/
def Conn.NotTold (c : Conn) (k : Control) : Prop :=
  c.timesLost = 0 ∧ (∀ back, k ≠ .losing back) ∧ c.cbuf.state ≠ .wantRawDisconnect

def Conn.Told (c : Conn) (k : Control) : Prop :=
  c.timesLost = 1 ∧ ((∃ back, k = .losing back) ∨
    (c.cbuf.state = .wantRawDisconnect ∧ (k = .waiting ∨ ∃ r w, k = .running r w)))

structure Once (p : Proc) : Prop where
  plain : Plaintext p
  told : .closed ∈ p.conn.trace ∧ p.conn.timesLost ≤ 1 ∨
    .closed ∉ p.conn.trace ∧ p.conn.cbuf.state ≠ .disconnected ∧
      (p.conn.NotTold p.ctl ∨ p.conn.Told p.ctl)

theorem Conn.timesLost_report_of_closed {c : Conn} (t : Trace) (h : .closed ∈ c.trace) :
    (c.report t).timesLost = c.timesLost := by
  have hgo : ∀ ts : List Trace, .closed ∈ ts →
      (ts ++ [t]).takeWhile (· ≠ .closed) = ts.takeWhile (· ≠ .closed) := by
    intro ts hts
    induction ts with
    | nil => cases hts
    | cons x xs ih =>
        by_cases hx : x = .closed
        · simp [hx]
        · have hxs : .closed ∈ xs := by
            rcases List.mem_cons.mp hts with h | h
            · exact absurd h.symm hx
            · exact h
          simp only [List.cons_append, List.takeWhile_cons, ih hxs]
  show ((c.trace ++ [t]).takeWhile (· ≠ .closed)).count .lostClient = _
  rw [hgo c.trace h]
  rfl

theorem ne_closed_of_open {ts : List Trace} (h : .closed ∉ ts) :
    ∀ x ∈ ts, decide (x ≠ Trace.closed) = true := by
  intro x hx
  have hne : x ≠ .closed := by
    rintro rfl
    exact h hx
  exact decide_eq_true hne

/-- While the descriptor is open every report counts. -/
theorem Conn.timesLost_of_open {c : Conn} (h : .closed ∉ c.trace) :
    c.timesLost = c.trace.count .lostClient := by
  unfold Conn.timesLost
  rw [List.takeWhile_eq_self_iff.mpr (ne_closed_of_open h)]

/-- After the close nothing that happens counts any more. -/
theorem Once.of_closed {p p' : Proc} (hp : Plaintext p') (hcl : .closed ∈ p.conn.trace)
    (hle : p.conn.timesLost ≤ 1)
    (ht : p'.conn.trace = p.conn.trace ∨ ∃ t, p'.conn.trace = p.conn.trace ++ [t]) : Once p' := by
  refine ⟨hp, Or.inl ?_⟩
  rcases ht with ht | ⟨t, ht⟩
  · refine ⟨ht ▸ hcl, ?_⟩
    rw [Conn.timesLost, ht]
    exact hle
  · refine ⟨ht ▸ List.mem_append_left _ hcl, ?_⟩
    have hrep := Conn.timesLost_report_of_closed t hcl
    rw [Conn.timesLost, ht]
    exact le_of_eq_of_le hrep hle

/-- A step reports at most one thing. -/
theorem Moves.trace {l : Label} {p p' : Proc} (hm : Moves l p p') (hp : Plaintext p) :
    p'.conn.trace = p.conn.trace ∨ ∃ t, p'.conn.trace = p.conn.trace ++ [t] := by
  have hssl := hp.isSsl
  cases hm with
  | network => exact Or.inl rfl
  | @call c _ a _ =>
      cases a with
      | disconnect => exact Or.inl rfl
      | send pkt => exact Or.inl (pktservSend_untouched c pkt hssl).trace
  | except b _ _ => exact Or.inr ⟨_, rfl⟩
  | poll b _ =>
      obtain ⟨d, hd⟩ := Conn.polled_disp _ b
      rw [hd]
      exact Or.inl rfl
  | rest _ | greeted | lost | gone _ _ => exact Or.inl rfl
  | greet _ _ => exact Or.inr ⟨_, rfl⟩
  | @write c r w _ hs =>
      left
      rcases writeCase_cases r w hs with hsame | ⟨d, hpass⟩
      · rw [hsame]
      · rw [hpass]
        exact (writeLoop_untouched c _ hssl).trace
  | @packet c _ _ _ _ =>
      have htrace : (pktsocketRead c).2.trace = c.trace := (pktsocketRead_readOnly hssl).1.trace
      refine Or.inr ⟨.dispatch ((pktsocketRead c).2.cbuf.rbuf.getD {}).data, ?_⟩
      show (pktsocketRead c).2.trace ++ _ = c.trace ++ _
      rw [htrace]
  | @fragment c _ _ _ _ => 
      exact Or.inl ((cycleToWrite_trace _).trans (pktsocketRead_readOnly hssl).1.trace)
  | skip _ _ => exact Or.inl (cycleToWrite_trace _)
  | dispatched => exact Or.inl (cycleToWrite_trace _)
  | lose _ _ => exact Or.inr ⟨_, rfl⟩
  | close _ _ => exact Or.inr ⟨_, rfl⟩

/-- While nothing has been told, a step that reports no loss and no close and does not free the
buffers leaves it so. -/
theorem Once.of_notTold {p p' : Proc} (hp : Plaintext p') (hopen : .closed ∉ p.conn.trace)
    (h : p.conn.NotTold p.ctl)
    (ht : p'.conn.trace = p.conn.trace ∨
      ∃ t, p'.conn.trace = p.conn.trace ++ [t] ∧ t ≠ .closed ∧ t ≠ .lostClient)
    (hs : p'.conn.cbuf.state ≠ .disconnected ∧ p'.conn.cbuf.state ≠ .wantRawDisconnect)
    (hk : ∀ back, p'.ctl ≠ .losing back) : Once p' := by
  have hopen' : .closed ∉ p'.conn.trace := by
    rcases ht with ht | ⟨t, ht, hne, _⟩
    · rw [ht]; exact hopen
    · rw [ht]
      simp [hopen, Ne.symm hne]
  refine ⟨hp, Or.inr ⟨hopen', hs.1, Or.inl ⟨?_, hk, hs.2⟩⟩⟩
  have hzero := h.1
  rw [Conn.timesLost_of_open hopen] at hzero
  rw [Conn.timesLost_of_open hopen']
  rcases ht with ht | ⟨t, ht, _, hne⟩
  · rw [ht]; exact hzero
  · rw [ht, List.count_append, hzero, List.count_singleton]
    simp [hne]

/-- The report of the loss. -/
theorem Once.of_report {c : Conn} {k : Control} {back : Option (Bool × Bool)}
    (hp : Plaintext ⟨c.report .lostClient, .losing back⟩) (hopen : .closed ∉ c.trace)
    (hnd : c.cbuf.state ≠ .disconnected) (h : c.NotTold k) :
    Once ⟨c.report .lostClient, .losing back⟩ := by
  have hopen' : .closed ∉ (c.report .lostClient).trace := by simp [Conn.report, hopen]
  refine ⟨hp, Or.inr ⟨hopen', hnd, Or.inr ⟨?_, Or.inl ⟨back, rfl⟩⟩⟩⟩
  have hzero := h.1
  rw [Conn.timesLost_of_open hopen] at hzero
  rw [Conn.timesLost_of_open hopen']
  simp [Conn.report, List.count_append, hzero]

theorem SocketState.up_of_afterCallback {s : SocketState} (h : s.afterCallback = true) :
    s ≠ .disconnected ∧ s ≠ .wantRawDisconnect := by
  constructor <;> rintro rfl <;> cases h

/-- Outside `lost_client` and before the buffers are freed the server has not been told. -/
theorem Conn.NotTold.of_state {c : Conn} {k : Control} (h : c.NotTold k ∨ c.Told k)
    (hk : ∀ back, k ≠ .losing back) (hs : c.cbuf.state ≠ .wantRawDisconnect) : c.NotTold k := by
  rcases h with h | ⟨_, ⟨back, hb⟩ | ⟨hraw, _⟩⟩
  · exact h
  · exact absurd hb (hk back)
  · exact absurd hraw hs

/-- The calls of the server. -/
theorem Once.call {c : Conn} {k : Control} (a : Action) (h : Once ⟨c, k⟩)
    (hopen : .closed ∉ c.trace)
    (hcase : c.NotTold k ∨ c.Told k) (hok : (Label.call a).leavesFreed ⟨c, k⟩ = true)
    (hp : Plaintext ⟨a.run c, k⟩) : Once ⟨a.run c, k⟩ := by
  cases a with
  | disconnect =>
      have hraw : c.cbuf.state ≠ .wantRawDisconnect := by
        simpa [Label.leavesFreed] using hok
      refine ⟨hp, Or.inr ⟨hopen, nofun, ?_⟩⟩
      rcases hcase with ⟨h₀, hk, _⟩ | ⟨h₁, hback | ⟨hs, _⟩⟩
      · exact Or.inl ⟨h₀, hk, nofun⟩
      · exact Or.inr ⟨h₁, Or.inl hback⟩
      · exact absurd hs hraw
  | send pkt =>
      have hssl : c.cbuf.isSsl = false := h.plain.isSsl
      have htrace : (pktservSend c pkt).2.trace = c.trace := (pktservSend_untouched c pkt hssl).trace
      rcases pktservSend_state c pkt hssl with ⟨_, hsame⟩ | hcb
      · have hrun : Action.run c (.send pkt) = c := hsame
        rw [hrun]
        exact h
      · obtain ⟨hnd', hraw'⟩ := SocketState.up_of_afterCallback hcb
        rcases hcase with hnot | ⟨h₁, ⟨back, rfl⟩ | ⟨hs, _⟩⟩
        · exact Once.of_notTold (p := ⟨c, k⟩) hp hopen hnot (Or.inl htrace) ⟨hnd', hraw'⟩ hnot.2.1
        · refine ⟨hp, Or.inr ⟨?_, hnd', Or.inr ⟨?_, Or.inl ⟨back, rfl⟩⟩⟩⟩
          · show .closed ∉ (pktservSend c pkt).2.trace
            rw [htrace]
            exact hopen
          · show (pktservSend c pkt).2.timesLost = 1
            rw [Conn.timesLost, htrace]
            exact h₁
        · -- the buffers are freed: the send is refused
          have hsame : Action.run c (.send pkt) = c := by simp [Action.run, pktservSend, hs]
          rw [hsame]
          exact h

/-- **Every step that meets its condition keeps the invariant.** -/
theorem Moves.once {l : Label} {p p' : Proc} (hm : Moves l p p') (h : Once p)
    (hok : l.leavesFreed p = true) : Once p' := by
  have hp' : Plaintext p' := hm.plaintext h.plain
  have hssl := h.plain.isSsl
  rcases h.told with ⟨hcl, hle⟩ | ⟨hopen, hnd, hcase⟩
  · exact Once.of_closed hp' hcl hle (hm.trace h.plain)
  have hread : ∀ {c : Conn}, c.cbuf.state = .wantHeader ∨ c.cbuf.state = .wantRead →
      c.cbuf.state ≠ .disconnected ∧ c.cbuf.state ≠ .wantRawDisconnect := by
    rintro c (hs | hs) <;> rw [hs] <;> exact ⟨nofun, nofun⟩
  have hcycle : ∀ {c : Conn}, c.cbuf.state ≠ .disconnected ∧ c.cbuf.state ≠ .wantRawDisconnect →
      (cycleToWrite c).cbuf.state ≠ .disconnected ∧
        (cycleToWrite c).cbuf.state ≠ .wantRawDisconnect := by
    intro c hc
    unfold cycleToWrite
    split
    · exact ⟨nofun, nofun⟩
    · exact hc
  cases hm with
  | network => exact ⟨hp', Or.inr ⟨hopen, hnd, hcase⟩⟩
  | call a _ => exact h.call a hopen hcase hok hp'
  | @except c b he _ =>
      have hraw : c.cbuf.state ≠ .wantRawDisconnect := by
        simpa [Label.leavesFreed, he] using hok
      exact Once.of_report hp' hopen hnd (Conn.NotTold.of_state hcase nofun hraw)
  | @poll c b _ =>
      obtain ⟨d, hd⟩ := c.polled_disp b
      rw [hd] at hp' ⊢
      refine ⟨hp', Or.inr ⟨hopen, hnd, ?_⟩⟩
      rcases hcase with ⟨h₀, _, hs⟩ | ⟨h₁, ⟨back, hk⟩ | ⟨hs, _⟩⟩
      · exact Or.inl ⟨h₀, nofun, hs⟩
      · cases hk
      · exact Or.inr ⟨h₁, Or.inr ⟨hs, Or.inr ⟨_, _, rfl⟩⟩⟩
  | rest _ =>
      refine ⟨hp', Or.inr ⟨hopen, hnd, ?_⟩⟩
      rcases hcase with ⟨h₀, _, hs⟩ | ⟨h₁, ⟨back, hk⟩ | ⟨hs, _⟩⟩
      · exact Or.inl ⟨h₀, nofun, hs⟩
      · cases hk
      · exact Or.inr ⟨h₁, Or.inr ⟨hs, Or.inl rfl⟩⟩
  | greeted =>
      refine ⟨hp', Or.inr ⟨hopen, hnd, ?_⟩⟩
      rcases hcase with ⟨h₀, _, hs⟩ | ⟨h₁, ⟨back, hk⟩ | ⟨hs, hk | ⟨_, _, hk⟩⟩⟩
      · exact Or.inl ⟨h₀, nofun, hs⟩
      · cases hk
      · cases hk
      · cases hk
  | greet _ hs =>
      have hnot := Conn.NotTold.of_state hcase nofun (by rw [hs]; nofun)
      exact Once.of_notTold hp' hopen hnot (Or.inr ⟨.newClient, rfl, nofun, nofun⟩) ⟨nofun, nofun⟩ nofun
  | @write c r w _ hs =>
      have hnot := Conn.NotTold.of_state hcase nofun (by rw [hs]; nofun)
      rcases writeCase_cases r w hs with hsame | ⟨d, hpass⟩
      · rw [hsame]
        exact h
      · rw [hpass] at hp' ⊢
        exact Once.of_notTold hp' hopen hnot (Or.inl (writeLoop_untouched c _ hssl).trace)
          (SocketState.up_of_afterCallback (writeLoop_state c _ hssl)) nofun
  | @packet c w _ hs hdone =>
      have hnot := Conn.NotTold.of_state hcase nofun (hread hs).2
      refine Once.of_notTold hp' hopen hnot
        (Or.inr ⟨.dispatch ((pktsocketRead c).2.cbuf.rbuf.getD {}).data, ?_, nofun, nofun⟩) ?_ nofun
      · show (pktsocketRead c).2.trace ++ _ = c.trace ++ _
        rw [(pktsocketRead_readOnly (c := c) hssl).1.trace]
      · show (pktsocketRead c).2.cbuf.state ≠ _ ∧ (pktsocketRead c).2.cbuf.state ≠ _
        rw [hdone]
        exact ⟨nofun, nofun⟩
  | @fragment c w _ hs hpart =>
      have hnot := Conn.NotTold.of_state hcase nofun (hread hs).2
      obtain ⟨hro, hst⟩ := pktsocketRead_readOnly (c := c) hssl
      refine Once.of_notTold hp' hopen hnot (Or.inl ?_) (hcycle ?_) nofun
      · exact (cycleToWrite_trace _).trans hro.trace
      · rcases hst with hst | hst | hst | hst
        · rw [hst]
          exact hread hs
        · rw [hst]; exact ⟨nofun, nofun⟩
        · exact absurd hst hpart
        · rw [hst]; exact ⟨nofun, nofun⟩
  | @skip c r w _ hs =>
      have hnot := Conn.NotTold.of_state hcase nofun (hread hs).2
      exact Once.of_notTold hp' hopen hnot (Or.inl (cycleToWrite_trace c)) (hcycle (hread hs)) nofun
  | @dispatched c =>
      have hnot : c.NotTold .dispatching := by
        rcases hcase with hnot | ⟨_, ⟨_, hk⟩ | ⟨_, hk | ⟨_, _, hk⟩⟩⟩
        · exact hnot
        · cases hk
        · cases hk
        · cases hk
      exact Once.of_notTold hp' hopen hnot (Or.inl (cycleToWrite_trace _))
        (hcycle ⟨nofun, nofun⟩) nofun
  | lose _ hs =>
      have hnot := Conn.NotTold.of_state hcase nofun (by rw [hs]; nofun)
      exact Once.of_report hp' hopen hnd hnot
  | @lost c back =>
      have htold : c.Told (.losing back) := by
        rcases hcase with ⟨_, hk, _⟩ | htold
        · exact absurd rfl (hk back)
        · exact htold
      refine ⟨hp', Or.inr ⟨hopen, nofun, Or.inr ⟨htold.1, Or.inr ⟨rfl, ?_⟩⟩⟩⟩
      cases back with
      | none => exact Or.inl rfl
      | some rw => exact Or.inr ⟨_, _, rfl⟩
  | @close c r w _ hs =>
      have htold : c.timesLost = 1 := by
        rcases hcase with ⟨_, _, hne⟩ | htold
        · exact absurd hs hne
        · exact htold.1
      refine ⟨hp', Or.inl ⟨?_, ?_⟩⟩
      · show .closed ∈ c.trace ++ [.closed]
        simp
      · show ((c.trace ++ [Trace.closed]).takeWhile (· ≠ Trace.closed)).count Trace.lostClient ≤ 1
        rw [Conn.timesLost_of_open hopen] at htold
        rw [List.takeWhile_append_of_pos (ne_closed_of_open hopen)]
        simp [htold]
  | gone _ hs => exact absurd hs hnd

theorem Proc.accepted_once (fd : Nat) (w : Wire) : Once (Proc.accepted fd w) :=
  ⟨Proc.accepted_plaintext fd w, Or.inr ⟨nofun, nofun, Or.inl ⟨rfl, nofun, nofun⟩⟩⟩

/-- A call on a connection whose buffers are freed. With an exceptional bit the tear-down starts
over; with any other bit the descriptor is closed. -/
theorem pollfdStateMachine_freed (u : Upcalls) (b : PollBits) {c : Conn}
    (hs : c.cbuf.state = .wantRawDisconnect) (hb : b ≠ {}) :
    (∃ fuel c', pollfdStateMachine u b fuel c = some c' ∧ c'.cbuf.state = .disconnected ∧
        c'.trace = c.trace ++ [.closed]) ↔ b.exception = false := by
  constructor
  · rintro ⟨fuel, c', hrun, hst, _⟩
    by_contra he
    have he' : b.exception = true := by simpa using he
    rw [pollfdStateMachine, if_pos he', Option.some.injEq] at hrun
    rw [← hrun] at hst
    cases hst
  · intro he
    have hready : (b.pollin || b.pollout) = true := by
      rcases b with ⟨i, o, e, u, v⟩
      simp only [PollBits.exception, Bool.or_eq_false_iff] at he
      obtain ⟨⟨rfl, rfl⟩, rfl⟩ := he
      cases i with
      | true => rfl
      | false =>
          cases o with
          | true => rfl
          | false => exact absurd rfl hb
    set c₁ : Conn := { c with cbuf := { c.cbuf with disp := .ok } } with hc₁
    have hclose : machineBody u b.pollin b.pollout c₁ = .again (handleRawDisconnect c₁) := by
      simp [machineBody, hc₁, hs]
    set c₂ : Conn := handleRawDisconnect c₁ with hc₂
    have hgone : machineBody u b.pollin b.pollout c₂ =
        .again { c₂ with cbuf := { c₂.cbuf with disp := .blocked } } := by
      simp [machineBody, hc₂, handleRawDisconnect]
    refine ⟨2, { c₂ with cbuf := { c₂.cbuf with disp := .blocked } }, ?_, rfl, rfl⟩
    rw [pollfdStateMachine, if_neg (by simp [he]), if_pos hready]
    show machineLoop u b.pollin b.pollout (1 + 1) c₁ = _
    rw [machineLoop_again rfl hclose, machineLoop_again rfl hgone]
    exact machineLoop_not_ok (by simp) 0

/-- **A connection is torn down once.** In every run whose steps meet the condition the server is
told at most once before the close; and a call on a connection whose buffers are freed closes the
descriptor exactly when no exceptional bit is set. -/
theorem torn_down_once {fd : Nat} {w : Wire} {ls : List Label} {p : Proc}
    (h : Path (Under (fun l p => Label.leavesFreed p l = true) Moves) (Proc.accepted fd w) ls p) :
    p.conn.timesLost ≤ 1 ∧
      (p.conn.cbuf.state = .wantRawDisconnect → ∀ (u : Upcalls) (b : PollBits), b ≠ {} →
        ((∃ fuel c', pollfdStateMachine u b fuel p.conn = some c' ∧
            c'.cbuf.state = .disconnected ∧ c'.trace = p.conn.trace ++ [.closed]) ↔
          b.exception = false)) := by
  have honce : Once p :=
    h.invariant (Proc.accepted_once fd w) fun _ _ _ ht hstep => hstep.2.once ht hstep.1
  refine ⟨?_, fun hs u b hb => pollfdStateMachine_freed u b hs hb⟩
  rcases honce.told with ⟨_, hle⟩ | ⟨_, _, ⟨h₀, _⟩ | ⟨h₁, _⟩⟩
  · exact hle
  · rw [h₀]
    exact Nat.zero_le 1
  · exact le_of_eq h₁

/-- A peer that is gone: `poll` reports `POLLHUP`. -/
def hangup : PollBits := { pollhup := true }

/-- `poll` reports `POLLHUP` again at every later call. At the second report the server is told again
and the descriptor stays open. -/
theorem hangup_told_twice :
    ¬ ∀ (fd : Nat) (w : Wire) (ls : List Label) (p : Proc),
        Path Moves (Proc.accepted fd w) ls p →
        p.conn.timesLost ≤ 1 ∧
          (p.conn.cbuf.state = .wantRawDisconnect → ∀ (u : Upcalls) (b : PollBits), b ≠ {} →
            ∃ fuel c', pollfdStateMachine u b fuel p.conn = some c' ∧
              c'.cbuf.state = .disconnected) := by
  intro h
  have hfirst := (Path.single (Moves.except (c := { cbuf := Cbuf.fresh 5 false }) hangup rfl
    nofun)).snoc _ Moves.lost
  have hsecond := (hfirst.snoc _ (Moves.except hangup rfl nofun)).snoc _ Moves.lost
  have htwice := (h 5 {} _ _ hsecond).1
  exact absurd htwice (by decide)

/-- With `POLLIN` after the hang-up the descriptor is closed and the server was told once. -/
theorem torn_down_once_hangup :
    ∃ ls c, Path (Under (fun l p => Label.leavesFreed p l = true) Moves) (Proc.accepted 5 {}) ls
        ⟨c, .waiting⟩ ∧ c.cbuf.state = .wantRawDisconnect ∧ c.timesLost ≤ 1 ∧
      ∃ fuel c', pollfdStateMachine {} { pollin := true } fuel c = some c' ∧
        c'.cbuf.state = .disconnected ∧ c'.trace = c.trace ++ [.closed] := by
  have hfirst : Path (Under (fun l p => Label.leavesFreed p l = true) Moves) (Proc.accepted 5 {})
      _ _ :=
    Path.cons ⟨rfl, Moves.except hangup rfl nofun⟩ (Path.single ⟨rfl, Moves.lost⟩)
  obtain ⟨hle, hcall⟩ := torn_down_once hfirst
  exact ⟨_, _, hfirst, rfl, hle, (hcall rfl {} { pollin := true } nofun).mpr rfl⟩

end Icbd.Pkt
