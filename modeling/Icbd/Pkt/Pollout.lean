/-
# Icbd.Pkt.Pollout — queued output is watched for.

Before every `poll` the server derives the events of each descriptor from the state word of its connection
(`update_pollfd_events`). A packet left in a queue is written only if `POLLOUT` is among them, so the state
word has to say "write" whenever the queue of an open connection is not empty.

The connections here are those of the plaintext port, any number of them, each taking the steps of
`Icbd.Pkt.Steps`; the server may call `pktserv_send` on any of them at any point where its code runs, so the
steps of the connections interleave freely. Listeners and TLS connections are descriptors of the poll set that
come and go. A descriptor is closed exactly when it leaves the set; reads from and writes to a closed
descriptor fail.
-/
import Icbd.Pkt.PollSet
import Icbd.Pkt.Steps

namespace Icbd.Pkt

open Icbd.Lib

/-! ## §1 — the events asked for -/

/-- The `switch` of `update_pollfd_events`. -/
def SocketState.wanted : SocketState → PollBits
  | .accepted | .wantWrite | .wantSslWrite | .wantSslAccept | .wantDisconnect | .wantRawDisconnect =>
      { pollin := true, pollout := true }
  | _ => { pollin := true }

/-- `update_pollfd_events`. -/
def PollSet.updatePollfdEvents (maxUsers : Nat) (state : Nat → SocketState) (p : PollSet) : PollSet where
  slot i := if i < p.size ∧ (p.slot i).fd < maxUsers then
      { p.slot i with events := (state (p.slot i).fd).wanted }
    else p.slot i
  size := p.size
  nodup := by
    intro j hj k hk heq
    refine p.nodup j hj k hk ?_
    split at heq <;> split at heq <;> exact heq

/-- The event is asked for at a descriptor. -/
def PollSet.AsksPollout (p : PollSet) (fd : Nat) : Prop :=
  ∃ i < p.size, (p.slot i).fd = fd ∧ (p.slot i).events.pollout = true

/-! ## §2 — the server -/

/-- The plaintext connections by descriptor, closed ones included until the descriptor is used again, and the
poll set. -/
structure Hub where
  proc : Nat → Option Proc
  set : PollSet

/-- A server that has accepted nobody. -/
def Hub.start : Hub := ⟨fun _ => none, ⟨fun _ => {}, 0, fun _ h => absurd h (Nat.not_lt_zero _)⟩⟩

/-- A closed descriptor: every call on it fails. -/
def Proc.shut (p : Proc) : Proc :=
  { p with conn := { p.conn with wire := { p.conn.wire with reads := [.error], writes := [.error] } } }

/-- What happens in the server. -/
inductive HubLabel
  /-- a connection on the plaintext port -/
  | accept (fd : Nat) (w : Wire)
  /-- a listener or a TLS connection is added -/
  | opened (fd : Nat)
  /-- a listener or a TLS connection is closed -/
  | closed (fd : Nat)
  /-- a step of a plaintext connection -/
  | move (fd : Nat) (l : Label)
  /-- `poll` is called and returns -/
  | poll (revents : Nat → PollBits)

/-- The state words `update_pollfd_events` looks at: those of the plaintext connections, and others for the
other descriptors. -/
def Hub.state (h : Hub) (other : Nat → SocketState) (fd : Nat) : SocketState :=
  match h.proc fd with
  | some p => p.conn.cbuf.state
  | none => other fd

/-- The set `poll` is called with. -/
def Hub.requested (maxUsers : Nat) (other : Nat → SocketState) (h : Hub) : PollSet :=
  h.set.updatePollfdEvents maxUsers (h.state other)

/-- No connection is being handled: the server is about to call `poll`. -/
def Hub.AtPoll (h : Hub) : Prop := ∀ fd p, h.proc fd = some p → p.ctl = .waiting

/-- The steps of the server. A new descriptor is none that is open. A connection that reaches `DISCONNECTED`
has been taken out of the set. -/
inductive HubStep (maxUsers : Nat) : HubLabel → Hub → Hub → Prop
  | accept {h : Hub} (fd : Nat) (w : Wire) : fd < maxUsers → ¬ h.set.Has fd →
      HubStep maxUsers (.accept fd w) h
        ⟨Function.update h.proc fd (some (Proc.accepted fd w)), h.set.addPollfd fd⟩
  | opened {h : Hub} (fd : Nat) : ¬ h.set.Has fd →
      HubStep maxUsers (.opened fd) h ⟨Function.update h.proc fd none, h.set.addPollfd fd⟩
  | closed {h : Hub} (fd : Nat) : h.proc fd = none →
      HubStep maxUsers (.closed fd) h ⟨h.proc, h.set.deletePollfd fd⟩
  | moveOpen {h : Hub} {fd : Nat} {l : Label} {p p' : Proc} : h.proc fd = some p → h.set.Has fd →
      Moves l p p' →
      HubStep maxUsers (.move fd l) h ⟨Function.update h.proc fd (some p'),
        if p'.conn.cbuf.state = .disconnected then h.set.deletePollfd fd else h.set⟩
  | moveClosed {h : Hub} {fd : Nat} {l : Label} {p p' : Proc} : h.proc fd = some p → ¬ h.set.Has fd →
      Moves l p.shut p' →
      HubStep maxUsers (.move fd l) h ⟨Function.update h.proc fd (some p'), h.set⟩
  | poll {h : Hub} (other : Nat → SocketState) (revents : Nat → PollBits) : h.AtPoll →
      HubStep maxUsers (.poll revents) h ⟨h.proc, (h.requested maxUsers other).poll revents⟩

/-! ## §3 — one connection -/

/-- Output is queued only while the state word says "write" or the connection is going down, or inside the
`dispatch` callback, which is followed by a look at the queue. -/
structure Queued (p : Proc) : Prop where
  plain : Plaintext p
  queue : p.conn.cbuf.wlist ≠ [] →
    p.conn.cbuf.state = .wantWrite ∨ p.conn.cbuf.state = .wantDisconnect ∨ p.ctl = .dispatching
  gone : p.conn.cbuf.state = .wantRawDisconnect ∨ p.conn.cbuf.state = .disconnected →
    p.conn.cbuf.wlist = []
  serving : p.ctl = .dispatching → p.conn.cbuf.state ≠ .disconnected

/-- A pass of the write loop ends with nothing queued, or in one of the two states. -/
theorem writeLoop_queue (c : Conn) (q : List MsgBuf) (hssl : c.cbuf.isSsl = false)
    (hq : (writeLoop c q).2.cbuf.wlist ≠ []) :
    (writeLoop c q).2.cbuf.state = .wantWrite ∨ (writeLoop c q).2.cbuf.state = .wantDisconnect := by
  induction q generalizing c with
  | nil => exact absurd rfl hq
  | cons m ms ih =>
    obtain ⟨w, -, ⟨m', h⟩ | ⟨-, h⟩ | h⟩ := writeLoop_step c m ms hssl
    · rw [h]
      exact .inl rfl
    · rw [h]
      exact .inr rfl
    · rw [h] at hq ⊢
      exact ih _ hssl hq

/-- The same for a send that is not refused. -/
theorem pktservSend_queue (c : Conn) (pkt : Bytes) (hssl : c.cbuf.isSsl = false) :
    (pktservSend c pkt).2 = c ∨
    ((pktservSend c pkt).2.cbuf.wlist ≠ [] →
      (pktservSend c pkt).2.cbuf.state = .wantWrite ∨
        (pktservSend c pkt).2.cbuf.state = .wantDisconnect) := by
  rcases pktservSend_cases c pkt with ⟨-, h⟩ | ⟨-, h⟩ | ⟨-, -, h⟩ | ⟨-, -, h⟩
  · exact .inl h
  · rw [h]
    exact .inr fun _ => .inl rfl
  · rw [h]
    exact .inr fun _ => .inr rfl
  · right
    rw [h]
    dsimp only
    split
    · exact fun _ => .inr rfl
    · exact writeLoop_queue _ _ hssl

theorem cycleToWrite_queue {c : Conn} (h : (cycleToWrite c).cbuf.wlist ≠ []) :
    (cycleToWrite c).cbuf.state = .wantWrite := by
  unfold cycleToWrite at h ⊢
  split at h
  · rw [if_pos ‹_›]
    rfl
  · rename_i hnot
    exact absurd h hnot

/-- A connection whose state word is "read" has nothing queued. -/
theorem Queued.idle {c : Conn} {k : Control} (h : Queued ⟨c, k⟩) (hk : k ≠ .dispatching)
    (hw : c.cbuf.state ≠ .wantWrite) (hd : c.cbuf.state ≠ .wantDisconnect) : c.cbuf.wlist = [] := by
  by_contra hq
  rcases h.queue hq with h | h | h
  · exact hw h
  · exact hd h
  · exact hk h

/-- **Every step keeps the state word and the queue together.** -/
theorem Moves.queued {l : Label} {p p' : Proc} (hmove : Moves l p p') (h : Queued p) : Queued p' := by
  have hplain := hmove.plaintext h.plain
  have hssl := h.plain.isSsl
  cases hmove with
  | network => exact ⟨hplain, h.queue, h.gone, h.serving⟩
  | @call c k a _ =>
    cases a with
    | disconnect =>
      refine ⟨hplain, fun _ => .inr (.inl rfl), ?_, fun _ hs => by cases hs⟩
      rintro (hs | hs) <;> cases hs
    | send pkt =>
      rcases pktservSend_queue c pkt hssl with hsame | hqueue
      · have hrun : Action.run c (.send pkt) = c := hsame
        rw [hrun] at hplain ⊢
        exact ⟨hplain, h.queue, h.gone, h.serving⟩
      · refine ⟨hplain, fun hq => ?_, fun hs => ?_, fun hk hs => ?_⟩
        · rcases hqueue hq with hs | hs
          · exact .inl hs
          · exact .inr (.inl hs)
        · by_contra hq
          rcases hqueue hq with hw | hw <;> rcases hs with hs | hs <;>
            exact absurd (hs.symm.trans hw) (by decide)
        · change (pktservSend c pkt).2.cbuf.state = .disconnected at hs
          rcases pktservSend_state c pkt hssl with ⟨-, hsame⟩ | hcb
          · rw [hsame] at hs
            exact h.serving hk hs
          · rw [hs] at hcb
            cases hcb
  | except b _ _ =>
    refine ⟨hplain, fun hq => ?_, h.gone, by simp⟩
    rcases h.queue hq with hs | hs | hk
    · exact .inl hs
    · exact .inr (.inl hs)
    · cases hk
  | poll b _ =>
    obtain ⟨d, hd⟩ := Conn.polled_disp _ b
    rw [hd] at hplain ⊢
    refine ⟨hplain, fun hq => ?_, h.gone, by simp⟩
    rcases h.queue hq with hs | hs | hk
    · exact .inl hs
    · exact .inr (.inl hs)
    · cases hk
  | rest _ | greeted =>
    refine ⟨hplain, fun hq => ?_, h.gone, by simp⟩
    rcases h.queue hq with hs | hs | hk
    · exact .inl hs
    · exact .inr (.inl hs)
    · cases hk
  | @greet c r w _ hs =>
    have hnil := h.idle (by simp) (by rw [hs]; decide) (by rw [hs]; decide)
    exact ⟨hplain, fun hq => absurd hnil hq, fun _ => hnil, by simp⟩
  | @write c r w _ hs =>
    rcases writeCase_cases r w hs with hsame | ⟨d, hpass⟩
    · rw [hsame] at hplain ⊢
      exact ⟨hplain, h.queue, h.gone, by simp⟩
    · rw [hpass] at hplain ⊢
      refine ⟨hplain, fun hq => ?_, fun hgone => ?_, by simp⟩
      · rcases writeLoop_queue c c.cbuf.wlist hssl hq with hs | hs
        · exact .inl hs
        · exact .inr (.inl hs)
      · by_contra hq
        rcases writeLoop_queue c c.cbuf.wlist hssl hq with hw | hw <;> rcases hgone with hs | hs <;>
          exact absurd (hs.symm.trans hw) (by decide)
  | @packet c w _ hs hdone =>
    have hnil := h.idle (by simp) (by rcases hs with hs | hs <;> rw [hs] <;> decide)
      (by rcases hs with hs | hs <;> rw [hs] <;> decide)
    have hkeep := (pktsocketRead_readOnly hssl).1.wlist
    refine ⟨hplain, fun _ => .inr (.inr rfl), fun _ => hkeep.trans hnil, fun _ => ?_⟩
    rw [Conn.handOver, Conn.report_cbuf, hdone]
    decide
  | fragment _ _ _ | skip _ _ | dispatched =>
    refine ⟨hplain, fun hq => .inl (cycleToWrite_queue hq), fun hgone => ?_, by simp⟩
    by_contra hq
    have hw := cycleToWrite_queue hq
    rcases hgone with hs | hs <;> exact absurd (hs.symm.trans hw) (by decide)
  | lose _ hs =>
    exact ⟨hplain, fun _ => .inr (.inl hs), h.gone, by simp⟩
  | lost => exact ⟨hplain, fun hq => absurd rfl hq, fun _ => rfl, fun _ hs => by cases hs⟩
  | close _ hs => exact ⟨hplain, fun hq => absurd (h.gone (.inl hs)) hq, fun _ => h.gone (.inl hs),
      by simp⟩
  | gone _ hs => exact ⟨hplain, fun hq => absurd (h.gone (.inr hs)) hq, fun _ => h.gone (.inr hs),
      by simp⟩

theorem Proc.accepted_queued (fd : Nat) (w : Wire) : Queued (Proc.accepted fd w) :=
  ⟨Proc.accepted_plaintext fd w, fun hq => absurd rfl hq, fun _ => rfl, fun h => by cases h⟩

/-! ## §4 — a closed descriptor -/

/-- A connection whose descriptor is closed: what a late send queued is only there while the connection is
marked for disconnection. -/
structure Drained (p : Proc) : Prop where
  ctl : p.ctl ≠ .dispatching
  queue : p.conn.cbuf.wlist ≠ [] → p.conn.cbuf.state = .wantDisconnect

theorem writeLoop_shut {c : Conn} {q : List MsgBuf} (hssl : c.cbuf.isSsl = false)
    (hw : c.wire.writes = [.error]) (hq : q ≠ []) : (writeLoop c q).1 = -1 := by
  obtain ⟨m, ms, rfl⟩ := List.exists_cons_of_ne_nil hq
  simp [writeLoop, sockWrite_plain hssl, Wire.write, hw]

/-- A send on a closed descriptor is refused, or its write fails. -/
theorem pktservSend_shut {c : Conn} (pkt : Bytes) (hssl : c.cbuf.isSsl = false)
    (hw : c.wire.writes = [.error]) :
    (pktservSend c pkt).2 = c ∨
      c.cbuf.state ≠ .wantDisconnect ∧ (pktservSend c pkt).2 = c.setState .wantWrite ∨
      (pktservSend c pkt).2.cbuf.state = .wantDisconnect := by
  by_cases hs : c.cbuf.state = .wantDisconnect
  · exact .inl (by simp [pktservSend, hs])
  rcases pktservSend_cases c pkt with ⟨-, h⟩ | ⟨-, h⟩ | ⟨-, -, h⟩ | ⟨-, -, h⟩
  · exact .inl h
  · exact .inr (.inl ⟨hs, h⟩)
  · rw [h]
    exact .inr (.inr rfl)
  · have hfail : (writeLoop (c.queued pkt) (c.queued pkt).cbuf.wlist).1 = -1 :=
      writeLoop_shut (c := c.queued pkt) hssl hw (by simp [Conn.queued])
    right
    right
    rw [h]
    dsimp only
    rw [if_pos (by rw [hfail]; decide)]
    rfl

/-- A read from a closed descriptor fails. -/
theorem pktsocketRead_shut {c : Conn} (hssl : c.cbuf.isSsl = false) (hr : c.wire.reads = [.error]) :
    (pktsocketRead c).2.cbuf.state = .wantDisconnect := by
  have herror (c : Conn) (n : Nat) (hssl : c.cbuf.isSsl = false) (hr : c.wire.reads = [.error]) :
      (sockRead c n).1 = .error := by
    rw [sockRead_plain hssl]
    simp [Wire.read, hr]
  unfold pktsocketRead
  split
  · rcases hread : sockRead (c.setRbuf {}) packetHeaderLen with ⟨out, c₁⟩
    obtain rfl : out = .error := by
      have := herror (c.setRbuf {}) packetHeaderLen hssl hr
      rwa [hread] at this
    simp only [readHeader, hread]
    rfl
  · rcases hread : sockRead c ((c.cbuf.rbuf.getD {}).len - (c.cbuf.rbuf.getD {}).pos) with ⟨out, c₁⟩
    obtain rfl : out = .error := by
      have := herror c ((c.cbuf.rbuf.getD {}).len - (c.cbuf.rbuf.getD {}).pos) hssl hr
      rwa [hread] at this
    simp only [readBody, hread]
    rfl

theorem Drained.idle {p : Proc} (h : Drained p) (hs : p.conn.cbuf.state ≠ .wantDisconnect) :
    p.conn.cbuf.wlist = [] := by
  by_contra hq
  exact hs (h.queue hq)

/-- **Every step keeps a closed connection drained.** -/
theorem Moves.drained {l : Label} {p p' : Proc} (hmove : Moves l p p') (hq : Queued p) (h : Drained p)
    (hr : p.conn.wire.reads = [.error]) (hw : p.conn.wire.writes = [.error]) : Drained p' := by
  have hssl := hq.plain.isSsl
  cases hmove with
  | network => exact ⟨h.ctl, h.queue⟩
  | @call c k a _ =>
    refine ⟨h.ctl, ?_⟩
    cases a with
    | disconnect => exact fun _ => rfl
    | send pkt =>
      change (pktservSend c pkt).2.cbuf.wlist ≠ [] → (pktservSend c pkt).2.cbuf.state = .wantDisconnect
      rcases pktservSend_shut pkt hssl hw with hs | ⟨hs, hfull⟩ | hs
      · rw [hs]
        exact h.queue
      · rw [hfull]
        exact fun hne => absurd (h.idle hs) hne
      · exact fun _ => hs
  | except b _ _ => exact ⟨by simp, h.queue⟩
  | @poll c b _ =>
    obtain ⟨d, hd⟩ := Conn.polled_disp c b
    refine ⟨by simp, ?_⟩
    rw [hd]
    exact h.queue
  | rest _ | greeted => exact ⟨by simp, h.queue⟩
  | greet _ hs => exact ⟨by simp, fun hne => absurd (h.idle (by simp [hs])) hne⟩
  | @write c r w _ hs =>
    have hnil : c.cbuf.wlist = [] := h.idle (by simp [hs])
    refine ⟨by simp, fun hne => absurd ?_ hne⟩
    rcases writeCase_cases r w hs with hsame | ⟨d, hpass⟩
    · rw [hsame]
      exact hnil
    · rw [hpass, hnil]
      rfl
  | packet _ _ hdone => exact absurd hdone (by rw [pktsocketRead_shut hssl hr]; decide)
  | @fragment c w _ hs _ =>
    have hnil : (pktsocketRead c).2.cbuf.wlist = [] :=
      (pktsocketRead_readOnly hssl).1.wlist.trans (h.idle (by rcases hs with hs | hs <;> simp [hs]))
    refine ⟨by simp, fun hne => absurd ?_ hne⟩
    simp [cycleToWrite, hnil]
  | @skip c _ _ _ hs =>
    have hnil : c.cbuf.wlist = [] := h.idle (by rcases hs with hs | hs <;> simp [hs])
    refine ⟨by simp, fun hne => absurd ?_ hne⟩
    simp [cycleToWrite, hnil]
  | dispatched => exact absurd rfl h.ctl
  | lose _ hs => exact ⟨by simp, h.queue⟩
  | @lost _ back =>
    refine ⟨?_, fun hne => absurd rfl hne⟩
    cases back <;> simp [Control.resumed]
  | close _ hs => exact ⟨by simp, fun hne => absurd (hq.gone (.inl hs)) hne⟩
  | gone _ hs => exact ⟨by simp, fun hne => absurd (hq.gone (.inr hs)) hne⟩

/-- A step to `DISCONNECTED` leaves nothing queued. -/
theorem Queued.drained {p : Proc} (h : Queued p) (hs : p.conn.cbuf.state = .disconnected) : Drained p :=
  ⟨fun hk => h.serving hk hs, fun hq => absurd (h.gone (.inr hs)) hq⟩

/-! ## §5 — the whole server -/

/-- What holds of every descriptor: it indexes the table, its queue and state word agree, and once it has
left the set nothing waits in its queue. -/
structure Hub.Sound (maxUsers : Nat) (h : Hub) : Prop where
  bound : ∀ fd p, h.proc fd = some p → fd < maxUsers
  queued : ∀ fd p, h.proc fd = some p → Queued p
  closed : ∀ fd p, h.proc fd = some p → ¬ h.set.Has fd → Drained p

theorem PollSet.addPollfd_has {p : PollSet} {fd fd' : Nat} (h : p.Has fd) : (p.addPollfd fd').Has fd := by
  obtain ⟨k, hk, rfl⟩ := h
  rcases p.addPollfd_cases fd' with ⟨-, hsize, hsame⟩ | ⟨-, hsize, -, -, hother⟩
  · exact ⟨k, by omega, (hsame k).fd⟩
  · exact ⟨k, by omega, by rw [hother k (by omega)]⟩

theorem PollSet.addPollfd_self (p : PollSet) (fd : Nat) : (p.addPollfd fd).Has fd := by
  rcases p.addPollfd_cases fd with ⟨⟨k, hk, heq⟩, hsize, hsame⟩ | ⟨-, hsize, -, hfd, -⟩
  · exact ⟨k, by omega, (hsame k).fd.trans heq⟩
  · exact ⟨p.size, by omega, hfd⟩

/-- The other descriptors stay in the set. -/
theorem PollSet.deletePollfd_has {p : PollSet} {fd fd' : Nat} (hne : fd ≠ fd') (h : p.Has fd) :
    (p.deletePollfd fd').Has fd := by
  obtain ⟨k, hk, rfl⟩ := h
  cases hfind : fdIndex p.slot p.size fd' with
  | none =>
    have hsame : p.deletePollfd fd' = p := by
      unfold PollSet.deletePollfd
      rw [hfind]
    rw [hsame]
    exact ⟨k, hk, rfl⟩
  | some i =>
    obtain ⟨hi, rfl⟩ := fdIndex_eq_some hfind
    have hki : k ≠ i := fun heq => hne (by rw [heq])
    have hsize : (p.deletePollfd (p.slot i).fd).size = p.size - 1 := by
      unfold PollSet.deletePollfd
      rw [hfind]
    rcases Nat.lt_or_ge k i with hlt | hge
    · refine ⟨k, by omega, ?_⟩
      rw [p.deletePollfd_self hi, if_neg (by omega)]
    · obtain ⟨j, rfl⟩ : ∃ j, k = j + 1 := ⟨k - 1, by omega⟩
      refine ⟨j, by omega, ?_⟩
      rw [p.deletePollfd_self hi, if_pos (by omega)]

/-- A step of the server keeps all of it. -/
theorem HubStep.sound {maxUsers : Nat} {l : HubLabel} {h h' : Hub} (hstep : HubStep maxUsers l h h')
    (hs : h.Sound maxUsers) : h'.Sound maxUsers := by
  -- after an update at one descriptor, what is asked of the others is what held before
  have hupdate {fd : Nat} {q : Option Proc} {set : PollSet}
      (hothers : ∀ fd', fd' ≠ fd → h.set.Has fd' → set.Has fd')
      (hself : ∀ p, q = some p → fd < maxUsers ∧ Queued p ∧ (¬ set.Has fd → Drained p)) :
      Hub.Sound maxUsers ⟨Function.update h.proc fd q, set⟩ := by
    have hcase {fd' : Nat} {p : Proc} (hp : Function.update h.proc fd q fd' = some p) :
        fd' = fd ∧ q = some p ∨ fd' ≠ fd ∧ h.proc fd' = some p := by
      by_cases heq : fd' = fd
      · subst heq
        rw [Function.update_self] at hp
        exact .inl ⟨rfl, hp⟩
      · rw [Function.update_of_ne heq] at hp
        exact .inr ⟨heq, hp⟩
    refine ⟨fun fd' p hp => ?_, fun fd' p hp => ?_, fun fd' p hp hout => ?_⟩
    · rcases hcase hp with ⟨rfl, hq⟩ | ⟨-, hp⟩
      · exact (hself p hq).1
      · exact hs.bound fd' p hp
    · rcases hcase hp with ⟨rfl, hq⟩ | ⟨-, hp⟩
      · exact (hself p hq).2.1
      · exact hs.queued fd' p hp
    · rcases hcase hp with ⟨rfl, hq⟩ | ⟨hne, hp⟩
      · exact (hself p hq).2.2 hout
      · exact hs.closed fd' p hp fun hin => hout (hothers fd' hne hin)
  cases hstep with
  | accept fd w hlt hnew =>
    refine hupdate (fun _ _ h => PollSet.addPollfd_has h) ?_
    rintro p ⟨⟩
    exact ⟨hlt, Proc.accepted_queued fd w, fun hout => absurd (h.set.addPollfd_self fd) hout⟩
  | opened fd hnew =>
    refine hupdate (fun _ _ h => PollSet.addPollfd_has h) ?_
    rintro p ⟨⟩
  | closed fd hnone =>
    refine ⟨hs.bound, hs.queued, fun fd' p hp hout => hs.closed fd' p hp fun hin => hout ?_⟩
    refine PollSet.deletePollfd_has ?_ hin
    rintro rfl
    rw [hnone] at hp
    cases hp
  | @moveOpen _ fd _ p p' hp hin hmove =>
    have hq' := hmove.queued (hs.queued fd p hp)
    refine hupdate (fun fd' hne hin' => ?_) ?_
    · split
      · exact PollSet.deletePollfd_has hne hin'
      · exact hin'
    · rintro _ ⟨⟩
      refine ⟨hs.bound fd p hp, hq', fun hout => ?_⟩
      split at hout
      · exact hq'.drained ‹_›
      · exact absurd hin hout
  | @moveClosed _ fd _ p p' hp hout hmove =>
    have hq : Queued p.shut := by
      obtain ⟨hplain, hqueue, hgone, hserving⟩ := hs.queued fd p hp
      exact ⟨⟨hplain.isSsl, hplain.state⟩, hqueue, hgone, hserving⟩
    have hd : Drained p.shut := by
      obtain ⟨hctl, hqueue⟩ := hs.closed fd p hp hout
      exact ⟨hctl, hqueue⟩
    refine hupdate (fun _ _ h => h) ?_
    rintro _ ⟨⟩
    exact ⟨hs.bound fd p hp, hmove.queued hq, fun _ => hmove.drained hq hd rfl rfl⟩
  | poll other revents hpoll =>
    refine ⟨hs.bound, hs.queued, fun fd p hp hout => hs.closed fd p hp ?_⟩
    rintro ⟨k, hk, heq⟩
    refine hout ⟨k, hk, ?_⟩
    have hreq : ((h.requested maxUsers other).slot k).fd = fd := by
      simp only [Hub.requested, PollSet.updatePollfdEvents]
      split <;> exact heq
    simp only [PollSet.poll]
    split <;> exact hreq

theorem Hub.start_sound (maxUsers : Nat) : Hub.start.Sound maxUsers := by
  constructor <;> intro fd p hp <;> cases hp

/-- **Queued output is watched for.** Whatever has happened, when `poll` is called every plaintext connection
that has output queued and is not being disconnected is asked about with `POLLOUT`. -/
theorem pollout_requested {maxUsers : Nat} {ls : List HubLabel} {h : Hub}
    (hrun : Path (HubStep maxUsers) .start ls h) (hpoll : h.AtPoll) (other : Nat → SocketState)
    {fd : Nat} {p : Proc} (hp : h.proc fd = some p) (hqueue : p.conn.cbuf.wlist ≠ [])
    (hopen : p.conn.cbuf.state.closing = false) : (h.requested maxUsers other).AsksPollout fd := by
  have hs : h.Sound maxUsers :=
    hrun.invariant (Hub.start_sound maxUsers) fun _ _ _ ht hstep => hstep.sound ht
  have hstate : p.conn.cbuf.state = .wantWrite := by
    rcases (hs.queued fd p hp).queue hqueue with hw | hd | hk
    · exact hw
    · rw [hd] at hopen
      cases hopen
    · rw [hpoll fd p hp] at hk
      cases hk
  have hin : h.set.Has fd := by
    by_contra hout
    have hd := (hs.closed fd p hp hout).queue hqueue
    rw [hd] at hopen
    cases hopen
  obtain ⟨k, hk, heq⟩ := hin
  have hslot : (h.requested maxUsers other).slot k =
      { h.set.slot k with events := SocketState.wanted .wantWrite } := by
    simp only [Hub.requested, PollSet.updatePollfdEvents, heq]
    rw [if_pos ⟨hk, hs.bound fd p hp⟩]
    simp only [Hub.state, hp, hstate]
  exact ⟨k, hk, by rw [hslot]; exact heq, by rw [hslot]; rfl⟩

/-- A connection that a packet was sent to while the network took nothing. -/
def blockedProc : Proc := ⟨Action.run (Proc.accepted 5 {}).conn (.send [1, 97]), .waiting⟩

/-- The server with this connection. -/
def blockedHub : Hub :=
  ⟨Function.update (Function.update Hub.start.proc 5 (some (Proc.accepted 5 {}))) 5 (some blockedProc),
    Hub.start.set.addPollfd 5⟩

theorem pollout_requested_blocked : blockedHub.proc 5 = some blockedProc ∧
    blockedProc.conn.cbuf.wlist ≠ [] ∧ (blockedHub.requested 256 fun _ => .idle).AsksPollout 5 := by
  have haccept : HubStep 256 (.accept 5 {}) .start
      ⟨Function.update Hub.start.proc 5 (some (Proc.accepted 5 {})), Hub.start.set.addPollfd 5⟩ :=
    .accept 5 {} (by decide) (by rintro ⟨k, hk, -⟩; exact absurd hk (Nat.not_lt_zero k))
  have hsend : HubStep 256 (.move 5 (.call (.send [1, 97])))
      ⟨Function.update Hub.start.proc 5 (some (Proc.accepted 5 {})), Hub.start.set.addPollfd 5⟩
      blockedHub :=
    .moveOpen (p := Proc.accepted 5 {}) (by simp) (PollSet.addPollfd_self _ _)
      (Moves.call (.send [1, 97]) rfl)
  have hproc : blockedHub.proc 5 = some blockedProc := by simp [blockedHub]
  have hpoll : blockedHub.AtPoll := by
    intro fd p hp
    by_cases heq : fd = 5
    · subst heq
      rw [hproc] at hp
      cases hp
      rfl
    · simp only [blockedHub, Function.update_of_ne heq] at hp
      cases hp
  refine ⟨hproc, by decide, ?_⟩
  exact pollout_requested ((Path.single haccept).trans (Path.single hsend)) hpoll _ hproc (by decide)
    (by decide)

end Icbd.Pkt
