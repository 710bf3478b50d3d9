/-
# Icbd.System.Run — the packet layer and the server as one program.

`main` hands the callbacks of `ipcf.c` to the packet layer, and the server calls the packet layer back.
A state of the program is a state of each side, together with the calls of the running callback that are still
to be made: the server's tables do not depend on what a call answers, so a callback is run on the tables first
and its calls follow in their order, before the packet layer goes on.

The connections are those of the plaintext port. `Act.obliging` is the condition on a run: `poll` reports no
exceptional bit, and the server calls nothing, about a connection that is not in use. `host_reachable` says
that in such a run the server only ever sees what `Server.Reachable` allows: whatever holds of the reachable
states of the server holds in the running program.
-/
import Icbd.Pkt.Callbacks
import Icbd.Pkt.Outbound
import Icbd.Server.Frames

namespace Icbd

open Icbd.Lib Icbd.Server

/-! ## §1 — the program -/

/-- The slot a call of the server is about. -/
def Server.Out.slot : Out → Int
  | .send n _ => n
  | .disconnect n => n

/-- The call as the packet layer gets it. -/
def Server.Out.action : Out → Pkt.Action
  | .send _ content => .send (packetbuffer content)
  | .disconnect _ => .disconnect

/-- The contents that are queued when the call reaches a connection. -/
def Server.Out.takenBy (p : Pkt.Proc) : Out → List Bytes
  | .send _ content => if p.conn.takes then [content] else []
  | .disconnect _ => []

/-- Is the step a call of the server? -/
def Pkt.Label.isCall : Pkt.Label → Bool
  | .call _ => true
  | _ => false

/-- Is it the peer's doing? -/
def Pkt.Label.isNetwork : Pkt.Label → Bool
  | .network _ _ _ => true
  | _ => false

/-- Listeners and `poll`. -/
def Pkt.HubLabel.quiet : Pkt.HubLabel → Bool
  | .opened _ | .closed _ | .poll _ => true
  | _ => false

/-- What the server has been told about a descriptor since it was accepted. -/
def Pkt.Hub.trace (h : Pkt.Hub) (fd : Nat) : List Pkt.Trace :=
  match h.proc fd with
  | some p => p.conn.trace
  | none => []

/-- How the packet layer calls the server: `main` sets up `s_new_user`, `s_packet`, which drops the length byte,
and `s_lost_user`. -/
inductive Raises (fd : Nat) : Pkt.Trace → Event → Prop
  | newClient (remote : Option Bytes) : Raises fd .newClient (.connect fd false remote)
  | dispatch (pkt : Bytes) : Raises fd (.dispatch pkt) (.packet fd pkt.tail)
  | lostClient : Raises fd .lostClient (.lost fd)

/-- The two sides, the calls still to be made, and for each connection the contents it has taken. -/
structure System where
  hub : Pkt.Hub
  host : Host
  calls : List Out := []
  taken : Nat → List Bytes := fun _ => []

/-- What happens in the program. -/
inductive Act
  /-- the packet layer, without a callback -/
  | hub (l : Pkt.HubLabel)
  /-- the packet layer calls the server -/
  | callback (fd : Nat) (l : Pkt.Label) (sys : Sys) (e : Event)
  /-- `handle_idle` calls the server -/
  | idle (sys : Sys)
  /-- the server calls the packet layer -/
  | call (o : Out)

section
variable [Env]

/-- The steps of the program. While calls of the server are to be made nothing else happens in it. -/
inductive SystemStep : Act → System → System → Prop
  | accept {s : System} {hub' : Pkt.Hub} {fd : Nat} {w : Pkt.Wire} : s.calls = [] → w.outbound = [] →
      Pkt.HubStep Env.maxUsers (.accept fd w) s.hub hub' →
      SystemStep (.hub (.accept fd w)) s { s with hub := hub', taken := Function.update s.taken fd [] }
  | quiet {s : System} {hub' : Pkt.Hub} {l : Pkt.HubLabel} : s.calls = [] → l.quiet = true →
      Pkt.HubStep Env.maxUsers l s.hub hub' → SystemStep (.hub l) s { s with hub := hub' }
  | move {s : System} {hub' : Pkt.Hub} {fd : Nat} {l : Pkt.Label} : (s.calls = [] ∨ l.isNetwork = true) →
      l.isCall = false → Pkt.HubStep Env.maxUsers (.move fd l) s.hub hub' →
      (hub'.trace fd = s.hub.trace fd ∨ hub'.trace fd = s.hub.trace fd ++ [.closed]) →
      SystemStep (.hub (.move fd l)) s { s with hub := hub' }
  | callback {s : System} {hub' : Pkt.Hub} {fd : Nat} {l : Pkt.Label} {t : Pkt.Trace} {sys : Sys} {e : Event}
      {new : List Out} : s.calls = [] → Pkt.HubStep Env.maxUsers (.move fd l) s.hub hub' →
      l.isCall = false → hub'.trace fd = s.hub.trace fd ++ [t] → Raises fd t e → s.host.w.live →
      (s.host.after sys e).w.live → (s.host.after sys e).w.out = new ++ s.host.w.out →
      SystemStep (.callback fd l sys e) s
        { s with hub := hub', host := s.host.after sys e, calls := new.reverse }
  | idle {s : System} {sys : Sys} {new : List Out} : s.calls = [] → s.hub.AtPoll → s.host.w.live →
      (s.host.after sys .didpoll).w.live → (s.host.after sys .didpoll).w.out = new ++ s.host.w.out →
      SystemStep (.idle sys) s { s with host := s.host.after sys .didpoll, calls := new.reverse }
  | call {s : System} {hub' : Pkt.Hub} {o : Out} {os : List Out} {fd : Nat} {p : Pkt.Proc} : s.calls = o :: os →
      o.slot = fd → s.hub.proc fd = some p →
      Pkt.HubStep Env.maxUsers (.move fd (.call o.action)) s.hub hub' →
      SystemStep (.call o) s { s with hub := hub', calls := os,
                                      taken := Function.update s.taken fd (s.taken fd ++ o.takenBy p) }
  -- nobody was ever there
  | nobody {s : System} {o : Out} {os : List Out} : s.calls = o :: os →
      (∀ fd : Nat, o.slot = fd → s.hub.proc fd = none) → SystemStep (.call o) s { s with calls := os }

/-- The program after start-up. -/
def System.start (sys : Sys) (db : Bytes → Option Bytes) : System :=
  { hub := .start, host := { w := startup sys db } }

omit [Env] in
/-- **The condition on a step.** -/
def Act.obliging (a : Act) (s : System) : Prop :=
  match a with
  | .hub l => l.polite s.hub
  | .callback fd l _ _ => (Pkt.HubLabel.move fd l).polite s.hub
  | .idle _ => True
  | .call o => ∀ (fd : Nat) (p : Pkt.Proc), o.slot = fd → s.hub.proc fd = some p → p.conn.cbuf.state.served = true

/-- The runs that meet it. -/
abbrev Runs := Lib.Path (Under Act.obliging SystemStep)

/-! ## §2 — the connections the server knows -/

/-- The server has been told of the connection, and not of its loss. -/
def Known (ts : List Pkt.Trace) : Prop := .newClient ∈ ts ∧ .lostClient ∉ ts

section
variable {ts : List Pkt.Trace} {t : Pkt.Trace}

omit [Env]

theorem Pkt.Greeted.known (h : Pkt.Greeted ts) : Known ts := by
  obtain ⟨ps, rfl⟩ := h
  exact ⟨List.mem_cons_self, by simp⟩

theorem Pkt.Greeted.last (h : Pkt.Greeted (ts ++ [t])) :
    (ts = [] ∧ t = .newClient) ∨ (Pkt.Greeted ts ∧ ∃ pkt, t = .dispatch pkt) := by
  obtain ⟨ps, hps⟩ := h
  rcases List.eq_nil_or_concat ps with rfl | ⟨ps, pkt, rfl⟩
  · have hsplit : ts ++ [t] = [] ++ [.newClient] := hps
    obtain ⟨rfl, ht⟩ := List.append_inj' hsplit rfl
    exact .inl ⟨rfl, (List.cons.inj ht).1⟩
  · have hsplit : ts ++ [t] = (.newClient :: ps.map .dispatch) ++ [.dispatch pkt] := by
      rw [hps]
      simp
    obtain ⟨rfl, ht⟩ := List.append_inj' hsplit rfl
    exact .inr ⟨⟨ps, rfl⟩, pkt, (List.cons.inj ht).1⟩

/-- What was told last, and what before. -/
theorem Pkt.InOrder.last (h : Pkt.InOrder (ts ++ [t])) :
    (ts = [] ∧ t = .newClient) ∨ (Pkt.Greeted ts ∧ ∃ pkt, t = .dispatch pkt) ∨
      (Pkt.Greeted ts ∧ t = .lostClient) ∨ (Pkt.Parted ts ∧ t = .closed) := by
  have hsnoc {ts' : List Pkt.Trace} {t' : Pkt.Trace} (h : ts ++ [t] = ts' ++ [t']) : ts = ts' ∧ t = t' := by
    obtain ⟨hts, ht⟩ := List.append_inj' h rfl
    exact ⟨hts, (List.cons.inj ht).1⟩
  rcases h with hnil | hup | ⟨ts', hup, heq⟩ | ⟨ts', hparted, heq⟩
  · simp at hnil
  · rcases hup.last with hfirst | hpkt
    · exact .inl hfirst
    · exact .inr (.inl hpkt)
  · obtain ⟨rfl, rfl⟩ := hsnoc heq
    exact .inr (.inr (.inl ⟨hup, rfl⟩))
  · obtain ⟨rfl, rfl⟩ := hsnoc heq
    exact .inr (.inr (.inr ⟨hparted, rfl⟩))

theorem Pkt.Parted.not_known (h : Pkt.Parted ts) : ¬ Known ts := by
  obtain ⟨ts', -, rfl⟩ := h
  rintro ⟨-, hlost⟩
  exact hlost (by simp)

/-- The descriptor's close is not news to the server. -/
theorem known_closed : Known (ts ++ [.closed]) ↔ Known ts := by
  simp [Known]

end

/-- **A callback comes when the server expects it**, and then the server knows what it was told. -/
theorem Raises.enabled {fd : Nat} {ts : List Pkt.Trace} {t : Pkt.Trace} {e : Event} {h : Host} (hr : Raises fd t e)
    (hlt : fd < Env.maxUsers) (horder : Pkt.InOrder (ts ++ [t])) (hopen : h.opened fd = true ↔ Known ts) :
    e.enabled h ∧ (e.opens h.opened fd = true ↔ Known (ts ++ [t])) ∧
      ∀ n : Int, n ≠ fd → e.opens h.opened n = h.opened n := by
  cases hr with
  | newClient remote =>
    rcases horder.last with ⟨rfl, -⟩ | ⟨-, _, ht⟩ | ⟨-, ht⟩ | ⟨-, ht⟩
    · refine ⟨⟨?_, ?_⟩, ?_, fun n hn => Function.update_of_ne hn _ _⟩
      · simp [inUsers, hlt]
      · have hno : ¬ h.opened fd = true := fun hyes => absurd (hopen.mp hyes).1 List.not_mem_nil
        simpa using hno
      · simp [Event.opens, Known]
    all_goals cases ht
  | dispatch pkt =>
    rcases horder.last with ⟨-, ht⟩ | ⟨hup, -⟩ | ⟨-, ht⟩ | ⟨-, ht⟩
    · cases ht
    · refine ⟨hopen.mpr hup.known, ?_, fun _ _ => rfl⟩
      exact iff_of_true (hopen.mpr hup.known) (hup.dispatch pkt).known
    all_goals cases ht
  | lostClient =>
    rcases horder.last with ⟨-, ht⟩ | ⟨-, _, ht⟩ | ⟨hup, -⟩ | ⟨-, ht⟩
    · cases ht
    · cases ht
    · refine ⟨hopen.mpr hup.known, ?_, fun n hn => Function.update_of_ne hn _ _⟩
      have hparted : Pkt.Parted (ts ++ [.lostClient]) := ⟨ts, hup, rfl⟩
      exact iff_of_false (by simp [Event.opens]) hparted.not_known
    · cases ht

/-! ## §3 — every step -/

/-- **The invariant.** -/
structure System.Sound (s : System) : Prop where
  reachable : Reachable (fun _ _ _ => True) s.host
  serving : s.hub.Serving Env.maxUsers
  opened : ∀ fd : Nat, s.host.opened fd = true ↔ Known (s.hub.trace fd)

omit [Env] in
theorem Pkt.Hub.trace_some {h : Pkt.Hub} {fd : Nat} {p : Pkt.Proc} (hp : h.proc fd = some p) :
    h.trace fd = p.conn.trace := by
  rw [Pkt.Hub.trace, hp]

omit [Env] in
theorem Pkt.Hub.trace_none {h : Pkt.Hub} {fd : Nat} (hp : h.proc fd = none) : h.trace fd = [] := by
  rw [Pkt.Hub.trace, hp]

omit [Env] in
theorem Pkt.Hub.Serving.inOrder {maxUsers : Nat} {h : Pkt.Hub} (hs : h.Serving maxUsers) (fd : Nat) :
    Pkt.InOrder (h.trace fd) := by
  cases hp : h.proc fd with
  | none =>
    rw [h.trace_none hp]
    exact .inl rfl
  | some p =>
    rw [h.trace_some hp]
    exact (hs.served fd p hp).inOrder

omit [Env] in
/-- What is outside the set the server does not know. -/
theorem Pkt.Hub.Serving.unknown {maxUsers : Nat} {h : Pkt.Hub} (hs : h.Serving maxUsers) {fd : Nat}
    (hout : ¬ h.set.Has fd) : ¬ Known (h.trace fd) := by
  cases hp : h.proc fd with
  | none =>
    rw [h.trace_none hp]
    exact fun hk => absurd hk.1 List.not_mem_nil
  | some p =>
    have hgone := hs.gone fd p hp hout
    rw [h.trace_some hp]
    cases hs.served fd p hp with
    | closed ht _ _ =>
      obtain ⟨ts, hparted, heq⟩ := ht
      dsimp only at heq ⊢
      rw [heq, known_closed]
      exact hparted.not_known
    | fresh _ hacc _ => cases hacc.symm.trans hgone
    | freed _ hraw _ => cases hraw.symm.trans hgone
    | up _ hserved _ | losing _ hserved =>
      dsimp only at hgone
      rw [hgone] at hserved
      cases hserved

omit [Env] in
/-- A step about one descriptor changes what is told of that one only. -/
theorem Pkt.HubStep.trace_other {maxUsers : Nat} {h h' : Pkt.Hub} {fd : Nat} {l : Pkt.Label}
    (hstep : Pkt.HubStep maxUsers (.move fd l) h h') {fd' : Nat} (hne : fd' ≠ fd) : h'.trace fd' = h.trace fd' := by
  cases hstep with
  | moveOpen | moveClosed => simp only [Pkt.Hub.trace, Function.update_of_ne hne]

omit [Env] in
/-- A descriptor that appears in the step has a connection. -/
theorem Pkt.HubStep.bound {maxUsers : Nat} {h h' : Pkt.Hub} {fd : Nat} {l : Pkt.Label}
    (hstep : Pkt.HubStep maxUsers (.move fd l) h h') (hs : h.Serving maxUsers) : fd < maxUsers := by
  cases hstep with
  | moveOpen hp | moveClosed hp => exact hs.bound fd _ hp

omit [Env] in
/-- A call tells the server nothing. -/
theorem Pkt.HubStep.trace_call {maxUsers : Nat} {h h' : Pkt.Hub} {fd : Nat} {a : Pkt.Action}
    (hstep : Pkt.HubStep maxUsers (.move fd (.call a)) h h') (hs : h.Serving maxUsers) : h'.trace fd = h.trace fd := by
  have hrun {c : Pkt.Conn} (hssl : c.cbuf.isSsl = false) : (a.run c).trace = c.trace := by
    cases a with
    | send pkt => exact (Pkt.pktservSend_untouched c pkt hssl).trace
    | disconnect => rfl
  cases hstep with
  | moveOpen hp _ hmove | moveClosed hp _ hmove =>
    have hssl := (hs.plain fd _ hp).isSsl
    cases hmove with
    | call _ _ =>
      rw [Pkt.Hub.trace_some hp, Pkt.Hub.trace_some (Function.update_self _ _ _)]
      exact hrun hssl

/-- A callback of a live server. -/
theorem Server.Reachable.raised {h : Host} {sys : Sys} {e : Event} (hr : Reachable (fun _ _ _ => True) h)
    (hlive : h.w.live) (he : e.enabled h) (hlive' : (h.after sys e).w.live) :
    Reachable (fun _ _ _ => True) (h.after sys e) :=
  hr.step trivial ⟨hlive, he, rfl⟩ hlive'

/-- **Every step that meets its condition keeps the two sides together.** -/
theorem SystemStep.sound {a : Act} {s s' : System} (hstep : SystemStep a s s') (hok : a.obliging s) (hs : s.Sound) :
    s'.Sound := by
  cases hstep with
  | @accept _ hub' fd w _ _ hhub =>
    refine ⟨hs.reachable, hhub.serving trivial hs.serving, fun fd' => ?_⟩
    show s.host.opened fd' = true ↔ Known (hub'.trace fd')
    cases hhub with
    | accept _ _ hlt hnew =>
      by_cases heq : fd' = fd
      · subst heq
        have hfresh : Pkt.Hub.trace ⟨Function.update s.hub.proc fd' (some (.accepted fd' w)), s.hub.set.addPollfd fd'⟩
            fd' = [] := by
          simp [Pkt.Hub.trace, Pkt.Proc.accepted]
        rw [hs.opened fd', hfresh]
        exact iff_of_false (hs.serving.unknown hnew) fun hk => absurd hk.1 List.not_mem_nil
      · rw [hs.opened fd']
        simp only [Pkt.Hub.trace, Function.update_of_ne heq]
  | @quiet _ hub' l _ hquiet hhub =>
    refine ⟨hs.reachable, hhub.serving (by cases l <;> first | exact trivial | cases hquiet) hs.serving, fun fd' => ?_⟩
    show s.host.opened fd' = true ↔ Known (hub'.trace fd')
    cases hhub with
    | accept | moveOpen | moveClosed => cases hquiet
    | opened fd hnew =>
      by_cases heq : fd' = fd
      · subst heq
        have hnobody : Pkt.Hub.trace ⟨Function.update s.hub.proc fd' none, s.hub.set.addPollfd fd'⟩ fd' = [] :=
          Pkt.Hub.trace_none (Function.update_self _ _ _)
        rw [hs.opened fd', hnobody]
        exact iff_of_false (hs.serving.unknown hnew) fun hk => absurd hk.1 List.not_mem_nil
      · rw [hs.opened fd']
        simp only [Pkt.Hub.trace, Function.update_of_ne heq]
    | closed | poll => exact hs.opened fd'
  | @move _ hub' fd l _ _ hhub htrace =>
    refine ⟨hs.reachable, hhub.serving hok hs.serving, fun fd' => ?_⟩
    show s.host.opened fd' = true ↔ Known (hub'.trace fd')
    rw [hs.opened fd']
    by_cases heq : fd' = fd
    · subst heq
      rcases htrace with hsame | hclosed
      · rw [hsame]
      · rw [hclosed, known_closed]
    · rw [hhub.trace_other heq]
  | @callback _ hub' fd l t sys e new _ hhub _ htrace hraise hlive hlive' _ =>
    have hserving := hhub.serving hok hs.serving
    have horder := hserving.inOrder fd
    rw [htrace] at horder
    obtain ⟨he, hself, hothers⟩ := hraise.enabled (hhub.bound hs.serving) horder (hs.opened fd)
    refine ⟨hs.reachable.raised hlive he hlive', hserving, fun fd' => ?_⟩
    show e.opens s.host.opened fd' = true ↔ Known (hub'.trace fd')
    by_cases heq : fd' = fd
    · subst heq
      rw [htrace]
      exact hself
    · rw [hothers fd' (by exact_mod_cast heq), hhub.trace_other heq]
      exact hs.opened fd'
  | idle _ _ hlive hlive' _ => exact ⟨hs.reachable.raised hlive trivial hlive', hs.serving, hs.opened⟩
  | @call _ hub' o os fd p _ hslot hp hhub =>
    have hpolite : (Pkt.HubLabel.move fd (.call o.action)).polite s.hub := fun p' hp' => hok fd p' hslot hp'
    refine ⟨hs.reachable, hhub.serving hpolite hs.serving, fun fd' => ?_⟩
    show s.host.opened fd' = true ↔ Known (hub'.trace fd')
    rw [hs.opened fd']
    by_cases heq : fd' = fd
    · subst heq
      rw [hhub.trace_call hs.serving]
    · rw [hhub.trace_other heq]
  | nobody => exact ⟨hs.reachable, hs.serving, hs.opened⟩

theorem Runs.snoc {a : Act} {ls : List Act} {s t t' : System} (h : Runs s ls t) (hstep : SystemStep a t t')
    (hok : a.obliging t) : Runs s (ls ++ [a]) t' :=
  Lib.Path.snoc a h ⟨hok, hstep⟩

theorem System.start_sound (sys : Sys) (db : Bytes → Option Bytes) : (System.start sys db).Sound := by
  refine ⟨.start sys db, Pkt.Hub.start_serving _, fun fd => ?_⟩
  exact iff_of_false Bool.false_ne_true fun hk => absurd hk.1 List.not_mem_nil

theorem Runs.sound {sys : Sys} {db : Bytes → Option Bytes} {ls : List Act} {s : System}
    (h : Runs (System.start sys db) ls s) : s.Sound :=
  h.invariant (System.start_sound sys db) fun _ _ _ hs hstep => hstep.2.sound hstep.1 hs

/-- What a step does in the packet layer. -/
theorem SystemStep.hub {a : Act} {s s' : System} (h : SystemStep a s s') :
    s'.hub = s.hub ∨ ∃ l, Pkt.HubStep Env.maxUsers l s.hub s'.hub := by
  cases h with
  | accept _ _ hhub | quiet _ _ hhub | move _ _ hhub _ | callback _ hhub | call _ _ _ hhub => exact .inr ⟨_, hhub⟩
  | idle | nobody => exact .inl rfl

/-- **Each side of the program runs as it does by itself.** In every run that meets the condition, the server is in
one of its reachable states, the packet layer has made a run of its own, and the two agree on the
connections that are open. -/
theorem sides_agree {sys : Sys} {db : Bytes → Option Bytes} {ls : List Act} {s : System}
    (h : Runs (System.start sys db) ls s) : Reachable (fun _ _ _ => True) s.host ∧
      (∃ ls', Lib.Path (Pkt.HubStep Env.maxUsers) .start ls' s.hub) ∧
      ∀ fd : Nat, s.host.opened fd = true ↔ Known (s.hub.trace fd) := by
  have hs := h.sound
  refine ⟨hs.reachable, ?_, hs.opened⟩
  refine h.invariant (I := fun s => ∃ ls', Lib.Path (Pkt.HubStep Env.maxUsers) .start ls' s.hub) ⟨[], .nil⟩ ?_
  rintro a t t' ⟨ls', hpath⟩ ⟨-, hstep⟩
  rcases hstep.hub with hsame | ⟨l, hhub⟩
  · exact ⟨ls', by rw [hsame]; exact hpath⟩
  · exact ⟨_, hpath.snoc l hhub⟩

end

/-! ## §4 — a client is greeted -/

/-- A packet layer with one connection. -/
def Pkt.Hub.single (p : Pkt.Proc) : Pkt.Hub :=
  ⟨Function.update Pkt.Hub.start.proc 1 (some p), Pkt.Hub.start.set.addPollfd 1⟩

@[simp] theorem Pkt.Hub.single_proc (p : Pkt.Proc) : (Pkt.Hub.single p).proc 1 = some p := by
  simp [single]

@[simp] theorem Pkt.Hub.single_trace (p : Pkt.Proc) : (Pkt.Hub.single p).trace 1 = p.conn.trace :=
  Pkt.Hub.trace_some (single_proc p)

theorem Pkt.Moves.single {l : Pkt.Label} {p p' : Pkt.Proc} (hm : Pkt.Moves l p p') (n : Nat)
    (hopen : p'.conn.cbuf.state ≠ .disconnected) : Pkt.HubStep n (.move 1 l) (.single p) (.single p') := by
  have hstep : Pkt.HubStep n _ _ _ :=
    .moveOpen (Pkt.Hub.single_proc p) (Pkt.PollSet.addPollfd_self _ _) hm
  rw [if_neg hopen] at hstep
  simpa only [Pkt.Hub.single, Function.update_idem] using hstep

section
attribute [local instance] smallEnv

/-- What the server sends first. -/
def greeting : Bytes := Server.packet pktProto (decimal protoLevel ++ sep ++ Env.thishost ++ sep ++ version)

/-- A client whose socket takes `k` bytes, in `new_client`. -/
def greetedConn (k : Nat) : Pkt.Conn :=
  (((Pkt.Proc.accepted 1 { writes := [.wrote k] }).conn.polled { pollout := true }).setState .wantHeader).report
    .newClient

/-- The program with one connection. -/
def oneClient (p : Pkt.Proc) : System :=
  { System.start {} fun _ => none with hub := .single p, taken := Function.update (fun _ => []) 1 [] }

/-- The client, when the first `poll` has returned. -/
def polledProc (k : Nat) : Pkt.Proc :=
  ⟨(Pkt.Proc.accepted 1 { writes := [.wrote k] }).conn.polled { pollout := true }, .running false true⟩

/-- The server has heard of the client. -/
def greetedHost : Host := (System.start {} fun _ => none).host.after {} (.connect 1 false none)

/-- The program when the server is about to greet. -/
def greetingSystem (k : Nat) : System :=
  { oneClient ⟨greetedConn k, .greeting false true⟩ with host := greetedHost, calls := [.send 1 greeting] }

/-- The program when the greeting has been sent. -/
def greetedSystem (k : Nat) : System where
  hub := .single ⟨(Out.send 1 greeting).action.run (greetedConn k), .greeting false true⟩
  host := greetedHost
  taken := Function.update (Function.update (fun _ => []) 1 []) 1 [greeting]

theorem greetedSystem_runs (k : Nat) : ∃ ls, Runs (System.start {} fun _ => none) ls (greetedSystem k) := by
  have hlive : (System.start {} fun _ => none).host.w.live := by decide +kernel
  have hlive' : greetedHost.w.live := by decide +kernel
  have hout : greetedHost.w.out = [.send 1 greeting] ++ (System.start {} fun _ => none).host.w.out := by
    decide +kernel
  have hsent : ((Out.send 1 greeting).action.run (greetedConn k)).cbuf.state ≠ .disconnected := by
    intro hs
    rcases Pkt.pktservSend_state (greetedConn k) (packetbuffer greeting) rfl with ⟨hdown, -⟩ | hcb
    · rcases hdown with hdown | hdown <;> cases hdown
    · rw [show (Pkt.pktservSend _ _).2.cbuf.state = _ from hs] at hcb
      cases hcb
  have hpolite {l : Pkt.Label} {p : Pkt.Proc} (h : l.polite p = true) :
      (Pkt.HubLabel.move 1 l).polite (.single p) := by
    intro p' hp'
    rw [Pkt.Hub.single_proc] at hp'
    rw [← Option.some.inj hp']
    exact h
  have haccept : SystemStep (.hub (.accept 1 { writes := [.wrote k] })) (System.start {} fun _ => none)
      (oneClient (.accepted 1 { writes := [.wrote k] })) :=
    .accept rfl rfl (.accept 1 _ (by decide) (by rintro ⟨i, hi, -⟩; exact absurd hi (Nat.not_lt_zero i)))
  have hpoll : SystemStep (.hub (.move 1 (.poll { pollout := true }))) (oneClient (.accepted 1 { writes := [.wrote k] }))
      (oneClient (polledProc k)) :=
    .move (.inl rfl) rfl ((Pkt.Moves.poll { pollout := true } rfl).single _ (by rintro ⟨⟩))
      (.inl (by simp [oneClient]; rfl))
  have hmoved : Pkt.HubStep Env.maxUsers (.move 1 .internal) (oneClient (polledProc k)).hub
      (.single ⟨greetedConn k, .greeting false true⟩) := (Pkt.Moves.greet rfl rfl).single _ (by rintro ⟨⟩)
  have hgreet : SystemStep (.callback 1 .internal {} (.connect 1 false none)) (oneClient (polledProc k))
      (greetingSystem k) :=
    .callback (t := .newClient) rfl hmoved rfl (by simp; rfl) (.newClient none) hlive hlive' hout
  have hcall : SystemStep (.call (.send 1 greeting)) (greetingSystem k) (greetedSystem k) := by
    have htakes : (greetedConn k).takes = true := rfl
    have hmove := Pkt.Moves.call (c := greetedConn k) (k := .greeting false true) (Out.send 1 greeting).action rfl
    have hstep := SystemStep.call (s := greetingSystem k) rfl rfl (Pkt.Hub.single_proc _) (hmove.single _ hsent)
    simpa [Out.takenBy, htakes, oneClient, greetingSystem, greetedSystem] using hstep
  refine ⟨_, (((Runs.snoc .nil haccept trivial).snoc hpoll (hpolite rfl)).snoc hgreet (hpolite rfl)).snoc hcall ?_⟩
  intro fd p hslot hp
  obtain rfl : fd = 1 := (Int.ofNat.inj hslot).symm
  obtain rfl := Option.some.inj ((Pkt.Hub.single_proc _).symm.trans hp)
  rfl

/-- The server knows the client it has greeted. -/
theorem sides_agree_greeted : ∃ ls, Runs (System.start {} fun _ => none) ls (greetedSystem 40) ∧
    (greetedSystem 40).host.opened 1 = true ∧ Reachable (fun _ _ _ => True) (greetedSystem 40).host := by
  obtain ⟨ls, hrun⟩ := greetedSystem_runs 40
  obtain ⟨hr, -, hopen⟩ := sides_agree hrun
  refine ⟨ls, hrun, (hopen 1).mpr ?_, hr⟩
  rw [greetedSystem, Pkt.Hub.single_trace]
  exact ⟨by decide, by decide⟩

end

end Icbd
