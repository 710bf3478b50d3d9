/-
# Icbd.Server.Drop — connections that are marked for it are dropped.

A refused login is not disconnected at once: it is marked in `S_kill`, so that the error messages still
reach the client, and the next poll is to disconnect it. The poll passes over every slot whose login
never got as far as `LOGIN_PENDING`, which is where most refusals leave it.
-/
import Icbd.Server.Frame

-- every bind doubles the size of the search's argument
set_option synthInstance.maxSize 1000000000000000000000000000000000000000000000000
set_option synthInstance.maxHeartbeats 200000

namespace Icbd.Server

open Icbd.Lib

section
variable [Env]

/-! ## §1 — calls into the packet layer -/

/-- The packet layer was called with `o` on the way from one world to the other. -/
def Called (o : Out) (w w' : World) : Prop := ∃ new, w'.out = new ++ w.out ∧ o ∈ new

/-- Calls are only added. -/
def Grows (w w' : World) : Prop := ∃ new, w'.out = new ++ w.out

/-- The packet layer was not asked to disconnect `n`. -/
def Undropped (n : Int) (w w' : World) : Prop := ∃ new, w'.out = new ++ w.out ∧ .disconnect n ∉ new

section
variable {n m k : Int} {w w' w'' : World} {o : Out}

omit [Env] in
theorem Undropped.same (h : w'.out = w.out) : Undropped n w w' := ⟨[], h, List.not_mem_nil⟩

omit [Env] in
theorem Undropped.sent {c : Bytes} : Undropped n w { w with out := .send m c :: w.out } :=
  ⟨[.send m c], rfl, by simp⟩

omit [Env] in
theorem Undropped.not_called (h : Undropped n w w') : ¬ Called (.disconnect n) w w' := by
  rintro ⟨new, hnew, hmem⟩
  obtain ⟨old, hold, hnot⟩ := h
  exact hnot (List.append_cancel_right (hold.symm.trans hnew) ▸ hmem)

omit [Env] in
theorem Undropped.grows (h : Undropped n w w') : Grows w w' := ⟨h.choose, h.choose_spec.1⟩

omit [Env] in
/-- A call that was not there before was made in between. -/
theorem Grows.called (h : Grows w w') (hnew : o ∈ w'.out) (hold : o ∉ w.out) : Called o w w' := by
  obtain ⟨new, hout⟩ := h
  exact ⟨new, hout, (List.mem_append.mp (hout ▸ hnew)).resolve_right hold⟩

instance : IsPreorder World Grows where
  refl _ := ⟨[], rfl⟩
  trans _ _ _ h₁ h₂ := by
    obtain ⟨new₁, h₁⟩ := h₁
    obtain ⟨new₂, h₂⟩ := h₂
    exact ⟨new₂ ++ new₁, by rw [h₂, h₁, List.append_assoc]⟩

omit [Env] in
theorem Called.later (h : Called o w w') (hG : Grows w' w'') : Called o w w'' := by
  obtain ⟨new, hnew, hmem⟩ := h
  obtain ⟨later, hlater⟩ := hG
  exact ⟨later ++ new, by rw [hlater, hnew, List.append_assoc], List.mem_append_right later hmem⟩

omit [Env] in
theorem Called.earlier (hG : Grows w w') (h : Called o w' w'') : Called o w w'' := by
  obtain ⟨old, hold⟩ := hG
  obtain ⟨new, hnew, hmem⟩ := h
  exact ⟨new ++ old, by rw [hnew, hold, List.append_assoc], List.mem_append_left old hmem⟩

instance : Base (Undropped n) where
  refl _ := .same rfl
  trans _ _ _ h₁ h₂ := by
    obtain ⟨new₁, h₁, hn₁⟩ := h₁
    obtain ⟨new₂, h₂, hn₂⟩ := h₂
    exact ⟨new₂ ++ new₁, by rw [h₂, h₁, List.append_assoc], by simp [hn₁, hn₂]⟩
  misc _ _ := .same rfl

instance : Tame (Undropped n) where
  toSends _ := ⟨fun _ _ => .sent⟩
  toUOpts _ := ⟨fun _ _ => .same rfl⟩
  gopts _ _ _ := .same rfl

instance : UGroupTo (Undropped n) m := ⟨fun _ _ => .same rfl⟩
instance : ModTo (Undropped n) m := ⟨fun _ _ => .same rfl⟩
instance : MissTo (Undropped n) := ⟨fun _ _ _ _ => .same rfl⟩
instance : GNameTo (Undropped n) := ⟨fun _ _ _ => .same rfl⟩

omit [Env] in
theorem Grows.same (h : w'.out = w.out) : Grows w w' := ⟨[], h⟩

instance : Calm Grows where
  refl _ := .same rfl
  trans _ _ _ h₁ h₂ := trans_of Grows h₁ h₂
  misc _ _ := .same rfl
  drops _ n := ⟨[.disconnect n], rfl⟩
  gopts _ _ _ := .same rfl
  toSends n := ⟨fun _ c => ⟨[.send n c], rfl⟩⟩
  toUOpts _ := ⟨fun _ _ => .same rfl⟩

instance : Callbacks Grows where
  toPlain _ := inferInstance
  toUNeat _ := inferInstance
  drops := Drops.drops
  gname _ _ _ := .same rfl
  miss _ _ _ _ := .same rfl
  toOpens _ := inferInstance
  toDb _ := ⟨fun _ _ _ => .same rfl⟩
  toNick _ _ := ⟨fun _ => .same rfl⟩
  toReal _ _ := ⟨fun _ => .same rfl⟩
  toIdent _ := ⟨fun _ _ _ _ => .same rfl⟩
  toUGroup _ := ⟨fun _ _ => .same rfl⟩
  toLogin _ _ := ⟨fun _ => .same rfl⟩
  toMod _ := ⟨fun _ _ => .same rfl⟩

/-- Packets reach the client of slot `n`. -/
def Listens (n : Int) (w : World) : Prop := n ∈ slots maxRealUsers ∧ w.sKill n ≤ 0

/-- No error was sent to `n`. -/
def NoError (n : Int) (w w' : World) : Prop :=
  w'.sKill = w.sKill ∧ ∃ new, w'.out = new ++ w.out ∧ ∀ c, .send n c ∈ new → c.head? ≠ some pktError

omit [Env] in
theorem NoError.same (hmarks : w'.sKill = w.sKill) (hout : w'.out = w.out) : NoError n w w' :=
  ⟨hmarks, [], hout, fun _ hc => absurd hc List.not_mem_nil⟩

instance : IsPreorder World (NoError n) where
  refl _ := .same rfl rfl
  trans _ _ _ h₁ h₂ := by
    obtain ⟨hmarks₁, new₁, h₁, hn₁⟩ := h₁
    obtain ⟨hmarks₂, new₂, h₂, hn₂⟩ := h₂
    refine ⟨hmarks₂.trans hmarks₁, new₂ ++ new₁, by rw [h₂, h₁, List.append_assoc], fun c hc => ?_⟩
    exact (List.mem_append.mp hc).elim (hn₂ c) (hn₁ c)

instance : Within (NoError n) getW := ⟨fun _ => .same rfl rfl⟩
instance : Within (NoError n) (getU k) := ⟨fun _ => .same rfl rfl⟩
instance : Within (NoError n) (getG k) := ⟨fun _ => .same rfl rfl⟩

/-- A status message is no error. -/
instance {cls msg : Bytes} : Within (NoError n) (sendstatus k cls msg) where
  within w := by
    show wp (sendstatus k cls msg) (fun _ w' => NoError n w w') w
    refine wp_bind (wp_getW (wp_whenever (fun _ => ?_) fun _ => .same rfl rfl))
    refine ⟨rfl, [_], rfl, fun c hc => ?_⟩
    cases List.mem_singleton.mp hc
    exact nofun

instance {j : Nat} {tellme : Bool} {cls msg : Bytes} : Within (NoError n) (sStatusGroup j tellme k cls msg) := by
  unfold sStatusGroup
  infer_instance

/-- One call: an error. -/
theorem senderror_out {msg : Bytes} (h : Listens n w) :
    (senderror n msg w).2.out = .send n (packet pktError (filtertext msg maxPktData)) :: w.out := by
  obtain ⟨h0, hmax⟩ := mem_slots.mp h.1
  show wp (senderror n msg) (fun _ w' => w'.out = _) w
  exact wp_bind (wp_getW (wp_whenever (fun _ => rfl) fun hno => absurd ⟨h0, hmax, h.2⟩ hno))

/-- Every callback only adds calls. -/
theorem Host.grows (h : Host) (sys : Sys) (e : Event) : Grows h.w (h.after sys e).w :=
  (inferInstance : Within (OnWorld Grows) e.prog).within (h.toDaemon.at sys)

/-! ## §2 — the marks during a poll -/

/-- The users and the marks are as they were. -/
structure SameMarks (w w' : World) : Prop where
  users : w'.uTab = w.uTab
  marks : w'.sKill = w.sKill

instance : IsPreorder World SameMarks where
  refl _ := ⟨rfl, rfl⟩
  trans _ _ _ h₁ h₂ := ⟨h₂.users.trans h₁.users, h₂.marks.trans h₁.marks⟩

instance : Within SameMarks getW := ⟨fun _ => ⟨rfl, rfl⟩⟩
instance : Within SameMarks (getU k) := ⟨fun _ => ⟨rfl, rfl⟩⟩
instance : Within SameMarks (emit o) := ⟨fun _ => ⟨rfl, rfl⟩⟩

instance {cls msg : Bytes} : Within SameMarks (importAll cls msg) := by
  unfold importAll sendimport doSend
  infer_instance

instance {secs : Int} {msg : Bytes} : Within SameMarks (warnShutdown k secs msg) := by
  have : Within SameMarks (modMisc fun m => { m with shutdownNotify := m.shutdownNotify + 1 }) :=
    ⟨fun _ => ⟨rfl, rfl⟩⟩
  unfold warnShutdown
  infer_instance

instance : Within SameMarks (killMarked k) := by
  have : Within SameMarks
      (modMisc fun m => { m with stats := { m.stats with drops := m.stats.drops + 1 } }) :=
    ⟨fun _ => ⟨rfl, rfl⟩⟩
  unfold killMarked pktservDisconnect
  infer_instance

/-- Is `n` a slot the poll takes for marked? -/
def markSeen (w : World) (n : Int) : Prop := (w.uTab n).login ≠ .no ∧ w.sKill n > 0

omit [Env] in
theorem SameMarks.markSeen (h : SameMarks w w') : markSeen w' n ↔ markSeen w n := by
  rw [Server.markSeen, Server.markSeen, h.users, h.marks]

theorem killMarked_seen (h : markSeen w n) : Called (.disconnect n) w (killMarked n w).2 := by
  show wp (killMarked n) (fun _ w' => Called (.disconnect n) w w') w
  refine wp_bind (wp_getW (wp_bind (wp_getU (wp_whenever (fun _ => ?_) fun hno => absurd h hno))))
  exact ⟨[.disconnect n], rfl, List.mem_singleton_self _⟩

theorem killMarked_unseen (h : ¬ markSeen w n) (k : Int) : Undropped n w (killMarked k w).2 := by
  show wp (killMarked k) (fun _ w' => Undropped n w w') w
  refine wp_bind (wp_getW (wp_bind (wp_getU (wp_whenever (fun hseen => ?_) fun _ => .same rfl))))
  have hne : n ≠ k := by
    rintro rfl
    exact h hseen
  exact ⟨[.disconnect k], rfl, by simpa using hne⟩

instance : Within Grows (killMarked k) where
  within w := by
    show wp (killMarked k) (fun _ w' => Grows w w') w
    refine wp_bind (wp_getW (wp_bind (wp_getU (wp_whenever (fun _ => ?_) fun _ => refl_of Grows w))))
    exact ⟨[.disconnect k], rfl⟩

/-! ## §3 — the poll -/

theorem killLoop_seen (hn : n ∈ slots maxRealUsers) (h : markSeen w n) :
    Called (.disconnect n) w (each (slots maxRealUsers) killMarked w).2 := by
  show wp (each (slots maxRealUsers) killMarked) (fun _ => Called (.disconnect n) w) w
  refine wp_each_of_mem (J := fun w' => Grows w w' ∧ markSeen w' n) hn ?_ ?_ ?_ ⟨refl_of Grows w, h⟩
  · exact fun w' h' => .earlier h'.1 (killMarked_seen h'.2)
  · exact fun k _ w' hc => hc.later (Within.within w')
  · intro k _ w' h'
    have hM : SameMarks w' (killMarked k w').2 := Within.within w'
    exact ⟨trans_of Grows h'.1 (Within.within w'), hM.markSeen.mpr h'.2⟩

theorem killLoop_unseen (h : ¬ markSeen w n) :
    Undropped n w (each (slots maxRealUsers) killMarked w).2 := by
  refine (wp_each (I := fun w' => Undropped n w w' ∧ ¬ markSeen w' n) (fun k _ w' h' => ?_)
    ⟨.same rfl, h⟩).1
  have hM : SameMarks w' (killMarked k w').2 := Within.within w'
  exact ⟨trans_of (Undropped n) h'.1 (killMarked_unseen h'.2 k), fun hs => h'.2 (hM.markSeen.mp hs)⟩

/-- Does the poll end the server? -/
def timeIsUp (w : World) : Prop := w.sys.now ≥ w.timeToDie ∧ w.timeToDie > 0

/-- **A poll disconnects exactly the slots it takes for marked**, unless it ends the server. -/
theorem sDidpoll_called (hn : n ∈ slots maxRealUsers) :
    Called (.disconnect n) w (sDidpoll w).2 ↔ markSeen w n ∧ ¬ timeIsUp w := by
  by_cases hup : timeIsUp w
  · have hout : Undropped n w (sDidpoll w).2 := by
      show wp sDidpoll (fun _ w' => Undropped n w w') w
      exact wp_bind (wp_getW (wp_ite (fun _ => Undropped.same rfl) fun hno => absurd hup hno))
    exact ⟨fun hc => absurd hc hout.not_called, fun h => absurd hup h.2⟩
  -- up to the loop over the marks, nothing they depend on changes
  have hpoll {P : World → Prop} (h : ∀ w₁, Undropped n w w₁ → SameMarks w w₁ → ∀ w₂,
      Undropped n (each (slots maxRealUsers) killMarked w₁).2 w₂ → P w₂) : P (sDidpoll w).2 := by
    show wp sDidpoll (fun _ => P) w
    refine wp_bind (wp_getW (wp_ite (fun hu => absurd hu hup) fun _ => ?_))
    refine wp_after (wp_after (wp_after (Within.wp (Undropped n) fun _ w₂ h₂ => h _ ?_ ?_ w₂ h₂)))
    · exact trans_of (Undropped n) (Within.within w) (Within.within _)
    · exact trans_of SameMarks (Within.within w) (Within.within _)
  by_cases hseen : markSeen w n
  · refine ⟨fun _ => ⟨hseen, hup⟩, fun _ => hpoll fun w₁ hU hM w₂ hU₂ => ?_⟩
    have hloop := killLoop_seen hn (hM.markSeen.mpr hseen)
    exact (Called.earlier hU.grows hloop).later hU₂.grows
  · refine ⟨fun hc => ?_, fun h => absurd h.1 hseen⟩
    refine absurd hc (hpoll (P := fun w₂ => ¬ Called (.disconnect n) w w₂) fun w₁ hU hM w₂ hU₂ => ?_)
    have hloop := killLoop_unseen (fun hs => hseen (hM.markSeen.mp hs))
    exact (trans_of (Undropped n) hU (trans_of (Undropped n) hloop hU₂)).not_called

end

theorem didpoll_called {h : Host} {sys : Sys} {n : Int} (hn : n ∈ slots maxRealUsers) :
    Called (.disconnect n) h.w (h.after sys .didpoll).w ↔
      markSeen h.w n ∧ ¬ timeIsUp (h.toDaemon.at sys).w :=
  sDidpoll_called (w := (h.toDaemon.at sys).w) hn

/-- **Marked connections are dropped by the next poll** if and only if their login has got past its
first checks, the mark has not overflowed, and the poll does not end the server. -/
theorem marked_dropped_iff {h : Host} {sys : Sys} {n : Int} (hn : n ∈ slots maxRealUsers) :
    (h.w.sKill n ≠ 0 → Called (.disconnect n) h.w (h.after sys .didpoll).w) ↔
      (h.w.sKill n ≠ 0 → (h.w.uTab n).login ≠ .no ∧ h.w.sKill n > 0 ∧
        ¬ (sys.now ≥ h.w.timeToDie ∧ h.w.timeToDie > 0)) := by
  exact imp_congr_right fun _ => (didpoll_called hn).trans and_assoc

end

section
attribute [local instance] smallEnv

/-- A new server to which one client has sent a login. -/
def loggedIn (nick group : String) : Host :=
  Host.run {} { w := startup {} fun _ => none }
    [.connect 1 false none, .packet 1 (loginPkt "one" nick group "")]

/-- A client who asks for the automatic user's group is refused late, and the poll drops him. -/
theorem marked_dropped_late : (loggedIn "first" "ICB").w.sKill 1 ≠ 0 ∧
    Called (.disconnect 1) (loggedIn "first" "ICB").w ((loggedIn "first" "ICB").after {} .didpoll).w := by
  have hfacts : ((loggedIn "first" "ICB").w.uTab 1).login ≠ .no ∧
      (loggedIn "first" "ICB").w.sKill 1 > 0 ∧ (loggedIn "first" "ICB").w.timeToDie = -1 := by
    decide +kernel
  obtain ⟨hlogin, hmark, htime⟩ := hfacts
  have hset : (loggedIn "first" "ICB").w.sKill 1 ≠ 0 := hmark.ne'
  refine ⟨hset, (marked_dropped_iff (mem_slots.mpr (by decide))).mpr (fun _ => ⟨hlogin, hmark, ?_⟩) hset⟩
  rw [htime]
  decide

/-- A client without a name is refused early, and stays. -/
theorem marked_stays : ∃ h : Host, Reachable (fun _ _ _ => True) h ∧ h.opened 1 ∧ h.w.sKill 1 > 0 ∧
    ¬ Called (.disconnect 1) h.w (h.after {} .didpoll).w := by
  have hrun : Host.follows (fun _ _ _ => True) {} { w := startup {} fun _ => none }
      [.connect 1 false none, .packet 1 (loginPkt "one" "" "1" "")] := by decide +kernel
  have hfacts : (loggedIn "" "1").opened 1 ∧ (loggedIn "" "1").w.sKill 1 > 0 ∧
      ((loggedIn "" "1").w.uTab 1).login = .no := by decide +kernel
  obtain ⟨hopen, hmark, hlogin⟩ := hfacts
  have hr : Reachable (fun _ _ _ => True) (loggedIn "" "1") :=
    (Reachable.start {} fun _ => none).run hrun
  refine ⟨loggedIn "" "1", hr, hopen, hmark, fun hc => ?_⟩
  exact ((didpoll_called (mem_slots.mpr (by decide))).mp hc).1.1 hlogin

end

end Icbd.Server
