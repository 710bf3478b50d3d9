/-
# Icbd.Server.Admission — what a connection can do before it is logged in.

Until `loginmsg` accepts a login, the packets of a connection write its own slot and answer it. Two
things reach others. A login under a registered nick gets back the groups it moderated when it signed
off, and their members are told. A login that is then turned away at the door of its group is reported
to the moderator.
-/
import Icbd.Server.Moderator

-- every bind doubles the size of the search's argument
set_option synthInstance.maxSize 1000000000000000000000000000000000000000000000000
set_option synthInstance.maxHeartbeats 200000

namespace Icbd.Server

open Icbd.Lib

section
variable [Env]

/-! ## §1 — what may happen -/

/-- A message on behalf of `n`: to `n` himself, or a `Mod` or `Probe` notice. -/
def Quiet (n : Int) : Out → Prop
  | .send dest c => dest = n ∨ (∃ msg, c = packet pktStatus (classText (str "Mod") msg)) ∨
      ∃ msg, c = packet pktStatus (classText (str "Probe") msg)
  | .disconnect _ => False

/-- What was sent is quiet. -/
def SendsQuietly (n : Int) (w w' : World) : Prop :=
  ∃ new, w'.out = new ++ w.out ∧ ∀ o ∈ new, Quiet n o

/-- Only the slot of `n` is written. -/
structure Own (n : Int) (w w' : World) : Prop where
  users : ∀ j, j ≠ n → w'.uTab j = w.uTab j
  groups : w'.gTab = w.gTab
  sends : SendsQuietly n w w'

/-- The group entry `g` with its missing moderator back in slot `n`. -/
def Regained (n : Int) (nick : Bytes) (g g' : Group) : Prop :=
  0 < g.modtimeout ∧ g.missingmod = nick ∧
    g' = { g with mod := n, missingmod := [], modtimeout := 0 }

/-- Only the slot of `n` is written, his nickname, group and login state apart, and groups are given
back to him. -/
structure Regains (n : Int) (w w' : World) : Prop where
  users : ∀ j, j ≠ n → w'.uTab j = w.uTab j
  nick : (w'.uTab n).nickname = (w.uTab n).nickname
  group : (w'.uTab n).group = (w.uTab n).group
  login : (w'.uTab n).login = (w.uTab n).login
  groups : ∀ i, w'.gTab i = w.gTab i ∨ Regained n (w.uTab n).nickname (w.gTab i) (w'.gTab i)
  sends : SendsQuietly n w w'

section
variable {n : Int} {w w' w'' : World}

omit [Env] in
theorem SendsQuietly.same (h : w'.out = w.out) : SendsQuietly n w w' := ⟨[], h, nofun⟩

omit [Env] in
theorem SendsQuietly.one {o : Out} (ho : Quiet n o) : SendsQuietly n w { w with out := o :: w.out } :=
  ⟨[o], rfl, by simpa using ho⟩

omit [Env] in
theorem SendsQuietly.trans (h₁ : SendsQuietly n w w') (h₂ : SendsQuietly n w' w'') :
    SendsQuietly n w w'' := by
  obtain ⟨l₁, e₁, q₁⟩ := h₁
  obtain ⟨l₂, e₂, q₂⟩ := h₂
  refine ⟨l₂ ++ l₁, by rw [e₂, e₁, List.append_assoc], fun o ho => ?_⟩
  exact (List.mem_append.mp ho).elim (q₂ o) (q₁ o)

omit [Env] in
theorem Own.trans (h₁ : Own n w w') (h₂ : Own n w' w'') : Own n w w'' where
  users j hj := (h₂.users j hj).trans (h₁.users j hj)
  groups := h₂.groups.trans h₁.groups
  sends := h₁.sends.trans h₂.sends

omit [Env] in
theorem Regains.trans (h₁ : Regains n w w') (h₂ : Regains n w' w'') : Regains n w w'' where
  users j hj := (h₂.users j hj).trans (h₁.users j hj)
  nick := h₂.nick.trans h₁.nick
  group := h₂.group.trans h₁.group
  login := h₂.login.trans h₁.login
  sends := h₁.sends.trans h₂.sends
  groups i := by
    obtain e₂ | g₂ := h₂.groups i
    · rw [e₂]
      exact h₁.groups i
    · rw [h₁.nick] at g₂
      obtain e₁ | g₁ := h₁.groups i
      · rw [e₁] at g₂
        exact .inr g₂
      · -- what was given back has no timeout any more
        have := g₂.1
        rw [g₁.2.2] at this
        exact absurd this (Int.lt_irrefl 0)

omit [Env] in
theorem Own.modU {f : User → User} : Own n w (w.modU n f) where
  users _ hj := Function.update_of_ne hj _ _
  groups := rfl
  sends := .same rfl

omit [Env] in
theorem Regains.modU {f : User → User} (hnick : ∀ u, (f u).nickname = u.nickname)
    (hgroup : ∀ u, (f u).group = u.group) (hlogin : ∀ u, (f u).login = u.login) :
    Regains n w (w.modU n f) where
  users _ hj := Function.update_of_ne hj _ _
  nick := by simp [World.modU, hnick]
  group := by simp [World.modU, hgroup]
  login := by simp [World.modU, hlogin]
  groups _ := .inl rfl
  sends := .same rfl

end

section
variable {n : Int} {v : Bytes} {l : Login} {key : String}

instance : Base (Own n) where
  refl _ := ⟨fun _ _ => rfl, rfl, .same rfl⟩
  trans _ _ _ := Own.trans
  misc _ _ := ⟨fun _ _ => rfl, rfl, .same rfl⟩

instance : SendsTo (Own n) n := ⟨fun _ _ => ⟨fun _ _ => rfl, rfl, .one (.inl rfl)⟩⟩
instance : UOpts (Own n) n := ⟨fun _ _ => .modU⟩
instance : IdentTo (Own n) n := ⟨fun _ _ _ _ => .modU⟩
instance : NickTo (Own n) n v := ⟨fun _ => .modU⟩
instance : UGroupTo (Own n) n := ⟨fun _ _ => .modU⟩
instance : LoginTo (Own n) n l := ⟨fun _ => .modU⟩

instance : Base (Regains n) where
  refl _ := ⟨fun _ _ => rfl, rfl, rfl, rfl, fun _ => .inl rfl, .same rfl⟩
  trans _ _ _ := Regains.trans
  misc _ _ := ⟨fun _ _ => rfl, rfl, rfl, rfl, fun _ => .inl rfl, .same rfl⟩

instance : SendsTo (Regains n) n :=
  ⟨fun _ _ => ⟨fun _ _ => rfl, rfl, rfl, rfl, fun _ => .inl rfl, .one (.inl rfl)⟩⟩

instance : DbTo (Regains n) key :=
  ⟨fun _ _ _ => ⟨fun _ _ => rfl, rfl, rfl, rfl, fun _ => .inl rfl, .same rfl⟩⟩

instance : UOpts (Regains n) n := ⟨fun _ _ => .modU (fun _ => rfl) (fun _ => rfl) fun _ => rfl⟩
instance : IdentTo (Regains n) n :=
  ⟨fun _ _ _ _ => .modU (fun _ => rfl) (fun _ => rfl) fun _ => rfl⟩
instance : RealTo (Regains n) n v := ⟨fun _ => .modU (fun _ => rfl) (fun _ => rfl) fun _ => rfl⟩

end

/-! ## §2 — groups given back -/

section
variable {n j : Int} {msg : Bytes}

omit [Env] in
theorem Regains.one {w : World} {o : Out} (ho : Quiet n o) :
    Regains n w { w with out := o :: w.out } :=
  ⟨fun _ _ => rfl, rfl, rfl, rfl, fun _ => .inl rfl, .one ho⟩

instance : Within (Regains n) (sendstatus j (str "Mod") msg) where
  within w := by
    change wp (doSend j _) (fun _ => Regains n w) w
    refine wp_bind (wp_getW (wp_whenever (fun _ => ?_) fun _ => refl_of (Regains n) w))
    exact .one (.inr (.inl ⟨msg, rfl⟩))

instance : Within (Regains n) (sendstatus j (str "Probe") msg) where
  within w := by
    change wp (doSend j _) (fun _ => Regains n w) w
    refine wp_bind (wp_getW (wp_whenever (fun _ => ?_) fun _ => refl_of (Regains n) w))
    exact .one (.inr (.inr ⟨msg, rfl⟩))

omit [Env] in
/-- One group is given back. -/
theorem Regains.give {w : World} {i : Int}
    (h : 0 < (w.gTab i).modtimeout ∧ (w.gTab i).missingmod = (w.uTab n).nickname) :
    Regains n w (setMod i n (setMissing i [] 0 w).2).2 where
  users _ _ := rfl
  nick := rfl
  group := rfl
  login := rfl
  sends := .same rfl
  groups k := by
    by_cases hk : k = i
    · subst hk
      exact .inr ⟨h.1, h.2, by simp [setMod, setMissing, World.modG]⟩
    · exact .inl (by simp [setMod, setMissing, World.modG, Function.update_of_ne hk])

instance : Within (Regains n) (regainMods n) := by
  have hbody (i : Int) : Within (Regains n) (do
      let u ← getU n
      let g ← getG i
      whenever (g.modtimeout > 0 ∧ g.missingmod = u.nickname) do
        setMissing i [] 0
        setMod i n
        each ((slots maxRealUsers).drop 1) fun j => do
          let v ← getU j
          whenever (strcaseEq v.group g.name ∧ j ≠ n)
            (sendstatus j (str "Mod") (u.nickname ++ str " is the active moderator again."))
        sendstatus n (str "Mod") (str "You are the moderator of group " ++ g.name)) := by
    refine ⟨fun w => ?_⟩
    change wp _ (fun _ => Regains n w) w
    have hget : Regains n w (getG i (getU n w).2).2 :=
      trans_of (Regains n) (Within.within w) (Within.within _)
    refine wp_bind (wp_getU (wp_bind (wp_getG (wp_whenever (fun hc => ?_) fun _ => hget))))
    refine wp_after (wp_after (Within.wp (Regains n) fun _ _ h => ?_))
    have hgive : Regains n (getG i (getU n w).2).2
        (setMod i n (setMissing i [] 0 (getG i (getU n w).2).2).2).2 := .give hc
    exact trans_of (Regains n) hget (trans_of (Regains n) hgive h)
  unfold regainMods
  infer_instance

instance {i : Int} : Within (Regains n) (probe n i msg) := by
  unfold probe
  infer_instance

/-- A silent check of a record tells nobody anything. -/
theorem nicklookup_silent {R : World → World → Prop} [Base R] [SendsTo R n] (hn : 0 ≤ n)
    (nick : Bytes) : Within R (nicklookup (-n) nick) := by
  by_cases h0 : n = 0
  · subst h0
    change Within R (nicklookup 0 nick)
    infer_instance
  have hsend (c : Bytes) : Within R (doSend (-n) c) := by
    refine ⟨fun w => ?_⟩
    change wp (doSend (-n) c) (fun _ => R w) w
    exact wp_bind (wp_getW (wp_whenever (fun hc => absurd hc.1 (by omega)) fun _ => refl_of R w))
  have herror (msg : Bytes) : Within R (senderror (-n) msg) := hsend _
  have hout (msg : Bytes) : Within R (sendsCmdout (-n) msg) := hsend _
  refine ⟨fun w => ?_⟩
  change wp (nicklookup (-n) nick) (fun _ => R w) w
  refine wp_after (wp_ite (fun _ => Within.within w) fun _ => wp_ite (fun _ => Within.within w) fun _ => ?_)
  refine wp_ite (fun _ => ?_) fun _ => Within.within w
  exact wp_ite (fun hpos => absurd hpos (by omega)) fun _ => Within.within w

end

/-! ## §3 — turned away -/

section
variable {w : World} {n i : Int} {name target : Bytes} {vis : Visibility} {flag : Bool}

omit [Env] in
/-- A new group is public or moderated by whoever opened it. -/
theorem createGroup_entry :
    let g := (createGroup n i name vis w).2.gTab i
    g.control = .pub ∨ g.control = .moderated ∧ g.mod = n := by
  unfold createGroup
  simp only [bind_apply]
  split_ifs <;> simp [setGroupName, modGOpts, setMod, World.modG]

omit [Env] in
theorem createGroup_uTab : (createGroup n i name vis w).2.uTab = w.uTab := by
  unfold createGroup
  simp only [bind_apply]
  split_ifs <;> rfl

/-- `s_change` into an existing group that answers no has told the user and perhaps the moderator. -/
theorem joinGroup_refused :
    wp (joinGroup n i name flag) (fun ok w' => ok = true ∨ Regains n w w') w := by
  have hget : Regains n w (getU n w).2 := Within.within w
  have hquiet {x : W Bool} [Within (Regains n) x] :
      wp x (fun ok w' => ok = true ∨ Regains n w w') (getU n w).2 :=
    .inr (trans_of (Regains n) hget (Within.within _))
  refine wp_bind (wp_getW (wp_bind (wp_getU ?_)))
  refine wp_ite (fun _ => hquiet) fun _ => wp_ite (fun _ => hquiet) fun _ => ?_
  exact wp_ite (fun _ => hquiet) fun _ => wp_after (.inl rfl)

/-- A new group lets its founder in. -/
theorem joinGroup_new (hi : 0 ≤ i) (hgroup : (w.uTab n).group = [])
    (hentry : (w.gTab i).control = .pub ∨ (w.gTab i).control = .moderated ∧ (w.gTab i).mod = n) :
    wp (joinGroup n i name flag) (fun ok _ => ok = true) w := by
  have henter : mayEnter w n i = true := by
    unfold mayEnter
    obtain h | ⟨h, -⟩ := hentry <;> simp [h]
  have hroom : isFull w n i = false := by
    unfold isFull
    obtain h | ⟨h, hmod⟩ := hentry
    · simp [h]
    · simp [h, hmod]
  refine wp_bind (wp_getW (wp_bind (wp_getU ?_)))
  refine wp_ite (fun h => absurd henter h) fun _ => wp_ite (fun h => ?_) fun _ => ?_
  · rw [hroom] at h
    cases h
  refine wp_ite (fun h => ?_) fun _ => wp_after rfl
  rw [hgroup] at h
  exact absurd h (by simp [findGroup]; omega)

theorem enterGroup_refused (hgroup : (w.uTab n).group = []) :
    wp (enterGroup n target flag) (fun ok w' => ok = true ∨ Regains n w w') w := by
  have hquiet {x : W Bool} [Within (Regains n) x] :
      wp x (fun ok w' => ok = true ∨ Regains n w w') w := .inr (Within.within w)
  refine wp_bind (wp_getW (wp_ite (fun _ => hquiet) fun _ => wp_ite (fun _ => hquiet) fun _ => ?_))
  refine wp_ite (fun _ => hquiet) fun hroom => ?_
  by_cases hfound : findGroup w (filtergroupname (parseTarget target).1) < 0
  · -- a group that is opened here is entered, so the opening itself is never undone
    rw [whenever_pos hfound, if_pos hfound]
    refine wp_after (.inl (joinGroup_new (by omega) ?_ createGroup_entry))
    rw [createGroup_uTab, hgroup]
  · rw [whenever_neg hfound, if_neg hfound]
    exact joinGroup_refused

theorem sChange_refused (hgroup : (w.uTab n).group = []) :
    wp (sChange n target flag) (fun ok w' => ok = true ∨ Regains n w w') w := by
  refine wp_bind (Within.wp (Regains n) fun t w₁ h₁ => wp_ite (fun _ => ?_) fun _ => .inr h₁)
  obtain hok | hno : wp (enterGroup n (t.getD []) (flag && target.head? ≠ some 64))
      (fun ok w' => ok = true ∨ Regains n w₁ w') w₁ := enterGroup_refused (h₁.group.trans hgroup)
  · exact .inl hok
  · exact .inr (trans_of (Regains n) h₁ hno)

end

/-! ## §4 — a login packet -/

/-- How far a connection may get: it is logged in, or it has written its own slot, and once its login
was pending it has got groups back. -/
def Progress (n : Int) (w w' : World) : Prop :=
  w'.logins n = .complete ∨
    match w.logins n with
    | .complete => False
    | .pending => Regains n w w'
    | .no => Own n w w' ∨ w'.logins n = .pending ∧ ∃ w₁, Own n w w₁ ∧ Regains n w₁ w'

section
variable {w w' w'' : World} {n : Int} {a b c p : Bytes}

omit [Env] in
/-- What is both is allowed in every state. -/
theorem Progress.of (hown : Own n w w') (hreg : Regains n w w') : Progress n w w' := by
  unfold Progress
  cases hl : w.logins n with
  | complete => exact .inl (hreg.login.trans hl)
  | pending => exact .inr hreg
  | no => exact .inr (.inl hown)

omit [Env] in
/-- A slot that is logged in stays so. -/
theorem Progress.complete (h : Progress n w w') (hl : w.logins n = .complete) :
    w'.logins n = .complete := by
  unfold Progress at h
  rw [hl] at h
  exact h.resolve_right id

omit [Env] in
theorem Progress.trans (h₁ : Progress n w w') (h₂ : Progress n w' w'') : Progress n w w'' := by
  by_cases hc : w'.logins n = .complete
  · exact .inl (h₂.complete hc)
  by_cases hc' : w''.logins n = .complete
  · exact .inl hc'
  refine .inr ?_
  have h₁ := h₁.resolve_left hc
  have h₂ := h₂.resolve_left hc'
  cases hl : w.logins n with
  | complete => simp [hl] at h₁
  | pending =>
    simp only [hl] at h₁ ⊢
    simp only [show w'.logins n = .pending from h₁.login.trans hl] at h₂
    exact h₁.trans h₂
  | no =>
    simp only [hl] at h₁ ⊢
    cases hl' : w'.logins n with
    | complete => exact absurd hl' hc
    | pending =>
      simp only [hl'] at h₂
      have hpending : w''.logins n = .pending := h₂.login.trans hl'
      obtain hown | ⟨-, w₁, hown, hreg⟩ := h₁
      · exact .inr ⟨hpending, w', hown, h₂⟩
      · exact .inr ⟨hpending, w₁, hown, hreg.trans h₂⟩
    | no =>
      simp only [hl'] at h₂
      have hown : Own n w w' := by
        obtain hown | ⟨hpending, -⟩ := h₁
        · exact hown
        · rw [hl'] at hpending
          cases hpending
      obtain h | ⟨hpending, w₁, h, hreg⟩ := h₂
      · exact .inl (hown.trans h)
      · exact .inr ⟨hpending, w₁, hown.trans h, hreg⟩

instance : Base (Progress n) where
  refl w := .of (refl_of (Own n) w) (refl_of (Regains n) w)
  trans _ _ _ := Progress.trans
  misc w m := .of (Base.misc w m) (Base.misc w m)

instance : SendsTo (Progress n) n := ⟨fun w c => .of (SendsTo.sends w c) (SendsTo.sends w c)⟩

/-- The login once its entry is filled in: it is accepted, or it has got groups back. -/
theorem enterServer_refused (hn : 0 ≤ n) (hgroup : (w.uTab n).group = []) :
    wp (enterServer n a) (fun _ w' => w'.logins n = .complete ∨
      w'.logins n = .pending ∧ ∃ w₁, Own n w w₁ ∧ Regains n w₁ w') w := by
  have hown : Own n w (startSession n w).2 := Within.within w
  have hlogin : ((startSession n w).2.uTab n).login = .pending := by
    simp [startSession, setLogin, modUOpts, World.modU]
  have hgroup₁ : ((startSession n w).2.uTab n).group = [] := by
    simp [startSession, setLogin, modUOpts, World.modU, hgroup]
  have hlookup (nick : Bytes) : Within (Regains n) (nicklookup (-n) nick) := nicklookup_silent hn nick
  refine wp_after ?_
  generalize (startSession n w).2 = w₁ at hown hlogin hgroup₁
  refine wp_bind (Within.wp (Regains n) fun u w₂ h₂ => ?_)
  refine wp_bind (Within.wp (Regains n) fun _ w₃ h₃ => ?_)
  refine wp_bind (Within.wp (Regains n) fun _ w₄ h₄ => ?_)
  refine wp_bind (Within.wp (Regains n) fun _ w₅ h₅ => ?_)
  have h : Regains n w₁ w₅ := ((h₂.trans h₃).trans h₄).trans h₅
  have hchange : wp (sChange n a true) (fun ok w' => ok = true ∨ Regains n w₅ w') w₅ :=
    sChange_refused (h.group.trans hgroup₁)
  refine wp_after (wp_ite (fun _ => ?_) fun hno => ?_)
  · refine wp_after (Within.wp (LoginSame fun _ => True) fun _ w' hsame => .inl ?_)
    rw [hsame n trivial]
    simp [setLogin, World.logins, World.modU]
  · have hrefused : Regains n w₁ (sChange n a true w₅).2 := h.trans (hchange.resolve_left hno)
    exact .inr ⟨hrefused.login.trans hlogin, w₁, hown, hrefused⟩

/-- The login from the point where its entry is filled in. -/
theorem acceptLogin_refused (w : World) (a b c p : Bytes) (perms : Nat) (hn : 0 ≤ n) :
    wp (acceptLogin n a b c p perms) (fun _ w' => w'.logins n = .complete ∨ Own n w w' ∨
      w'.logins n = .pending ∧ ∃ w₁, Own n w w₁ ∧ Regains n w₁ w') w := by
  refine wp_bind (wp_getU (wp_after ?_))
  have hfill : Own n w (fillUserEntry n a (w.uTab n).nodeid (filternickname b) p [] [] .no 0 0 perms
      (getU n w).2).2 := trans_of (Own n) (Within.within w) (Within.within _)
  have hgroup : ((fillUserEntry n a (w.uTab n).nodeid (filternickname b) p [] [] .no 0 0 perms
      (getU n w).2).2.uTab n).group = [] := by
    simp [fillUserEntry, setIdent, setNickname, setUserGroup, setLogin, modUOpts, World.modU]
  generalize (fillUserEntry n a _ _ p _ _ _ _ _ _ (getU n w).2).2 = w₁ at hfill hgroup
  refine wp_bind (wp_getW (wp_ite (fun _ => ?_) fun _ => ?_))
  · exact .inr (.inl (hfill.trans (Within.within w₁)))
  refine wp_bind (Within.wp (Both (Own n) (Regains n)) fun _ w₂ h₂ => ?_)
  refine wp_bind (Within.wp (Both (Own n) (Regains n)) fun _ w₃ h₃ => ?_)
  refine wp_bind (Within.wp (Both (Own n) (Regains n)) fun g w₄ h₄ => ?_)
  have h : Both (Own n) (Regains n) w₁ w₄ := trans_of _ h₂ (trans_of _ h₃ h₄)
  refine wp_ite (fun _ => ?_) fun _ => .inr (.inl (hfill.trans h.1))
  obtain hc | ⟨hp, w₅, hown, hreg⟩ := enterServer_refused (a := g.getD []) hn (h.2.group.trans hgroup)
  · exact .inl hc
  · exact .inr (.inr ⟨hp, w₅, (hfill.trans h.1).trans hown, hreg⟩)

/-- A login packet that is taken for a login. -/
theorem login_progress (hn : 0 ≤ n) (hlogin : w.logins n = .no) :
    Progress n w (login n a b c p w).2 := by
  have hprogress {w' : World} (h : w'.logins n = .complete ∨ Own n w w' ∨
      w'.logins n = .pending ∧ ∃ w₁, Own n w w₁ ∧ Regains n w₁ w') : Progress n w w' := by
    unfold Progress
    rwa [hlogin]
  change wp (login n a b c p) (fun _ => Progress n w) w
  unfold login
  refine wp_bind (wp_getW ?_)
  cases loginChecks w n a b with
  | error e => exact hprogress (.inr (.inl (Within.within w)))
  | ok perms =>
    refine wp_bind (wp_getW (wp_bind (Within.wp (Own n) fun _ w₁ h₁ => ?_)))
    refine wp_ite (fun _ => ?_) fun _ => hprogress ?_
    · exact hprogress (.inr (.inl (h₁.trans (Within.within w₁))))
    obtain hc | hown | ⟨hp, w₂, hown, hreg⟩ := acceptLogin_refused w₁ a b c p perms hn
    · exact .inl hc
    · exact .inr (.inl (h₁.trans hown))
    · exact .inr (.inr ⟨hp, w₂, h₁.trans hown, hreg⟩)

end

/-! ## §5 — every packet -/

section
variable {n : Int} {contents : Bytes} {d : Daemon}

/-- One packet of a connection. -/
theorem dispatch_progress (hn : n ∈ slots maxRealUsers) :
    Progress n d.w (dispatch n contents d).2.w := by
  obtain ⟨h0, hreal⟩ := mem_slots.mp hn
  by_cases hc : (d.w.uTab n).login = .complete
  · refine .inl (Eq.trans ?_ hc)
    unfold dispatch
    split
    next htype =>
      refine loginCase_rel (R := LoginSame fun _ => True) htype (fun hl => ?_) n trivial
      rw [hl.2.2.1] at hc
      cases hc
    · exact Within.within (R := OnWorld (LoginSame fun _ => True)) d n trivial
  change wp (dispatch n contents) (fun _ d' => Progress n d.w d'.w) d
  refine wp_ite (fun htype => ?_) fun _ => ?_
  · exact loginCase_real hreal htype fun hl _ _ => login_progress h0 hl.2.2.1
  refine wp_ite (fun _ => openmsg_idle (R := Progress n) hc _) fun _ => ?_
  refine wp_ite (fun _ => cmdmsg_idle (R := Progress n) hc _ _) fun _ => ?_
  have hget : Progress n d.w (getU n d.w).2 := Within.within d.w
  refine wp_ite (fun _ => wp_onWorld (wp_bind (wp_getW (wp_bind (wp_getU ?_))))) fun _ => ?_
  · exact wp_whenever (fun h => absurd h hc) fun _ => hget
  refine wp_ite (fun _ => refl_of (Progress n) d.w) fun _ => ?_
  exact Within.within (R := OnWorld (Progress n)) d

/-- Packets received on slot `n`, each with the system as it was then. -/
def dispatchAll (n : Int) (d : Daemon) (ps : List (Sys × Bytes)) : Daemon :=
  ps.foldl (fun d p => (dispatch n p.2 (d.at p.1)).2) d

theorem dispatchAll_progress (hn : n ∈ slots maxRealUsers) (ps : List (Sys × Bytes)) :
    Progress n d.w (dispatchAll n d ps).w := by
  induction ps generalizing d with
  | nil => exact refl_of (Progress n) d.w
  | cons p ps ih =>
    have hat : Progress n d.w (d.at p.1).w :=
      .of ⟨fun _ _ => rfl, rfl, .same rfl⟩ ⟨fun _ _ => rfl, rfl, rfl, rfl, fun _ => .inl rfl, .same rfl⟩
    exact trans_of (Progress n) hat (trans_of (Progress n) (dispatch_progress hn) ih)

end

end

section
attribute [local instance] smallEnv

/-- A registered moderator leaves a group that has other members, a third client closes his own group,
and the moderator's slot is connected again. -/
def absentModerator : List Event :=
  [.connect 1 false none, .packet 1 (loginPkt "one" "al" "x" ""), .packet 1 (cmdPkt "p" "pw"),
   .connect 0 false none, .packet 0 (loginPkt "nil" "bo" "x" ""), .lost 1,
   .connect 2 false none, .packet 2 (loginPkt "two" "cy" "y" ""), .packet 2 (cmdPkt "status" "r"),
   .connect 1 false none]

end

end Icbd.Server
