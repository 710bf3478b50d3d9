/-
# Icbd.Server.Login — how far a login packet gets.

The tests of `loginmsg` up to the point where it fills in the user's entry read the packet and the
tables as they are before the packet, so "this packet will store that nickname" is a question about
the state before it.
-/
import Icbd.Server.Frame

namespace Icbd.Server

open Icbd.Lib

variable [Env]

/-! ## §1 — fields -/

/-- The text and the fields of a packet. -/
def pktText (contents : Bytes) : Bytes := (cstr contents).tail

/-- Field `i` of a packet. -/
def pktField (contents : Bytes) (i : Nat) : Bytes := (splitFields (pktText contents)).getD i []

/-- The password of a login: the fifth field, or what an earlier packet left there. -/
def loginPassword (d : Daemon) (contents : Bytes) : Bytes :=
  (splitFields (pktText contents)).getD 4 (d.fields 4)

/-! ## §2 — the nickname a login stores -/

/-- The nickname a login with these fields stores, if it gets as far as the user's entry. -/
def loginStores (w : World) (n : Int) (loginid nick : Bytes) : Option Bytes :=
  if (loginChecks w n loginid nick).isOk ∧ denied w n loginid = none then
    some ((filternickname nick).take maxNickLen)
  else none

/-- Is this a packet `loginmsg` takes for a regular login of slot `n`? -/
def isLogin (w : World) (n : Int) (contents : Bytes) : Prop :=
  (cstr contents).head? = some pktLogin ∧ n < maxRealUsers ∧ (w.uTab n).login = .no ∧
    4 ≤ splitCount (pktText contents) ∧ strcaseEq (pktField contents 3) (str "login")

instance (w : World) (n : Int) (contents : Bytes) : Decidable (isLogin w n contents) :=
  inferInstanceAs (Decidable (_ ∧ _))

/-- The nickname a packet stores for slot `n`, if it is a login that gets that far. -/
def storedNick (w : World) (n : Int) (contents : Bytes) : Option Bytes :=
  if isLogin w n contents then loginStores w n (pktField contents 0) (pktField contents 1) else none

/-! ## §3 — what happens to a login packet -/

section
variable {R : World → World → Prop} {n : Int} {a b c p : Bytes} {w : World} {d : Daemon}
  {contents : Bytes}

/-- A login that is refused before the entry is filled in only sends messages to its own slot. -/
theorem login_refused [Base R] [SendsTo R n] (h : loginStores w n a b = none) :
    R w (login n a b c p w).2 := by
  change wp (login n a b c p) (fun _ => R w) w
  unfold login
  refine wp_bind (wp_getW ?_)
  cases hc : loginChecks w n a b with
  | error e => exact Within.within w
  | ok perms =>
    have hd : denied w n a ≠ none := by
      intro hd
      simp [loginStores, hc, hd, Except.isOk, Except.toBool] at h
    refine wp_bind (wp_getW (wp_bind ?_))
    refine Within.wp R fun _ t ht => wp_ite (fun _ => ?_) fun hs => ?_
    · exact trans_of R ht (Within.within t)
    · exact absurd (Option.not_isSome_iff_eq_none.mp hs) hd

/-- What a login leads to, if its entry is filled in from `I` to `I` and it enters the server from `I` to
`Q`. Everything else it does is messages to its own slot. -/
theorem login_post [Base R] [PlainTo R n] {I Q : World → Prop} (hR : ∀ w w', R w w' → I w → I w')
    (hIQ : ∀ w, I w → Q w)
    (hfill : ∀ w v m, I w →
      I (fillUserEntry n a v (filternickname b) p [] [] .no 0 0 m w).2)
    (henter : ∀ w g, I w → Q (enterServer n g w).2) (h : I w) : Q (login n a b c p w).2 := by
  show wp (login n a b c p) (fun _ => Q) w
  have hstop {x : W Int} [Within R x] {w : World} (h : I w) : wp x (fun _ => Q) w :=
    hIQ _ (hR _ _ (Within.within w) h)
  refine wp_bind (wp_getW ?_)
  cases loginChecks w n a b with
  | error e => exact hstop h
  | ok perms =>
    refine wp_bind (wp_getW (wp_bind (Within.wp R fun _ w₁ h₁ => ?_)))
    have h₁ : I w₁ := hR _ _ h₁ h
    refine wp_ite (fun _ => hstop h₁) fun _ => ?_
    refine wp_bind (wp_getU (wp_after (wp_bind (wp_getW ?_))))
    have h₂ : I _ := hfill (getU n w₁).2 (w₁.uTab n).nodeid perms (hR _ _ (Within.within _) h₁)
    refine wp_ite (fun _ => hstop h₂) fun _ => ?_
    refine wp_bind (Within.wp R fun _ w₃ h₃ => ?_)
    refine wp_bind (Within.wp R fun _ w₄ h₄ => ?_)
    refine wp_bind (Within.wp R fun g w₅ h₅ => ?_)
    have h₅ : I w₅ := hR _ _ h₅ (hR _ _ h₄ (hR _ _ h₃ h₂))
    exact wp_ite (fun _ => henter w₅ _ h₅) fun _ => hIQ _ h₅

/-- `loginmsg` on a slot for connections: nothing but messages to the slot itself, unless it takes the
packet for a regular login. -/
theorem loginmsg_real [Base R] [SendsTo R n] {Q : Int → World → Prop} (hn : n < maxRealUsers)
    (htype : (cstr contents).head? = some pktLogin)
    (hRQ : ¬ isLogin d.w n contents → ∀ r w', R d.w w' → Q r w')
    (h : isLogin d.w n contents → wp (login n (pktField contents 0) (pktField contents 1)
      (pktField contents 2) (loginPassword d contents)) Q (getU n d.w).2) :
    wp (loginmsg n (pktText contents)) (fun r d' => Q r d'.w) d := by
  have hget : R d.w (getU n d.w).2 := Within.within d.w
  have hstop {x : W Int} [Within R x] (hno : ¬ isLogin d.w n contents) : wp x Q (getU n d.w).2 :=
    hRQ hno _ _ (trans_of R hget (Within.within _))
  -- the three kinds of login are told apart by the fourth field
  have hkind {kind : Bytes} (hk : strcaseEq (pktField contents 3) kind)
      (hne : strcaseEq kind (str "login") = false) : ¬ isLogin d.w n contents := by
    intro hl
    rw [strcaseEq_comm] at hk
    rw [strcaseEq_trans hk hl.2.2.2.2] at hne
    cases hne
  refine wp_bind (wp_onWorld (wp_getU ?_))
  refine wp_ite (fun hin => hstop fun hl => hin hl.2.2.1) fun hlogin => wp_bind (wp_split ?_)
  refine wp_ite (fun hfew => hRQ (fun hl => ?_) _ _ hget) fun hcount => ?_
  · have := hl.2.2.2.1
    omega
  have hlen : 4 ≤ (splitFields (pktText contents)).length := by
    unfold splitCount at hcount
    omega
  refine wp_bind (wp_getField (wp_bind (wp_getField (wp_bind (wp_getField (wp_bind
    (wp_getField ?_)))))))
  rw [split_fields (by omega), split_fields (by omega), split_fields (by omega),
    split_fields (by omega)]
  refine wp_ite (fun hw => hstop (hkind hw (by decide))) fun _ => ?_
  refine wp_ite (fun hwg => hstop (hkind hwg (by decide))) fun _ => ?_
  refine wp_ite (fun hf3 => ?_) fun hf3 => hstop fun hl => hf3 hl.2.2.2.2
  exact h ⟨htype, by omega, by simpa using hlogin, by omega, hf3⟩

/-- The login case of `dispatch` on a slot for connections. The password is a field of the packet only
if there are five. -/
theorem loginCase_real [Base R] [SendsTo R n] (hn : n < maxRealUsers)
    (htype : (cstr contents).head? = some pktLogin)
    (h : isLogin d.w n contents → ∀ p, (5 ≤ splitCount (pktText contents) → p = pktField contents 4) →
      R (getU n d.w).2
        (login n (pktField contents 0) (pktField contents 1) (pktField contents 2) p (getU n d.w).2).2) :
    R d.w (loginCase n (pktText contents) d).2.w := by
  have hget : R d.w (getU n d.w).2 := Within.within d.w
  change wp (loginCase n (pktText contents)) (fun _ d' => R d.w d'.w) d
  refine wp_ite (fun hfull => absurd hn (by omega)) fun _ => wp_bind ?_
  suffices hmsg : wp (loginmsg n (pktText contents)) (fun _ d' => R d.w d'.w) d from
    trans_of R hmsg (Within.within (R := OnWorld R) _)
  refine loginmsg_real (R := R) (Q := fun _ => R d.w) hn htype (fun _ _ _ hR => hR) fun hl => ?_
  refine trans_of R hget (h hl _ fun hfive => ?_)
  unfold splitCount at hfive
  simp [loginPassword, pktField, List.getD_eq_getElem?_getD,
    List.getElem?_eq_getElem (show 4 < (splitFields (pktText contents)).length by omega)]

/-- The login case on any slot. -/
theorem loginCase_rel [Base R] [SendsTo R n] [Drops R]
    (htype : (cstr contents).head? = some pktLogin)
    (h : isLogin d.w n contents → ∀ p, R (getU n d.w).2
      (login n (pktField contents 0) (pktField contents 1) (pktField contents 2) p (getU n d.w).2).2) :
    R d.w (loginCase n (pktText contents) d).2.w := by
  by_cases hn : n < maxRealUsers
  · exact loginCase_real hn htype fun hl p _ => h hl p
  · unfold loginCase
    rw [if_pos (by omega)]
    exact Within.within (R := OnWorld R) d

end

end Icbd.Server
