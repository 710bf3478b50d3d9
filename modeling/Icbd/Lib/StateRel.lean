/-
# Icbd.Lib.StateRel — what a stateful program may do to its state.

`Within R x`: wherever the program `x` starts, `R` holds between its first and its last state. For a
preorder `R` the property passes from the parts of a program to the whole, so a program built from
primitives that stay within `R` stays within `R` by instance search. `wp x Q s` is the postcondition
`Q` of one run, for programs whose effect depends on where they start. `Agree E x` is the two-run
version: runs from `E`-related states give the same result and end `E`-related.

An invariant `I` is the preorder `Keep I`, so the same rules carry invariants.
-/
import Mathlib.Order.Defs.Unbundled

namespace Icbd.Lib

universe u

variable {σ α β : Type u}

/-! ## §1 — programs -/

/-- A program that is run only under a condition. -/
def whenever (c : Prop) [Decidable c] (x : StateM σ PUnit) : StateM σ PUnit :=
  if c then x else pure ⟨⟩

/-- A program run for each entry of a list, in order. -/
def each (xs : List β) (f : β → StateM σ PUnit) : StateM σ PUnit :=
  match xs with
  | [] => pure ⟨⟩
  | x :: xs => do
      f x
      each xs f

@[simp] theorem bind_apply (x : StateM σ α) (f : α → StateM σ β) (s : σ) :
    (x >>= f) s = f (x s).1 (x s).2 := rfl

@[simp] theorem pure_apply (a : α) (s : σ) : (pure a : StateM σ α) s = (a, s) := rfl

theorem whenever_pos {c : Prop} [Decidable c] {x : StateM σ PUnit} (h : c) :
    whenever c x = x := if_pos h

theorem whenever_neg {c : Prop} [Decidable c] {x : StateM σ PUnit} (h : ¬ c) :
    whenever c x = pure ⟨⟩ := if_neg h

/-! ## §2 — one run -/

/-- The program stays within `R`. -/
class Within (R : σ → σ → Prop) (x : StateM σ α) : Prop where
  within : ∀ s, R s (x s).2

/-- An invariant as a relation: it is handed on. -/
def Keep (I : σ → Prop) (s t : σ) : Prop := I s → I t

instance (I : σ → Prop) : IsPreorder σ (Keep I) where
  refl _ := id
  trans _ _ _ h₁ h₂ := h₂ ∘ h₁

section
variable {R : σ → σ → Prop} [IsPreorder σ R]

instance (a : α) : Within R (pure a : StateM σ α) where
  within s := refl_of R s

instance (x : StateM σ α) (f : α → StateM σ β) [Within R x] [∀ a, Within R (f a)] :
    Within R (x >>= f) where
  within s := trans_of R (Within.within s) (Within.within (x := f _) _)

instance (c : Prop) [Decidable c] (x y : StateM σ α) [hx : Within R x] [hy : Within R y] :
    Within R (if c then x else y) := by
  split
  · exact hx
  · exact hy

instance (c : Prop) [Decidable c] (x : StateM σ PUnit) [Within R x] :
    Within R (whenever c x) := by
  unfold whenever
  infer_instance

instance (xs : List β) (f : β → StateM σ PUnit) [h : ∀ b, Within R (f b)] :
    Within R (each xs f) := by
  induction xs with
  | nil => exact inferInstanceAs (Within R (pure _))
  | cons x xs ih => exact inferInstanceAs (Within R (f x >>= fun _ => each xs f))

end

/-- A loop stays within a relation if its body does for the entries of the list. -/
theorem Within.each {R : σ → σ → Prop} [IsPreorder σ R] {xs : List β} {f : β → StateM σ PUnit}
    (h : ∀ b ∈ xs, Within R (f b)) : Within R (Lib.each xs f) := by
  induction xs with
  | nil => exact inferInstanceAs (Within R (pure _))
  | cons b xs ih =>
    have := h b List.mem_cons_self
    have := ih fun c hc => h c (List.mem_cons_of_mem b hc)
    exact inferInstanceAs (Within R (f b >>= fun _ => Lib.each xs f))

/-- What stays within a relation stays within any weaker one. -/
theorem Within.mono {R S : σ → σ → Prop} {x : StateM σ α} (h : Within R x)
    (hRS : ∀ s t, R s t → S s t) : Within S x :=
  ⟨fun s => hRS _ _ (h.within s)⟩

/-! ## §3 — postconditions -/

/-- From `s` the program ends with `Q` of its answer and its last state. -/
def wp (x : StateM σ α) (Q : α → σ → Prop) (s : σ) : Prop := Q (x s).1 (x s).2

section
variable {x y : StateM σ α} {f : α → StateM σ β} {Q : α → σ → Prop} {s : σ}

theorem wp_bind {Q : β → σ → Prop} (h : wp x (fun a t => wp (f a) Q t) s) :
    wp (x >>= f) Q s := h

/-- The first step is known by its result. -/
theorem wp_after {Q : β → σ → Prop} (h : wp (f (x s).1) Q (x s).2) : wp (x >>= f) Q s := h

theorem wp_mono {Q' : α → σ → Prop} (h : wp x Q s) (hQ : ∀ a t, Q a t → Q' a t) : wp x Q' s :=
  hQ _ _ h

theorem wp_pure {a : α} (h : Q a s) : wp (pure a) Q s := h

theorem wp_ite {c : Prop} [Decidable c] (hx : c → wp x Q s) (hy : ¬ c → wp y Q s) :
    wp (if c then x else y) Q s := by
  split
  · exact hx ‹_›
  · exact hy ‹_›

theorem wp_whenever {c : Prop} [Decidable c] {x : StateM σ PUnit} {Q : PUnit → σ → Prop}
    (hx : c → wp x Q s) (hs : ¬ c → Q ⟨⟩ s) : wp (whenever c x) Q s :=
  wp_ite hx hs

/-- What is known of a program by the relation it stays within. -/
theorem Within.wp (R : σ → σ → Prop) [Within R x] (h : ∀ a t, R s t → Q a t) :
    Lib.wp x Q s :=
  h _ _ (Within.within s)

/-- The same for two relations. -/
theorem Within.wp_both (R S : σ → σ → Prop) [Within R x] [Within S x]
    (h : ∀ a t, R s t → S s t → Q a t) : Lib.wp x Q s :=
  h _ _ (Within.within s) (Within.within s)

/-- A loop whose body keeps `I` keeps `I`. -/
theorem wp_each {xs : List β} {f : β → StateM σ PUnit} {I : σ → Prop}
    (hf : ∀ b ∈ xs, ∀ t, I t → wp (f b) (fun _ => I) t) (hs : I s) :
    wp (each xs f) (fun _ => I) s := by
  induction xs generalizing s with
  | nil => exact hs
  | cons b xs ih =>
    exact ih (fun c hc => hf c (List.mem_cons_of_mem b hc)) (hf b List.mem_cons_self s hs)

/-- A loop whose turns add to what `view` shows adds what they add, in order. -/
theorem wp_each_append {γ : Type u} {xs : List β} {f : β → StateM σ PUnit} {I : σ → Prop} {view : σ → List γ}
    {g : β → List γ} (hf : ∀ b ∈ xs, ∀ t, I t → wp (f b) (fun _ t' => I t' ∧ view t' = view t ++ g b) t)
    (hs : I s) : wp (each xs f) (fun _ t => I t ∧ view t = view s ++ xs.flatMap g) s := by
  induction xs generalizing s with
  | nil => exact ⟨hs, (List.append_nil _).symm⟩
  | cons b xs ih =>
    obtain ⟨hI, hview⟩ := hf b List.mem_cons_self s hs
    have hrest := ih (fun c hc => hf c (List.mem_cons_of_mem b hc)) hI
    refine ⟨hrest.1, hrest.2.trans ?_⟩
    rw [hview, List.append_assoc, List.flatMap_cons]

/-- A loop that keeps `J` establishes `I` if one turn does and the others keep it. -/
theorem wp_each_of_mem {xs : List β} {f : β → StateM σ PUnit} {I J : σ → Prop} {b : β} (hb : b ∈ xs)
    (hest : ∀ t, J t → wp (f b) (fun _ => I) t) (hI : ∀ c ∈ xs, ∀ t, I t → wp (f c) (fun _ => I) t)
    (hJ : ∀ c ∈ xs, ∀ t, J t → wp (f c) (fun _ => J) t) (hs : J s) :
    wp (each xs f) (fun _ => I) s := by
  induction xs generalizing s with
  | nil => cases hb
  | cons c xs ih =>
    have hI' : ∀ c' ∈ xs, ∀ t, I t → wp (f c') (fun _ => I) t :=
      fun c' hc' => hI c' (List.mem_cons_of_mem c hc')
    refine wp_bind ?_
    rcases List.mem_cons.mp hb with rfl | hb
    · exact wp_mono (hest s hs) fun _ _ h => wp_each hI' h
    · exact ih hb hI' (fun c' hc' => hJ c' (List.mem_cons_of_mem c hc')) (hJ c List.mem_cons_self s hs)

/-- A loop that takes each entry once: what holds before the turn of `b` and what holds after it. -/
theorem wp_each_turn {xs : List β} {f : β → StateM σ PUnit} {I J : σ → Prop} {b : β} (hb : b ∈ xs)
    (hxs : xs.Nodup) (hturn : ∀ t, J t → wp (f b) (fun _ => I) t)
    (hJ : ∀ c ∈ xs, c ≠ b → ∀ t, J t → wp (f c) (fun _ => J) t)
    (hI : ∀ c ∈ xs, c ≠ b → ∀ t, I t → wp (f c) (fun _ => I) t) (hs : J s) :
    wp (each xs f) (fun _ => I) s := by
  induction xs generalizing s with
  | nil => cases hb
  | cons c xs ih =>
    obtain ⟨hc, hxs⟩ := List.nodup_cons.mp hxs
    refine wp_bind ?_
    by_cases hcb : c = b
    · subst hcb
      refine wp_mono (hturn s hs) fun _ _ h => wp_each (fun d hd => ?_) h
      exact hI d (List.mem_cons_of_mem c hd) fun hdc => hc (hdc ▸ hd)
    · have hb : b ∈ xs := (List.mem_cons.mp hb).resolve_left (Ne.symm hcb)
      refine wp_mono (hJ c List.mem_cons_self hcb s hs) fun _ _ h => ih hb hxs ?_ ?_ h
      · exact fun d hd => hJ d (List.mem_cons_of_mem c hd)
      · exact fun d hd => hI d (List.mem_cons_of_mem c hd)

end

/-! ## §4 — two runs -/

/-- Runs from related states give the same result and end related. -/
class Agree (E : σ → σ → Prop) (x : StateM σ α) : Prop where
  agree : ∀ s t, E s t → (x s).1 = (x t).1 ∧ E (x s).2 (x t).2

section
variable {E : σ → σ → Prop}

instance (a : α) : Agree E (pure a : StateM σ α) where
  agree _ _ h := ⟨rfl, h⟩

instance (x : StateM σ α) (f : α → StateM σ β) [Agree E x] [∀ a, Agree E (f a)] :
    Agree E (x >>= f) where
  agree s t h := by
    obtain ⟨h₁, h₂⟩ := Agree.agree (x := x) s t h
    simp only [bind_apply, h₁]
    exact Agree.agree _ _ h₂

instance (c : Prop) [Decidable c] (x y : StateM σ α) [hx : Agree E x] [hy : Agree E y] :
    Agree E (if c then x else y) := by
  split
  · exact hx
  · exact hy

instance (c : Prop) [Decidable c] (x : StateM σ PUnit) [Agree E x] :
    Agree E (whenever c x) := by
  unfold whenever
  infer_instance

instance (xs : List β) (f : β → StateM σ PUnit) [h : ∀ b, Agree E (f b)] :
    Agree E (each xs f) := by
  induction xs with
  | nil => exact inferInstanceAs (Agree E (pure _))
  | cons x xs ih => exact inferInstanceAs (Agree E (f x >>= fun _ => each xs f))

/-- From `s` and `t` the two runs give the same answer and end with `Q`. -/
def wp₂ (x : StateM σ α) (Q : α → σ → σ → Prop) (s t : σ) : Prop :=
  (x s).1 = (x t).1 ∧ Q (x s).1 (x s).2 (x t).2

variable {x y : StateM σ α} {f : α → StateM σ β} {Q : α → σ → σ → Prop} {s t : σ}

theorem wp₂_bind {Q : β → σ → σ → Prop} (h : wp₂ x (fun a s t => wp₂ (f a) Q s t) s t) :
    wp₂ (x >>= f) Q s t := by
  obtain ⟨ha, h⟩ := h
  unfold wp₂ at h ⊢
  simp only [bind_apply]
  rwa [← ha]

theorem wp₂_pure {a : α} (h : Q a s t) : wp₂ (pure a) Q s t := ⟨rfl, h⟩

theorem wp₂_ite {c : Prop} [Decidable c] (hx : c → wp₂ x Q s t) (hy : ¬ c → wp₂ y Q s t) :
    wp₂ (if c then x else y) Q s t := by
  split
  · exact hx ‹_›
  · exact hy ‹_›

theorem wp₂_whenever {c : Prop} [Decidable c] {x : StateM σ PUnit} {Q : PUnit → σ → σ → Prop}
    (hx : c → wp₂ x Q s t) (hs : ¬ c → Q ⟨⟩ s t) : wp₂ (whenever c x) Q s t :=
  wp₂_ite hx fun h => wp₂_pure (hs h)

/-- What is known of two runs of a program by the relation it keeps. -/
theorem Agree.wp₂ [Agree E x] (h : E s t) (hQ : ∀ a s t, E s t → Q a s t) : Lib.wp₂ x Q s t :=
  ⟨(Agree.agree s t h).1, hQ _ _ _ (Agree.agree s t h).2⟩

end

/-! ## §5 — two programs from one state -/

section
variable {x y x' y' : StateM σ α} {f g : α → StateM σ β} {s : σ}

/-- The programs differ in their first step only. -/
theorem bind_congr_first (h : x s = y s) : (x >>= f) s = (y >>= f) s := by
  rw [bind_apply, bind_apply, h]

/-- The programs have their first step in common. -/
theorem bind_congr_rest (h : f (x s).1 (x s).2 = g (x s).1 (x s).2) : (x >>= f) s = (x >>= g) s := h

/-- What is known of the first step is enough to go on with. -/
theorem Within.bind_congr {R : σ → σ → Prop} [Within R x] (h : ∀ a t, R s t → f a t = g a t) :
    (x >>= f) s = (x >>= g) s :=
  h _ _ (Within.within s)

theorem ite_congr_at {c : Prop} [Decidable c] (hx : c → x s = x' s) (hy : ¬ c → y s = y' s) :
    (if c then x else y) s = (if c then x' else y') s := by
  split
  · exact hx ‹_›
  · exact hy ‹_›

theorem whenever_congr_at {c : Prop} [Decidable c] {x y : StateM σ PUnit} (h : c → x s = y s) :
    whenever c x s = whenever c y s :=
  ite_congr_at h fun _ => rfl

/-- Two loops whose bodies do the same wherever an invariant holds. -/
theorem each_congr_at {xs : List β} {f g : β → StateM σ PUnit} {I : σ → Prop}
    (hf : ∀ b ∈ xs, ∀ t, I t → f b t = g b t ∧ I (f b t).2) (hs : I s) : each xs f s = each xs g s := by
  induction xs generalizing s with
  | nil => rfl
  | cons b xs ih =>
    obtain ⟨heq, hI⟩ := hf b List.mem_cons_self s hs
    show (f b >>= fun _ => each xs f) s = (g b >>= fun _ => each xs g) s
    rw [bind_apply, bind_apply, ← heq]
    exact ih (fun c hc => hf c (List.mem_cons_of_mem b hc)) hI

end

/-! ## §6 — `while` loops -/

/-- The loop `while (c) body` goes through `k` turns from `s` and ends in `t`. -/
inductive Loop {σ : Type*} (c : σ → Prop) (body : σ → σ) : Nat → σ → σ → Prop
  | done {s : σ} : ¬ c s → Loop c body 0 s s
  | turn {k : Nat} {s t : σ} : c s → Loop c body k (body s) t → Loop c body (k + 1) s t

section
variable {σ : Type*} {c : σ → Prop} {body : σ → σ} {k : Nat} {s t : σ}

theorem Loop.exit (h : Loop c body k s t) : ¬ c t := by
  induction h with
  | done hc => exact hc
  | turn _ _ ih => exact ih

/-- A turn that changes nothing is taken for ever. -/
theorem Loop.stuck (hc : c s) (hs : body s = s) : ¬ Loop c body k s t := by
  intro h
  induction h with
  | done hn => exact hn hc
  | turn _ _ ih =>
    rw [hs] at ih
    exact ih hc hs

/-- A loop whose turns keep an invariant and make a measure smaller ends, within as many turns. -/
theorem Loop.ends {I : σ → Prop} (μ : σ → Nat)
    (hturn : ∀ s, I s → c s → I (body s) ∧ μ (body s) < μ s) (hs : I s) :
    ∃ k t, Loop c body k s t ∧ I t ∧ k ≤ μ s := by
  generalize hm : μ s = m
  induction m using Nat.strongRecOn generalizing s with
  | ind m ih =>
    by_cases hc : c s
    · obtain ⟨hI, hlt⟩ := hturn s hs hc
      obtain ⟨k, t, hloop, ht, hk⟩ := ih (μ (body s)) (by omega) hI rfl
      exact ⟨k + 1, t, .turn hc hloop, ht, by omega⟩
    · exact ⟨0, s, .done hc, hs, Nat.zero_le m⟩

end

end Icbd.Lib
