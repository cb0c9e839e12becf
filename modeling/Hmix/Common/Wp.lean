import Mathlib.Logic.Basic

/-!
# Programs that fail halfway

A program over a state that may throw is an `EStateM` computation, and a
throw keeps the state it happened in: what was assigned before stays
assigned. `wp` is the weakest precondition of such a program for a pair
of postconditions, one for each exit. The rules push it through the
monad's operations, so a straight-line program is run symbolically by
`simp`, and a call is passed by citing the callee's own statement through
`wp.mono`, or `wp.imp` where both throw alike.
-/

namespace Hmix

variable {ε σ α β : Type}

/-- **What a run ensures**: `Q` of what it returns, or `E` of what it
throws, in the state it leaves. -/
def wp (m : EStateM ε σ α) (Q : α → σ → Prop) (E : ε → σ → Prop) (s : σ) : Prop :=
  match m s with
  | .ok a s' => Q a s'
  | .error e s' => E e s'

/-- The state a run leaves, whichever way it ends. -/
def after (m : EStateM ε σ α) (s : σ) : σ :=
  match m s with
  | .ok _ s' => s'
  | .error _ s' => s'

variable {m : EStateM ε σ α} {Q Q' : α → σ → Prop} {E E' : ε → σ → Prop} {s : σ}

/-! ## The rules -/

@[simp] theorem wp_pure {a : α} : wp (pure a : EStateM ε σ α) Q E s ↔ Q a s := Iff.rfl

@[simp] theorem wp_bind {f : α → EStateM ε σ β} {Q : β → σ → Prop} :
    wp (m >>= f) Q E s ↔ wp m (fun a => wp (f a) Q E) E s := by
  change wp (EStateM.bind m f) Q E s ↔ _
  unfold wp EStateM.bind
  cases m s <;> rfl

@[simp] theorem wp_get {Q : σ → σ → Prop} :
    wp (get : EStateM ε σ σ) Q E s ↔ Q s s := Iff.rfl

@[simp] theorem wp_set {t : σ} {Q : PUnit → σ → Prop} :
    wp (set t : EStateM ε σ PUnit) Q E s ↔ Q ⟨⟩ t := Iff.rfl

@[simp] theorem wp_modify {f : σ → σ} {Q : PUnit → σ → Prop} :
    wp (modify f : EStateM ε σ PUnit) Q E s ↔ Q ⟨⟩ (f s) := Iff.rfl

@[simp] theorem wp_throw {e : ε} :
    wp (throw e : EStateM ε σ α) Q E s ↔ E e s := Iff.rfl

theorem wp_ite {c : Prop} [Decidable c] {m' : EStateM ε σ α} :
    wp (if c then m else m') Q E s ↔ (c → wp m Q E s) ∧ (¬ c → wp m' Q E s) := by
  by_cases hc : c <;> simp [hc]

/-- Both exits may be weakened. -/
theorem wp.mono (h : wp m Q E s) (hQ : ∀ a s', Q a s' → Q' a s')
    (hE : ∀ e s', E e s' → E' e s') : wp m Q' E' s := by
  unfold wp at h ⊢
  cases hm : m s with
  | ok a s' => rw [hm] at h; exact hQ a s' h
  | error e s' => rw [hm] at h; exact hE e s' h

/-- So may the one it returns by. -/
theorem wp.imp (h : wp m Q E s) (hQ : ∀ a s', Q a s' → Q' a s') : wp m Q' E s :=
  h.mono hQ fun _ _ he => he

/-- What a run ensures in two ways, it ensures at once. -/
theorem wp.and (h : wp m Q E s) (h' : wp m Q' E' s) :
    wp m (fun a s' => Q a s' ∧ Q' a s') (fun e s' => E e s' ∧ E' e s') s := by
  unfold wp at *
  cases hm : m s with
  | ok a s' => rw [hm] at h h'; exact ⟨h, h'⟩
  | error e s' => rw [hm] at h h'; exact ⟨h, h'⟩

/-- **The loop rule**: what each round keeps, given what is left to do,
the loop keeps. -/
theorem wp_forM {γ : Type} {body : γ → EStateM ε σ PUnit} {I : List γ → σ → Prop}
    (hbody : ∀ x xs s, I (x :: xs) s → wp (body x) (fun _ => I xs) E s) :
    ∀ (xs : List γ) (s : σ), I xs s → wp (xs.forM body) (fun _ => I []) E s
  | [], _, h => h
  | x :: xs, s, h => by
    change wp (body x >>= fun _ => xs.forM body) _ E s
    rw [wp_bind]
    exact (hbody x xs s h).imp fun _ s' h' => wp_forM hbody xs s' h'

/-! ## What a run keeps -/

/-- What holds before a run holds after it, whichever way it ends. -/
def Preserves (I : σ → Prop) (m : EStateM ε σ α) : Prop :=
  ∀ s, I s → wp m (fun _ => I) (fun _ => I) s

section

variable {I : σ → Prop}

theorem preserves_pure (a : α) : Preserves I (pure a : EStateM ε σ α) := fun _ h => h

theorem preserves_throw (e : ε) : Preserves I (throw e : EStateM ε σ α) := fun _ h => h

theorem preserves_modify {f : σ → σ} (hf : ∀ s, I s → I (f s)) :
    Preserves I (modify f : EStateM ε σ PUnit) := hf

theorem Preserves.bind {f : α → EStateM ε σ β} (hm : Preserves I m)
    (hf : ∀ a, Preserves I (f a)) : Preserves I (m >>= f) := fun s h =>
  wp_bind.2 ((hm s h).imp fun a s' h' => hf a s' h')

theorem preserves_forM {γ : Type} {body : γ → EStateM ε σ PUnit}
    (hbody : ∀ x, Preserves I (body x)) (xs : List γ) : Preserves I (xs.forM body) :=
  fun s h => wp_forM (I := fun _ => I) (fun x _ s' h' => hbody x s' h') xs s h

end

/-! ## Reading a statement back -/

/-- The same on both exits is a fact about the state left behind. -/
theorem wp_iff_after {I : σ → Prop} :
    wp m (fun _ => I) (fun _ => I) s ↔ I (after m s) := by
  unfold wp after
  cases m s <;> rfl

/-- Whatever a run ensures of its two exits in common, the state left
behind has. -/
theorem wp.after {I : σ → Prop} (h : wp m Q E s) (hQ : ∀ a s', Q a s' → I s')
    (hE : ∀ e s', E e s' → I s') : I (after m s) :=
  wp_iff_after.1 (h.mono hQ hE)

/-- A run that cannot throw returns. -/
theorem wp.returns (h : wp m Q (fun _ _ => False) s) :
    ∃ a s', m s = .ok a s' ∧ Q a s' := by
  unfold wp at h
  cases hm : m s with
  | ok a s' => rw [hm] at h; exact ⟨a, s', rfl, h⟩
  | error e s' => rw [hm] at h; exact h.elim

/-! ## Runs that return -/

/-- The run does not throw. -/
def Returns (m : EStateM ε σ α) (s : σ) : Prop := wp m (fun _ _ => True) (fun _ _ => False) s

theorem returns_iff : Returns m s ↔ ∃ a s', m s = .ok a s' := by
  unfold Returns wp
  cases m s <;> simp

@[simp] theorem returns_pure (a : α) (s : σ) : Returns (pure a : EStateM ε σ α) s := trivial

@[simp] theorem returns_modify (f : σ → σ) (s : σ) :
    Returns (modify f : EStateM ε σ PUnit) s := trivial

@[simp] theorem not_returns_throw (e : ε) (s : σ) : ¬ Returns (throw e : EStateM ε σ α) s := id

/-- **Two programs in sequence**, where how the second one ends does not
depend on what the first one leaves. -/
theorem returns_bind_iff {f : α → EStateM ε σ β} {P : Prop}
    (h : ∀ a s', m s = .ok a s' → (Returns (f a) s' ↔ P)) :
    Returns (m >>= f) s ↔ Returns m s ∧ P := by
  change wp (m >>= f) _ _ s ↔ _
  rw [wp_bind]
  constructor
  · intro hbind
    obtain ⟨a, s', hm, hf⟩ := hbind.returns
    exact ⟨returns_iff.2 ⟨a, s', hm⟩, (h a s' hm).1 hf⟩
  · rintro ⟨hm, hP⟩
    obtain ⟨a, s', hm⟩ := returns_iff.1 hm
    have hf : wp (f a) (fun _ _ => True) (fun _ _ => False) s' := (h a s' hm).2 hP
    unfold wp
    rw [hm]
    exact hf

/-- **A loop returns where every round does**, if that depends on nothing the
rounds change. -/
theorem returns_forM_iff {γ : Type} {body : γ → EStateM ε σ PUnit} {P : γ → Prop}
    (hbody : ∀ x s, Returns (body x) s ↔ P x) :
    ∀ (xs : List γ) (s : σ), Returns (xs.forM body) s ↔ ∀ x ∈ xs, P x
  | [], _ => iff_of_true trivial fun _ hx => absurd hx List.not_mem_nil
  | x :: xs, s => by
    change Returns (body x >>= fun _ => xs.forM body) s ↔ _
    rw [List.forall_mem_cons, ← hbody x s]
    exact returns_bind_iff fun _ s' _ => returns_forM_iff hbody xs s'

end Hmix
