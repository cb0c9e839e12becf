import Mathlib.Data.Nat.Notation
import Mathlib.Logic.Basic

/-!
# Machines and their runs

A machine is a deterministic step function with a guard: `enabled` says
which events may happen in a state, `step` what an event does. A property
of every run is a property of every reachable state, and `under` restricts
a machine to the runs each of whose steps meets a condition.
-/

namespace Hmix

/-- **A guarded, deterministic machine.** -/
structure Machine (σ ε : Type) where
  /-- The states a run may begin in. -/
  start : σ → Prop
  /-- The events that may happen in a state. -/
  enabled : σ → ε → Prop
  /-- What an event does. -/
  step : σ → ε → σ

namespace Machine

variable {σ ε : Type} {M : Machine σ ε}

/-- The states some run ends in. -/
inductive Reachable (M : Machine σ ε) : σ → Prop
  | start {s : σ} : M.start s → Reachable M s
  | step {s : σ} {e : ε} : Reachable M s → M.enabled s e → Reachable M (M.step s e)

/-- The runs each of whose steps meets `p`. -/
def under (M : Machine σ ε) (p : σ → ε → Prop) : Machine σ ε where
  start := M.start
  enabled := fun s e => M.enabled s e ∧ p s e
  step := M.step

/-- **The invariant rule.** What holds at the start and is kept by every
enabled step holds of every reachable state. -/
theorem Reachable.invariant {I : σ → Prop} {s : σ} (h : M.Reachable s)
    (hstart : ∀ s, M.start s → I s)
    (hstep : ∀ s e, I s → M.enabled s e → I (M.step s e)) : I s := by
  induction h with
  | start h => exact hstart _ h
  | step _ he ih => exact hstep _ _ ih he

/-- **Runs of a machine that does less are runs.** The two step alike
where the first may step at all. -/
theorem Reachable.mono {N : Machine σ ε} {s : σ} (h : M.Reachable s)
    (hstart : ∀ s, M.start s → N.start s)
    (hstep : ∀ s e, M.enabled s e → N.enabled s e ∧ N.step s e = M.step s e) :
    N.Reachable s := by
  induction h with
  | start h => exact .start (hstart _ h)
  | step _ he ih =>
    obtain ⟨hen, heq⟩ := hstep _ _ he
    exact heq ▸ ih.step hen

/-- The state a list of events leads to. -/
def run (M : Machine σ ε) : σ → List ε → σ
  | s, [] => s
  | s, e :: es => M.run (M.step s e) es

theorem run_append (s : σ) (es es' : List ε) : M.run s (es ++ es') = M.run (M.run s es) es' := by
  induction es generalizing s with
  | nil => rfl
  | cons e es ih => exact ih (M.step s e)

/-- Every event of the list is enabled when its turn comes. -/
def Admits (M : Machine σ ε) : σ → List ε → Prop
  | _, [] => True
  | s, e :: es => M.enabled s e ∧ M.Admits (M.step s e) es

instance decidableAdmits [∀ s e, Decidable (M.enabled s e)] :
    ∀ s es, Decidable (M.Admits s es)
  | _, [] => isTrue trivial
  | s, e :: es =>
    have : Decidable (M.Admits (M.step s e) es) := decidableAdmits (M.step s e) es
    inferInstanceAs (Decidable (_ ∧ _))

/-- A condition on the events alone may be checked of each by itself. -/
theorem Admits.under {p : ε → Prop} {es : List ε} {s : σ} (h : M.Admits s es)
    (hp : ∀ e ∈ es, p e) : (M.under fun _ e => p e).Admits s es := by
  induction es generalizing s with
  | nil => trivial
  | cons e es ih =>
    exact ⟨⟨h.1, hp e List.mem_cons_self⟩, ih h.2 fun e' he' => hp e' (List.mem_cons_of_mem _ he')⟩

/-- An admitted list of events leads to a reachable state. -/
theorem Reachable.run {es : List ε} {s : σ} (h : M.Reachable s) (ha : M.Admits s es) :
    M.Reachable (M.run s es) := by
  induction es generalizing s with
  | nil => exact h
  | cons e es ih => exact ih (h.step ha.1) ha.2

/-- **Each step of a run has `P`.** -/
def Each (M : Machine σ ε) (P : σ → ε → Prop) : σ → List ε → Prop
  | _, [] => True
  | s, e :: es => P s e ∧ M.Each P (M.step s e) es

/-- What is the same of every step is the same of every run. -/
theorem each_congr {P P' : σ → ε → Prop} {es : List ε} {s : σ} (ha : M.Admits s es)
    (h : ∀ s e, M.enabled s e → (P s e ↔ P' s e)) : M.Each P s es ↔ M.Each P' s es := by
  induction es generalizing s with
  | nil => exact Iff.rfl
  | cons e es ih => exact and_congr (h s e ha.1) (ih ha.2)

/-- **What every step with `P` keeps, a run of such steps keeps.** -/
theorem Each.invariant {I : σ → Prop} {P : σ → ε → Prop} {es : List ε} {s : σ}
    (h : M.Each P s es) (hs : I s) (hstep : ∀ s e, I s → P s e → I (M.step s e)) :
    I (M.run s es) := by
  induction es generalizing s with
  | nil => exact hs
  | cons e es ih => exact ih h.2 (hstep s e hs h.1)

theorem admits_iff_each {es : List ε} {s : σ} : M.Admits s es ↔ M.Each M.enabled s es := by
  induction es generalizing s with
  | nil => exact Iff.rfl
  | cons e es ih => exact and_congr_right' ih

/-- What every step keeps, a run keeps. -/
theorem Admits.invariant {I : σ → Prop} {es : List ε} {s : σ} (ha : M.Admits s es) (hs : I s)
    (hstep : ∀ s e, I s → M.enabled s e → I (M.step s e)) : I (M.run s es) :=
  (admits_iff_each.1 ha).invariant hs hstep

/-- **The rule for conditions.** Where a step leaves `Q` exactly if there was
`Q` and the step has `P`, a run does exactly if each of its steps has `P`. -/
theorem Admits.run_iff {I Q : σ → Prop} {P : σ → ε → Prop} {es : List ε} {s : σ}
    (ha : M.Admits s es) (hs : I s) (hI : ∀ s e, I s → M.enabled s e → I (M.step s e))
    (hstep : ∀ s e, I s → M.enabled s e → (Q (M.step s e) ↔ Q s ∧ P s e)) :
    Q (M.run s es) ↔ Q s ∧ M.Each P s es := by
  induction es generalizing s with
  | nil => exact (and_iff_left trivial).symm
  | cons e es ih =>
    exact (ih ha.2 (hI s e hs ha.1)).trans
      ((and_congr_left' (hstep s e hs ha.1)).trans and_assoc)

/-- **The rule for states.** Where a step from a state with `I` leads to one
exactly if it has `P`, a run stays in such states exactly if each of its steps
has `P`. -/
theorem Admits.each_iff {I : σ → Prop} {P : σ → ε → Prop} {es : List ε} {s : σ}
    (ha : M.Admits s es) (hs : I s)
    (hstep : ∀ s e, I s → M.enabled s e → (I (M.step s e) ↔ P s e)) :
    M.Each (fun s e => I (M.step s e)) s es ↔ M.Each P s es := by
  induction es generalizing s with
  | nil => exact Iff.rfl
  | cons e es ih =>
    exact (and_congr_right fun hI => ih ha.2 hI).trans (and_congr_left' (hstep s e hs ha.1))

/-- Where every event may happen, every list of events may. -/
theorem admits_of_enabled (h : ∀ s e, M.enabled s e) : ∀ (s : σ) (es : List ε), M.Admits s es
  | _, [] => trivial
  | s, e :: es => ⟨h s e, admits_of_enabled h (M.step s e) es⟩

/-! ## Simulation and progress -/

/-- **A simulation.** Where one machine's states are read as another's, starts
as reachable states and steps as steps, its runs are read as runs. `I` is an
invariant the reading may use. -/
theorem Reachable.simulate {τ δ : Type} {N : Machine τ δ} {f : σ → τ} {g : ε → δ} {I : σ → Prop}
    (hstart : ∀ s, M.start s → N.Reachable (f s) ∧ I s)
    (hstep : ∀ s e, I s → M.enabled s e →
      N.enabled (f s) (g e) ∧ f (M.step s e) = N.step (f s) (g e) ∧ I (M.step s e))
    {s : σ} (h : M.Reachable s) : N.Reachable (f s) ∧ I s := by
  refine h.invariant (I := fun s => N.Reachable (f s) ∧ I s) hstart ?_
  rintro s e ⟨hs, hI⟩ he
  obtain ⟨hen, heq, hI'⟩ := hstep s e hI he
  exact ⟨heq ▸ hs.step hen, hI'⟩

/-- Some events, each of which meets `p`, lead to a state with `Q`. -/
def Leads (M : Machine σ ε) (p : ε → Prop) (Q : σ → Prop) (s : σ) : Prop :=
  ∃ es, M.Admits s es ∧ (∀ e ∈ es, p e) ∧ Q (M.run s es)

variable {p : ε → Prop} {Q : σ → Prop}

theorem Leads.here {s : σ} (h : Q s) : M.Leads p Q s := ⟨[], trivial, nofun, h⟩

theorem Leads.step {s : σ} {e : ε} (he : M.enabled s e) (hp : p e)
    (h : M.Leads p Q (M.step s e)) : M.Leads p Q s := by
  obtain ⟨es, hadmits, hall, hQ⟩ := h
  exact ⟨e :: es, ⟨he, hadmits⟩, List.forall_mem_cons.2 ⟨hp, hall⟩, hQ⟩

/-- **The progress rule.** While `Q` does not hold some event makes the measure
smaller. -/
theorem Leads.of_measure {I : σ → Prop} (μ : σ → ℕ)
    (h : ∀ s, I s → ¬ Q s → ∃ e, M.enabled s e ∧ p e ∧ I (M.step s e) ∧ μ (M.step s e) < μ s)
    {s : σ} (hs : I s) : M.Leads p Q s := by
  induction hn : μ s using Nat.strongRecOn generalizing s with
  | ind n ih =>
    by_cases hQ : Q s
    · exact .here hQ
    · obtain ⟨e, hen, hp, hI, hlt⟩ := h s hs hQ
      exact .step hen hp (ih _ (hn ▸ hlt) hI rfl)

/-- Progress is read along a simulation. -/
theorem Leads.lift {τ : Type} {N : Machine τ ε} {f : σ → τ} {I : σ → Prop} {Q : τ → Prop}
    (hstep : ∀ s e, I s → N.enabled (f s) e →
      M.enabled s e ∧ f (M.step s e) = N.step (f s) e ∧ I (M.step s e))
    {s : σ} (hs : I s) (h : N.Leads p Q (f s)) : M.Leads p (fun s => Q (f s)) s := by
  obtain ⟨es, hadmits, hall, hQ⟩ := h
  induction es generalizing s with
  | nil => exact .here hQ
  | cons e es ih =>
    obtain ⟨hen, heq, hI⟩ := hstep s e hs hadmits.1
    refine .step hen (hall e List.mem_cons_self) (ih hI ?_ (fun e' he' => ?_) ?_)
    · rw [heq]
      exact hadmits.2
    · exact hall e' (List.mem_cons_of_mem _ he')
    · rw [heq]
      exact hQ

end Machine

end Hmix
