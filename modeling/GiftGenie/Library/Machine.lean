import Mathlib.Logic.Basic
import Mathlib.Data.Option.Basic

/-!
# Event-driven machines

A machine is a partial step function `step : σ → ε → Option σ`: the event carries every choice the
environment makes, and `none` says that the event is not possible in that state.  A run is a list
of events.

* `run_invariant` is the induction rule: what holds at the start and is kept by every step holds
  wherever a run ends.
* `run_guarded` is the same rule for runs whose steps all meet a guard.
* `allStates_iff_allSteps` makes a guard exact: where a good state steps to a good state exactly
  when the guard holds, a run passes through good states only if and only if all its steps meet
  the guard.
* `allSteps_iff` is its form for properties of steps: two guards that agree wherever an invariant
  holds, which steps that meet them keep, agree about whole runs.
* `run_flatMap` projects the runs of one machine to runs of another, and `run_rel` compares the runs
  of two machines that step together.
* `run_observe` is for machines of which the state says, too, what the other machine does in a step,
  and `run_observe_guarded` for runs of them whose steps all meet a guard.
-/

set_option autoImplicit false

namespace GiftGenie.Library.Machine

variable {σ ε : Type*} (step : σ → ε → Option σ)

/-- The state a run ends in, if every event of it is possible. -/
def run : σ → List ε → Option σ
  | s, [] => some s
  | s, e :: es => (step s e).bind fun s' => run s' es

/-- Every step of the run meets the guard `G` in the state it is taken in. -/
def AllSteps (G : σ → ε → Prop) : σ → List ε → Prop
  | _, [] => True
  | s, e :: es => G s e ∧ ∀ s', step s e = some s' → AllSteps G s' es

/-- Every state of the run, the first and the last included, satisfies `P`. -/
def AllStates (P : σ → Prop) : σ → List ε → Prop
  | s, [] => P s
  | s, e :: es => P s ∧ ∀ s', step s e = some s' → AllStates P s' es

variable {step}

theorem run_cons {s t : σ} {e : ε} {es : List ε} :
    run step s (e :: es) = some t ↔ ∃ s', step s e = some s' ∧ run step s' es = some t := by
  simp only [run, Option.bind_eq_some_iff]

theorem run_append {s : σ} {es fs : List ε} :
    run step s (es ++ fs) = (run step s es).bind fun t => run step t fs := by
  induction es generalizing s with
  | nil => rfl
  | cons e es ih =>
    show (step s e).bind _ = ((step s e).bind _).bind _
    rw [Option.bind_assoc]
    exact congrArg _ (funext fun s' => ih)

/-- Guards that can be decided can be decided for runs. -/
instance decidableAllSteps {G : σ → ε → Prop} [∀ s e, Decidable (G s e)] :
    ∀ (s : σ) (es : List ε), Decidable (AllSteps step G s es)
  | _, [] => isTrue trivial
  | s, e :: es =>
      match hstep : step s e with
      | none => decidable_of_iff (G s e) ⟨fun h => ⟨h, fun _ hs => nomatch hstep.symm.trans hs⟩,
          fun h => h.1⟩
      | some s' =>
          have : Decidable (AllSteps step G s' es) := decidableAllSteps s' es
          decidable_of_iff (G s e ∧ AllSteps step G s' es)
            ⟨fun h => ⟨h.1, fun _ hs => Option.some.inj (hstep.symm.trans hs) ▸ h.2⟩,
              fun h => ⟨h.1, h.2 s' hstep⟩⟩

/-- What every step keeps holds at the end of a run. -/
theorem run_invariant {I : σ → Prop} (hstep : ∀ s e s', I s → step s e = some s' → I s') :
    ∀ (es : List ε) (s t : σ), I s → run step s es = some t → I t := by
  intro es
  induction es with
  | nil =>
    intro s t hs hrun
    cases hrun
    exact hs
  | cons e es ih =>
    intro s t hs hrun
    obtain ⟨s', he, hrest⟩ := run_cons.mp hrun
    exact ih s' t (hstep s e s' hs he) hrest

/-- What every guarded step keeps holds at the end of a run whose steps meet the guard. -/
theorem run_guarded {I : σ → Prop} {G : σ → ε → Prop}
    (hstep : ∀ s e s', I s → G s e → step s e = some s' → I s') :
    ∀ (es : List ε) (s t : σ), I s → AllSteps step G s es → run step s es = some t → I t := by
  intro es
  induction es with
  | nil =>
    intro s t hs _ hrun
    cases hrun
    exact hs
  | cons e es ih =>
    intro s t hs hG hrun
    obtain ⟨s', he, hrest⟩ := run_cons.mp hrun
    exact ih s' t (hstep s e s' hs hG.1 he) (hG.2 s' he) hrest

/-- What every step keeps holds in all states of a run. -/
theorem allStates_of_invariant {I : σ → Prop} (hstep : ∀ s e s', I s → step s e = some s' → I s') :
    ∀ (es : List ε) (s : σ), I s → AllStates step I s es := by
  intro es
  induction es with
  | nil => intro s hs; exact hs
  | cons e es ih => intro s hs; exact ⟨hs, fun s' he => ih s' (hstep s e s' hs he)⟩

/-- A guard that every step meets where an invariant holds. -/
theorem allSteps_of_invariant {I : σ → Prop} {G : σ → ε → Prop} (hG : ∀ s e, I s → G s e)
    (hstep : ∀ s e s', I s → step s e = some s' → I s') :
    ∀ (es : List ε) (s : σ), I s → AllSteps step G s es := by
  intro es
  induction es with
  | nil => intro s _; trivial
  | cons e es ih => intro s hs; exact ⟨hG s e hs, fun s' he => ih s' (hstep s e s' hs he)⟩

/-- A guard that every event of the run meets in every state. -/
theorem allSteps_of_forall {G : σ → ε → Prop} :
    ∀ {es : List ε} (s : σ), (∀ e ∈ es, ∀ s, G s e) → AllSteps step G s es := by
  intro es
  induction es with
  | nil => intro s _; trivial
  | cons e es ih =>
    intro s h
    exact ⟨h e List.mem_cons_self s,
      fun s' _ => ih s' fun f hf => h f (List.mem_cons_of_mem e hf)⟩

/-- **Exact guards.**  `J` is an invariant of all runs; from a good state a step leads to a good
state exactly when it meets the guard. -/
theorem allStates_iff_allSteps {J P : σ → Prop} {G : σ → ε → Prop}
    (hJ : ∀ s e s', J s → step s e = some s' → J s')
    (hP : ∀ s e s', J s → P s → step s e = some s' → (P s' ↔ G s e)) :
    ∀ (es : List ε) (s t : σ), J s → P s → run step s es = some t →
      (AllStates step P s es ↔ AllSteps step G s es) := by
  intro es
  induction es with
  | nil => intro s t _ hs _; exact iff_of_true hs trivial
  | cons e es ih =>
    intro s t hJs hs hrun
    obtain ⟨s', he, hrest⟩ := run_cons.mp hrun
    have hJs' : J s' := hJ s e s' hJs he
    have hgood : P s' ↔ G s e := hP s e s' hJs hs he
    -- the event leads to `s'` and to no other state
    have honly : ∀ {Q : σ → Prop}, (∀ r, step s e = some r → Q r) ↔ Q s' := by
      intro Q
      constructor
      · intro h; exact h s' he
      · intro h r hr
        rw [he] at hr
        cases hr
        exact h
    have hfirst : ∀ fs, AllStates step P s' fs → P s' := by
      intro fs h
      cases fs with
      | nil => exact h
      | cons f fs => exact h.1
    rw [AllStates, AllSteps, honly, honly]
    constructor
    · rintro ⟨_, hall⟩
      have hs' : P s' := hfirst es hall
      exact ⟨hgood.mp hs', (ih s' t hJs' hs' hrest).mp hall⟩
    · rintro ⟨hG, hall⟩
      have hs' : P s' := hgood.mpr hG
      exact ⟨hs, (ih s' t hJs' hs' hrest).mpr hall⟩

/-- Two guards that agree where `I` holds agree about runs, if guarded steps keep `I`. -/
theorem allSteps_iff {I : σ → Prop} {F G : σ → ε → Prop} (hFG : ∀ s e, I s → (F s e ↔ G s e))
    (hI : ∀ s e s', I s → G s e → step s e = some s' → I s') :
    ∀ (es : List ε) (s : σ), I s → (AllSteps step F s es ↔ AllSteps step G s es) := by
  intro es
  induction es with
  | nil => intro s _; exact Iff.rfl
  | cons e es ih =>
    intro s hs
    rw [AllSteps, AllSteps, hFG s e hs]
    refine and_congr_right fun hG => forall_congr' fun s' => forall_congr' fun hstep => ?_
    exact ih s' (hI s e s' hs hG hstep)

/-- **Projection of runs.**  Where each step is, seen through `f`, a run of another machine over the
events `g` gives, a whole run is one over the events of all its steps. -/
theorem run_flatMap {τ δ : Type*} {step' : τ → δ → Option τ} {f : σ → τ} {g : ε → List δ}
    (h : ∀ s e s', step s e = some s' → run step' (f s) (g e) = some (f s')) :
    ∀ (es : List ε) (s t : σ), run step s es = some t →
      run step' (f s) (es.flatMap g) = some (f t) := by
  intro es
  induction es with
  | nil =>
    intro s t hrun
    cases hrun
    rfl
  | cons e es ih =>
    intro s t hrun
    obtain ⟨s', he, hrest⟩ := run_cons.mp hrun
    rw [List.flatMap_cons, run_append, h s e s' he]
    exact ih s' t hrest

variable (step) in
/-- What is seen of a run, where `obs` is what is seen of each step. -/
def observe {δ : Type*} (obs : σ → ε → List δ) : σ → List ε → List δ
  | _, [] => []
  | s, e :: es => obs s e ++ (step s e).elim [] fun s' => observe obs s' es

theorem observe_cons {δ : Type*} (obs : σ → ε → List δ) {s s' : σ} {e : ε} (he : step s e = some s')
    (es : List ε) : observe step obs s (e :: es) = obs s e ++ observe step obs s' es := by
  rw [observe, he]
  rfl

/-- **Simulation of runs.**  Where each step that meets the guard is, seen through `f`, a run of another
machine over what is seen of the step, a whole run of such steps is one over what is seen of it. -/
theorem run_observe_guarded {τ δ : Type*} {step' : τ → δ → Option τ} {I : σ → Prop}
    {G : σ → ε → Prop} {f : σ → τ} {obs : σ → ε → List δ}
    (h : ∀ s e s', I s → G s e → step s e = some s' →
      I s' ∧ run step' (f s) (obs s e) = some (f s')) :
    ∀ (es : List ε) (s t : σ), I s → AllSteps step G s es → run step s es = some t →
      run step' (f s) (observe step obs s es) = some (f t) := by
  intro es
  induction es with
  | nil =>
    intro s t _ _ hrun
    cases hrun
    rfl
  | cons e es ih =>
    intro s t hs hG hrun
    obtain ⟨s', he, hrest⟩ := run_cons.mp hrun
    obtain ⟨hs', hfirst⟩ := h s e s' hs hG.1 he
    rw [observe_cons obs he, run_append, hfirst]
    exact ih s' t hs' (hG.2 s' he) hrest

theorem run_observe {τ δ : Type*} {step' : τ → δ → Option τ} {I : σ → Prop} {f : σ → τ}
    {obs : σ → ε → List δ}
    (h : ∀ s e s', I s → step s e = some s' → I s' ∧ run step' (f s) (obs s e) = some (f s')) :
    ∀ (es : List ε) (s t : σ), I s → run step s es = some t →
      run step' (f s) (observe step obs s es) = some (f t) := by
  intro es s t hs
  exact run_observe_guarded (G := fun _ _ => True) (fun s e s' hI _ => h s e s' hI) es s t hs
    (allSteps_of_forall s fun _ _ _ => trivial)

/-- **Refinement of runs.**  Where each event is possible for both of two machines or for neither, and
keeps their states related, so is every run. -/
theorem run_rel {τ : Type*} {step' : τ → ε → Option τ} {R : σ → τ → Prop}
    (h : ∀ s a e, R s a → Option.Rel R (step s e) (step' a e)) :
    ∀ (es : List ε) (s : σ) (a : τ), R s a → Option.Rel R (run step s es) (run step' a es) := by
  intro es
  induction es with
  | nil => intro s a hsa; exact Option.Rel.some hsa
  | cons e es ih =>
    intro s a hsa
    have hfirst := h s a e hsa
    rw [run, run]
    generalize step s e = s', step' a e = a' at hfirst
    cases hfirst with
    | none => exact Option.Rel.none
    | some hnext => exact ih _ _ hnext

theorem AllStates.mono {P Q : σ → Prop} (hPQ : ∀ s, P s → Q s) :
    ∀ {es : List ε} {s : σ}, AllStates step P s es → AllStates step Q s es := by
  intro es
  induction es with
  | nil => intro s h; exact hPQ s h
  | cons e es ih => intro s h; exact ⟨hPQ s h.1, fun s' he => ih (h.2 s' he)⟩

/-- A property of all states of a run is one of its last state. -/
theorem AllStates.last {P : σ → Prop} :
    ∀ {es : List ε} {s t : σ}, AllStates step P s es → run step s es = some t → P t := by
  intro es
  induction es with
  | nil =>
    intro s t h hrun
    cases hrun
    exact h
  | cons e es ih =>
    intro s t h hrun
    obtain ⟨s', he, hrest⟩ := run_cons.mp hrun
    exact ih (h.2 s' he) hrest

end GiftGenie.Library.Machine
