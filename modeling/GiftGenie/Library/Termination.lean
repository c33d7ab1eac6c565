import GiftGenie.Library.Machine
import Mathlib.Logic.Function.Iterate
import Mathlib.Order.OrderIsoNat

/-!
# Runs without end

A machine has an infinite run, through events that meet a guard, from every state of a set that one
of its steps does not leave (`infiniteRun_of_progress`).  It has none from the states of a set that
no step leaves and in which every step makes a natural number smaller (`not_infiniteRun`); the
number bounds the length of every run (`length_add_le`).
-/

set_option autoImplicit false

namespace GiftGenie.Library.Machine

variable {σ ε : Type*} {step : σ → ε → Option σ} {G : σ → ε → Prop} {I : σ → Prop}

/-- A run from `s` that never ends, and whose steps all meet the guard. -/
def InfiniteRun (step : σ → ε → Option σ) (G : σ → ε → Prop) (s : σ) : Prop :=
  ∃ (states : ℕ → σ) (events : ℕ → ε), states 0 = s ∧
    ∀ n, G (states n) (events n) ∧ step (states n) (events n) = some (states (n + 1))

/-- The rest of a run without end is one. -/
theorem InfiniteRun.tail {s : σ} (h : InfiniteRun step G s) :
    ∃ e s', step s e = some s' ∧ InfiniteRun step G s' := by
  obtain ⟨states, events, rfl, hrun⟩ := h
  exact ⟨events 0, states 1, (hrun 0).2, fun n => states (n + 1), fun n => events (n + 1), rfl,
    fun n => hrun (n + 1)⟩

theorem infiniteRun_of_progress
    (hprogress : ∀ s, I s → ∃ e s', G s e ∧ step s e = some s' ∧ I s') {s : σ} (hs : I s) :
    InfiniteRun step G s := by
  choose event next hG hstep hI using hprogress
  let advance : {s // I s} → {s // I s} := fun s => ⟨next s.1 s.2, hI s.1 s.2⟩
  refine ⟨fun n => (advance^[n] ⟨s, hs⟩).1,
    fun n => event (advance^[n] ⟨s, hs⟩).1 (advance^[n] ⟨s, hs⟩).2, rfl, fun n => ⟨hG _ _, ?_⟩⟩
  show step _ _ = some (advance^[n + 1] ⟨s, hs⟩).1
  rw [Function.iterate_succ_apply']
  exact hstep _ _

theorem length_add_le (measure : σ → ℕ)
    (hstep : ∀ s e s', I s → G s e → step s e = some s' → I s' ∧ measure s' < measure s) :
    ∀ (es : List ε) (s t : σ), I s → AllSteps step G s es → run step s es = some t →
      I t ∧ es.length + measure t ≤ measure s := by
  intro es
  induction es with
  | nil =>
    intro s t hs _ hrun
    cases hrun
    exact ⟨hs, le_of_eq (Nat.zero_add _)⟩
  | cons e es ih =>
    intro s t hs hG hrun
    obtain ⟨s', he, hrest⟩ := run_cons.mp hrun
    obtain ⟨hs', hlt⟩ := hstep s e s' hs hG.1 he
    obtain ⟨ht, hle⟩ := ih s' t hs' (hG.2 s' he) hrest
    refine ⟨ht, ?_⟩
    rw [List.length_cons]
    omega

theorem not_infiniteRun (measure : σ → ℕ)
    (hstep : ∀ s e s', I s → G s e → step s e = some s' → I s' ∧ measure s' < measure s) {s : σ}
    (hs : I s) : ¬InfiniteRun step G s := by
  rintro ⟨states, events, rfl, hrun⟩
  have hI : ∀ n, I (states n) := by
    intro n
    induction n with
    | zero => exact hs
    | succ n ih => exact (hstep _ _ _ ih (hrun n).1 (hrun n).2).1
  have hlt : ∀ n, measure (states (n + 1)) < measure (states n) :=
    fun n => (hstep _ _ _ (hI n) (hrun n).1 (hrun n).2).2
  exact not_strictAnti_of_wellFoundedLT (fun n => measure (states n))
    (strictAnti_nat_of_succ_lt hlt)

end GiftGenie.Library.Machine
