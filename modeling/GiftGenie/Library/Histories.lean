import GiftGenie.Library.Machine
import Mathlib.Data.List.Basic
import Mathlib.Data.List.Induction

/-!
# Histories of a machine

Properties of a state together with the events that led to it.  `allPrefixes_iff` makes a guard on
histories exact: where an invariant survives a step exactly if the guard lets the event come after what
happened so far, and a step that it does not let come breaks the property, the property holds
throughout a run if and only if the guard lets every event of it come where it does.
-/

set_option autoImplicit false

namespace GiftGenie.Library.Histories

variable {σ ε : Type*} {step : σ → ε → Option σ}

variable (step) in
/-- `P` holds of the start and after every event of the run, with what happened until then. -/
def AllPrefixes (P : List ε → σ → Prop) (s : σ) (es : List ε) : Prop :=
  ∀ before after t, before ++ after = es → Machine.run step s before = some t → P before t

/-- Every event of `es` may come after those before it. -/
def AllowedAfter (G : List ε → ε → Prop) (es : List ε) : Prop :=
  ∀ before e after, before ++ e :: after = es → G before e

theorem run_concat {s t : σ} {es : List ε} {e : ε} :
    Machine.run step s (es ++ [e]) = some t ↔
      ∃ u, Machine.run step s es = some u ∧ step u e = some t := by
  have hlast : ∀ u, Machine.run step u [e] = step u e := fun u => Option.bind_fun_some (step u e)
  rw [Machine.run_append, Option.bind_eq_some_iff]
  simp only [hlast]

/-- An event of a history that ends with `g` is this `g`, or one of those before it. -/
theorem append_cons_eq_concat {before after es : List ε} {e g : ε} :
    before ++ e :: after = es ++ [g] ↔
      (before = es ∧ e = g ∧ after = []) ∨ ∃ rest, after = rest ++ [g] ∧ before ++ e :: rest = es := by
  constructor
  · intro h
    rcases List.eq_nil_or_concat' after with rfl | ⟨rest, f, rfl⟩
    · obtain ⟨hes, hlast⟩ := List.append_inj' h rfl
      exact Or.inl ⟨hes, List.singleton_inj.mp hlast, rfl⟩
    · rw [← List.cons_append, ← List.append_assoc] at h
      obtain ⟨hes, hlast⟩ := List.append_inj' h rfl
      exact Or.inr ⟨rest, by rw [hlast], hes⟩
  · intro h
    rcases h with ⟨rfl, rfl, rfl⟩ | ⟨rest, rfl, rfl⟩
    · rfl
    · rw [List.append_assoc, List.cons_append]

theorem allowedAfter_nil {G : List ε → ε → Prop} : AllowedAfter G [] := fun before e after hsplit =>
  absurd hsplit (List.append_ne_nil_of_right_ne_nil before (List.cons_ne_nil e after))

theorem allowedAfter_concat {G : List ε → ε → Prop} {es : List ε} {e : ε} :
    AllowedAfter G (es ++ [e]) ↔ AllowedAfter G es ∧ G es e := by
  constructor
  · intro h
    refine ⟨fun before f after hsplit => ?_, h es e [] rfl⟩
    exact h before f (after ++ [e]) (append_cons_eq_concat.mpr (Or.inr ⟨after, rfl, hsplit⟩))
  · intro h before f after hsplit
    rcases append_cons_eq_concat.mp hsplit with ⟨rfl, rfl, -⟩ | ⟨rest, -, hes⟩
    · exact h.2
    · exact h.1 before f rest hes

/-- What every allowed step keeps holds at the end of a run of allowed events. -/
theorem invariant_of_allowed {I : List ε → σ → Prop} {G : List ε → ε → Prop} {s : σ}
    (hstart : I [] s)
    (hkeep : ∀ es t e t', I es t → G es e → step t e = some t' → I (es ++ [e]) t') :
    ∀ (es : List ε) (t : σ), AllowedAfter G es → Machine.run step s es = some t → I es t := by
  intro es
  induction es using List.reverseRecOn with
  | nil =>
    intro t _ hrun
    obtain rfl : s = t := Option.some.inj hrun
    exact hstart
  | append_singleton es e ih =>
    intro t hallowed hrun
    obtain ⟨u, hu, he⟩ := run_concat.mp hrun
    obtain ⟨hes, hG⟩ := allowedAfter_concat.mp hallowed
    exact hkeep es u e t (ih u hes hu) hG he

/-- **Exact guards on histories.** -/
theorem allPrefixes_iff {I P : List ε → σ → Prop} {G : List ε → ε → Prop} {s : σ}
    (hstart : I [] s) (hIP : ∀ es t, I es t → P es t)
    (hkeep : ∀ es t e t', I es t → G es e → step t e = some t' → I (es ++ [e]) t')
    (hbreak : ∀ es t e t', I es t → step t e = some t' → P (es ++ [e]) t' → G es e) :
    ∀ (es : List ε) (t : σ), Machine.run step s es = some t →
      (AllPrefixes step P s es ↔ AllowedAfter G es) := by
  intro es t hrun
  constructor
  · induction es using List.reverseRecOn generalizing t with
    | nil => exact fun _ => allowedAfter_nil
    | append_singleton es e ih =>
      intro hP
      obtain ⟨u, hu, he⟩ := run_concat.mp hrun
      have hes : AllowedAfter G es := by
        refine ih u hu fun before after v hsplit => hP before (after ++ [e]) v ?_
        rw [← hsplit, List.append_assoc]
      have hI : I es u := invariant_of_allowed hstart hkeep es u hes hu
      have hlast : P (es ++ [e]) t := hP (es ++ [e]) [] t (List.append_nil _) hrun
      exact allowedAfter_concat.mpr ⟨hes, hbreak es u e t hI he hlast⟩
  · intro hallowed before after u hsplit hu
    refine hIP before u (invariant_of_allowed hstart hkeep before u ?_ hu)
    intro front e back hfront
    refine hallowed front e (back ++ after) ?_
    rw [← hsplit, ← hfront, List.append_assoc, List.cons_append]

end GiftGenie.Library.Histories
