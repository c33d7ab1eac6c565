import GiftGenie.Library.Machine
import Mathlib.Logic.Function.Basic
import Mathlib.Data.List.Basic

/-!
# Outboxes

Every owner has a queue of items, each with a callback or without one.  The items of the current owner
are answered one after the other, and the callback of an item is called with its answer.  An outbox
may be launched again: the items are kept, the callbacks are not.

* `run_items`: what was pending and what is submitted is, in order, what is answered and what is pending
  at the end.
* `run_callbacks`: between two launches, the callback of every item that is answered is called once, with
  the answer to the item and in the order of the items.
-/

set_option autoImplicit false

namespace GiftGenie.Library

@[ext]
structure Outbox (υ β κ ρ : Type*) where
  current : υ
  pending : υ → List (β × Option κ)
  called : υ → List (κ × ρ)

namespace Outbox

variable {υ β κ ρ : Type*} [DecidableEq υ]

inductive Event (υ β κ ρ : Type*) where
  | submit (item : β) (callback : κ)
  | answer (answer : ρ)
  | switch (owner : υ)
  | relaunch (owner : υ)

def step (o : Outbox υ β κ ρ) : Event υ β κ ρ → Option (Outbox υ β κ ρ)
  | .submit item callback =>
      some { o with pending :=
        Function.update o.pending o.current (o.pending o.current ++ [(item, some callback)]) }
  | .answer answer =>
      match o.pending o.current with
      | [] => none
      | (_, callback) :: rest =>
          some { o with
            pending := Function.update o.pending o.current rest
            called := Function.update o.called o.current
              (o.called o.current ++ callback.toList.map fun callback => (callback, answer)) }
  | .switch owner => some { o with current := owner }
  | .relaunch owner =>
      some ⟨owner, fun u => (o.pending u).map fun p => (p.1, none), fun _ => []⟩

theorem step_answer {o : Outbox υ β κ ρ} {item : β} {callback : Option κ}
    {rest : List (β × Option κ)} (hpending : o.pending o.current = (item, callback) :: rest)
    (answer : ρ) :
    o.step (.answer answer) = some { o with
      pending := Function.update o.pending o.current rest
      called := Function.update o.called o.current
        (o.called o.current ++ callback.toList.map fun callback => (callback, answer)) } := by
  simp only [step, hpending]

/-- Who is the current owner after the event. -/
def Event.next (v : υ) : Event υ β κ ρ → υ
  | .switch owner => owner
  | .relaunch owner => owner
  | _ => v

def Event.submission : Event υ β κ ρ → List (β × κ)
  | .submit item callback => [(item, callback)]
  | _ => []

def Event.answers : Event υ β κ ρ → List ρ
  | .answer a => [a]
  | _ => []

/-- What is seen of the events while `u` is the current owner; before them it is `v`. -/
def ofOwner {α : Type*} (obs : Event υ β κ ρ → List α) (u : υ) : υ → List (Event υ β κ ρ) → List α
  | _, [] => []
  | v, e :: es => (if v = u then obs e else []) ++ ofOwner obs u (e.next v) es

theorem ofOwner_cons_of_nil {α : Type*} {obs : Event υ β κ ρ → List α} {e : Event υ β κ ρ}
    (he : obs e = []) (u v : υ) (es : List (Event υ β κ ρ)) :
    ofOwner obs u v (e :: es) = ofOwner obs u (e.next v) es := by
  rw [ofOwner, he, ite_self, List.nil_append]

theorem ofOwner_singleton {α : Type*} (obs : Event υ β κ ρ → List α) (u v : υ) (e : Event υ β κ ρ) :
    ofOwner obs u v [e] = if v = u then obs e else [] := List.append_nil _

/-- What `u` submits. -/
def submitted (u v : υ) (es : List (Event υ β κ ρ)) : List (β × κ) := ofOwner Event.submission u v es

/-- What the items of `u` are answered. -/
def answersTo (u v : υ) (es : List (Event υ β κ ρ)) : List ρ := ofOwner Event.answers u v es

theorem step_current {o o' : Outbox υ β κ ρ} {e : Event υ β κ ρ} (hstep : o.step e = some o') :
    o'.current = e.next o.current := by
  cases e with
  | answer answer =>
    rw [step] at hstep
    split at hstep
    · cases hstep
    · obtain rfl := Option.some.inj hstep
      rfl
  | submit item callback =>
    obtain rfl := Option.some.inj hstep
    rfl
  | switch owner =>
    obtain rfl := Option.some.inj hstep
    rfl
  | relaunch owner =>
    obtain rfl := Option.some.inj hstep
    rfl

theorem run_current :
    ∀ {es : List (Event υ β κ ρ)} {o o' : Outbox υ β κ ρ}, Machine.run step o es = some o' →
      o'.current = es.foldl Event.next o.current := by
  intro es
  induction es with
  | nil =>
    intro o o' hrun
    cases hrun
    rfl
  | cons e es ih =>
    intro o o' hrun
    obtain ⟨o₁, he, hrest⟩ := Machine.run_cons.mp hrun
    rw [ih hrest, step_current he]
    rfl

theorem ofOwner_append {α : Type*} (obs : Event υ β κ ρ → List α) (u : υ)
    (fs : List (Event υ β κ ρ)) :
    ∀ (es : List (Event υ β κ ρ)) (v : υ),
      ofOwner obs u v (es ++ fs) = ofOwner obs u v es ++ ofOwner obs u (es.foldl Event.next v) fs := by
  intro es
  induction es with
  | nil => intro v; rfl
  | cons e es ih =>
    intro v
    rw [List.cons_append, ofOwner, ofOwner, ih, List.append_assoc]
    rfl

/-- The calls of the callbacks of items with their answers. -/
def calls (answered : List ((β × Option κ) × ρ)) : List (κ × ρ) :=
  answered.flatMap fun p => p.1.2.toList.map fun callback => (callback, p.2)

/-- A step: what is submitted, and what is answered. -/
theorem step_conserves {o o' : Outbox υ β κ ρ} {e : Event υ β κ ρ} (hstep : o.step e = some o')
    (hlaunch : ∀ owner, e ≠ .relaunch owner) (u : υ) :
    ∃ answered : List ((β × Option κ) × ρ),
      o.pending u ++ (if o.current = u then e.submission else []).map (fun p => (p.1, some p.2)) =
        answered.map Prod.fst ++ o'.pending u ∧
      answered.map Prod.snd = (if o.current = u then e.answers else []) ∧
      o'.called u = o.called u ++ calls answered := by
  cases e with
  | submit item callback =>
    obtain rfl := Option.some.inj hstep
    refine ⟨[], ?_, (@ite_self (List ρ) _ _ []).symm, (List.append_nil _).symm⟩
    by_cases hu : o.current = u
    · subst hu
      show _ = Function.update o.pending _ _ _
      rw [if_pos rfl, Function.update_self]
      rfl
    · show _ = Function.update o.pending _ _ u
      rw [if_neg hu, Function.update_of_ne (Ne.symm hu)]
      exact List.append_nil _
  | answer answer =>
    cases hpending : o.pending o.current with
    | nil =>
      rw [step, hpending] at hstep
      cases hstep
    | cons first rest =>
      obtain ⟨item, callback⟩ := first
      rw [step_answer hpending] at hstep
      obtain rfl := Option.some.inj hstep
      by_cases hu : o.current = u
      · subst hu
        refine ⟨[((item, callback), answer)], ?_, ?_, ?_⟩
        · show _ = [(item, callback)] ++ Function.update o.pending _ _ _
          rw [hpending, if_pos rfl, Function.update_self]
          exact List.append_nil _
        · rw [if_pos rfl]
          rfl
        · show Function.update o.called _ _ _ = _
          rw [Function.update_self, calls, List.flatMap_singleton]
      · refine ⟨[], ?_, (if_neg hu).symm, ?_⟩
        · show _ = Function.update o.pending _ _ u
          rw [if_neg hu, Function.update_of_ne (Ne.symm hu)]
          exact List.append_nil _
        · show Function.update o.called _ _ u = _
          rw [Function.update_of_ne (Ne.symm hu)]
          exact (List.append_nil _).symm
  | switch owner =>
    obtain rfl := Option.some.inj hstep
    refine ⟨[], ?_, (@ite_self (List ρ) _ _ []).symm, (List.append_nil _).symm⟩
    rw [show Event.submission (.switch owner : Event υ β κ ρ) = [] from rfl, ite_self]
    exact List.append_nil _
  | relaunch owner => exact absurd rfl (hlaunch owner)

/-- **Callbacks.** -/
theorem run_callbacks {u : υ} :
    ∀ {es : List (Event υ β κ ρ)} {o o' : Outbox υ β κ ρ}, Machine.run step o es = some o' →
      (∀ owner, Event.relaunch owner ∉ es) →
      ∃ answered : List ((β × Option κ) × ρ),
        o.pending u ++ (submitted u o.current es).map (fun p => (p.1, some p.2)) =
          answered.map Prod.fst ++ o'.pending u ∧
        answered.map Prod.snd = answersTo u o.current es ∧
        o'.called u = o.called u ++ calls answered := by
  intro es
  induction es with
  | nil =>
    intro o o' hrun _
    cases hrun
    exact ⟨[], List.append_nil _, rfl, (List.append_nil _).symm⟩
  | cons e es ih =>
    intro o o' hrun hlaunch
    obtain ⟨o₁, he, hrest⟩ := Machine.run_cons.mp hrun
    obtain ⟨first, hfirst, hanswers, hcalled⟩ := step_conserves he
      (fun owner heq => hlaunch owner (heq ▸ List.mem_cons_self)) u
    obtain ⟨later, hlater, hanswers', hcalled'⟩ := ih hrest fun owner hmem =>
      hlaunch owner (List.mem_cons_of_mem e hmem)
    refine ⟨first ++ later, ?_, ?_, ?_⟩
    · rw [submitted, ofOwner, List.map_append, ← List.append_assoc, hfirst, List.append_assoc,
        ← step_current he]
      rw [submitted] at hlater
      rw [hlater, List.map_append, List.append_assoc]
    · rw [answersTo, ofOwner, ← step_current he, List.map_append, hanswers, hanswers']
      rfl
    · rw [hcalled', hcalled, calls, calls, calls, List.flatMap_append, List.append_assoc]

/-- **Items.** -/
theorem run_items {u : υ} :
    ∀ {es : List (Event υ β κ ρ)} {o o' : Outbox υ β κ ρ}, Machine.run step o es = some o' →
      ∃ answered : List β,
        (o.pending u).map Prod.fst ++ (submitted u o.current es).map Prod.fst =
          answered ++ (o'.pending u).map Prod.fst ∧
        answered.length = (answersTo u o.current es).length := by
  intro es
  induction es with
  | nil =>
    intro o o' hrun
    cases hrun
    exact ⟨[], List.append_nil _, rfl⟩
  | cons e es ih =>
    intro o o' hrun
    obtain ⟨o₁, he, hrest⟩ := Machine.run_cons.mp hrun
    obtain ⟨later, hlater, hlength⟩ := ih hrest
    by_cases hlaunch : ∃ owner, e = .relaunch owner
    · obtain ⟨owner, rfl⟩ := hlaunch
      obtain rfl := Option.some.inj he
      refine ⟨later, ?_, ?_⟩
      · rw [← hlater, submitted, ofOwner_cons_of_nil rfl, List.map_map]
        rfl
      · rw [hlength, answersTo, answersTo, ofOwner_cons_of_nil (e := .relaunch owner) rfl]
        rfl
    · obtain ⟨first, hfirst, hanswers, -⟩ :=
        step_conserves he (fun owner heq => hlaunch ⟨owner, heq⟩) u
      have hitems := congrArg (List.map Prod.fst) hfirst
      rw [List.map_append, List.map_append, List.map_map, List.map_map] at hitems
      refine ⟨first.map (fun p => p.1.1) ++ later, ?_, ?_⟩
      · rw [List.append_assoc, ← hlater, submitted, ofOwner, List.map_append, ← List.append_assoc,
          ← step_current he, ← List.append_assoc]
        exact congrArg (· ++ _) hitems
      · have hlength' := congrArg List.length hanswers
        rw [List.length_map] at hlength'
        rw [answersTo, ofOwner, ← step_current he, List.length_append, List.length_append,
          List.length_map, hlength', hlength]
        rfl

end Outbox

end GiftGenie.Library
