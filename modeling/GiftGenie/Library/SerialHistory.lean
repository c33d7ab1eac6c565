import Mathlib.Algebra.Ring.Parity
import Mathlib.Data.List.Count
import Mathlib.Data.List.Perm.Basic

/-!
# Serial histories of atomic calls

A service that serialises its calls is a function `exec : κ → σ → ρ × σ`: a call of type `κ`,
committed in a state of type `σ`, gives an answer and the next state.  A history is a list of
calls in commit order.

* `atomically` is the usual way to get such a function: a transaction body may throw, and the
  service may give up, and in both cases the state is as it was.
* `final_invariant` is the induction rule: what every call keeps holds after a history.
* `final_observe` is the parity law: an observation that every call either flips or leaves alone
  ends as its initial value flipped once per flipping call.
* `final_balance` is the law of a number that calls move up and down.
* `final_simulates` is the refinement law: where every call that succeeds is one of a second service,
  a history of successes is one of that service.
* `history_perm` is the reordering law: where every two calls commute up to an equivalence of
  states, all commit orders give every call its answer and equivalent final states.
-/

set_option autoImplicit false

namespace GiftGenie.Library.SerialHistory

/-- Commit a transaction body: a body that throws, or a service that does not serve it, leaves the
state as it was and answers `false`. -/
def atomically {σ ε : Type*} (served : Bool) (body : σ → Except ε σ) (s : σ) : Bool × σ :=
  match served, body s with
  | true, .ok s' => (true, s')
  | _, _ => (false, s)

theorem atomically_ok {σ ε : Type*} {body : σ → Except ε σ} {s s' : σ} (h : body s = .ok s') :
    atomically true body s = (true, s') := by
  simp [atomically, h]

theorem atomically_error {σ ε : Type*} {served : Bool} {body : σ → Except ε σ} {s : σ} {e : ε}
    (h : body s = .error e) : atomically served body s = (false, s) := by
  cases served <;> simp [atomically, h]

/-- A transaction that answers `false` has changed nothing. -/
theorem atomically_of_false {σ ε : Type*} {served : Bool} {body : σ → Except ε σ} {s : σ}
    (h : (atomically served body s).1 = false) : (atomically served body s).2 = s := by
  unfold atomically at h ⊢
  split
  · simp_all
  · rfl

variable {κ ρ σ : Type*} (exec : κ → σ → ρ × σ)

/-- The calls of a history with their answers. -/
def answers : List κ → σ → List (κ × ρ)
  | [], _ => []
  | c :: cs, s => (c, (exec c s).1) :: answers cs (exec c s).2

/-- The state after a history. -/
def final : List κ → σ → σ
  | [], s => s
  | c :: cs, s => final cs (exec c s).2

variable {exec}

/-- What every call keeps holds after a history. -/
theorem final_invariant {I : σ → Prop} (hI : ∀ c s, I s → I (exec c s).2) :
    ∀ (cs : List κ) (s : σ), I s → I (final exec cs s) := by
  intro cs
  induction cs with
  | nil => intro s hs; exact hs
  | cons c cs ih => intro s hs; exact ih _ (hI c s hs)

theorem final_append {ρ : Type*} {exec : κ → σ → ρ × σ} (cs ds : List κ) (s : σ) :
    final exec (cs ++ ds) s = final exec ds (final exec cs s) := by
  induction cs generalizing s with
  | nil => rfl
  | cons c cs ih => exact ih _

theorem answers_append {ρ : Type*} {exec : κ → σ → ρ × σ} (cs ds : List κ) (s : σ) :
    answers exec (cs ++ ds) s = answers exec cs s ++ answers exec ds (final exec cs s) := by
  induction cs generalizing s with
  | nil => rfl
  | cons c cs ih => exact congrArg _ (ih _)

/-! ### The parity law -/

/-- **Parity.**  If every call flips an observation exactly when `flips` says so of the call and its
answer, then after a history it is what it was if an even number of calls flipped it. -/
theorem final_observe {I : σ → Prop} (obs : σ → Prop) (flips : κ × ρ → Bool)
    (hI : ∀ c s, I s → I (exec c s).2)
    (hobs : ∀ c s, I s → (obs (exec c s).2 ↔ (obs s ↔ flips (c, (exec c s).1) = false))) :
    ∀ (cs : List κ) (s : σ), I s →
      (obs (final exec cs s) ↔ (obs s ↔ Even ((answers exec cs s).countP flips))) := by
  intro cs
  induction cs with
  | nil => intro s _; simp [final, answers]
  | cons c cs ih =>
    intro s hs
    rw [final, ih _ (hI c s hs), hobs c s hs, answers, List.countP_cons]
    cases flips (c, (exec c s).1) with
    | false => simp
    | true =>
      simp only [if_true, Nat.even_add_one, Bool.true_eq_false, iff_false]
      exact not_iff_comm.trans iff_comm

/-! ### The balance law -/

/-- **Balance.**  If every call that succeeds moves a number up by one, down by one or not at all, as
`up` and `down` say of the call, then over a history of successes the calls up and the calls down
make up the difference. -/
theorem final_balance {exec : κ → σ → Bool × σ} {I : σ → Prop} (f : σ → ℕ) (up down : κ → Bool)
    (hI : ∀ c s, I s → I (exec c s).2)
    (h : ∀ c s, I s → (exec c s).1 = true →
      f s + (up c).toNat = f (exec c s).2 + (down c).toNat) :
    ∀ (cs : List κ) (s : σ), I s → (∀ a ∈ answers exec cs s, a.2 = true) →
      f s + cs.countP up = f (final exec cs s) + cs.countP down := by
  intro cs
  induction cs with
  | nil => intro s _ _; rfl
  | cons c cs ih =>
    intro s hs hall
    have hc : (exec c s).1 = true := hall (c, (exec c s).1) List.mem_cons_self
    have hfirst := h c s hs hc
    have hrest := ih (exec c s).2 (hI c s hs) fun a ha => hall a (List.mem_cons_of_mem _ ha)
    rw [List.countP_cons, List.countP_cons, final]
    cases hup : up c <;> cases hdown : down c <;> simp [hup, hdown] at hfirst ⊢ <;> omega

/-! ### The refinement law -/

/-- **Refinement.**  `f` and `g` map the calls and states of one service to those of another; if every
call that answers `true` does there what it does here, so does a history of such calls. -/
theorem final_simulates {κ' τ : Type*} {exec : κ → σ → Bool × σ} {exec' : κ' → τ → Bool × τ}
    (f : κ → κ') (g : σ → τ)
    (h : ∀ c s, (exec c s).1 = true → exec' (f c) (g s) = (true, g (exec c s).2)) :
    ∀ (cs : List κ) (s : σ), (∀ a ∈ answers exec cs s, a.2 = true) →
      final exec' (cs.map f) (g s) = g (final exec cs s) ∧
        answers exec' (cs.map f) (g s) = cs.map fun c => (f c, true) := by
  intro cs
  induction cs with
  | nil => intro s _; exact ⟨rfl, rfl⟩
  | cons c cs ih =>
    intro s hall
    have hc : (exec c s).1 = true := hall (c, (exec c s).1) List.mem_cons_self
    obtain ⟨hfin, hans⟩ := ih (exec c s).2 fun a ha => hall a (List.mem_cons_of_mem _ ha)
    have hexec : exec' (f c) (g s) = (true, g (exec c s).2) := h c s hc
    constructor
    · rw [List.map_cons, final, hexec]
      exact hfin
    · rw [List.map_cons, answers, hexec, List.map_cons]
      exact congrArg _ hans

/-! ### The reordering law -/

/-- Calls commute where they are `independent`: up to the relation `R` on states, on the states
that satisfy `dom` for both calls. -/
structure Commutes (exec : κ → σ → ρ × σ) (dom : κ → σ → Prop) (R : σ → σ → Prop)
    (independent : κ → κ → Prop) : Prop where
  refl : ∀ s, R s s
  trans : ∀ {s t u}, R s t → R t u → R s u
  dom_congr : ∀ {c s t}, R s t → dom c s → dom c t
  dom_exec : ∀ {c d s}, dom c s → dom d s → dom c (exec d s).2
  congr : ∀ {c s t}, R s t → dom c s → (exec c s).1 = (exec c t).1 ∧ R (exec c s).2 (exec c t).2
  symm_independent : ∀ {c d}, independent c d → independent d c
  answer : ∀ {c d s}, independent c d → dom c s → dom d s → (exec d (exec c s).2).1 = (exec d s).1
  swap : ∀ {c d s}, independent c d → dom c s → dom d s →
    R (exec d (exec c s).2).2 (exec c (exec d s).2).2

variable {dom : κ → σ → Prop} {R : σ → σ → Prop} {independent : κ → κ → Prop}

/-- Related initial states give the same answers and related final states. -/
theorem history_congr (h : Commutes exec dom R independent) :
    ∀ (cs : List κ) (s t : σ), R s t → (∀ c ∈ cs, dom c s) →
      answers exec cs s = answers exec cs t ∧ R (final exec cs s) (final exec cs t) := by
  intro cs
  induction cs with
  | nil => intro s t hst _; exact ⟨rfl, hst⟩
  | cons c cs ih =>
    intro s t hst hdom
    have hc : dom c s := hdom c List.mem_cons_self
    obtain ⟨hans, hnext⟩ := h.congr hst hc
    obtain ⟨hrest, hfin⟩ := ih _ _ hnext
      (fun d hd => h.dom_exec (hdom d (List.mem_cons_of_mem c hd)) hc)
    exact ⟨by rw [answers, answers, hans, hrest], hfin⟩

/-- **Reordering.**  Independent calls may commit in any order. -/
theorem history_perm (h : Commutes exec dom R independent) {cs ds : List κ} (hp : cs.Perm ds) :
    ∀ s : σ, cs.Pairwise independent → (∀ c ∈ cs, dom c s) →
      (answers exec cs s).Perm (answers exec ds s) ∧ R (final exec cs s) (final exec ds s) := by
  induction hp with
  | nil => intro s _ _; exact ⟨List.Perm.refl _, h.refl s⟩
  | cons c _ ih =>
    intro s hpw hdom
    have hc : dom c s := hdom c List.mem_cons_self
    obtain ⟨hans, hfin⟩ := ih _ (List.pairwise_cons.mp hpw).2
      (fun d hd => h.dom_exec (hdom d (List.mem_cons_of_mem c hd)) hc)
    exact ⟨hans.cons _, hfin⟩
  | swap c d cs =>
    intro s hpw hdom
    -- `d` commits before `c` on the left, `c` before `d` on the right
    have hd : dom d s := hdom d List.mem_cons_self
    have hc : dom c s := hdom c (List.mem_cons_of_mem d List.mem_cons_self)
    have hdc : independent d c := (List.pairwise_cons.mp hpw).1 c List.mem_cons_self
    have hrest := history_congr h cs _ _ (h.swap hdc hd hc) (fun e he =>
      have hes : dom e s := hdom e (List.mem_cons_of_mem d (List.mem_cons_of_mem c he))
      h.dom_exec (h.dom_exec hes hd) (h.dom_exec hc hd))
    refine ⟨?_, hrest.2⟩
    simp only [answers]
    rw [h.answer hdc hd hc, h.answer (h.symm_independent hdc) hc hd, hrest.1]
    exact List.Perm.swap _ _ _
  | trans hp₁ _ ih₁ ih₂ =>
    intro s hpw hdom
    obtain ⟨hans₁, hfin₁⟩ := ih₁ s hpw hdom
    obtain ⟨hans₂, hfin₂⟩ := ih₂ s (hp₁.pairwise hpw h.symm_independent)
      (fun c hc => hdom c (hp₁.mem_iff.mpr hc))
    exact ⟨hans₁.trans hans₂, h.trans hfin₁ hfin₂⟩

end GiftGenie.Library.SerialHistory
