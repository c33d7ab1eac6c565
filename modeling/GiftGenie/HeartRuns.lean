import GiftGenie.Favorites
import GiftGenie.ListTransactionRuns

/-!
# The hearts and the transactions behind them

In `Favorites` a transaction commits at once and its answer is always right.  Here the taps of one
client run as `ListTransactionRuns` runs them, among the list transactions of any others: a commit
can be refused and tried again, and the answer to an accepted commit can be lost, after which the
client toggles once more or gives up.

The copy `appState.favorites` flips once for every call that completes with success.  So it differs
from the document exactly by the effects that the client has not heard of (`hearts_differ_iff`).
-/

set_option autoImplicit false

namespace GiftGenie.HeartRuns

open GiftGenie.Library GiftGenie.Firestore GiftGenie.ListTransactions GiftGenie.ListHistories
  GiftGenie.TransactionRuns GiftGenie.ListTransactionRuns

variable {κ μ : Type} [DecidableEq κ] [DecidableEq μ]

/-- The calls of the run: one for each tap on the heart of a card, and those of other clients. -/
def heartCalls (uid : String) (products : κ → String) (others : μ → ListCall) : κ ⊕ μ → ListCall :=
  Sum.elim (fun k => { id := uid, op := .updateFavorites (some (products k)) }) others

/-- The calls, `appState.favorites`, and the taps whose callback has run. -/
structure Client (κ μ : Type) where
  calls : State (κ ⊕ μ)
  favorites : List DString
  answered : List κ := []

inductive Event (κ μ : Type) where
  | transaction (e : TransactionRuns.Event (κ ⊕ μ))
  | callback (k : κ)
  deriving DecidableEq

/-- The callback of `_handleFavoritesListChanged`. -/
def Client.handle (products : κ → String) (s : Client κ μ) (k : κ) (result : Bool) : Client κ μ :=
  { s with
    favorites := if result then ListSet.toggleFirst s.favorites (some (products k)) else s.favorites
    answered := s.answered ++ [k] }

variable (uid : String) (products : κ → String) (others : μ → ListCall)

/-- `updateFavorites` answers `true` where its transaction has completed without an error. -/
def step (s : Client κ μ) : Event κ μ → Option (Client κ μ)
  | .transaction e =>
      (TransactionRuns.step (blocksOf (heartCalls uid products others)) s.calls e).map fun calls =>
        { s with calls := calls }
  | .callback k =>
      match s.calls.phase (.inl k) with
      | .completed error =>
          if k ∈ s.answered then none else some (s.handle products k error.isNone)
      | .running _ _ _ => none

/-- The client after `getFavorites`. -/
def Client.start (server : Mutations.Server) : Client κ μ where
  calls := initial (blocksOf (heartCalls uid products others)) server
  favorites := Session.getFavorites server.values uid

/-- The events of the transactions. -/
def Event.transactions : Event κ μ → List (TransactionRuns.Event (κ ⊕ μ))
  | .transaction e => [e]
  | .callback _ => []

/-- The effects of a tap that the client has not heard of: those whose answer was lost, and the
success whose callback has not run. -/
def unheard (events : List (Event κ μ)) (s : Client κ μ) (k : κ) : ℕ :=
  events.count (.transaction (.commit (.inl k) .lost)) +
    if k ∈ s.answered then 0 else (s.calls.phase (.inl k)).succeeded.toNat

variable {uid products others} {s : Client κ μ}

/-! ### The calls -/

/-- The transactions of a run are a run of transactions. -/
theorem run_calls {events : List (Event κ μ)} {t : Client κ μ}
    (hrun : Machine.run (step uid products others) s events = some t) :
    Machine.run (TransactionRuns.step (blocksOf (heartCalls uid products others))) s.calls
      (events.flatMap Event.transactions) = some t.calls := by
  refine Machine.run_flatMap (fun s e s' hstep => ?_) events s t hrun
  cases e with
  | transaction e =>
    obtain ⟨calls, hcalls, hs'⟩ := Option.map_eq_some_iff.mp hstep
    rw [← hs']
    exact Machine.run_cons.mpr ⟨calls, hcalls, rfl⟩
  | callback k =>
    simp only [step] at hstep
    split at hstep
    · obtain ⟨-, hs'⟩ := Option.ite_none_left_eq_some.mp hstep
      rw [← Option.some.inj hs']
      rfl
    · cases hstep

/-- A call that has completed stays as it is. -/
theorem completed_step {ι : Type} [DecidableEq ι] {blocks : ι → Transactions.Block}
    {s t : State ι} {e : TransactionRuns.Event ι} {i : ι} {error : Option Transactions.TransactionError}
    (hdone : s.phase i = .completed error) (h : TransactionRuns.step blocks s e = some t) :
    t.phase i = .completed error := by
  obtain ⟨j, p, hmoves, ht⟩ | ⟨j, retries, tx, mutations, heard, hphase, -, -, -, ht⟩ :=
    step_cases h
  · subst ht
    by_cases hj : i = j
    · subst hj
      rw [hdone] at hmoves
      cases hmoves
    · rw [phase_setPhase_ne hj]
      exact hdone
  · subst ht
    by_cases hj : i = j
    · subst hj
      rw [hdone] at hphase
      cases hphase
    · rw [phase_accept_ne hj]
      exact hdone

/-! ### The copy -/

/-- The tap is one of the product, and its call has succeeded. -/
def hears (products : κ → String) (s : Client κ μ) (x : DString) (k : κ) : Bool :=
  some (products k) = x && (s.calls.phase (.inl k)).succeeded

/-- The copy is the list it started as, flipped once for every success that was called back. -/
structure Copied (products : κ → String) (start : List DString) (s : Client κ μ) : Prop where
  nodup : s.favorites.Nodup
  once : s.answered.Nodup
  ended : ∀ k ∈ s.answered, ∃ error, s.calls.phase (.inl k) = .completed error
  mem : ∀ x, x ∈ s.favorites ↔ (x ∈ start ↔ Even (s.answered.countP (hears products s x)))

theorem copied_transaction {start : List DString} (h : Copied products start s)
    {e : TransactionRuns.Event (κ ⊕ μ)} {calls : State (κ ⊕ μ)}
    (hcalls : TransactionRuns.step (blocksOf (heartCalls uid products others)) s.calls e =
      some calls) : Copied products start { s with calls := calls } := by
  have hsame : ∀ k ∈ s.answered, calls.phase (.inl k) = s.calls.phase (.inl k) := by
    intro k hk
    obtain ⟨error, hdone⟩ := h.ended k hk
    rw [hdone]
    exact completed_step hdone hcalls
  refine ⟨h.nodup, h.once, fun k hk => ?_, fun x => ?_⟩
  · obtain ⟨error, hdone⟩ := h.ended k hk
    exact ⟨error, completed_step hdone hcalls⟩
  · rw [h.mem x]
    have hcount : s.answered.countP (hears products s x) =
        s.answered.countP (hears products { s with calls := calls } x) := by
      refine List.countP_congr fun k hk => ?_
      rw [hears, hears, hsame k hk]
    rw [← hcount]

omit [DecidableEq κ] [DecidableEq μ] in
theorem copied_callback {start : List DString} (h : Copied products start s) {k : κ}
    {error : Option Transactions.TransactionError}
    (hdone : s.calls.phase (.inl k) = .completed error) (hnew : k ∉ s.answered) :
    Copied products start (s.handle products k error.isNone) := by
  have hsucceeded : (s.calls.phase (.inl k)).succeeded = error.isNone := by
    rw [hdone]
    cases error <;> rfl
  refine ⟨?_, ?_, fun j hj => ?_, fun x => ?_⟩
  · show (if error.isNone = true then _ else _ : List DString).Nodup
    split
    · exact ListSet.nodup_toggleFirst h.nodup _
    · exact h.nodup
  · show (s.answered ++ [k]).Nodup
    rw [← List.concat_eq_append, List.nodup_concat]
    exact ⟨hnew, h.once⟩
  · rcases List.mem_append.mp hj with hj | hj
    · exact h.ended j hj
    · rw [List.mem_singleton.mp hj]
      exact ⟨error, hdone⟩
  · show x ∈ (if error.isNone = true then _ else _ : List DString) ↔
      (x ∈ start ↔ Even ((s.answered ++ [k]).countP (hears products s x)))
    rw [List.countP_append, List.countP_singleton, hears, hsucceeded]
    cases error.isNone with
    | false =>
      simp only [Bool.false_eq_true, if_false, Bool.and_false, Nat.add_zero]
      exact h.mem x
    | true =>
      rw [if_pos rfl, ListSet.mem_toggleFirst h.nodup, h.mem x]
      by_cases hx : x = some (products k)
      · simp only [hx, ne_eq, not_true_eq_false, iff_false, decide_true, Bool.and_self, if_true,
          Nat.even_add_one]
        tauto
      · have hx' : ¬some (products k) = x := fun e => hx e.symm
        simp only [hx, hx', ne_eq, not_false_eq_true, iff_true, decide_false, Bool.false_and,
          Bool.false_eq_true, if_false, Nat.add_zero]

theorem copied_step {start : List DString} (s : Client κ μ) (e : Event κ μ) (s' : Client κ μ)
    (h : Copied products start s) (hstep : step uid products others s e = some s') :
    Copied products start s' := by
  cases e with
  | transaction e =>
    obtain ⟨calls, hcalls, hs'⟩ := Option.map_eq_some_iff.mp hstep
    rw [← hs']
    exact copied_transaction h hcalls
  | callback k =>
    simp only [step] at hstep
    split at hstep
    · rename_i error hdone
      obtain ⟨hnew, hs'⟩ := Option.ite_none_left_eq_some.mp hstep
      rw [← Option.some.inj hs']
      exact copied_callback h hdone hnew
    · cases hstep

omit [DecidableEq κ] [DecidableEq μ] in
theorem copied_start (server : Mutations.Server) (hnodup : (items server.values uid "favorites").Nodup) :
    Copied products (items server.values uid "favorites")
      (Client.start uid products others server) := by
  have hfavorites : (Client.start uid products others server).favorites =
      items server.values uid "favorites" := Session.listOf_eq_items _ _ _
  refine ⟨hfavorites ▸ hnodup, List.nodup_nil, nofun, fun x => ?_⟩
  rw [hfavorites]
  exact (iff_true_right Even.zero).symm

/-! ### What is not heard of -/

theorem count_transactions (events : List (Event κ μ)) (i : κ ⊕ μ) :
    (events.flatMap Event.transactions).count (.commit i .lost) =
      events.count (.transaction (.commit i .lost)) := by
  induction events with
  | nil => rfl
  | cons e events ih =>
    rw [List.flatMap_cons, List.count_append, ih, List.count_cons, Nat.add_comm]
    cases e with
    | transaction e => simp [Event.transactions, List.count_singleton]
    | callback k => simp [Event.transactions]

/-- The effects of a tap are those that the client has heard of and those that it has not. -/
theorem effects_tap (events : List (Event κ μ)) (s : Client κ μ) (k : κ) :
    effects (events.flatMap Event.transactions) s.calls (.inl k) = unheard events s k +
      if k ∈ s.answered then (s.calls.phase (.inl k)).succeeded.toNat else 0 := by
  rw [effects, count_transactions, unheard]
  split
  · rfl
  · rfl

omit [DecidableEq μ] in
/-- What the client has heard of a product is what its copy has counted. -/
theorem sum_heard [Fintype κ] (products : κ → String) (s : Client κ μ) (hnodup : s.answered.Nodup)
    (x : DString) :
    ∑ k with some (products k) = x,
        (if k ∈ s.answered then (s.calls.phase (.inl k)).succeeded.toNat else 0) =
      s.answered.countP (hears products s x) := by
  have hlength : s.answered.countP (hears products s x) =
      (s.answered.filter (hears products s x)).toFinset.card := by
    rw [List.toFinset_card_of_nodup (hnodup.filter _), List.countP_eq_length_filter]
  have hset : (s.answered.filter (hears products s x)).toFinset =
      Finset.univ.filter fun k => some (products k) = x ∧ k ∈ s.answered ∧
        (s.calls.phase (.inl k)).succeeded = true := by
    ext k
    simp [hears]
    tauto
  rw [hlength, hset, Finset.card_filter, Finset.sum_filter]
  refine Finset.sum_congr rfl fun k _ => ?_
  by_cases hx : some (products k) = x
  · by_cases hk : k ∈ s.answered
    · cases hsucc : (s.calls.phase (.inl k)).succeeded <;> simp [hx, hk]
    · simp [hk]
  · simp [hx]

/-- **What the hearts miss.**  One client taps hearts while any other clients run list transactions;
commits are refused and tried again, answers are lost, and callbacks come late.  In every state the
copy `appState.favorites` and the document agree on a product exactly if the effects that the
client has not heard of, together with the toggles of the others, are even in number. -/
theorem hearts_differ_iff [Fintype κ] [Fintype μ] (uid : String) (products : κ → String)
    (others : μ → ListCall) (server : Mutations.Server) (hlists : ListsOrMissing server.values)
    (hnodup : (items server.values uid "favorites").Nodup) (events : List (Event κ μ))
    (s : Client κ μ)
    (hrun : Machine.run (step uid products others) (Client.start uid products others server) events =
      some s) (x : DString) :
    (x ∈ s.favorites ↔ x ∈ items s.calls.server.values uid "favorites") ↔
      Even (∑ k with some (products k) = x, unheard events s k +
        ∑ m with (others m).id = uid ∧ (others m).op = .updateFavorites x,
          effects (events.flatMap Event.transactions) s.calls (.inr m)) := by
  have hcopied : Copied products (items server.values uid "favorites") s :=
    Machine.run_invariant copied_step events _ s (copied_start server hnodup) hrun
  have hstored := mem_items_run hlists (run_calls hrun) uid "favorites" x fun op => edit_favorites
  simp only [key_favorites] at hstored
  rw [heartCalls, sum_elim (fun c => c.id = uid ∧ c.op = .updateFavorites x)] at hstored
  simp only [ListOp.updateFavorites.injEq, true_and] at hstored
  rw [Finset.sum_congr rfl fun k _ => effects_tap events s k, Finset.sum_add_distrib,
    sum_heard products s hcopied.once x] at hstored
  rw [hcopied.mem x, hstored, Nat.even_add, Nat.even_add, Nat.even_add]
  tauto

/-- The answer to the first commit is lost, and the client toggles once more. -/
def lostAnswer : List (Event Unit Empty) :=
  [.transaction (.call (.inl ())), .transaction (.call (.inl ())),
    .transaction (.commit (.inl ()) .lost), .transaction (.call (.inl ())),
    .transaction (.call (.inl ())), .transaction (.commit (.inl ()) .accepted), .callback ()]

/-- The heart is filled, and the favourite is not stored. -/
theorem hearts_differ_iff_lost :
    ∃ s, Machine.run (step "u1" (fun _ => "mug") Empty.elim)
        (Client.start "u1" (fun _ => "mug") Empty.elim oneUser) lostAnswer = some s ∧
      ¬(some "mug" ∈ s.favorites ↔ some "mug" ∈ items s.calls.server.values "u1" "favorites") := by
  obtain ⟨s, hrun, hanswered⟩ : ∃ s, Machine.run (step "u1" (fun _ => "mug") Empty.elim)
      (Client.start "u1" (fun _ => "mug") Empty.elim oneUser) lostAnswer = some s ∧
      s.answered = [()] := ⟨_, rfl, rfl⟩
  refine ⟨s, hrun, fun h => ?_⟩
  have heven := (hearts_differ_iff "u1" (fun _ => "mug") Empty.elim oneUser listsOrMissing_oneUser
    (by decide) lostAnswer s hrun (some "mug")).mp h
  simp [unheard, hanswered, lostAnswer] at heven

end GiftGenie.HeartRuns
