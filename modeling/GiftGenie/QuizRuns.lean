import GiftGenie.ListTransactionRuns
import GiftGenie.QuizChoices
import Mathlib.Algebra.BigOperators.Fin

/-!
# From the taps of the quiz to the stored list

The whole way of a quiz: the taps make the choices, SUBMIT lists the ids of a snapshot, and one
`updateRecommended` for each listed id runs among the transactions of any other clients.  What the
user recommends by the taps is what the document holds at the end, product by product
(`quiz_stored_iff`).
-/

set_option autoImplicit false

namespace GiftGenie.QuizRuns

open GiftGenie.Library GiftGenie.Firestore GiftGenie.ListTransactions GiftGenie.ListHistories
  GiftGenie.Quiz GiftGenie.QuizChoices GiftGenie.TransactionRuns GiftGenie.ListTransactionRuns

/-- The transactions that a snapshot starts, and those of other clients. -/
def quizCalls {μ : Type} (uid : String) (ids : List String) (others : μ → ListCall) :
    Fin (handleRecommendedListChanged uid ids).length ⊕ μ → ListCall :=
  Sum.elim (handleRecommendedListChanged uid ids).get others

/-- How many pairs there are of a product with this id and an option that was tapped an odd number of
times and matches it. -/
def tappedHits (taps : String → ℕ) (id : String) (snapshot : List DocumentSnapshot) : ℕ :=
  ((snapshot.filter (·.documentID = id)).map fun ds =>
    options.countP fun option => Odd (taps option) ∧ Matches ds option).sum

/-! ### The ids of a snapshot -/

variable {μ : Type} {choices : List QuizChoices.Event} {page : QuizPageState}
  {snapshot : List DocumentSnapshot} {uid : String}

/-- What SUBMIT counts is what was tapped. -/
theorem hits_picked (hpage : Machine.run QuizChoices.step .start choices = some page)
    (hrebuilt : Rebuilt choices) (id : String) :
    hits page.picked id snapshot = tappedHits (fun option => taps option choices) id snapshot := by
  rw [hits, tappedHits]
  exact congrArg List.sum (List.map_congr_left fun ds _ => matchCount_picked hpage hrebuilt ds)

/-- The transactions of a snapshot that toggle a product. -/
theorem countP_handle (uid id : String) (ids : List String) :
    (handleRecommendedListChanged uid ids).countP
        (fun c => c.id = uid ∧ c.op = .updateRecommended (some id)) = ids.count id := by
  rw [handleRecommendedListChanged, List.countP_map, List.count_eq_countP]
  refine List.countP_congr fun x _ => ?_
  simp

/-- A count over a list is a sum over its places. -/
theorem sum_get {α : Type} (p : α → Prop) [DecidablePred p] (l : List α) :
    ∑ i : Fin l.length with p (l.get i), 1 = l.countP p := by
  rw [Finset.sum_filter]
  induction l with
  | nil => rfl
  | cons a l ih =>
    have hsum := Fin.sum_univ_succ fun i : Fin (l.length + 1) => if p ((a :: l).get i) then 1 else 0
    refine hsum.trans ?_
    rw [List.countP_cons, Nat.add_comm]
    simp only [decide_eq_true_eq]
    exact congrArg₂ (· + ·) ih rfl

/-! ### Runs -/

variable [DecidableEq μ]

/-- A call that completed with success and whose answers all arrived took effect once. -/
theorem effects_eq_one {ι : Type} [DecidableEq ι] {es : List (TransactionRuns.Event ι)} {t : State ι}
    {i : ι} (hdone : t.phase i = .completed none) (hheard : .commit i .lost ∉ es) :
    effects es t i = 1 := by
  rw [effects, List.count_eq_zero_of_not_mem hheard, hdone]
  rfl

/-- **From the taps to the document.**  The page is rebuilt between any two taps on one option, every
product of the snapshot has a text of categories, and each transaction that the snapshot starts
completes with success and gets its answers, among any list transactions of others.  Then a product
is in the stored list at the end if it was there and the options tapped an odd number of times match
it an even number of times, counting the toggles of the others, or it was not there and the number
is odd. -/
theorem quiz_stored_iff [Fintype μ] (choices : List QuizChoices.Event) (page : QuizPageState)
    (snapshot : List DocumentSnapshot) (uid : String) (others : μ → ListCall)
    (server : Mutations.Server) (t : State _) (es : List (TransactionRuns.Event _))
    (hpage : Machine.run QuizChoices.step .start choices = some page) (hrebuilt : Rebuilt choices)
    (hread : ∀ ds ∈ snapshot, Readable ds) (hlists : ListsOrMissing server.values)
    (hrun : Machine.run
      (TransactionRuns.step (blocksOf (quizCalls uid (submitted page.picked snapshot) others)))
      (initial (blocksOf (quizCalls uid (submitted page.picked snapshot) others)) server) es = some t)
    (hdone : ∀ i, t.phase (.inl i) = .completed none) (hheard : ∀ i, .commit (.inl i) .lost ∉ es)
    (id : String) (hid : id ≠ "") :
    some id ∈ items t.server.values uid "recommended" ↔
      (some id ∈ items server.values uid "recommended" ↔
        Even (tappedHits (fun option => taps option choices) id snapshot +
          ∑ m with (others m).id = uid ∧ (others m).op = .updateRecommended (some id),
            effects es t (.inr m))) := by
  have hstored := mem_items_run hlists hrun uid "recommended" (some id) fun op => edit_recommended
  simp only [key_recommended] at hstored
  rw [quizCalls, sum_elim (fun c => c.id = uid ∧ c.op = .updateRecommended (some id)),
    Finset.sum_congr rfl fun i _ => effects_eq_one (hdone i) (hheard i),
    sum_get (fun c : ListCall => c.id = uid ∧ c.op = .updateRecommended (some id)),
    countP_handle, count_submitted hread, if_neg hid, hits_picked hpage hrebuilt] at hstored
  exact hstored

/-- The page after a tap on Games. -/
def gamesPage : QuizPageState := { QuizPageState.start with picked := ["Games"] }

/-- The calls of a snapshot with one game. -/
def gameCalls := quizCalls "u2" (submitted gamesPage.picked [game]) Empty.elim

/-- The game is recommended to a user without a document. -/
theorem quiz_stored_iff_game :
    ∃ t, Machine.run (TransactionRuns.step (blocksOf gameCalls)) (initial (blocksOf gameCalls) oneUser)
        [.call (.inl ⟨0, by decide⟩), .call (.inl ⟨0, by decide⟩),
          .commit (.inl ⟨0, by decide⟩) .accepted] = some t ∧
      some "mario" ∈ items t.server.values "u2" "recommended" := by
  obtain ⟨t, hrun, hdone⟩ : ∃ t, Machine.run (TransactionRuns.step (blocksOf gameCalls))
      (initial (blocksOf gameCalls) oneUser)
      [.call (.inl ⟨0, by decide⟩), .call (.inl ⟨0, by decide⟩),
        .commit (.inl ⟨0, by decide⟩) .accepted] = some t ∧
      ∀ i, (t.phase (.inl i)).succeeded = true := ⟨_, rfl, by decide⟩
  refine ⟨t, hrun, ?_⟩
  have hrebuilt : Rebuilt [.tap "Games"] := by
    rw [rebuilt_iff, ← List.nil_append [QuizChoices.Event.tap "Games"],
      Histories.allowedAfter_concat]
    exact ⟨Histories.allowedAfter_nil, rested_nil⟩
  refine (quiz_stored_iff [.tap "Games"] gamesPage [game] "u2" Empty.elim oneUser t _ rfl hrebuilt
    (by simpa using readable_game) listsOrMissing_oneUser hrun (fun i => completed_of_succeeded (hdone i))
    (fun i => by simp) "mario" (by decide)).mpr ?_
  rw [Finset.univ_eq_empty, Finset.filter_empty, Finset.sum_empty]
  decide

end GiftGenie.QuizRuns
