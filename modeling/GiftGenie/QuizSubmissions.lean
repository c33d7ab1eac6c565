import GiftGenie.Quiz
import GiftGenie.StateModel
import GiftGenie.Library.Machine
import GiftGenie.Library.Mirror

/-!
# Submissions of the quiz

One signed-in client keeps its recommended products twice: in its document and in
`appState.recommended`.  A snapshot of the quiz starts an `updateRecommended` for each listed id;
the transaction commits later, and its callback flips `appState.recommended`, but only while the
`QuizPage` that started it is mounted.  The subscription and the transactions of a page that has
been left go on, so a commit whose callback finds its page gone stays unknown to the client.

In a run in which no such callback arrives, and in which no commit finds its id stored twice, the
two lists agree whenever nothing is pending (`recommended_agree`).
-/

set_option autoImplicit false

namespace GiftGenie.QuizSubmissions

open GiftGenie.Library GiftGenie.Firestore GiftGenie.ListTransactions GiftGenie.Session
open GiftGenie.Quiz (DocumentSnapshot submitted noRecommended game)

/-- An `updateRecommended` under way, with the `QuizPage` that started it. -/
structure Update where
  page : ℕ
  productID : String
  deriving DecidableEq, Repr

/-- The store and the client: `recommended` is `appState.recommended`, and `mounted` the flags of
the quiz pages opened so far. -/
structure Client where
  users : Collection
  recommended : List DString
  mounted : List Bool
  pending : List Update
  callbacks : List (Update × Bool)

/-- The client after `getRecommended`. -/
def Client.start (users : Collection) (uid : String) : Client where
  users := users
  recommended := getRecommended users uid
  mounted := []
  pending := []
  callbacks := []

inductive Event where
  | openQuiz
  | snapshot (page : ℕ) (picked : List String) (documents : List DocumentSnapshot)
  | commit (i : ℕ) (served : Bool)
  | callback (i : ℕ)
  | leave (page : ℕ)

/-- The callback of `_handleRecommendedListChanged`. -/
def Client.handle (s : Client) (update : Update) (result : Bool) : Client :=
  if result = true ∧ s.mounted[update.page]? = some true then
    { s with recommended := ListSet.toggleFirst s.recommended (some update.productID) }
  else s

/-- The transaction of an update commits or fails; its answer is on the way. -/
def Client.commit (uid : String) (s : Client) (update : Update) (served : Bool)
    (pending : List Update) : Client :=
  let r := updateRecommended served uid (some update.productID) s.users
  { s with users := r.2, pending := pending, callbacks := s.callbacks ++ [(update, r.1)] }

def step (uid : String) (s : Client) : Event → Option Client
  | .openQuiz => some { s with mounted := s.mounted ++ [true] }
  | .snapshot page picked documents =>
      s.mounted[page]?.map fun _ =>
        { s with pending := s.pending ++ (submitted picked documents).map fun id => ⟨page, id⟩ }
  | .commit i served =>
      s.pending[i]?.map fun update => s.commit uid update served (s.pending.eraseIdx i)
  | .callback i =>
      s.callbacks[i]?.map fun c =>
        { s with callbacks := s.callbacks.eraseIdx i }.handle c.1 c.2
  | .leave page => s.mounted[page]?.map fun _ => { s with mounted := s.mounted.set page false }

/-- The recommended products in the document. -/
def stored (uid : String) (s : Client) : List DString := items s.users uid "recommended"

/-- Nothing is under way, and the copy has the elements of the document. -/
def AgreesAtRest (uid : String) (s : Client) : Prop :=
  s.pending = [] → s.callbacks = [] → ∀ x, x ∈ s.recommended ↔ x ∈ stored uid s

/-! ### Runs in which the client hears of every commit -/

/-- A transaction that Firestore serves fails only on a document without the list. -/
def Succeeds (uid : String) (served : Bool) (users : Collection) : Prop :=
  served = true ∧ ∀ d, users uid = some d → field d "recommended" ≠ .null

/-- A transaction that will succeed finds its id not repeated, and its answer finds its page
mounted. -/
def Heard (uid : String) (s : Client) : Event → Prop
  | .commit i served => ∀ update, s.pending[i]? = some update → Succeeds uid served s.users →
      ¬List.Duplicate (some update.productID) (stored uid s)
  | .callback i => ∀ update, s.callbacks[i]? = some (update, true) →
      s.mounted[update.page]? = some true
  | _ => True

/-- The product that an answer is about. -/
def Update.name (update : Update) : DString := some update.productID

structure Steady (uid : String) (s : Client) : Prop where
  lists : ListOrMissing s.users "recommended"
  tracks : ∀ x, Mirror.Tracks (stored uid s) s.recommended (Mirror.owedBy Update.name s.callbacks) x

variable {uid : String} {s : Client}

theorem steady_start {users : Collection} (hlists : ListOrMissing users "recommended")
    (uid : String) : Steady uid (Client.start users uid) := by
  refine ⟨hlists, fun x => ?_⟩
  rw [stored, ← listOf_eq_items]
  exact Mirror.tracks_start _ x

theorem stored_commit (uid : String) (hlists : ListOrMissing s.users "recommended") (update : Update)
    (served : Bool) (pending : List Update) :
    stored uid (s.commit uid update served pending) =
      if (updateRecommended served uid update.name s.users).1 = true
      then ListSet.toggle (stored uid s) update.name else stored uid s :=
  items_toggle served update.name uid hlists

theorem steady_commit (h : Steady uid s) {i : ℕ} {served : Bool} {update : Update}
    (hupdate : s.pending[i]? = some update) (hheard : Heard uid s (.commit i served)) :
    Steady uid (s.commit uid update served (s.pending.eraseIdx i)) := by
  have hlists := listOrMissing_runTransaction served .flip update.name uid h.lists h.lists
  have hstored := stored_commit uid h.lists update served (s.pending.eraseIdx i)
  refine ⟨hlists, fun x => ?_⟩
  cases hans : (updateRecommended served uid update.name s.users).1 with
  | false =>
    rw [hstored, if_neg (ne_true_of_eq_false hans), Client.commit, ← Update.name, hans]
    exact Mirror.tracks_refused (h.tracks x) update
  | true =>
    have honce := hheard update hupdate (succeeds_of_answer h.lists hans)
    rw [hstored, if_pos hans, Client.commit, ← Update.name, hans]
    exact Mirror.tracks_accepted (h.tracks x) honce

theorem steady_callback (h : Steady uid s) {i : ℕ} {c : Update × Bool}
    (hc : s.callbacks[i]? = some c) (hheard : Heard uid s (.callback i)) :
    Steady uid ({ s with callbacks := s.callbacks.eraseIdx i }.handle c.1 c.2) := by
  obtain ⟨update, result⟩ := c
  have htracks := fun x => Mirror.tracks_answered (h.tracks x) hc
  cases result with
  | false => exact ⟨h.lists, htracks⟩
  | true =>
    have hmounted : s.mounted[update.page]? = some true := hheard update hc
    rw [Client.handle, if_pos ⟨rfl, hmounted⟩]
    exact ⟨h.lists, htracks⟩

theorem steady_step (s : Client) (e : Event) (s' : Client) (h : Steady uid s)
    (hheard : Heard uid s e) (hstep : step uid s e = some s') : Steady uid s' := by
  cases e with
  | openQuiz =>
    obtain rfl := Option.some.inj hstep
    exact ⟨h.lists, h.tracks⟩
  | snapshot page picked documents =>
    obtain ⟨-, -, rfl⟩ := Option.map_eq_some_iff.mp hstep
    exact ⟨h.lists, h.tracks⟩
  | commit i served =>
    obtain ⟨update, hupdate, rfl⟩ := Option.map_eq_some_iff.mp hstep
    exact steady_commit h hupdate hheard
  | callback i =>
    obtain ⟨c, hc, rfl⟩ := Option.map_eq_some_iff.mp hstep
    exact steady_callback h hc hheard
  | leave page =>
    obtain ⟨-, -, rfl⟩ := Option.map_eq_some_iff.mp hstep
    exact ⟨h.lists, h.tracks⟩

theorem Steady.agreesAtRest (h : Steady uid s) : AgreesAtRest uid s := by
  intro _ hcallbacks x
  have htracks := h.tracks x
  rw [hcallbacks] at htracks
  exact htracks.mem_iff

/-- **The recommended list follows the document.**  In every run in which every answer `true` finds
its page mounted, and no transaction that succeeds finds its id repeated, `appState.recommended` has
the elements of the stored list whenever nothing is pending. -/
theorem recommended_agree (uid : String) (users : Collection)
    (hlists : ListOrMissing users "recommended") (events : List Event) (s : Client)
    (hheard : Machine.AllSteps (step uid) (Heard uid) (Client.start users uid) events)
    (hrun : Machine.run (step uid) (Client.start users uid) events = some s) :
    AgreesAtRest uid s :=
  (Machine.run_guarded steady_step events _ s (steady_start hlists uid) hheard hrun).agreesAtRest

theorem listOrMissing_noRecommended : ListOrMissing noRecommended "recommended" := by
  refine listOrMissing_setDoc (fun id d s hd => by cases hd) fun s => ?_
  simp [field_docOf_single]

/-- A game is submitted; its transaction commits and calls back. -/
def submission : List Event :=
  [.openQuiz, .snapshot 0 ["Games"] [game], .commit 0 true, .callback 0]

theorem heard_submission :
    Machine.AllSteps (step "ann") (Heard "ann") (Client.start noRecommended "ann") submission := by
  refine ⟨trivial, fun s hs => ?_⟩
  cases hs
  refine ⟨trivial, fun s hs => ?_⟩
  cases hs
  refine ⟨fun update _ _ => List.not_duplicate_nil _, fun s hs => ?_⟩
  cases hs
  refine ⟨fun update hupdate => ?_, fun s hs => trivial⟩
  cases hupdate
  rfl

theorem recommended_agree_submission :
    ∃ s, Machine.run (step "ann") (Client.start noRecommended "ann") submission = some s ∧
      some "mario" ∈ s.recommended := by
  refine ⟨_, rfl, ?_⟩
  have hrest := recommended_agree "ann" noRecommended listOrMissing_noRecommended submission _
    heard_submission rfl rfl rfl
  exact (hrest (some "mario")).mpr (by unfold stored; decide)

/-- The page is left while the answer is on the way. -/
def leftEarly : List Event :=
  [.openQuiz, .snapshot 0 ["Games"] [game], .commit 0 true, .leave 0, .callback 0]

/-- The game is stored, and `appState.recommended` stays without it. -/
theorem recommended_disagree :
    ¬∀ s, Machine.run (step "ann") (Client.start noRecommended "ann") leftEarly = some s →
      AgreesAtRest "ann" s := by
  intro h
  have hrest := h _ rfl rfl rfl (some "mario")
  exact absurd (hrest.mpr (by unfold stored; decide)) (by decide)

end GiftGenie.QuizSubmissions
