import GiftGenie.ListTransactions
import GiftGenie.StateModel
import GiftGenie.Library.Machine
import GiftGenie.Library.Mirror

/-!
# The hearts of the product pages

One signed-in client keeps its favourites three times: in its document, in `appState.favorites`, and
as the flag `_inFavorites` of every open `DetailScreen`.  A tap on a heart starts `updateFavorites`;
the transaction commits later, and its callback flips one of the local copies:

* the heart of a `ProductCard` flips `appState.favorites` (`_handleFavoritesListChanged`),
* the heart of a `DetailScreen` flips the flag of that screen (`_toggleInFavorites`).

So a commit from a `DetailScreen` is never seen by `appState.favorites`, and one from a card never
by an open screen.  In a run without such commits the copies agree with the document whenever
nothing is pending (`favorites_agree`).
-/

set_option autoImplicit false

namespace GiftGenie.Favorites

open GiftGenie.Library GiftGenie.Firestore GiftGenie.ListTransactions GiftGenie.Session

inductive Heart where
  | card
  | screen (k : ℕ)
  deriving DecidableEq, Repr

/-- A tap on a heart, whose transaction is under way. -/
structure Tap where
  heart : Heart
  productID : String
  deriving DecidableEq, Repr

structure DetailScreen where
  product : String
  inFavorites : Bool
  deriving DecidableEq, Repr

/-- The store and the client: `favorites` is `appState.favorites`, and `cards` what it was when the
cards were last built. -/
structure Client where
  users : Collection
  favorites : List DString
  cards : List DString
  screens : List DetailScreen
  pending : List Tap
  callbacks : List (Tap × Bool)

/-- The client after `getFavorites`, its cards built. -/
def Client.start (users : Collection) (uid : String) : Client where
  users := users
  favorites := getFavorites users uid
  cards := getFavorites users uid
  screens := []
  pending := []
  callbacks := []

inductive Event where
  | tapCard (productID : String)
  | openDetail (productID : String)
  | tapDetail (k : ℕ)
  | commit (i : ℕ) (served : Bool)
  | callback (i : ℕ)
  | build
  deriving DecidableEq, Repr

def toggleInFavorites (screen : DetailScreen) : DetailScreen :=
  { screen with inFavorites := !screen.inFavorites }

/-- The callbacks of the two handlers. -/
def Client.handle (s : Client) (tap : Tap) (result : Bool) : Client :=
  match tap.heart, result with
  | .card, true => { s with favorites := ListSet.toggleFirst s.favorites (some tap.productID) }
  | .screen k, true => { s with screens := s.screens.modify k toggleInFavorites }
  | _, false => s

/-- The transaction of a tap commits or fails; its answer is on the way. -/
def Client.commit (uid : String) (s : Client) (tap : Tap) (served : Bool) (pending : List Tap) :
    Client :=
  let r := updateFavorites served uid (some tap.productID) s.users
  { s with users := r.2, pending := pending, callbacks := s.callbacks ++ [(tap, r.1)] }

def step (uid : String) (s : Client) : Event → Option Client
  | .tapCard productID => some { s with pending := s.pending ++ [⟨.card, productID⟩] }
  | .openDetail productID =>
      some { s with screens := s.screens ++ [⟨productID, s.cards.contains (some productID)⟩] }
  | .tapDetail k =>
      s.screens[k]?.map fun screen =>
        { s with pending := s.pending ++ [⟨.screen k, screen.product⟩] }
  | .commit i served =>
      s.pending[i]?.map fun tap => s.commit uid tap served (s.pending.eraseIdx i)
  | .callback i =>
      s.callbacks[i]?.map fun c =>
        { s with callbacks := s.callbacks.eraseIdx i }.handle c.1 c.2
  | .build => some { s with cards := s.favorites }

/-- The favourites in the document. -/
def stored (uid : String) (s : Client) : List DString := items s.users uid "favorites"

/-- Nothing is under way, and the copies agree with the document. -/
def AgreesAtRest (uid : String) (s : Client) : Prop :=
  s.pending = [] → s.callbacks = [] →
    (∀ x, x ∈ s.favorites ↔ x ∈ stored uid s) ∧
      ∀ screen ∈ s.screens, (screen.inFavorites = true ↔ some screen.product ∈ stored uid s)

/-! ### Runs in which every copy hears of its flips -/

/-- A transaction that Firestore serves fails only on a document without the list. -/
def Succeeds (uid : String) (served : Bool) (users : Collection) : Prop :=
  served = true ∧ ∀ d, users uid = some d → field d "favorites" ≠ .null

/-- A screen opens with the flag its product has in the document, and a transaction that will
succeed comes from a card, is of a product that no open screen shows, and finds it not repeated. -/
def Heard (uid : String) (s : Client) : Event → Prop
  | .openDetail productID => some productID ∈ s.cards ↔ some productID ∈ stored uid s
  | .commit i served => ∀ tap, s.pending[i]? = some tap → Succeeds uid served s.users →
      tap.heart = .card ∧ (∀ screen ∈ s.screens, screen.product ≠ tap.productID) ∧
        ¬List.Duplicate (some tap.productID) (stored uid s)
  | _ => True

/-- The products whose callback is still to flip `appState.favorites`. -/
def owed (callbacks : List (Tap × Bool)) : List DString :=
  (callbacks.filter (·.2)).map fun c => some c.1.productID

structure Steady (uid : String) (s : Client) : Prop where
  lists : ListOrMissing s.users "favorites"
  fromCards : ∀ c ∈ s.callbacks, c.2 = true → c.1.heart = .card
  tracks : ∀ x, Mirror.Tracks (stored uid s) s.favorites (owed s.callbacks) x
  flags : ∀ screen ∈ s.screens, (screen.inFavorites = true ↔ some screen.product ∈ stored uid s)

variable {uid : String} {s : Client}

/-- `owed` in the words of the library. -/
theorem Steady.tracksBy (h : Steady uid s) (x : DString) :
    Mirror.Tracks (stored uid s) s.favorites
      (Mirror.owedBy (fun tap : Tap => some tap.productID) s.callbacks) x :=
  h.tracks x

/-! ### One commit -/

theorem stored_commit (uid : String) (hlists : ListOrMissing s.users "favorites") (tap : Tap)
    (served : Bool) (pending : List Tap) :
    stored uid (s.commit uid tap served pending) =
      if (updateFavorites served uid (some tap.productID) s.users).1 = true
      then ListSet.toggle (stored uid s) (some tap.productID) else stored uid s :=
  items_toggle served (some tap.productID) uid hlists

theorem steady_commit (h : Steady uid s) {i : ℕ} {served : Bool} {tap : Tap}
    (htap : s.pending[i]? = some tap) (hheard : Heard uid s (.commit i served)) :
    Steady uid (s.commit uid tap served (s.pending.eraseIdx i)) := by
  have hstored := stored_commit uid h.lists tap served (s.pending.eraseIdx i)
  have hlists := listOrMissing_runTransaction served .flip (some tap.productID) uid h.lists h.lists
  have hfrom : ∀ result, (result = true → tap.heart = .card) →
      ∀ c ∈ s.callbacks ++ [(tap, result)], c.2 = true → c.1.heart = .card := by
    intro result hcard c hc htrue
    rcases List.mem_append.mp hc with hc | hc
    · exact h.fromCards c hc htrue
    · rw [List.mem_singleton.mp hc] at htrue ⊢
      exact hcard htrue
  cases hans : (updateFavorites served uid (some tap.productID) s.users).1 with
  | false =>
    -- the document stays, and the callback will do nothing
    rw [hans, if_neg (by simp)] at hstored
    refine ⟨hlists, ?_, fun x => ?_, fun screen hscreen => ?_⟩
    · rw [Client.commit, hans]
      exact hfrom false fun hfalse => nomatch hfalse
    · rw [hstored, Client.commit, hans]
      exact Mirror.tracks_refused (h.tracksBy x) tap
    · rw [hstored]
      exact h.flags screen hscreen
  | true =>
    obtain ⟨hcard, hclosed, honce⟩ := hheard tap htap (succeeds_of_answer h.lists hans)
    rw [hans, if_pos rfl] at hstored
    refine ⟨hlists, ?_, fun x => ?_, fun screen hscreen => ?_⟩
    · rw [Client.commit, hans]
      exact hfrom true fun _ => hcard
    · rw [hstored, Client.commit, hans]
      exact Mirror.tracks_accepted (h.tracksBy x) honce
    · have hne : some screen.product ≠ some tap.productID :=
        fun e => hclosed screen hscreen (Option.some.inj e)
      rw [hstored, ListSet.mem_toggle_ne hne]
      exact h.flags screen hscreen

/-! ### One callback -/

theorem handle_false (s : Client) (tap : Tap) : s.handle tap false = s := by
  simp only [Client.handle]

theorem handle_card (s : Client) {tap : Tap} (h : tap.heart = .card) :
    s.handle tap true =
      { s with favorites := ListSet.toggleFirst s.favorites (some tap.productID) } := by
  simp only [Client.handle, h]

theorem steady_callback (h : Steady uid s) {i : ℕ} {c : Tap × Bool}
    (hc : s.callbacks[i]? = some c) :
    Steady uid ({ s with callbacks := s.callbacks.eraseIdx i }.handle c.1 c.2) := by
  obtain ⟨tap, result⟩ := c
  have htracks := fun x => Mirror.tracks_answered (h.tracksBy x) hc
  have hfrom : ∀ c ∈ s.callbacks.eraseIdx i, c.2 = true → c.1.heart = .card :=
    fun c hc => h.fromCards c (List.mem_of_mem_eraseIdx hc)
  cases result with
  | false =>
    rw [handle_false]
    exact ⟨h.lists, hfrom, htracks, h.flags⟩
  | true =>
    rw [handle_card _ (h.fromCards _ (List.mem_of_getElem? hc) rfl)]
    exact ⟨h.lists, hfrom, htracks, h.flags⟩

/-! ### Runs -/

theorem steady_step (s : Client) (e : Event) (s' : Client) (h : Steady uid s)
    (hheard : Heard uid s e) (hstep : step uid s e = some s') : Steady uid s' := by
  cases e with
  | tapCard productID =>
    cases hstep
    exact ⟨h.lists, h.fromCards, h.tracks, h.flags⟩
  | openDetail productID =>
    cases hstep
    refine ⟨h.lists, h.fromCards, h.tracks, fun screen hscreen => ?_⟩
    rcases List.mem_append.mp hscreen with hold | hnew
    · exact h.flags screen hold
    · rw [List.mem_singleton.mp hnew, List.contains_iff_mem]
      exact hheard
  | tapDetail k =>
    obtain ⟨screen, -, rfl⟩ := Option.map_eq_some_iff.mp hstep
    exact ⟨h.lists, h.fromCards, h.tracks, h.flags⟩
  | commit i served =>
    obtain ⟨tap, htap, rfl⟩ := Option.map_eq_some_iff.mp hstep
    exact steady_commit h htap hheard
  | callback i =>
    obtain ⟨c, hc, rfl⟩ := Option.map_eq_some_iff.mp hstep
    exact steady_callback h hc
  | build =>
    cases hstep
    exact ⟨h.lists, h.fromCards, h.tracks, h.flags⟩

theorem steady_start {users : Collection} (hlists : ListOrMissing users "favorites") (uid : String) :
    Steady uid (Client.start users uid) := by
  refine ⟨hlists, fun c hc => (by cases hc), fun x => ?_, fun screen hscreen => (by cases hscreen)⟩
  rw [stored, ← listOf_eq_items]
  exact Mirror.tracks_start _ x

theorem Steady.agreesAtRest (h : Steady uid s) : AgreesAtRest uid s := by
  intro _ hcallbacks
  refine ⟨fun x => ?_, h.flags⟩
  have htracks := h.tracks x
  rw [hcallbacks] at htracks
  exact htracks.mem_iff

/-- **The hearts agree with the document.**  In every run in which every copy hears of its flips,
`appState.favorites` and the flags of the open screens agree with the document whenever nothing is
pending. -/
theorem favorites_agree (uid : String) (users : Collection)
    (hlists : ListOrMissing users "favorites") (events : List Event) (s : Client)
    (hheard : Machine.AllSteps (step uid) (Heard uid) (Client.start users uid) events)
    (hrun : Machine.run (step uid) (Client.start users uid) events = some s) :
    AgreesAtRest uid s :=
  (Machine.run_guarded steady_step events _ s (steady_start hlists uid) hheard hrun).agreesAtRest

/-- A document with no favourites yet. -/
def noFavorites : Collection := setDoc (fun _ => none) "ann" (docOf [("favorites", .list [])])

theorem listOrMissing_noFavorites : ListOrMissing noFavorites "favorites" := by
  refine listOrMissing_setDoc (fun id d s hd => (by cases hd)) fun s => ?_
  simp [field_docOf_single]

/-- The heart of a card is tapped; its transaction commits and calls back. -/
def cardTap : List Event := [.tapCard "mug", .commit 0 true, .callback 0]

theorem heard_cardTap :
    Machine.AllSteps (step "ann") (Heard "ann") (Client.start noFavorites "ann") cardTap := by
  refine ⟨trivial, fun s hs => ?_⟩
  cases hs
  refine ⟨fun tap htap _ => ?_, fun s hs => ?_⟩
  · cases htap
    exact ⟨rfl, fun screen hscreen => (by cases hscreen), List.not_duplicate_nil _⟩
  · cases hs
    exact ⟨trivial, fun s hs => (by cases hs; trivial)⟩

theorem favorites_agree_card :
    ∃ s, Machine.run (step "ann") (Client.start noFavorites "ann") cardTap = some s ∧
      some "mug" ∈ s.favorites := by
  refine ⟨_, rfl, ?_⟩
  have hrest := favorites_agree "ann" noFavorites listOrMissing_noFavorites cardTap _ heard_cardTap
    rfl rfl rfl
  exact (hrest.1 (some "mug")).mpr (by unfold stored; decide)

/-- The heart of a `DetailScreen` is tapped; its transaction commits and calls back. -/
def detailTap : List Event := [.openDetail "mug", .tapDetail 0, .commit 0 true, .callback 0]

/-- `_toggleInFavorites` flips the flag of its screen, and `appState.favorites` stays without the
product that is now stored. -/
theorem favorites_disagree :
    ¬∀ s, Machine.run (step "ann") (Client.start noFavorites "ann") detailTap = some s →
      AgreesAtRest "ann" s := by
  intro h
  have hrest := (h _ rfl rfl rfl).1 (some "mug")
  exact absurd (hrest.mpr (by unfold stored; decide)) (by decide)

end GiftGenie.Favorites
