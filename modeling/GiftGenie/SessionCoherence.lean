import GiftGenie.Session

/-!
# The fields of a signed-in session

The pages read `user`, `uuser`, `favorites` and `recommended` without a check once `isSignedIn` is
set, and log out by `type`.  A record is `Coherent` if that is safe.

`signInWithGoogle` and `signInWithEmail` load the two lists before they sign in;
`signInWithTwitter` loads neither.  And the operations that assign `state.user` before they are
through do so while an earlier session is still signed in.  `coherent_iff_orderly` is exact: a run
keeps the record coherent if and only if its answers are `Orderly`.
-/

set_option autoImplicit false

namespace GiftGenie.Session

open GiftGenie.Library GiftGenie.Firestore

def Coherent (st : StateModel) : Prop :=
  st.isSignedIn = true →
    st.uuser ≠ none ∧ st.favorites ≠ none ∧ st.recommended ≠ none ∧
      ∃ user, st.user = some user ∧ st.type = user.provider

/-- A new account in `state.user` leaves the type of an earlier session behind. -/
def TypeFits (st : StateModel) (t : LogType) : Prop := st.isSignedIn = true → st.type = t

/-- An answer that keeps the record coherent: Google and e-mail accounts come to a session of their
own type or none, an unverified account to none, a Twitter account to one whose lists are loaded,
and an account without a name, which does not get past the constructor of `User`, to a session of
its type or none. -/
def Orderly (st : StateModel) : Task → Answer → Prop
  | .handleSignInGoogle, .user _ => TypeFits st .google
  | .handleSignInEmail, .user u =>
      if u.isEmailVerified then TypeFits st .email else st.isSignedIn = false
  | .handleSignInTwitter, .user u =>
      (u.Named → st.favorites ≠ none ∧ st.recommended ≠ none) ∧ (¬u.Named → TypeFits st .twitter)
  | .handleSignUp, .user u => ¬u.Named → TypeFits st .email
  | .getRecommended t u _ _, .documents _ => ¬u.Named → TypeFits st t
  | _, _ => True

/-! ### One continuation -/

variable {st : StateModel}

theorem coherent_setUser (h : Coherent st) (u : FirebaseUser) (t : LogType) :
    Coherent { st with user := some ⟨u, t⟩ } ↔ TypeFits st t := by
  constructor
  · intro hnew hs
    obtain ⟨-, -, -, user, huser, htype⟩ := hnew hs
    cases huser
    exact htype
  · intro hfits hs
    obtain ⟨huuser, hfav, hrec, -⟩ := h hs
    exact ⟨huuser, hfav, hrec, _, rfl, hfits hs⟩

/-- Without an account the record must not be signed in. -/
theorem coherent_noUser (st : StateModel) :
    Coherent { st with user := none } ↔ st.isSignedIn = false := by
  constructor
  · intro hnew
    by_contra hs
    obtain ⟨-, -, -, user, huser, -⟩ := hnew (by simpa using hs)
    cases huser
  · intro hout hs
    have hin : st.isSignedIn = true := hs
    rw [hout] at hin
    cases hin

theorem coherent_enter (h : Coherent st) (u : FirebaseUser) (t : LogType) :
    Coherent (st.enter t u) ↔
      (u.Named → st.favorites ≠ none ∧ st.recommended ≠ none) ∧ (¬u.Named → TypeFits st t) := by
  by_cases hu : u.Named
  · obtain ⟨name, hname⟩ := newUser_of_named hu
    rw [enter_of_named st t hname]
    simp [Coherent, hu]
  · rw [enter_of_not_named st t hu]
    have hset : Coherent { st with isLoading := false, user := some ⟨u, t⟩ } ↔ TypeFits st t :=
      coherent_setUser h u t
    simp [hset, hu]

theorem coherent_finish (h : Coherent st) (u : FirebaseUser) (t : LogType)
    (favorites recommended : Loaded (List DString)) :
    Coherent (st.finish t u favorites recommended) ↔ (¬u.Named → TypeFits st t) := by
  by_cases hu : u.Named
  · obtain ⟨name, hname⟩ := newUser_of_named hu
    rw [finish_of_named st t favorites recommended hname, enter_of_named st t hname]
    simp [Coherent, hu]
  · rw [finish_of_not_named st t favorites recommended hu, coherent_enter h]
    simp [hu]

theorem coherent_signUp (h : Coherent st) (u : FirebaseUser) :
    Coherent (st.signUp u) ↔ (¬u.Named → TypeFits st .email) := by
  by_cases hu : u.Named
  · obtain ⟨name, hname⟩ := newUser_of_named hu
    rw [signUp_of_named st hname]
    refine iff_of_true (fun hs => ?_) (fun hn => absurd hu hn)
    obtain ⟨-, hfav, hrec, -⟩ := h hs
    exact ⟨by simp, hfav, hrec, _, rfl, rfl⟩
  · rw [signUp_of_not_named st hu, coherent_setUser h]
    simp [hu]

/-- The profile reads replace the profile by another one. -/
theorem coherent_setUuser (h : Coherent st) (uuser : User) :
    Coherent { st with uuser := some uuser } := by
  intro hs
  obtain ⟨-, hrest⟩ := h hs
  exact ⟨by simp, hrest⟩

theorem coherent_setIndex (h : Coherent st) (m : MissingRead) (path : DString) (c : Collection) :
    Coherent (st.setIndex m path c) := by
  rw [StateModel.setIndex]
  split
  · exact coherent_setUuser h _
  · exact h

theorem coherent_setInfo (h : Coherent st) (m : MissingRead) (path : DString) (c : Collection) :
    Coherent (st.setInfo m path c) := by
  rw [StateModel.setInfo]
  split
  · exact coherent_setUuser h _
  · exact h

/-- A fresh record is not signed in. -/
theorem coherent_reset : Coherent {} := fun hs => (by cases hs)

theorem coherent_written (h : Coherent st) (m : MissingRead) (task : Task) (answer : Answer) :
    Coherent (written m st task answer) ↔ Orderly st task answer := by
  -- what is left after this line are the continuations that write
  cases task <;> cases answer <;> try exact iff_of_true h trivial
  case getSignedInAccount.account account =>
    cases account with
    | none => exact iff_of_true (fun hs => h hs) trivial
    | some account => exact iff_of_true h trivial
  case handleSignInGoogle.user u => exact coherent_setUser h u .google
  case handleSignInTwitter.user u => exact coherent_enter h u .twitter
  case handleSignInEmail.user u =>
    cases hv : u.isEmailVerified with
    | true =>
      simp only [written, Orderly, hv, if_true]
      exact coherent_setUser h u .email
    | false =>
      simp only [written, Orderly, hv, Bool.false_eq_true, if_false]
      exact coherent_noUser st
  case handleSignUp.user u => exact coherent_signUp h u
  case getRecommended.documents t u favorites uid users => exact coherent_finish h u t favorites _
  case getIndex.documents path c => exact iff_of_true (coherent_setIndex h m path c) trivial
  case loadUserInfo.documents path c => exact iff_of_true (coherent_setInfo h m path c) trivial
  all_goals exact iff_of_true coherent_reset trivial

/-! ### Runs -/

/-- **Session coherence, exactly.**  The record stays coherent along a run if and only if every
answer of the run is orderly. -/
theorem coherent_iff_orderly (m : MissingRead) (events : List Event) (s : StateWidgetState)
    (hrun : Machine.run (step m) initState events = some s) :
    Machine.AllStates (step m) (fun s => Coherent s.state) initState events ↔
      Machine.AllSteps (step m) (OnResume Orderly) initState events := by
  have hstep : ∀ s e s', True → Coherent s.state → step m s e = some s' →
      (Coherent s'.state ↔ OnResume Orderly s e) :=
    fun s e s' _ hs h => step_keeps_iff hs (fun task _ => coherent_written hs m task) h
  have hinit : Coherent initState.state := fun hs => (by cases hs)
  exact Machine.allStates_iff_allSteps (fun _ _ _ _ _ => trivial) hstep events initState s trivial
    hinit hrun

/-- Nobody is signed in with Google, and Ann signs in with Twitter. -/
def twitterSignIn : List Event :=
  [.resume 0 (.account none), .signInWithTwitter, .resume 0 (.user ann)]

/-- A Twitter session has no favourites. -/
theorem incoherent_twitter :
    ¬∀ s, Machine.run (step .throws) initState twitterSignIn = some s → Coherent s.state := by
  intro h
  obtain ⟨-, hfav, -⟩ := h _ rfl rfl
  exact hfav rfl

theorem orderly_emailSignIn :
    Machine.AllSteps (step .throws) (OnResume Orderly) initState emailSignIn :=
  onResume_emailSignIn (fun hs => (by cases hs)) trivial fun _ hs => (by cases hs)

theorem coherent_iff_orderly_email :
    ∃ s, Machine.run (step .throws) initState emailSignIn = some s ∧ s.state.isSignedIn = true ∧
      Coherent s.state := by
  refine ⟨_, rfl, rfl, ?_⟩
  have hall := (coherent_iff_orderly .throws emailSignIn _ rfl).mpr orderly_emailSignIn
  exact hall.last rfl

end GiftGenie.Session
