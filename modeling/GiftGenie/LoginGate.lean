import GiftGenie.Session

/-!
# The login gate

The LOGIN button pushes the home page if the session is signed in after `signInWithEmail` has
returned.  A push is `Legit` if the submitted credentials belong to a verified account and
`state.user` is that account.

For an unverified account `signInWithEmail` returns with `state.user` cleared and the flag as it
was.  So the gate holds in a run if and only if no unverified account logs in while a session is
signed in (`gate_iff`).
-/

set_option autoImplicit false

namespace GiftGenie.Session

open GiftGenie.Library GiftGenie.Firestore

def Legit (p : Push) : Prop :=
  p.account.isEmailVerified = true ∧ (p.user.map SignedIn.account) = some p.account

/-- Every push of the home page so far was legit. -/
def GateHeld (s : StateWidgetState) : Prop := ∀ p ∈ s.pushes, Legit p

/-- An unverified account logs in only where nobody is signed in. -/
def Admissible (st : StateModel) : Task → Answer → Prop
  | .handleSignInEmail, .user u => u.isEmailVerified = false → st.isSignedIn = false
  | _, _ => True

variable {s s' : StateWidgetState}

/-- The push after LOGIN, if there is one, decides. -/
theorem gateHeld_login (h : GateHeld s) (u : FirebaseUser) :
    GateHeld (s.login u) ↔ (s.state.isSignedIn = true → Legit ⟨u, s.state.user⟩) := by
  rw [StateWidgetState.login]
  split
  · rename_i hs
    constructor
    · intro hall _
      exact hall _ (List.mem_append_right _ (List.mem_singleton_self _))
    · intro hnew p hp
      rcases List.mem_append.mp hp with hold | hlast
      · exact h p hold
      · rw [List.mem_singleton.mp hlast]
        exact hnew hs
  · rename_i hs
    exact iff_of_true h fun hs' => absurd hs' hs

theorem gateHeld_finish (h : GateHeld s) (t : LogType) (u : FirebaseUser)
    (hv : t = .email → u.isEmailVerified = true) (favorites recommended : Loaded (List DString)) :
    GateHeld (s.finish t u favorites recommended) := by
  by_cases hu : u.Named
  · obtain ⟨name, hname⟩ := newUser_of_named hu
    rw [StateWidgetState.finish, hname]
    by_cases ht : t = .email
    · simp only [ht, if_true]
      rw [gateHeld_login]
      · intro _
        refine ⟨hv ht, ?_⟩
        show (s.state.finish .email u favorites recommended).user.map SignedIn.account = some u
        rw [finish_of_named s.state .email favorites recommended hname,
          enter_of_named s.state .email hname]
        rfl
      · exact h
    · simp only [ht, if_false]
      exact h
  · rw [StateWidgetState.finish, newUser_of_not_named hu]
    exact h

theorem gateHeld_resume {m : MissingRead} {task : Task} {answer : Answer} (h : GateHeld s)
    (htask : task.Sound) (hresume : resume m s task answer = some s') :
    GateHeld s' ↔ Admissible s.state task answer := by
  cases task <;> cases answer <;> try (cases hresume <;> exact iff_of_true h trivial)
  case getSignedInAccount.account account =>
    cases hresume
    cases account with
    | none => exact iff_of_true h trivial
    | some account =>
      refine iff_of_true ?_ trivial
      rw [GateHeld, StateWidgetState.initUser, pushes_signInWithGoogle]
      exact h
  case handleSignInEmail.user u =>
    cases hv : u.isEmailVerified with
    | true =>
      rw [resume_verified hv] at hresume
      cases hresume
      exact iff_of_true h fun hno => (by rw [hv] at hno; cases hno)
    | false =>
      rw [resume_unverified hv] at hresume
      cases hresume
      have hcleared : GateHeld (s.setUser none) := h
      rw [gateHeld_login hcleared]
      constructor
      · intro hpush _
        by_contra hs
        have hin : s.state.isSignedIn = true := by simpa using hs
        have hlegit := hpush hin
        rw [Legit, hv] at hlegit
        cases hlegit.1
      · intro hout hs
        have hin : s.state.isSignedIn = true := hs
        rw [hout hv] at hin
        cases hin
  case getRecommended.documents t u favorites uid users =>
    cases hresume
    exact iff_of_true (gateHeld_finish h t u htask.2 favorites _) trivial

/-! ### Runs -/

theorem gateHeld_step {m : MissingRead} {e : Event} (hsound : Sound s) (h : GateHeld s)
    (hstep : step m s e = some s') : GateHeld s' ↔ OnResume Admissible s e := by
  cases e with
  | signInWithGoogle =>
    cases hstep
    refine iff_of_true ?_ trivial
    rw [GateHeld, pushes_signInWithGoogle]
    exact h
  | resume i answer =>
    obtain ⟨task, htask, hresume⟩ := Option.bind_eq_some_iff.mp hstep
    have hpushes : GateHeld { s with tasks := s.tasks.eraseIdx i } := h
    rw [onResume_resume htask]
    have hiff := gateHeld_resume hpushes (hsound task (List.mem_of_getElem? htask)) hresume
    exact hiff
  | _ =>
    cases hstep
    exact iff_of_true h trivial

/-- **The login gate, exactly.**  Along a run every push of the home page is legit if and only if no
unverified account logs in while a session is signed in. -/
theorem gate_iff (m : MissingRead) (events : List Event) (s : StateWidgetState)
    (hrun : Machine.run (step m) initState events = some s) :
    Machine.AllStates (step m) GateHeld initState events ↔
      Machine.AllSteps (step m) (OnResume Admissible) initState events :=
  Machine.allStates_iff_allSteps (fun _ _ _ hsound h => sound_step hsound h)
    (fun _ _ _ hsound h hstep => gateHeld_step hsound h hstep) events initState s sound_initState
    (fun p hp => (by cases hp)) hrun

theorem admissible_emailSignIn :
    Machine.AllSteps (step .throws) (OnResume Admissible) initState emailSignIn :=
  onResume_emailSignIn (fun _ => rfl) trivial trivial

/-- Ann logs in, and her push is legit. -/
theorem gate_iff_email :
    ∃ s p, Machine.run (step .throws) initState emailSignIn = some s ∧
      s.pushes = [p] ∧ Legit p := by
  refine ⟨_, _, rfl, rfl, ?_⟩
  have hall := (gate_iff .throws emailSignIn _ rfl).mpr admissible_emailSignIn
  exact hall.last rfl _ (List.mem_singleton_self _)

/-- Ann is logged in, and Bob logs in on the page below. -/
def unverifiedAfterVerified : List Event :=
  emailSignIn ++ [.signInWithEmail, .resume 3 (.user bob)]

/-- The home page is pushed for Bob, who is not verified. -/
theorem gate_passed :
    ¬∀ s, Machine.run (step .throws) initState unverifiedAfterVerified = some s → GateHeld s := by
  intro h
  have hlegit := h _ rfl ⟨bob, none⟩ (List.mem_cons_of_mem _ (List.mem_singleton_self _))
  cases hlegit.1

end GiftGenie.Session
