import GiftGenie.Session

/-!
# Logging out

The Log out button looks at `state.type` and calls the sign-out for Google, for e-mail or for
Twitter.  All three replace the session record; only the one for Google drops `googleAccount`, which
an earlier Google sign-in, or the start of the application, may have left behind.  So logging out
leaves nothing behind exactly if the session is a Google session or no Google account is kept
(`loggedOut_iff`).
-/

set_option autoImplicit false

namespace GiftGenie.Session

open GiftGenie.Library GiftGenie.Firestore StateWidgetState

/-- Call a sign-out, and let its service calls succeed. -/
def signOut (m : MissingRead) (op : Event) (s : StateWidgetState) : Option StateWidgetState :=
  Machine.run (step m) s [op, .resume s.tasks.length .done]

/-- One test of the handler: sign out by `op` if the session is of type `t`. -/
def signOutIf (m : MissingRead) (t : LogType) (op : Event) (s : StateWidgetState) :
    Option StateWidgetState :=
  if s.state.type = t then signOut m op s else some s

/-- The handler of the Log out button: each test looks at the type as it is by then. -/
def logOut (m : MissingRead) (s : StateWidgetState) : Option StateWidgetState :=
  ((signOutIf m .google .signOutOfGoogle s).bind (signOutIf m .email .signOutOfEmail)).bind
    (signOutIf m .twitter .signOutOfTwitter)

/-- Nothing of the session is left, and the next Google sign-in asks for an account. -/
structure LoggedOut (s : StateWidgetState) : Prop where
  isSignedIn : s.state.isSignedIn = false
  user : s.state.user = none
  uuser : s.state.uuser = none
  favorites : s.state.favorites = none
  recommended : s.state.recommended = none
  type : s.state.type = .unset
  googleAccount : s.googleAccount = none
  asks : s.signInWithGoogle = s.await (some .googleSignIn)

/-- The types of a session that the button knows. -/
def LogType.Closes (t : LogType) : Prop := t = .google ∨ t = .email ∨ t = .twitter

def Closable (st : StateModel) : Prop := st.isSignedIn = true → st.type.Closes

/-- The lists are loaded for a session of a type that the button knows. -/
def Task.Closes : Task → Prop
  | .getFavorites t _ _ => t.Closes
  | .getRecommended t _ _ _ => t.Closes
  | _ => True

/-! ### The type of a session -/

theorem closes_called (task : Task) (h : task.Called) : task.Closes := by
  simp only [Task.Called, List.mem_cons, List.not_mem_nil, or_false] at h
  rcases h with rfl | rfl | rfl | rfl | rfl | rfl | rfl | rfl <;> trivial

theorem closes_spawns (task : Task) (a : Answer) (t : Task) (h : task.Closes)
    (hspawn : Spawns task a t) : t.Closes := by
  cases hspawn with
  | initUser account => trivial
  | authenticate account => trivial
  | googleFavorites u => exact Or.inl rfl
  | emailFavorites hv => exact Or.inr (Or.inl rfl)
  | recommended t u uid uid' users => exact h
  | index t u favorites uid users => trivial
  | info t u favorites uid users => trivial

variable {st : StateModel}

theorem closable_enter (h : Closable st) {t : LogType} (ht : t.Closes) (u : FirebaseUser) :
    Closable (st.enter t u) := by
  by_cases hu : u.Named
  · obtain ⟨name, hname⟩ := newUser_of_named hu
    rw [enter_of_named st t hname]
    exact fun _ => ht
  · rw [enter_of_not_named st t hu]
    exact h

theorem closable_finish (h : Closable st) {t : LogType} (ht : t.Closes) (u : FirebaseUser)
    (favorites recommended : Loaded (List DString)) :
    Closable (st.finish t u favorites recommended) := by
  by_cases hu : u.Named
  · obtain ⟨name, hname⟩ := newUser_of_named hu
    rw [finish_of_named st t favorites recommended hname]
    exact closable_enter h ht u
  · rw [finish_of_not_named st t favorites recommended hu]
    exact closable_enter h ht u

theorem closable_signUp (h : Closable st) (u : FirebaseUser) : Closable (st.signUp u) := by
  by_cases hu : u.Named
  · obtain ⟨name, hname⟩ := newUser_of_named hu
    rw [signUp_of_named st hname]
    exact fun _ => Or.inr (Or.inl rfl)
  · rw [signUp_of_not_named st hu]
    exact h

theorem closable_written (h : Closable st) (m : MissingRead) {task : Task} (htask : task.Closes)
    (answer : Answer) : Closable (written m st task answer) := by
  cases task <;> cases answer <;> try exact h
  case getSignedInAccount.account account =>
    cases account with
    | none => exact h
    | some account => exact h
  case handleSignInTwitter.user u => exact closable_enter h (Or.inr (Or.inr rfl)) u
  case handleSignUp.user u => exact closable_signUp h u
  case getRecommended.documents t u favorites uid users =>
    exact closable_finish h htask u favorites _
  case getIndex.documents path c =>
    rw [written, StateModel.setIndex]
    split <;> exact h
  case loadUserInfo.documents path c =>
    rw [written, StateModel.setInfo]
    split <;> exact h
  all_goals exact fun hs => absurd hs Bool.false_ne_true

/-- The type of a session that is signed in is one that the button knows. -/
theorem closable_run {m : MissingRead} {events : List Event} {s : StateWidgetState}
    (hrun : Machine.run (step m) initState events = some s) : Closable s.state := by
  have hstep : ∀ s e s', (∀ task ∈ s.tasks, task.Closes) ∧ Closable s.state →
      step m s e = some s' → (∀ task ∈ s'.tasks, task.Closes) ∧ Closable s'.state := by
    intro s e s' h hstep
    refine ⟨forall_tasks_step closes_called closes_spawns h.1 hstep, ?_⟩
    obtain ⟨hstate, -⟩ | ⟨i, answer, task, -, htask, hstate⟩ := step_state hstep
    · rw [hstate]
      exact h.2
    · rw [hstate]
      exact closable_written h.2 m (h.1 task (List.mem_of_getElem? htask)) answer
  have hinit : (∀ task ∈ initState.tasks, task.Closes) ∧ Closable initState.state :=
    ⟨fun task htask => by rw [List.mem_singleton.mp htask]; trivial, fun hs => nomatch hs⟩
  exact (Machine.run_invariant hstep events _ s hinit hrun).2

/-! ### The sign-outs -/

theorem signOut_of_step {m : MissingRead} {op : Event} {s : StateWidgetState} {task : Task}
    (h : step m s op = some (s.await (some task))) : signOut m op s = resume m s task .done := by
  have hlast := step_resume_last m s task .done
  rw [signOut, Machine.run, h, Option.bind_some, Machine.run, hlast]
  exact Option.bind_fun_some _

theorem signOutIf_of_ne {m : MissingRead} {t : LogType} {op : Event} {s : StateWidgetState}
    (h : s.state.type ≠ t) : signOutIf m t op s = some s := if_neg h

/-- A sign-out leaves a record of no type, for which the later tests fail. -/
theorem logOut_google (m : MissingRead) {s : StateWidgetState} (h : s.state.type = .google) :
    logOut m s = some { s with state := {}, googleAccount := none } := by
  have hstep : step m s .signOutOfGoogle = some (s.await (some .signOutOfGoogle)) := rfl
  rw [logOut, signOutIf, if_pos h, signOut_of_step hstep]
  rfl

theorem logOut_email (m : MissingRead) {s : StateWidgetState} (h : s.state.type = .email) :
    logOut m s = some { s with state := {} } := by
  have hgoogle : s.state.type ≠ .google := by
    rw [h]
    decide
  have hstep : step m s .signOutOfEmail = some (s.await (some .signOutOfEmail)) := rfl
  rw [logOut, signOutIf_of_ne hgoogle, Option.bind_some, signOutIf, if_pos h, signOut_of_step hstep]
  rfl

theorem logOut_twitter (m : MissingRead) {s : StateWidgetState} (h : s.state.type = .twitter) :
    logOut m s = some { s with state := {} } := by
  have hgoogle : s.state.type ≠ .google := by
    rw [h]
    decide
  have hemail : s.state.type ≠ .email := by
    rw [h]
    decide
  have hstep : step m s .signOutOfTwitter = some (s.await (some .signOutOfTwitter)) := rfl
  rw [logOut, signOutIf_of_ne hgoogle, Option.bind_some, signOutIf_of_ne hemail, Option.bind_some,
    signOutIf, if_pos h, signOut_of_step hstep]
  rfl

/-- With a fresh session record, only a Google account can be left. -/
theorem loggedOut_fresh {s : StateWidgetState} (h : s.state = {}) :
    LoggedOut s ↔ s.googleAccount = none := by
  constructor
  · intro hout
    exact hout.googleAccount
  · intro hnone
    refine ⟨?_, ?_, ?_, ?_, ?_, ?_, hnone, ?_⟩
    · rw [h]
    · rw [h]
    · rw [h]
    · rw [h]
    · rw [h]
    · rw [h]
    · rw [StateWidgetState.signInWithGoogle, hnone]

/-- **Logging out, exactly.**  In every state of every run with a session signed in, the Log out
button gets through where its service calls succeed; it leaves nothing behind if and only if the
session is a Google session or no Google account is kept. -/
theorem loggedOut_iff (m : MissingRead) (events : List Event) (s : StateWidgetState)
    (hrun : Machine.run (step m) initState events = some s) (hs : s.state.isSignedIn = true) :
    ∃ t, logOut m s = some t ∧
      (LoggedOut t ↔ s.state.type = .google ∨ s.googleAccount = none) := by
  have hclosable := closable_run hrun
  rcases hclosable hs with h | h | h
  · refine ⟨_, logOut_google m h, ?_⟩
    exact iff_of_true ((loggedOut_fresh rfl).mpr rfl) (Or.inl h)
  · refine ⟨_, logOut_email m h, (loggedOut_fresh rfl).trans ?_⟩
    simp [h]
  · refine ⟨_, logOut_twitter m h, (loggedOut_fresh rfl).trans ?_⟩
    simp [h]

/-- Nobody is signed in with Google, and Ann signs in with her e-mail; her profile reads fail. -/
def annByEmail : List Event :=
  [.resume 0 (.account none), .signInWithEmail, .resume 0 (.user ann),
    .resume 0 (.documents fun _ => none), .resume 0 (.documents fun _ => none), .resume 0 .throws,
    .resume 0 .throws]

theorem loggedOut_iff_email :
    ∃ s t, Machine.run (step .throws) initState annByEmail = some s ∧ s.tasks = [] ∧
      logOut .throws s = some t ∧ LoggedOut t := by
  have hiff := loggedOut_iff .throws annByEmail _ rfl
  obtain ⟨t, ht, hiff⟩ := hiff rfl
  exact ⟨_, t, rfl, rfl, ht, hiff.mpr (Or.inr rfl)⟩

/-- Ann signs in with Google, and then Ann signs in with her e-mail on the login page below. -/
def emailAfterGoogle : List Event :=
  [.resume 0 (.account none), .signInWithGoogle, .resume 0 (.account (some ⟨"ann"⟩)),
    .resume 0 (.user ann), .resume 0 (.documents fun _ => none), .resume 0 (.documents fun _ => none),
    .resume 0 .throws, .resume 0 .throws, .signInWithEmail, .resume 0 (.user ann),
    .resume 0 (.documents fun _ => none), .resume 0 (.documents fun _ => none), .resume 0 .throws,
    .resume 0 .throws]

/-- After logging out, the next Google sign-in takes Ann's account without asking. -/
theorem logOut_keepsGoogle :
    ¬∀ s, Machine.run (step .throws) initState emailAfterGoogle = some s → s.tasks = [] →
      s.state.isSignedIn = true → ∀ t, logOut .throws s = some t → LoggedOut t := by
  intro h
  have hnone := (h _ rfl rfl rfl _ rfl).googleAccount
  exact nomatch hnone

end GiftGenie.Session
