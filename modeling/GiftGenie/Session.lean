import GiftGenie.Library.Machine
import GiftGenie.StateModel

/-!
# Sign-ins and sign-outs, one await at a time

`_StateWidgetState` holds the session.  Its operations run up to an `await` and are resumed when
the awaited call answers, so that any number of them can be under way at once.  A `Task` is an
operation suspended at an `await`, with its local variables; an `Event` calls an operation or
answers one of the suspended ones.  Awaits with no access to the session between them are one.

A call that throws ends its operation.  So does reading a member of `null`, after what was assigned
before it.

The LOGIN button awaits `signInWithEmail` and pushes the home page if the session is then signed in;
`pushes` records on whose credentials, and what `state.user` is at that moment.
-/

set_option autoImplicit false

namespace GiftGenie.Session

open GiftGenie.Library GiftGenie.Firestore

structure GoogleSignInAccount where
  id : String
  deriving DecidableEq, Repr

/-- Where an operation is suspended: the awaited call, and the local variables needed after it. -/
inductive Task where
  | getSignedInAccount
  | googleSignIn
  | handleSignInGoogle
  | handleSignInTwitter
  | handleSignInEmail
  | handleSignUp
  | getFavorites (t : LogType) (firebaseUser : FirebaseUser) (uid : String)
  | getRecommended (t : LogType) (firebaseUser : FirebaseUser)
      (favorites : Loaded (List DString)) (uid : String)
  | getIndex (path : DString)
  | loadUserInfo (path : DString)
  | signOutOfGoogle
  | signOutOfTwitter
  | signOutOfEmail
  deriving DecidableEq, Repr

/-- How the awaited call ends.  A read is answered with the collection as it is at that moment. -/
inductive Answer where
  | throws
  | account (googleAccount : Option GoogleSignInAccount)
  | user (firebaseUser : FirebaseUser)
  | documents (collection : Collection)
  | done

/-- The home page is pushed for the credentials of `account` while `state.user` is `user`. -/
structure Push where
  account : FirebaseUser
  user : Option SignedIn
  deriving DecidableEq, Repr

structure StateWidgetState where
  state : StateModel := {}
  googleAccount : Option GoogleSignInAccount := none
  tasks : List Task := []
  pushes : List Push := []
  deriving DecidableEq, Repr

namespace StateWidgetState

/-- Suspend an operation; `none` where it throws on the way to its `await`. -/
def await (s : StateWidgetState) (task : Option Task) : StateWidgetState :=
  { s with tasks := s.tasks ++ task.toList }

/-! ### The operations -/

/-- `handleSignInGoogle(googleAccount)` asks the account for its authentication, which `null` has
not. -/
def handleSignInGoogle (s : StateWidgetState) : StateWidgetState :=
  s.await (s.googleAccount.map fun _ => .handleSignInGoogle)

def signInWithGoogle (s : StateWidgetState) : StateWidgetState :=
  match s.googleAccount with
  | none => s.await (some .googleSignIn)
  | some _ => s.handleSignInGoogle

/-- `initUser` from the answer of `getSignedInAccount` on. -/
def initUser (s : StateWidgetState) (account : Option GoogleSignInAccount) : StateWidgetState :=
  let s := { s with googleAccount := account }
  match account with
  | none => { s with state := { s.state with isLoading := false } }
  | some _ => s.signInWithGoogle

/-- `state.user = user`. -/
def setUser (s : StateWidgetState) (user : Option SignedIn) : StateWidgetState :=
  { s with state := { s.state with user := user } }

/-- `await getFavorites()` reads the document of `state.user`. -/
def awaitFavorites (s : StateWidgetState) (t : LogType) (u : FirebaseUser) : StateWidgetState :=
  s.await (s.state.user.map fun user => .getFavorites t u user.account.uid)

/-- `await getRecommended()` reads the document of `state.user`, too, as it is by then. -/
def awaitRecommended (s : StateWidgetState) (t : LogType) (u : FirebaseUser)
    (favorites : Loaded (List DString)) : StateWidgetState :=
  s.await (s.state.user.map fun user => .getRecommended t u favorites user.account.uid)

/-- `getIndex()` up to its read: the document named by `state.uuser.email`. -/
def getIndex (s : StateWidgetState) : StateWidgetState :=
  s.await (s.state.uuser.map fun uuser => .getIndex uuser.email)

/-- `loadUserInfo()` up to its read: the document named by `state.uuser.userIndex`. -/
def loadUserInfo (s : StateWidgetState) : StateWidgetState :=
  s.await (s.state.uuser.bind fun uuser => uuser.indexPath.map .loadUserInfo)

/-- The LOGIN button after `signInWithEmail` has returned. -/
def login (s : StateWidgetState) (u : FirebaseUser) : StateWidgetState :=
  if s.state.isSignedIn then { s with pushes := s.pushes ++ [⟨u, s.state.user⟩] } else s

/-- The last part of `signInWithGoogle` and `signInWithEmail`. -/
def finish (s : StateWidgetState) (t : LogType) (u : FirebaseUser)
    (favorites recommended : Loaded (List DString)) : StateWidgetState :=
  let s := { s with state := s.state.finish t u favorites recommended }
  match newUser u with
  | .ok _ =>
      let s := s.getIndex.loadUserInfo
      if t = .email then s.login u else s
  | .error _ => s

/-- The last part of the sign-outs. -/
def signedOut (s : StateWidgetState) : StateWidgetState := { s with state := {} }

end StateWidgetState

open StateWidgetState

/-- `initState` where the widget is given no state, as in `main`; it calls `initUser`. -/
def initState : StateWidgetState where
  state := { isLoading := true }
  tasks := [.getSignedInAccount]

/-- Continue `task` with the answer of the call it awaits; `none` for an answer of another kind. -/
def resume (m : MissingRead) (s : StateWidgetState) : Task → Answer → Option StateWidgetState
  | _, .throws => some s
  | .getSignedInAccount, .account account => some (s.initUser account)
  | .googleSignIn, .account account => some { s with googleAccount := account }.handleSignInGoogle
  | .handleSignInGoogle, .user u =>
      some ((s.setUser (some ⟨u, .google⟩)).awaitFavorites .google u)
  | .handleSignInTwitter, .user u => some { s with state := s.state.enter .twitter u }
  | .handleSignInEmail, .user u =>
      let s := s.setUser (some ⟨u, .email⟩)
      if u.isEmailVerified then some (s.awaitFavorites .email u)
      else some ((s.setUser none).login u)
  | .handleSignUp, .user u => some { s with state := s.state.signUp u }
  | .getFavorites t u uid, .documents users =>
      some (s.awaitRecommended t u ⟨some uid, Session.getFavorites users uid⟩)
  | .getRecommended t u favorites uid, .documents users =>
      some (s.finish t u favorites ⟨some uid, Session.getRecommended users uid⟩)
  | .getIndex path, .documents userEmails =>
      some { s with state := s.state.setIndex m path userEmails }
  | .loadUserInfo path, .documents users =>
      some { s with state := s.state.setInfo m path users }
  | .signOutOfGoogle, .done => some { s.signedOut with googleAccount := none }
  | .signOutOfTwitter, .done => some s.signedOut
  | .signOutOfEmail, .done => some s.signedOut
  | _, _ => none

inductive Event where
  | signInWithGoogle
  | signInWithTwitter
  | signInWithEmail
  | signUpWithEmail
  | signOutOfGoogle
  | signOutOfTwitter
  | signOutOfEmail
  | resume (i : ℕ) (answer : Answer)

def step (m : MissingRead) (s : StateWidgetState) : Event → Option StateWidgetState
  | .signInWithGoogle => some s.signInWithGoogle
  | .signInWithTwitter => some (s.await (some .handleSignInTwitter))
  | .signInWithEmail => some (s.await (some .handleSignInEmail))
  | .signUpWithEmail => some (s.await (some .handleSignUp))
  | .signOutOfGoogle => some (s.await (some .signOutOfGoogle))
  | .signOutOfTwitter => some (s.await (some .signOutOfTwitter))
  | .signOutOfEmail => some (s.await (some .signOutOfEmail))
  | .resume i answer =>
      s.tasks[i]?.bind fun task => resume m { s with tasks := s.tasks.eraseIdx i } task answer

/-! ### The branches of `signInWithEmail` -/

theorem resume_verified {u : FirebaseUser} (hv : u.isEmailVerified = true) (m : MissingRead)
    (s : StateWidgetState) :
    resume m s .handleSignInEmail (.user u) =
      some ((s.setUser (some ⟨u, .email⟩)).awaitFavorites .email u) := by
  simp only [resume, hv, if_true]

theorem resume_unverified {u : FirebaseUser} (hv : u.isEmailVerified = false) (m : MissingRead)
    (s : StateWidgetState) :
    resume m s .handleSignInEmail (.user u) = some ((s.setUser none).login u) := by
  simp only [resume, hv, Bool.false_eq_true, if_false]
  rfl

/-! ### What a continuation writes -/

@[simp] theorem state_signInWithGoogle (s : StateWidgetState) :
    s.signInWithGoogle.state = s.state := by
  rw [signInWithGoogle]
  split <;> rfl

@[simp] theorem pushes_signInWithGoogle (s : StateWidgetState) :
    s.signInWithGoogle.pushes = s.pushes := by
  rw [signInWithGoogle]
  split <;> rfl

@[simp] theorem state_login (s : StateWidgetState) (u : FirebaseUser) :
    (s.login u).state = s.state := by
  rw [login]
  split <;> rfl

/-- The session record after a continuation. -/
def written (m : MissingRead) (st : StateModel) : Task → Answer → StateModel
  | .getSignedInAccount, .account account =>
      match account with
      | none => { st with isLoading := false }
      | some _ => st
  | .handleSignInGoogle, .user u => { st with user := some ⟨u, .google⟩ }
  | .handleSignInTwitter, .user u => st.enter .twitter u
  | .handleSignInEmail, .user u =>
      { st with user := if u.isEmailVerified then some ⟨u, .email⟩ else none }
  | .handleSignUp, .user u => st.signUp u
  | .getRecommended t u favorites uid, .documents users =>
      st.finish t u favorites ⟨some uid, Session.getRecommended users uid⟩
  | .getIndex path, .documents userEmails => st.setIndex m path userEmails
  | .loadUserInfo path, .documents users => st.setInfo m path users
  | .signOutOfGoogle, .done => {}
  | .signOutOfTwitter, .done => {}
  | .signOutOfEmail, .done => {}
  | _, _ => st

theorem state_finish (s : StateWidgetState) (t : LogType) (u : FirebaseUser)
    (favorites recommended : Loaded (List DString)) :
    (s.finish t u favorites recommended).state = s.state.finish t u favorites recommended := by
  rw [StateWidgetState.finish]
  cases newUser u with
  | error e => rfl
  | ok uuser =>
    by_cases ht : t = .email
    · simp only [ht, if_true, state_login]
      rfl
    · simp only [ht, if_false]
      rfl

theorem resume_state {m : MissingRead} {s s' : StateWidgetState} {task : Task} {a : Answer}
    (h : resume m s task a = some s') : s'.state = written m s.state task a := by
  -- what is left after this line are the continuations with a branch in them
  cases task <;> cases a <;> try (cases h <;> rfl)
  case getSignedInAccount.account account =>
    cases h
    cases account with
    | none => rfl
    | some account => exact state_signInWithGoogle _
  case handleSignInEmail.user u =>
    cases hv : u.isEmailVerified with
    | true =>
      rw [resume_verified hv] at h
      cases h
      rw [written, hv]
      rfl
    | false =>
      rw [resume_unverified hv] at h
      cases h
      rw [state_login, written, hv]
      rfl
  case getRecommended.documents t u favorites uid users =>
    cases h
    exact state_finish s t u favorites _

/-! ### Which tasks a step starts -/

/-- The operation that was called last is the last task, and resuming it removes it. -/
theorem step_resume_last (m : MissingRead) (s : StateWidgetState) (task : Task) (answer : Answer) :
    step m (s.await (some task)) (.resume s.tasks.length answer) = resume m s task answer := by
  have hget : (s.tasks ++ [task])[s.tasks.length]? = some task := List.getElem?_concat_length
  have herase : (s.tasks ++ [task]).eraseIdx s.tasks.length = s.tasks := by
    rw [List.eraseIdx_append_of_length_le (Nat.le_refl _), Nat.sub_self, List.eraseIdx_cons_zero,
      List.append_nil]
  have hstep : step m (s.await (some task)) (.resume s.tasks.length answer) =
      (s.tasks ++ [task])[s.tasks.length]?.bind fun next =>
        resume m { s with tasks := (s.tasks ++ [task]).eraseIdx s.tasks.length } next answer := rfl
  rw [hstep, hget, herase]
  rfl

theorem mem_await {s : StateWidgetState} {task : Option Task} {t : Task} :
    t ∈ (s.await task).tasks ↔ t ∈ s.tasks ∨ task = some t :=
  List.mem_append.trans (or_congr_right Option.mem_toList)

@[simp] theorem tasks_login (s : StateWidgetState) (u : FirebaseUser) :
    (s.login u).tasks = s.tasks := by
  rw [login]
  split <;> rfl

/-- A sign-in that gets through starts the two profile reads, with the path `null`. -/
theorem tasks_finish_of_named (s : StateWidgetState) (t : LogType) {u : FirebaseUser} {name : String}
    (h : newUser u = .ok { name := name }) (favorites recommended : Loaded (List DString)) :
    (s.finish t u favorites recommended).tasks =
      s.tasks ++ [.getIndex none, .loadUserInfo none] := by
  have huuser : (s.state.finish t u favorites recommended).uuser = some { name := name } := by
    rw [finish_of_named s.state t favorites recommended h, enter_of_named s.state t h]
  have hreads : ∀ s' : StateWidgetState, s'.state.uuser = some { name := name } →
      s'.getIndex.loadUserInfo.tasks = s'.tasks ++ [.getIndex none, .loadUserInfo none] := by
    intro s' hs'
    simp only [loadUserInfo, getIndex, await, hs', Option.map_some, Option.toList_some,
      Option.bind_some, List.append_assoc]
    rfl
  have hdone := hreads { s with state := s.state.finish t u favorites recommended } huuser
  rw [StateWidgetState.finish, h]
  by_cases ht : t = .email
  · simp only [ht, if_true, tasks_login]
    exact ht ▸ hdone
  · simp only [ht, if_false]
    exact hdone

theorem finish_of_unnamed (s : StateWidgetState) (t : LogType) {u : FirebaseUser} (h : ¬u.Named)
    (favorites recommended : Loaded (List DString)) :
    s.finish t u favorites recommended = { s with state := s.state.enter t u } := by
  rw [StateWidgetState.finish, newUser_of_not_named h,
    finish_of_not_named s.state t favorites recommended h]

/-- The tasks with which the operations begin. -/
def Task.Called (task : Task) : Prop :=
  task ∈ [.googleSignIn, .handleSignInGoogle, .handleSignInTwitter, .handleSignInEmail,
    .handleSignUp, .signOutOfGoogle, .signOutOfTwitter, .signOutOfEmail]

/-- The tasks that follow when a task gets its answer. -/
inductive Spawns : Task → Answer → Task → Prop where
  | initUser (account : Option GoogleSignInAccount) :
      Spawns .getSignedInAccount (.account account) .handleSignInGoogle
  | authenticate (account : Option GoogleSignInAccount) :
      Spawns .googleSignIn (.account account) .handleSignInGoogle
  | googleFavorites (u : FirebaseUser) :
      Spawns .handleSignInGoogle (.user u) (.getFavorites .google u u.uid)
  | emailFavorites {u : FirebaseUser} (hv : u.isEmailVerified = true) :
      Spawns .handleSignInEmail (.user u) (.getFavorites .email u u.uid)
  | recommended (t : LogType) (u : FirebaseUser) (uid uid' : String) (users : Collection) :
      Spawns (.getFavorites t u uid) (.documents users)
        (.getRecommended t u ⟨some uid, Session.getFavorites users uid⟩ uid')
  | index (t : LogType) (u : FirebaseUser) (favorites : Loaded (List DString)) (uid : String)
      (users : Collection) :
      Spawns (.getRecommended t u favorites uid) (.documents users) (.getIndex none)
  | info (t : LogType) (u : FirebaseUser) (favorites : Loaded (List DString)) (uid : String)
      (users : Collection) :
      Spawns (.getRecommended t u favorites uid) (.documents users) (.loadUserInfo none)

theorem spawns_of_resume {m : MissingRead} {s s' : StateWidgetState} {task : Task} {a : Answer}
    (h : resume m s task a = some s') {t : Task} (ht : t ∈ s'.tasks) :
    t ∈ s.tasks ∨ Spawns task a t := by
  cases task <;> cases a <;> try (cases h <;> exact Or.inl ht)
  case getSignedInAccount.account account =>
    cases h
    cases account with
    | none => exact Or.inl ht
    | some account =>
      refine (mem_await.mp ht).imp_right fun h => ?_
      rw [← Option.some.inj h]
      exact .initUser (some account)
  case googleSignIn.account account =>
    cases h
    refine (mem_await.mp ht).imp_right fun h => ?_
    obtain ⟨_, -, rfl⟩ := Option.map_eq_some_iff.mp h
    exact .authenticate account
  case handleSignInGoogle.user u =>
    cases h
    refine (mem_await.mp ht).imp_right fun h => ?_
    rw [← Option.some.inj h]
    exact .googleFavorites u
  case handleSignInEmail.user u =>
    cases hv : u.isEmailVerified with
    | true =>
      rw [resume_verified hv] at h
      cases h
      refine (mem_await.mp ht).imp_right fun h => ?_
      rw [← Option.some.inj h]
      exact .emailFavorites hv
    | false =>
      rw [resume_unverified hv] at h
      cases h
      rw [tasks_login] at ht
      exact Or.inl ht
  case getFavorites.documents t' u uid users =>
    cases h
    refine (mem_await.mp ht).imp_right fun h => ?_
    obtain ⟨user, -, rfl⟩ := Option.map_eq_some_iff.mp h
    exact .recommended t' u uid _ users
  case getRecommended.documents t' u favorites uid users =>
    cases h
    by_cases hu : u.Named
    · obtain ⟨name, hname⟩ := newUser_of_named hu
      rw [tasks_finish_of_named s t' hname] at ht
      refine (List.mem_append.mp ht).imp_right fun h => ?_
      rcases List.mem_pair.mp h with rfl | rfl
      · exact .index t' u favorites uid users
      · exact .info t' u favorites uid users
    · rw [finish_of_unnamed s t' hu] at ht
      exact Or.inl ht

/-- What holds of the tasks that are called, and passes on to those they start, holds of all. -/
theorem forall_tasks_step {Q : Task → Prop} (hcalled : ∀ task, task.Called → Q task)
    (hspawns : ∀ task a t, Q task → Spawns task a t → Q t) {m : MissingRead}
    {s s' : StateWidgetState} {e : Event} (hs : ∀ task ∈ s.tasks, Q task)
    (h : step m s e = some s') : ∀ task ∈ s'.tasks, Q task := by
  have hcall : ∀ task : Task, task.Called → ∀ t ∈ (s.await (some task)).tasks, Q t := by
    intro task htask t ht
    rcases mem_await.mp ht with ht | ht
    · exact hs t ht
    · exact Option.some.inj ht ▸ hcalled task htask
  cases e with
  | signInWithGoogle =>
    cases h
    rw [signInWithGoogle]
    split
    · exact hcall .googleSignIn (by simp [Task.Called])
    · rename_i hsome
      rw [StateWidgetState.handleSignInGoogle, hsome]
      exact hcall .handleSignInGoogle (by simp [Task.Called])
  | resume i answer =>
    obtain ⟨task, htask, hresume⟩ := Option.bind_eq_some_iff.mp h
    intro t ht
    rcases spawns_of_resume hresume ht with ht | hspawn
    · exact hs t (List.mem_of_mem_eraseIdx ht)
    · exact hspawns task answer t (hs task (List.mem_of_getElem? htask)) hspawn
  | _ =>
    cases h
    exact hcall _ (by simp [Task.Called])

/-- What a suspended operation knows: the favourites are those of its own account, an e-mail
account is verified, and the profile reads are asked for the document `null`. -/
def Task.Sound : Task → Prop
  | .getFavorites t u uid => uid = u.uid ∧ (t = .email → u.isEmailVerified = true)
  | .getRecommended t u favorites _ =>
      favorites.source = some u.uid ∧ (t = .email → u.isEmailVerified = true)
  | .getIndex path => path = none
  | .loadUserInfo path => path = none
  | _ => True

def Sound (s : StateWidgetState) : Prop := ∀ task ∈ s.tasks, task.Sound

theorem sound_called (task : Task) (h : task.Called) : task.Sound := by
  simp only [Task.Called, List.mem_cons, List.not_mem_nil, or_false] at h
  rcases h with rfl | rfl | rfl | rfl | rfl | rfl | rfl | rfl <;> trivial

theorem sound_spawns (task : Task) (a : Answer) (t : Task) (h : task.Sound)
    (hspawn : Spawns task a t) : t.Sound := by
  cases hspawn with
  | initUser account => trivial
  | authenticate account => trivial
  | googleFavorites u => exact ⟨rfl, fun ht => nomatch ht⟩
  | emailFavorites hv => exact ⟨rfl, fun _ => hv⟩
  | recommended t u uid uid' users => exact ⟨congrArg some h.1, h.2⟩
  | index t u favorites uid users => rfl
  | info t u favorites uid users => rfl

theorem sound_step {m : MissingRead} {s s' : StateWidgetState} {e : Event} (hs : Sound s)
    (h : step m s e = some s') : Sound s' :=
  forall_tasks_step sound_called sound_spawns hs h

theorem sound_initState : Sound initState := by
  intro task htask
  rw [List.mem_singleton.mp htask]
  trivial

/-! ### Conditions on the answers -/

/-- A condition on the session record, a resumed operation and its answer, as one on the steps. -/
def OnResume (G : StateModel → Task → Answer → Prop) (s : StateWidgetState) : Event → Prop
  | .resume i answer => ∀ task, s.tasks[i]? = some task → G s.state task answer
  | _ => True

theorem onResume_resume {G : StateModel → Task → Answer → Prop} {s : StateWidgetState} {i : ℕ}
    {task : Task} (htask : s.tasks[i]? = some task) (answer : Answer) :
    OnResume G s (.resume i answer) ↔ G s.state task answer := by
  constructor
  · intro h
    exact h task htask
  · intro h task' htask'
    rw [htask] at htask'
    cases htask'
    exact h

/-- Calling an operation leaves the record alone; resuming one writes what its continuation
writes. -/
theorem step_state {m : MissingRead} {s s' : StateWidgetState} {e : Event}
    (h : step m s e = some s') :
    (s'.state = s.state ∧ ∀ G, OnResume G s e) ∨
      ∃ i answer task, e = .resume i answer ∧ s.tasks[i]? = some task ∧
        s'.state = written m s.state task answer := by
  cases e with
  | signInWithGoogle =>
    cases h
    exact Or.inl ⟨state_signInWithGoogle s, fun _ => trivial⟩
  | resume i answer =>
    obtain ⟨task, htask, hresume⟩ := Option.bind_eq_some_iff.mp h
    have hstate := resume_state hresume
    exact Or.inr ⟨i, answer, task, rfl, htask, hstate⟩
  | _ =>
    cases h
    exact Or.inl ⟨rfl, fun _ => trivial⟩

/-- A property of the record that a continuation keeps exactly under the condition `G`. -/
theorem step_keeps_iff {P : StateModel → Prop} {G : StateModel → Task → Answer → Prop}
    {m : MissingRead} {s s' : StateWidgetState} {e : Event} (hP : P s.state)
    (hG : ∀ task ∈ s.tasks, ∀ answer, P (written m s.state task answer) ↔ G s.state task answer)
    (h : step m s e = some s') : P s'.state ↔ OnResume G s e := by
  obtain ⟨hstate, hguard⟩ | ⟨i, answer, task, rfl, htask, hstate⟩ := step_state h
  · rw [hstate]
    exact iff_of_true hP (hguard G)
  · rw [hstate, hG task (List.mem_of_getElem? htask) answer, onResume_resume htask answer]

/-! ### Two accounts -/

/-- An account whose e-mail is verified. -/
def ann : FirebaseUser where
  uid := "ann"
  email := some "ann@x.io"
  displayName := none
  isEmailVerified := true

/-- An account whose e-mail is not verified. -/
def bob : FirebaseUser where
  uid := "bob"
  email := some "bob@x.io"
  displayName := none
  isEmailVerified := false

/-- Ann signs in with her e-mail; her document does not exist. -/
def emailSignIn : List Event :=
  [.signInWithEmail, .resume 1 (.user ann), .resume 1 (.documents fun _ => none),
    .resume 1 (.documents fun _ => none)]

/-- The answers of this run: Ann comes to an empty session, and her two lists follow. -/
theorem onResume_emailSignIn {G : StateModel → Task → Answer → Prop}
    (huser : G initState.state .handleSignInEmail (.user ann))
    (hfavorites : G { initState.state with user := some ⟨ann, .email⟩ }
      (.getFavorites .email ann "ann") (.documents fun _ => none))
    (hrecommended : G { initState.state with user := some ⟨ann, .email⟩ }
      (.getRecommended .email ann ⟨some "ann", []⟩ "ann") (.documents fun _ => none)) :
    Machine.AllSteps (step .throws) (OnResume G) initState emailSignIn := by
  refine ⟨trivial, fun s hs => ?_⟩
  cases hs
  refine ⟨(onResume_resume rfl _).mpr huser, fun s hs => ?_⟩
  cases hs
  refine ⟨(onResume_resume rfl _).mpr hfavorites, fun s hs => ?_⟩
  cases hs
  exact ⟨(onResume_resume rfl _).mpr hrecommended, fun s _ => trivial⟩

end GiftGenie.Session
