import GiftGenie.Session

/-!
# Whose data a session shows

`OwnData` says that what a signed-in session has loaded was read from the records of the account in
`state.user`: the two lists from its document, the profile from its directory entry and from the
document that this entry names.

Between `state.user = firebaseUser` and the assignment of the lists other operations may run, and
`signInWithTwitter`, `signUpWithEmail` and the unverified branch of `signInWithEmail` never assign
the lists at all.  `own_iff_ownAnswers` is exact: a run shows no data of another account if and
only if its answers are `OwnAnswer`s.

The profile fields stay empty in every run: `getIndex` and `loadUserInfo` ask for the document
`null`.
-/

set_option autoImplicit false

namespace GiftGenie.Session

open GiftGenie.Library GiftGenie.Firestore

/-- The id of the account in `state.user`. -/
def StateModel.uid (st : StateModel) : DString := st.user.map fun user => user.account.uid

/-- The value was read from the document `path`, and not from the document `null`. -/
def ReadFrom {α : Type} (l : Loaded α) (path : DString) : Prop := l.source = path ∧ path ≠ none

/-- The filled profile fields come from the directory entry of the account, and from the document
that the entry names. -/
structure OwnProfile (user : Option SignedIn) (uuser : User) : Prop where
  userIndex : ∀ l, uuser.userIndex = some l → l.value ≠ .null →
    ReadFrom l (user.bind fun user => user.account.email)
  avatar : ∀ l, uuser.avatar = some l → l.value ≠ .null → ∃ path,
    uuser.indexPath = some path ∧ ReadFrom l path
  friendList : ∀ l, uuser.friendList = some l → l.value ≠ .null → ∃ path,
    uuser.indexPath = some path ∧ ReadFrom l path

structure Own (st : StateModel) : Prop where
  favorites : ∀ l, st.favorites = some l → ReadFrom l st.uid
  recommended : ∀ l, st.recommended = some l → ReadFrom l st.uid
  profile : ∀ uuser, st.uuser = some uuser → OwnProfile st.user uuser

def OwnData (st : StateModel) : Prop := st.isSignedIn = true → Own st

/-- Putting the account `uid` into `state.user` leaves no data of another one in a signed-in
session. -/
def Keeps (st : StateModel) (uid : DString) : Prop :=
  st.isSignedIn = true → (st.favorites = none ∧ st.recommended = none) ∨ st.uid = uid

/-- An answer that brings no data of one account to another: an account comes to a session that
shows no lists or its own, and the recommendations were read for the account they are for. -/
def OwnAnswer (st : StateModel) : Task → Answer → Prop
  | .handleSignInGoogle, .user u => Keeps st (some u.uid)
  | .handleSignInTwitter, .user u => Keeps st (some u.uid)
  | .handleSignInEmail, .user u => Keeps st (if u.isEmailVerified then some u.uid else none)
  | .handleSignUp, .user u => Keeps st (some u.uid)
  | .getRecommended _ u _ uid, .documents _ =>
      (u.Named → uid = u.uid) ∧ (¬u.Named → Keeps st (some u.uid))
  | _, _ => True

/-! ### What holds in every run -/

/-- The profile fields that have been assigned hold `null`. -/
structure Blank (uuser : User) : Prop where
  userIndex : ∀ l, uuser.userIndex = some l → l.value = .null
  avatar : ∀ l, uuser.avatar = some l → l.value = .null
  friendList : ∀ l, uuser.friendList = some l → l.value = .null

theorem blank_new (name : String) : Blank { name := name } where
  userIndex := fun l h => (by cases h)
  avatar := fun l h => (by cases h)
  friendList := fun l h => (by cases h)

theorem Blank.ownProfile {uuser : User} (h : Blank uuser) (user : Option SignedIn) :
    OwnProfile user uuser where
  userIndex := fun l hl hv => absurd (h.userIndex l hl) hv
  avatar := fun l hl hv => absurd (h.avatar l hl) hv
  friendList := fun l hl hv => absurd (h.friendList l hl) hv

/-- Lists are loaded only where somebody is signed in, and profiles are blank. -/
structure Regular (st : StateModel) : Prop where
  lists : st.isSignedIn = false → st.favorites = none ∧ st.recommended = none
  profile : ∀ uuser, st.uuser = some uuser → Blank uuser

/-- What is read from the document `null` is `null`. -/
theorem readKey_null {m : MissingRead} {c : Collection} {key : String} {v : Value}
    (h : readKey m (getDocument c none) key = .ok v) : v = .null := by
  by_contra hv
  obtain ⟨d, hd, -⟩ := field_of_read h hv
  exact nomatch hd

variable {st : StateModel}

theorem regular_reset : Regular {} where
  lists := fun _ => ⟨rfl, rfl⟩
  profile := fun uuser h => (by cases h)

theorem regular_enter (h : Regular st) (u : FirebaseUser) (t : LogType) :
    Regular (st.enter t u) := by
  by_cases hu : u.Named
  · obtain ⟨name, hname⟩ := newUser_of_named hu
    rw [enter_of_named st t hname]
    exact ⟨fun hs => (by cases hs), fun uuser huuser => (by cases huuser; exact blank_new name)⟩
  · rw [enter_of_not_named st t hu]
    exact ⟨h.lists, h.profile⟩

theorem regular_finish (h : Regular st) (u : FirebaseUser) (t : LogType)
    (favorites recommended : Loaded (List DString)) :
    Regular (st.finish t u favorites recommended) := by
  have henter := regular_enter h u t
  by_cases hu : u.Named
  · obtain ⟨name, hname⟩ := newUser_of_named hu
    rw [finish_of_named st t favorites recommended hname]
    refine ⟨fun hs => ?_, henter.profile⟩
    rw [enter_of_named st t hname] at hs
    cases hs
  · rw [finish_of_not_named st t favorites recommended hu]
    exact henter

theorem regular_signUp (h : Regular st) (u : FirebaseUser) : Regular (st.signUp u) := by
  by_cases hu : u.Named
  · obtain ⟨name, hname⟩ := newUser_of_named hu
    rw [signUp_of_named st hname]
    exact ⟨h.lists, fun uuser huuser => (by cases huuser; exact blank_new name)⟩
  · rw [signUp_of_not_named st hu]
    exact ⟨h.lists, h.profile⟩

theorem regular_setIndex (h : Regular st) (m : MissingRead) (c : Collection) :
    Regular (st.setIndex m none c) := by
  rw [StateModel.setIndex]
  split
  · rename_i uuser index huuser hindex
    have hblank := h.profile uuser huuser
    refine ⟨h.lists, fun p hp => ?_⟩
    cases hp
    refine ⟨fun l hl => ?_, hblank.avatar, hblank.friendList⟩
    cases hl
    exact readKey_null hindex
  · exact h

theorem blank_setFriendList {uuser : User} (h : Blank uuser) (path : DString)
    (friends : Except DartError Value) : Blank (uuser.setFriendList path friends) := by
  unfold User.setFriendList
  split
  · refine ⟨h.userIndex, h.avatar, fun l hl => ?_⟩
    cases hl
    rfl
  · exact h

theorem regular_setInfo (h : Regular st) (m : MissingRead) (c : Collection) :
    Regular (st.setInfo m none c) := by
  rw [StateModel.setInfo]
  split
  · rename_i uuser avatar huuser havatar
    have hblank := h.profile uuser huuser
    have hset : Blank { uuser with avatar := some ⟨none, avatar⟩ } := by
      refine ⟨hblank.userIndex, fun l hl => ?_, hblank.friendList⟩
      cases hl
      exact readKey_null havatar
    refine ⟨h.lists, fun p hp => ?_⟩
    cases hp
    exact blank_setFriendList hset _ _
  · exact h

theorem regular_written (h : Regular st) (m : MissingRead) {task : Task} (htask : task.Sound)
    (answer : Answer) : Regular (written m st task answer) := by
  cases task <;> cases answer <;> try exact h
  case getSignedInAccount.account account =>
    cases account with
    | none => exact ⟨h.lists, h.profile⟩
    | some account => exact h
  case handleSignInGoogle.user u => exact ⟨h.lists, h.profile⟩
  case handleSignInTwitter.user u => exact regular_enter h u .twitter
  case handleSignInEmail.user u => exact ⟨h.lists, h.profile⟩
  case handleSignUp.user u => exact regular_signUp h u
  case getRecommended.documents t u favorites uid users => exact regular_finish h u t favorites _
  case getIndex.documents path c =>
    cases htask
    exact regular_setIndex h m c
  case loadUserInfo.documents path c =>
    cases htask
    exact regular_setInfo h m c
  all_goals exact regular_reset

/-! ### One continuation -/

/-- Where profiles are blank, it is the lists that matter. -/
theorem ownData_iff (h : Regular st) :
    OwnData st ↔ (st.isSignedIn = true → (∀ l, st.favorites = some l → ReadFrom l st.uid) ∧
      ∀ l, st.recommended = some l → ReadFrom l st.uid) := by
  constructor
  · intro hown hs
    exact ⟨(hown hs).favorites, (hown hs).recommended⟩
  · intro hlists hs
    exact ⟨(hlists hs).1, (hlists hs).2, fun uuser hu => (h.profile uuser hu).ownProfile _⟩

/-- Data of one account is data of another one only if the two are the same. -/
theorem readFrom_iff {α : Type} {l : Loaded α} {path : DString} (h : ReadFrom l path)
    (path' : DString) : ReadFrom l path' ↔ path = path' := by
  constructor
  · intro h'
    exact h.1.symm.trans h'.1
  · intro e
    exact e ▸ h

/-- Nothing that was loaded is of another account. -/
theorem readFrom_of_none {α : Type} {o : Option (Loaded α)} (h : o = none) (path : DString) :
    ∀ l, o = some l → ReadFrom l path := by
  intro l hl
  rw [h] at hl
  cases hl

/-- A list that is its owner's stays so for the account `uid`. -/
theorem lists_iff {fav rec : Option (Loaded (List DString))} {path : DString}
    (hfav : ∀ l, fav = some l → ReadFrom l path) (hrec : ∀ l, rec = some l → ReadFrom l path)
    (uid : DString) :
    ((∀ l, fav = some l → ReadFrom l uid) ∧ ∀ l, rec = some l → ReadFrom l uid) ↔
      (fav = none ∧ rec = none) ∨ path = uid := by
  constructor
  · intro hboth
    cases hf : fav with
    | some l => exact Or.inr ((readFrom_iff (hfav l hf) uid).mp (hboth.1 l hf))
    | none =>
      cases hr : rec with
      | some l => exact Or.inr ((readFrom_iff (hrec l hr) uid).mp (hboth.2 l hr))
      | none => exact Or.inl ⟨rfl, rfl⟩
  · intro hor
    rcases hor with ⟨hf, hr⟩ | he
    · exact ⟨readFrom_of_none hf uid, readFrom_of_none hr uid⟩
    · exact he ▸ ⟨hfav, hrec⟩

theorem regular_loading (h : Regular st) (b : Bool) : Regular { st with isLoading := b } :=
  ⟨h.lists, h.profile⟩

theorem ownData_loading (hown : OwnData st) (b : Bool) : OwnData { st with isLoading := b } :=
  fun hs => ⟨(hown hs).favorites, (hown hs).recommended, (hown hs).profile⟩

theorem ownData_setUser (h : Regular st) (hown : OwnData st) (user : Option SignedIn) :
    OwnData { st with user := user } ↔ Keeps st (user.map fun user => user.account.uid) := by
  have hnew : Regular { st with user := user } := ⟨h.lists, h.profile⟩
  rw [ownData_iff hnew]
  refine forall_congr' fun hs => ?_
  exact lists_iff (hown hs).favorites (hown hs).recommended _

theorem ownData_enter (h : Regular st) (hown : OwnData st) (u : FirebaseUser) (t : LogType) :
    OwnData (st.enter t u) ↔ Keeps st (some u.uid) := by
  by_cases hu : u.Named
  · obtain ⟨name, hname⟩ := newUser_of_named hu
    rw [ownData_iff (regular_enter h u t), enter_of_named st t hname]
    cases hs : st.isSignedIn with
    | true =>
      have hlists := lists_iff (hown hs).favorites (hown hs).recommended (some u.uid)
      exact ⟨fun hnew _ => hlists.mp (hnew rfl), fun hkeeps _ => hlists.mpr (hkeeps hs)⟩
    | false =>
      obtain ⟨hf, hr⟩ := h.lists hs
      refine iff_of_true (fun _ => ?_) (fun hs' => ?_)
      · exact ⟨readFrom_of_none hf _, readFrom_of_none hr _⟩
      · rw [hs] at hs'
        cases hs'
  · rw [enter_of_not_named st t hu]
    exact ownData_setUser (regular_loading h false) (ownData_loading hown false) (some ⟨u, t⟩)

theorem ownData_signUp (h : Regular st) (hown : OwnData st) (u : FirebaseUser) :
    OwnData (st.signUp u) ↔ Keeps st (some u.uid) := by
  have hset := ownData_setUser h hown (some ⟨u, .email⟩)
  by_cases hu : u.Named
  · obtain ⟨name, hname⟩ := newUser_of_named hu
    have hreg : Regular { st with user := some ⟨u, .email⟩ } := ⟨h.lists, h.profile⟩
    rw [ownData_iff hreg] at hset
    rw [ownData_iff (regular_signUp h u), signUp_of_named st hname]
    exact hset
  · rw [signUp_of_not_named st hu]
    exact hset

theorem ownData_finish (h : Regular st) (hown : OwnData st) (u : FirebaseUser) (t : LogType)
    {favorites : Loaded (List DString)} (hfav : favorites.source = some u.uid)
    (recommended : Loaded (List DString)) (uid : String) (hrec : recommended.source = some uid) :
    OwnData (st.finish t u favorites recommended) ↔
      (u.Named → uid = u.uid) ∧ (¬u.Named → Keeps st (some u.uid)) := by
  by_cases hu : u.Named
  · obtain ⟨name, hname⟩ := newUser_of_named hu
    rw [ownData_iff (regular_finish h u t favorites recommended),
      finish_of_named st t favorites recommended hname, enter_of_named st t hname]
    constructor
    · intro hnew
      refine ⟨fun _ => ?_, fun hn => absurd hu hn⟩
      have hread := ((hnew rfl).2 recommended rfl).1
      rw [hrec] at hread
      exact Option.some.inj hread
    · intro hor _
      have huid : uid = u.uid := hor.1 hu
      refine ⟨fun l hl => ?_, fun l hl => ?_⟩
      · cases hl
        exact ⟨hfav, by simp [StateModel.uid]⟩
      · cases hl
        rw [huid] at hrec
        exact ⟨hrec, by simp [StateModel.uid]⟩
  · rw [finish_of_not_named st t favorites recommended hu, ownData_enter h hown]
    simp [hu]

theorem ownData_setIndex (h : Regular st) (hown : OwnData st) (m : MissingRead) (c : Collection) :
    OwnData (st.setIndex m none c) := by
  have hreg := regular_setIndex h m c
  rw [ownData_iff hreg, StateModel.setIndex]
  rw [ownData_iff h] at hown
  split <;> exact hown

theorem ownData_setInfo (h : Regular st) (hown : OwnData st) (m : MissingRead) (c : Collection) :
    OwnData (st.setInfo m none c) := by
  have hreg := regular_setInfo h m c
  rw [ownData_iff hreg, StateModel.setInfo]
  rw [ownData_iff h] at hown
  split <;> exact hown

/-- A fresh record has loaded nothing. -/
theorem ownData_reset : OwnData {} := fun hs => (by cases hs)

theorem ownData_written (h : Regular st) (hown : OwnData st) (m : MissingRead) {task : Task}
    (htask : task.Sound) (answer : Answer) :
    OwnData (written m st task answer) ↔ OwnAnswer st task answer := by
  cases task <;> cases answer <;> try exact iff_of_true hown trivial
  case getSignedInAccount.account account =>
    cases account with
    | none => exact iff_of_true (ownData_loading hown false) trivial
    | some account => exact iff_of_true hown trivial
  case handleSignInGoogle.user u => exact ownData_setUser h hown (some ⟨u, .google⟩)
  case handleSignInTwitter.user u => exact ownData_enter h hown u .twitter
  case handleSignInEmail.user u =>
    cases hv : u.isEmailVerified with
    | true =>
      simp only [written, OwnAnswer, hv, if_true]
      exact ownData_setUser h hown (some ⟨u, .email⟩)
    | false =>
      simp only [written, OwnAnswer, hv, Bool.false_eq_true, if_false]
      exact ownData_setUser h hown none
  case handleSignUp.user u => exact ownData_signUp h hown u
  case getRecommended.documents t u favorites uid users =>
    exact ownData_finish h hown u t htask.1 _ uid rfl
  case getIndex.documents path c =>
    cases htask
    exact iff_of_true (ownData_setIndex h hown m c) trivial
  case loadUserInfo.documents path c =>
    cases htask
    exact iff_of_true (ownData_setInfo h hown m c) trivial
  all_goals exact iff_of_true ownData_reset trivial

/-! ### Runs -/

/-- What holds of every session: its suspended operations are sound, and its record is regular. -/
def Kept (s : StateWidgetState) : Prop := Sound s ∧ Regular s.state

theorem kept_step {m : MissingRead} (s : StateWidgetState) (e : Event) (s' : StateWidgetState)
    (h : Kept s) (hstep : step m s e = some s') : Kept s' := by
  refine ⟨sound_step h.1 hstep, ?_⟩
  obtain ⟨hstate, -⟩ | ⟨i, answer, task, -, htask, hstate⟩ := step_state hstep
  · rw [hstate]
    exact h.2
  · rw [hstate]
    exact regular_written h.2 m (h.1 task (List.mem_of_getElem? htask)) answer

theorem kept_initState : Kept initState :=
  ⟨sound_initState, fun _ => ⟨rfl, rfl⟩, fun uuser h => (by cases h)⟩

/-- **No data crosses between accounts, exactly.**  In every state of a run a signed-in session
shows data of its own account only, if and only if every answer of the run is an `OwnAnswer`. -/
theorem own_iff_ownAnswers (m : MissingRead) (events : List Event) (s : StateWidgetState)
    (hrun : Machine.run (step m) initState events = some s) :
    Machine.AllStates (step m) (fun s => OwnData s.state) initState events ↔
      Machine.AllSteps (step m) (OnResume OwnAnswer) initState events := by
  have hstep : ∀ s e s', Kept s → OwnData s.state → step m s e = some s' →
      (OwnData s'.state ↔ OnResume OwnAnswer s e) :=
    fun s e s' hkept hown h => step_keeps_iff hown
      (fun task htask answer => ownData_written hkept.2 hown m (hkept.1 task htask) answer) h
  have hinit : OwnData initState.state := fun hs => (by cases hs)
  exact Machine.allStates_iff_allSteps kept_step hstep events initState s kept_initState hinit hrun

theorem ownAnswers_emailSignIn :
    Machine.AllSteps (step .throws) (OnResume OwnAnswer) initState emailSignIn :=
  onResume_emailSignIn (fun hs => (by cases hs)) trivial
    ⟨fun _ => rfl, fun _ hs => (by cases hs)⟩

/-- Ann's session shows the favourites that were read from her document. -/
theorem own_iff_ownAnswers_email :
    ∃ s l, Machine.run (step .throws) initState emailSignIn = some s ∧
      s.state.favorites = some l ∧ ReadFrom l (some "ann") := by
  refine ⟨_, _, rfl, rfl, ?_⟩
  have hall := (own_iff_ownAnswers .throws emailSignIn _ rfl).mpr ownAnswers_emailSignIn
  exact (hall.last rfl rfl).favorites _ rfl

/-- Ann signs in with Google, and Bob with Twitter while she is. -/
def twitterAfterGoogle : List Event :=
  [.signInWithGoogle, .resume 1 (.account (some ⟨"ann"⟩)), .resume 1 (.user ann),
    .resume 1 (.documents fun _ => none), .resume 1 (.documents fun _ => none),
    .signInWithTwitter, .resume 3 (.user bob)]

/-- Bob's session shows the favourites of Ann. -/
theorem favorites_cross :
    ¬∀ s, Machine.run (step .throws) initState twitterAfterGoogle = some s → OwnData s.state := by
  intro h
  have hread : some "ann" = some "bob" := ((h _ rfl rfl).favorites _ rfl).1
  exact absurd hread (by decide)

end GiftGenie.Session
