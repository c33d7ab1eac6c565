import GiftGenie.SessionAccounts

/-!
# Loading the profile

A sign-in makes a new `User` and starts `getIndex` and `loadUserInfo` on it.  The first reads the
directory entry named by `uuser.email`, the second the document named by `uuser.userIndex`; the
constructor fills neither, so both read the document `null`, in whatever order they complete.

`profile_not_loaded` says for every account and every order of the two reads that the sign-in
completes, and for every run that the profile never shows the records of the account.
-/

set_option autoImplicit false

namespace GiftGenie.Session

open GiftGenie.Library GiftGenie.Firestore

/-- The directory names the index `i` for the e-mail `e`, and the document under `i` is `d`, with an
avatar and a list of friends. -/
structure Recorded (userEmails users : Collection) (e i : String) (d : Doc) : Prop where
  index : ∃ entry, userEmails e = some entry ∧ field entry "userIndex" = .str i
  document : users i = some d
  avatar : field d "avatar" ≠ .null
  friends : ∃ xs, field d "friends" = .list xs

/-- The profile has the index `i`, and the avatar and the friends of the document `d`. -/
structure Shows (uuser : User) (i : String) (d : Doc) : Prop where
  userIndex : uuser.userIndex.elim .null Loaded.value = .str i
  avatar : uuser.avatar.elim .null Loaded.value = field d "avatar"
  friendList : uuser.friendList.elim (.list []) Loaded.value = field d "friends"

/-- The account is signed in, and neither `getIndex` nor `loadUserInfo` is under way. -/
structure ProfileRead (t : LogType) (u : FirebaseUser) (s : StateWidgetState) : Prop where
  user : s.state.user = some ⟨u, t⟩
  isSignedIn : s.state.isSignedIn = true
  getIndex : ∀ path, .getIndex path ∉ s.tasks
  loadUserInfo : ∀ path, .loadUserInfo path ∉ s.tasks

/-- The widget starts without a Google account, and the account signs in. -/
def signInAnswers (t : LogType) (u : FirebaseUser) (account : GoogleSignInAccount)
    (users : Collection) : List Event :=
  (if t = .email then [.resume 0 (.account none), .signInWithEmail, .resume 0 (.user u)]
    else [.resume 0 (.account none), .signInWithGoogle, .resume 0 (.account (some account)),
      .resume 0 (.user u)]) ++
    [.resume 0 (.documents users), .resume 0 (.documents users)]

/-- The two reads of the profile complete, `getIndex` first or `loadUserInfo` first. -/
def profileAnswers (indexFirst : Bool) (userEmails users : Collection) : List Event :=
  if indexFirst then [.resume 0 (.documents userEmails), .resume 0 (.documents users)]
  else [.resume 1 (.documents users), .resume 0 (.documents userEmails)]

/-! ### The sign-in completes -/

variable {u : FirebaseUser}

theorem setIndex_frame (m : MissingRead) (st : StateModel) (path : DString) (c : Collection) :
    (st.setIndex m path c).user = st.user ∧ (st.setIndex m path c).isSignedIn = st.isSignedIn := by
  rw [StateModel.setIndex]
  split <;> exact ⟨rfl, rfl⟩

theorem setInfo_frame (m : MissingRead) (st : StateModel) (path : DString) (c : Collection) :
    (st.setInfo m path c).user = st.user ∧ (st.setInfo m path c).isSignedIn = st.isSignedIn := by
  rw [StateModel.setInfo]
  split <;> exact ⟨rfl, rfl⟩

/-- The session in which the recommendations have just been read. -/
def beforeFinish (t : LogType) (u : FirebaseUser) (account : GoogleSignInAccount) :
    StateWidgetState where
  state := { user := some ⟨u, t⟩ }
  googleAccount := if t = .email then none else some account

theorem run_signInAnswers (m : MissingRead) {t : LogType}
    (ht : t = .google ∨ t = .email ∧ u.isEmailVerified = true) (account : GoogleSignInAccount)
    (users : Collection) :
    Machine.run (step m) initState (signInAnswers t u account users) =
      some ((beforeFinish t u account).finish t u ⟨some u.uid, getFavorites users u.uid⟩
        ⟨some u.uid, getRecommended users u.uid⟩) := by
  rcases ht with rfl | ⟨rfl, hv⟩
  · rfl
  · obtain ⟨uid, email, displayName, isEmailVerified⟩ := u
    obtain rfl : isEmailVerified = true := hv
    rfl

/-- Both reads complete, in either order. -/
theorem run_profileAnswers (m : MissingRead) (s : StateWidgetState)
    (htasks : s.tasks = [.getIndex none, .loadUserInfo none]) (indexFirst : Bool)
    (userEmails users : Collection) :
    ∃ s', Machine.run (step m) s (profileAnswers indexFirst userEmails users) = some s' ∧
      s'.state.user = s.state.user ∧ s'.state.isSignedIn = s.state.isSignedIn ∧ s'.tasks = [] := by
  obtain ⟨state, googleAccount, tasks, pushes⟩ := s
  obtain rfl : tasks = [.getIndex none, .loadUserInfo none] := htasks
  cases indexFirst with
  | true =>
    have hindex := setIndex_frame m state none userEmails
    have hinfo := setInfo_frame m (state.setIndex m none userEmails) none users
    exact ⟨_, rfl, hinfo.1.trans hindex.1, hinfo.2.trans hindex.2, rfl⟩
  | false =>
    have hinfo := setInfo_frame m state none users
    have hindex := setIndex_frame m (state.setInfo m none users) none userEmails
    exact ⟨_, rfl, hindex.1.trans hinfo.1, hindex.2.trans hinfo.2, rfl⟩

/-- For an account with an e-mail, a sign-in and both reads run to their end. -/
theorem exists_profileRead (m : MissingRead) {t : LogType}
    (ht : t = .google ∨ t = .email ∧ u.isEmailVerified = true) {e : String} (he : u.email = some e)
    (account : GoogleSignInAccount) (indexFirst : Bool) (userEmails users : Collection) :
    ∃ s, Machine.run (step m) initState
        (signInAnswers t u account users ++ profileAnswers indexFirst userEmails users) = some s ∧
      ProfileRead t u s := by
  obtain ⟨name, hname⟩ := newUser_of_named (u := u) (Or.inr (he ▸ Option.some_ne_none e))
  have hsignIn := run_signInAnswers m ht account users
  have htasks := tasks_finish_of_named (beforeFinish t u account) t hname
    ⟨some u.uid, getFavorites users u.uid⟩ ⟨some u.uid, getRecommended users u.uid⟩
  obtain ⟨s, hrun, huser, hsigned, hdone⟩ :=
    run_profileAnswers m _ htasks indexFirst userEmails users
  rw [state_finish, finish_of_named _ t _ _ hname, enter_of_named _ t hname] at huser hsigned
  refine ⟨s, ?_, huser, hsigned, fun path => ?_, fun path => ?_⟩
  · rw [Machine.run_append, hsignIn]
    exact hrun
  · rw [hdone]
    exact List.not_mem_nil
  · rw [hdone]
    exact List.not_mem_nil

/-! ### The profile stays blank -/

/-- The index of a blank profile is `null`. -/
theorem Blank.not_shows {uuser : User} (h : Blank uuser) (i : String) (d : Doc) :
    ¬Shows uuser i d := by
  intro hshows
  have hindex := hshows.userIndex
  cases huser : uuser.userIndex with
  | none =>
    rw [huser] at hindex
    cases hindex
  | some l =>
    rw [huser, Option.elim_some, h.userIndex l huser] at hindex
    cases hindex

/-- **The profile is never loaded.**  Every account with an e-mail can sign in, and its two reads
complete in either order; and in no state of any run does the profile show an index, whatever the
directory and the documents hold. -/
theorem profile_not_loaded (m : MissingRead) (t : LogType) (u : FirebaseUser)
    (account : GoogleSignInAccount) (e : String) (userEmails users : Collection)
    (ht : t = .google ∨ t = .email ∧ u.isEmailVerified = true) (he : u.email = some e) :
    (∀ indexFirst, ∃ s, Machine.run (step m) initState
        (signInAnswers t u account users ++ profileAnswers indexFirst userEmails users) = some s ∧
      ProfileRead t u s) ∧
      ∀ events s, Machine.run (step m) initState events = some s →
        ∀ uuser, s.state.uuser = some uuser → ∀ i d, ¬Shows uuser i d := by
  refine ⟨fun indexFirst => exists_profileRead m ht he account indexFirst userEmails users, ?_⟩
  intro events s hrun uuser huuser
  have hkept : Kept s := Machine.run_invariant kept_step events _ s kept_initState hrun
  exact (hkept.2.profile uuser huuser).not_shows

/-- The document of Ann. -/
def annDoc : Doc :=
  Function.update (docOf [("friends", .list [])]) "avatar" (some (.str "a.png"))

/-- Ann is entered in the directory under the index "7". -/
def annEmails : Collection :=
  setDoc (fun _ => none) "ann@x.io" (docOf [("userIndex", .str "7")])

def annUsers : Collection := setDoc (fun _ => none) "7" annDoc

theorem recorded_ann : Recorded annEmails annUsers "ann@x.io" "7" annDoc where
  index := ⟨_, setDoc_self _ _ _, rfl⟩
  document := setDoc_self _ _ _
  avatar := by decide
  friends := ⟨[], rfl⟩

theorem profile_not_loaded_ann :
    ∃ s, Machine.run (step .throws) initState
        (signInAnswers .email ann ⟨"ann"⟩ annUsers ++ profileAnswers true annEmails annUsers) =
          some s ∧
      ProfileRead .email ann s := by
  have hann := profile_not_loaded .throws .email ann ⟨"ann"⟩ "ann@x.io" annEmails annUsers
    (Or.inr ⟨rfl, rfl⟩) rfl
  exact hann.1 true

/-- Ann signs in with her e-mail, both reads complete, and the profile has no index. -/
theorem profile_not_shown :
    ¬∀ m t u account e i userEmails users d, (t = .google ∨ t = .email ∧ u.isEmailVerified = true) →
      u.email = some e → Recorded userEmails users e i d →
      ∀ indexFirst s, Machine.run (step m) initState
        (signInAnswers t u account users ++ profileAnswers indexFirst userEmails users) = some s →
      ∃ uuser, s.state.uuser = some uuser ∧ Shows uuser i d := by
  intro h
  have hann : ann.email = some "ann@x.io" := rfl
  obtain ⟨s, hrun, -⟩ := exists_profileRead .throws (Or.inr ⟨rfl, rfl⟩) hann ⟨"ann"⟩ true annEmails
    annUsers
  obtain ⟨uuser, huuser, hshows⟩ := h .throws .email ann ⟨"ann"⟩ "ann@x.io" "7" annEmails annUsers
    annDoc (Or.inr ⟨rfl, rfl⟩) rfl recorded_ann true s hrun
  have hkept : Kept s := Machine.run_invariant kept_step _ _ s kept_initState hrun
  exact (hkept.2.profile uuser huuser).not_shows "7" annDoc hshows

end GiftGenie.Session
