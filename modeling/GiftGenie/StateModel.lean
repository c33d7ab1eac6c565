import GiftGenie.Firestore

/-!
# The session record

`StateModel` is the record that the pages read through `appState`, with the account `FirebaseUser`
of the sign-in provider and the profile `User` it refers to.

Two things are recorded that the program does not keep: the provider whose sign-in returned the
account (`SignedIn`), and the path of the document that a value was read from (`Loaded`).  Nothing
computes with them.
-/

set_option autoImplicit false

namespace GiftGenie.Session

open GiftGenie.Firestore

inductive LogType where
  | email
  | facebook
  | google
  | twitter
  | unset
  deriving DecidableEq, Repr

/-- What the sign-in services return. -/
structure FirebaseUser where
  uid : String
  email : DString
  displayName : DString
  isEmailVerified : Bool
  deriving DecidableEq, Repr

/-- A value, and the path of the document it was read from. -/
structure Loaded (α : Type) where
  source : DString
  value : α
  deriving DecidableEq, Repr

/-- The profile.  A field is `none` while it is as the constructor leaves it: `null`, and the empty
list in `friendList`.  No code writes `email`. -/
structure User where
  name : String
  email : DString := none
  userIndex : Option (Loaded Value) := none
  avatar : Option (Loaded Value) := none
  friendList : Option (Loaded Value) := none
  deriving DecidableEq, Repr

/-- The path that `document(userIndex)` reads; a value that is no string throws. -/
def User.indexPath (uuser : User) : Option DString :=
  match uuser.userIndex with
  | some index => (asString index.value).toOption
  | none => some none

/-- An account in `state.user`, and the provider that signed it in. -/
structure SignedIn where
  account : FirebaseUser
  provider : LogType
  deriving DecidableEq, Repr

structure StateModel where
  isLoading : Bool := false
  isSignedIn : Bool := false
  type : LogType := .unset
  user : Option SignedIn := none
  uuser : Option User := none
  favorites : Option (Loaded (List DString)) := none
  recommended : Option (Loaded (List DString)) := none
  deriving DecidableEq, Repr

/-! ### Reading the records -/

/-- The list under `key` of a snapshot, if the document exists, has the key and holds a list
there. -/
def listOf (ds : Option Doc) (key : String) : List DString :=
  match ds with
  | some d => match d key with
    | some (.list xs) => xs
    | _ => []
  | none => []

def getFavorites (users : Collection) (uid : String) : List DString :=
  listOf (users uid) "favorites"

def getRecommended (users : Collection) (uid : String) : List DString :=
  listOf (users uid) "recommended"

theorem listOf_eq_items (c : Collection) (id key : String) : listOf (c id) key = items c id key := by
  cases hd : c id with
  | none => simp only [listOf, items, hd]
  | some d =>
    simp only [listOf, items, hd, field]
    cases d key with
    | none => rfl
    | some v => cases v <;> rfl

/-! ### Signing in -/

/-- `email.split("@")[0]`. -/
def localPart (email : String) : String := String.ofList (email.toList.takeWhile (· ≠ '@'))

/-- `User(displayName == null ? email.split("@")[0] : displayName)`. -/
def newUser (u : FirebaseUser) : Except DartError User :=
  match u.displayName, u.email with
  | some name, _ => .ok { name := name }
  | none, some email => .ok { name := localPart email }
  | none, none => .error .noSuchMethod

/-- The accounts from which a `User` can be made. -/
def FirebaseUser.Named (u : FirebaseUser) : Prop := u.displayName ≠ none ∨ u.email ≠ none

theorem newUser_of_named {u : FirebaseUser} (h : u.Named) :
    ∃ name, newUser u = .ok { name := name } := by
  rw [newUser]
  cases hn : u.displayName with
  | some name => exact ⟨name, rfl⟩
  | none =>
    cases he : u.email with
    | some email => exact ⟨localPart email, rfl⟩
    | none => exact absurd h (by simp [FirebaseUser.Named, hn, he])

theorem newUser_of_not_named {u : FirebaseUser} (h : ¬u.Named) :
    newUser u = .error .noSuchMethod := by
  rw [FirebaseUser.Named, not_or, not_not, not_not] at h
  rw [newUser, h.1, h.2]

/-- The assignments with which the three sign-ins enter the session, from `isLoading` to `type`.  An
account with neither name nor e-mail ends them at the constructor of `User`. -/
def StateModel.enter (st : StateModel) (t : LogType) (u : FirebaseUser) : StateModel :=
  let st := { st with isLoading := false, user := some ⟨u, t⟩ }
  match newUser u with
  | .ok uuser => { st with uuser := some uuser, isSignedIn := true, type := t }
  | .error _ => st

/-- The block with which `signInWithGoogle` and `signInWithEmail` end; the loaded lists come
last. -/
def StateModel.finish (st : StateModel) (t : LogType) (u : FirebaseUser)
    (favorites recommended : Loaded (List DString)) : StateModel :=
  match newUser u with
  | .ok _ => { st.enter t u with favorites := some favorites, recommended := some recommended }
  | .error _ => st.enter t u

/-- `signUpWithEmail` sets the account and the profile, and does not sign in. -/
def StateModel.signUp (st : StateModel) (u : FirebaseUser) : StateModel :=
  let st := { st with user := some ⟨u, .email⟩ }
  match newUser u with
  | .ok uuser => { st with uuser := some uuser, type := .email }
  | .error _ => st

section

variable (st : StateModel) (t : LogType) {u : FirebaseUser}

theorem enter_of_named {name : String} (h : newUser u = .ok { name := name }) :
    st.enter t u = { st with
      isLoading := false
      user := some ⟨u, t⟩
      uuser := some { name := name }
      isSignedIn := true
      type := t } := by
  rw [StateModel.enter, h]

theorem enter_of_not_named (h : ¬u.Named) :
    st.enter t u = { st with isLoading := false, user := some ⟨u, t⟩ } := by
  rw [StateModel.enter, newUser_of_not_named h]

theorem signUp_of_named {name : String} (h : newUser u = .ok { name := name }) :
    st.signUp u = { st with
      user := some ⟨u, .email⟩
      uuser := some { name := name }
      type := .email } := by
  rw [StateModel.signUp, h]

theorem signUp_of_not_named (h : ¬u.Named) :
    st.signUp u = { st with user := some ⟨u, .email⟩ } := by
  rw [StateModel.signUp, newUser_of_not_named h]

variable (favorites recommended : Loaded (List DString))

theorem finish_of_named {name : String} (h : newUser u = .ok { name := name }) :
    st.finish t u favorites recommended = { st.enter t u with
      favorites := some favorites
      recommended := some recommended } := by
  rw [StateModel.finish, h]

theorem finish_of_not_named (h : ¬u.Named) :
    st.finish t u favorites recommended = st.enter t u := by
  rw [StateModel.finish, newUser_of_not_named h]

end

/-! ### The profile -/

/-- `state.uuser.userIndex = ds["userIndex"]`, where `ds` is the document `path` of `userEmails`. -/
def StateModel.setIndex (m : MissingRead) (st : StateModel) (path : DString)
    (userEmails : Collection) : StateModel :=
  match st.uuser, readKey m (getDocument userEmails path) "userIndex" with
  | some uuser, .ok index => { st with uuser := some { uuser with userIndex := some ⟨path, index⟩ } }
  | _, _ => st

/-- `state.uuser.friendList = ds["friends"]`.  A list of the store is no `List<String>`, so that the
assignment lets only `null` pass. -/
def User.setFriendList (uuser : User) (path : DString) (friends : Except DartError Value) : User :=
  match friends with
  | .ok .null => { uuser with friendList := some ⟨path, .null⟩ }
  | _ => uuser

/-- `avatar` and then `friendList` from the document `path` of `users`. -/
def StateModel.setInfo (m : MissingRead) (st : StateModel) (path : DString) (users : Collection) :
    StateModel :=
  match st.uuser, readKey m (getDocument users path) "avatar" with
  | some uuser, .ok avatar =>
      let uuser := { uuser with avatar := some ⟨path, avatar⟩ }
      let uuser := uuser.setFriendList path (readKey m (getDocument users path) "friends")
      { st with uuser := some uuser }
  | _, _ => st

end GiftGenie.Session
