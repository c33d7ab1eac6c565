import GiftGenie.ListHistories

/-!
# The contact pages

The contact page reads the two contact lists of the signed-in user (`getFriends`,
`getInvitations`) and answers invitations (`acceptReq`, `declineReq`); the details page deletes a
friend (`delete`); the search page looks a user up by e-mail (`getUser`) and invites the result
(`pressAdd`).

The reads are those of a store that does not change between them.  An action is the list of the
transactions it starts; none of them is awaited.
-/

set_option autoImplicit false

namespace GiftGenie.Contacts

open GiftGenie.Firestore GiftGenie.ListHistories

/-- A contact as the pages show it. -/
structure Friend where
  avatarUrl : DString
  name : DString
  email : DString
  userInex : DString
  deriving DecidableEq, Repr

/-- The body of the loops of `getFriends` and `getInvitations`: one contact from its document. -/
def readFriend (m : MissingRead) (ds : Option Doc) : Except DartError Friend := do
  let ava ← asString (← readKey m ds "avatar")
  let name ← asString (← readKey m ds "name")
  let email ← asString (← readKey m ds "email")
  let userIndex ← asString (← readKey m ds "userIndex")
  return { avatarUrl := ava, name := name, email := email, userInex := userIndex }

/-- The index of a contact is the one its document holds under `userIndex`. -/
theorem userIndex_of_readFriend {m : MissingRead} {ds : Option Doc} {row : Friend} {x : String}
    (h : readFriend m ds = .ok row) (hx : row.userInex = some x) :
    ∃ d, ds = some d ∧ field d "userIndex" = .str x := by
  unfold readFriend at h
  -- the avatar, the name and the e-mail are read and converted before the index
  obtain ⟨_, -, h⟩ := bind_eq_ok.mp h
  obtain ⟨_, -, h⟩ := bind_eq_ok.mp h
  obtain ⟨_, -, h⟩ := bind_eq_ok.mp h
  obtain ⟨_, -, h⟩ := bind_eq_ok.mp h
  obtain ⟨_, -, h⟩ := bind_eq_ok.mp h
  obtain ⟨_, -, h⟩ := bind_eq_ok.mp h
  obtain ⟨v, hv, h⟩ := bind_eq_ok.mp h
  obtain ⟨userIndex, hindex, h⟩ := bind_eq_ok.mp h
  have hrow : userIndex = row.userInex := congrArg Friend.userInex (Except.ok.inj h)
  rw [hrow, hx] at hindex
  rw [str_of_asString hindex] at hv
  exact field_of_read hv nofun

/-- Read the id list `key` of the signed-in user, then the document of every id. -/
def getContacts (key : String) (m : MissingRead) (users : Collection) (uid : String) :
    Except DartError (List Friend) := do
  let ls ← asList (← readKey m (users uid) key)
  ls.mapM fun id => readFriend m (getDocument users id)

def getFriends : MissingRead → Collection → String → Except DartError (List Friend) :=
  getContacts "friends"

def getInvitations : MissingRead → Collection → String → Except DartError (List Friend) :=
  getContacts "invitations"

/-! ### Actions -/

/-- Accept: the inviter becomes a friend, and the invitation goes. -/
def acceptReq (userIndex : DString) (uid : String) : List ListCall :=
  [{ id := uid, op := .sendInvitations userIndex 1 },
    { id := uid, op := .updateInvitations userIndex 0 }]

def declineReq (userIndex : DString) (uid : String) : List ListCall :=
  [{ id := uid, op := .updateInvitations userIndex 0 }]

def delete (userIndex : DString) (uid : String) : List ListCall :=
  [{ id := uid, op := .updateInvitations userIndex 1 }]

/-! ### Search -/

/-- The fields of the search page; `target` is the id that Add invites. -/
structure SearchPage where
  searchText : DString := some ""
  target : DString := none
  tName : DString := some ""
  deriving DecidableEq, Repr

/-- Look the searched e-mail up in `UserEmails`, then its name in `Users`. -/
def getUser (m : MissingRead) (userEmails users : Collection) (page : SearchPage) :
    Except DartError SearchPage :=
  match page.searchText with
  | none => .ok page
  | some text => do
      let userIndex ← asString (← readKey m (userEmails text) "userIndex")
      match userIndex with
      | some index =>
          let ttName ← asString (← readKey m (users index) "name")
          return { page with target := some index, tName := ttName }
      | none => return { page with target := some "NOT FOUND", tName := some "NOT FOUND" }

/-- `_sendInvitation`; a `null` target addresses a new document, `autoId`. -/
def sendInvitation (uid autoId : String) (page : SearchPage) : ListCall :=
  { id := page.target.getD autoId, op := .sendInvitations (some uid) 0 }

/-- The Add button of the search dialog. -/
def pressAdd (uid autoId : String) (page : SearchPage) : List ListCall :=
  if page.target ≠ some "NOT FOUND" then [sendInvitation uid autoId page] else []

end GiftGenie.Contacts
