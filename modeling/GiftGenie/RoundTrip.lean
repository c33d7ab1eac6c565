import GiftGenie.Contacts
import GiftGenie.SignUp
import GiftGenie.StateModel

/-!
# Reading back what a registration writes

`_userLogUp` writes the directory entry and the document of a user; seven readers in four files take
them apart again, under keys that both sides spell out.  `ReadBack` says that each reader gets the
argument of its key.

Three of them do not, whatever the other arguments are: the contact pages read the index under
`userIndex` and the writer spells `useIndex`; `getFavorites` finds the friends; and `loadUserInfo`
assigns the list `friends` to a `List<String>`, which throws.  `readBack_never` says of every reader
when it gets its argument.
-/

set_option autoImplicit false

namespace GiftGenie.RoundTrip

open GiftGenie.Firestore GiftGenie.SignUp GiftGenie.Contacts GiftGenie.Session

/-- The arguments of `_userLogUp`. -/
structure LogUp where
  username : String
  password : String
  email : String
  index : String
  opts : LogUpOptions

/-- The two collections after `_userLogUp`. -/
def LogUp.write (a : LogUp) (w : World) : World :=
  userLogUp a.username a.password a.email a.index a.opts w

/-! ### What each reader should get -/

/-- `getUser` finds the index under the e-mail. -/
def GetUserReads (m : MissingRead) (a : LogUp) (w : World) : Prop :=
  ∃ page, getUser m (a.write w).userEmails (a.write w).users { searchText := some a.email } =
    .ok page ∧ page.target = some a.index

/-- `getIndex` assigns the index to the profile. -/
def GetIndexReads (m : MissingRead) (a : LogUp) (w : World) (st : StateModel) : Prop :=
  (st.setIndex m (some a.email) (a.write w).userEmails).uuser.bind (·.userIndex) =
    some ⟨some a.email, .str a.index⟩

/-- The row of a contact shows a field of its document. -/
def RowReads (m : MissingRead) (a : LogUp) (w : World) (shown : Friend → DString)
    (argument : String) : Prop :=
  ∃ row, readFriend m (getDocument (a.write w).users (some a.index)) = .ok row ∧
    shown row = some argument

/-- `getFriends` reads the friends, here up to its use of the list. -/
def GetFriendsReads (m : MissingRead) (a : LogUp) (w : World) : Prop :=
  readKey m ((a.write w).users a.index) "friends" = .ok (ofList a.opts.friends)

/-- `loadUserInfo` assigns the friends to the profile. -/
def LoadUserInfoReads (m : MissingRead) (a : LogUp) (w : World) (st : StateModel) : Prop :=
  (st.setInfo m (some a.index) (a.write w).users).uuser.bind (·.friendList) =
    some ⟨some a.index, ofList a.opts.friends⟩

/-- `getFavorites` and `getRecommended` return the list that was passed; where none was passed they
return the empty one. -/
def GetFavoritesReads (a : LogUp) (w : World) : Prop :=
  getFavorites (a.write w).users a.index = a.opts.favorites.getD []

def GetRecommendedReads (a : LogUp) (w : World) : Prop :=
  getRecommended (a.write w).users a.index = a.opts.recommended.getD []

/-- Every reader gets the argument of its key. -/
structure ReadBack (m : MissingRead) (a : LogUp) (w : World) (st : StateModel) : Prop where
  getUser : GetUserReads m a w
  getIndex : GetIndexReads m a w st
  name : RowReads m a w Friend.name a.username
  email : RowReads m a w Friend.email a.email
  userIndex : RowReads m a w Friend.userInex a.index
  friends : GetFriendsReads m a w
  loadUserInfo : LoadUserInfoReads m a w st
  favorites : GetFavoritesReads a w
  recommended : GetRecommendedReads a w

/-! ### What it gets -/

variable (m : MissingRead) (a : LogUp) (w : World)

theorem write_userEmails : (a.write w).userEmails a.email = some (emailEntry a.index) :=
  setDoc_self _ _ _

theorem write_users :
    (a.write w).users a.index =
      some (userDoc a.username a.password a.email a.index a.opts) :=
  setDoc_self _ _ _

/-- The row that the contact pages build: no avatar, and no index. -/
theorem row_of_write :
    readFriend m (getDocument (a.write w).users (some a.index)) =
      .ok ⟨none, some a.username, some a.email, none⟩ := by
  have hd : getDocument (a.write w).users (some a.index) =
      some (userDoc a.username a.password a.email a.index a.opts) := write_users a w
  rw [hd]
  rfl

theorem rowReads_iff (shown : Friend → DString) (argument : String) :
    RowReads m a w shown argument ↔
      shown ⟨none, some a.username, some a.email, none⟩ = some argument := by
  rw [RowReads, row_of_write]
  exact ⟨fun ⟨row, hrow, h⟩ => Except.ok.inj hrow ▸ h, fun h => ⟨_, rfl, h⟩⟩

theorem getUserReads : GetUserReads m a w := by
  refine ⟨{ searchText := some a.email, target := some a.index, tName := some a.username }, ?_, rfl⟩
  simp only [getUser, write_userEmails, write_users, readKey_some, field_emailEntry,
    field_userDoc_name, asString, ok_bind]
  rfl

theorem getIndexReads {st : StateModel} {uuser : User} (h : st.uuser = some uuser) :
    GetIndexReads m a w st := by
  have hd : getDocument (a.write w).userEmails (some a.email) = some (emailEntry a.index) :=
    write_userEmails a w
  rw [GetIndexReads, StateModel.setIndex, h, hd]
  rfl

theorem getFriendsReads : GetFriendsReads m a w := by
  rw [GetFriendsReads, write_users, readKey_some]
  rfl

/-- A list is no `List<String>`; only `null` gets through. -/
theorem loadUserInfoReads_iff {st : StateModel} {uuser : User} (h : st.uuser = some uuser)
    (hempty : uuser.friendList = none) :
    LoadUserInfoReads m a w st ↔ a.opts.friends = none := by
  have hd : getDocument (a.write w).users (some a.index) =
      some (userDoc a.username a.password a.email a.index a.opts) := write_users a w
  have hfriends : field (userDoc a.username a.password a.email a.index a.opts) "friends" =
      ofList a.opts.friends := rfl
  rw [LoadUserInfoReads, StateModel.setInfo, h, hd, readKey_some, readKey_some, hfriends]
  cases hf : a.opts.friends with
  | none => exact iff_of_true rfl rfl
  | some xs =>
    refine iff_of_false (fun hread => ?_) (fun hnone => nomatch hnone)
    have hlist : uuser.friendList = some ⟨some a.index, ofList (some xs)⟩ := hread
    rw [hempty] at hlist
    exact nomatch hlist

theorem listOf_ofList {d : Doc} {key : String} {xs : Option (List DString)}
    (h : d key = some (ofList xs)) : listOf (some d) key = xs.getD [] := by
  rw [listOf, h]
  cases xs <;> rfl

/-- What comes back as the favourites are the friends. -/
theorem getFavoritesReads_iff :
    GetFavoritesReads a w ↔ a.opts.friends.getD [] = a.opts.favorites.getD [] := by
  rw [GetFavoritesReads, getFavorites, write_users, listOf_ofList rfl]

theorem getRecommendedReads : GetRecommendedReads a w := by
  rw [GetRecommendedReads, getRecommended, write_users, listOf_ofList rfl]

/-- **Which readers get what a registration wrote.**  For all arguments, over any collections, and
for a session with a fresh profile: the search page, `getIndex`, the name and the e-mail of a contact
row, the list that `getFriends` reads and `getRecommended` do; the index of a contact row never
does; `loadUserInfo` does if and only if no friends were passed, and `getFavorites` if and only if
the friends are the favourites.  So no registration comes back as it was written. -/
theorem readBack_never (st : StateModel) (name : String) :
    let session := { st with uuser := some { name := name } }
    ¬ReadBack m a w session ∧
      GetUserReads m a w ∧ GetIndexReads m a w session ∧ RowReads m a w Friend.name a.username ∧
      RowReads m a w Friend.email a.email ∧ ¬RowReads m a w Friend.userInex a.index ∧
      GetFriendsReads m a w ∧ (LoadUserInfoReads m a w session ↔ a.opts.friends = none) ∧
      (GetFavoritesReads a w ↔ a.opts.friends.getD [] = a.opts.favorites.getD []) ∧
      GetRecommendedReads a w := by
  have hindex : ¬RowReads m a w Friend.userInex a.index := by
    rw [rowReads_iff]
    exact fun hnone => nomatch hnone
  exact ⟨fun hread => hindex hread.userIndex, getUserReads m a w, getIndexReads m a w rfl,
    (rowReads_iff m a w _ _).mpr rfl, (rowReads_iff m a w _ _).mpr rfl, hindex,
    getFriendsReads m a w, loadUserInfoReads_iff m a w rfl rfl, getFavoritesReads_iff a w,
    getRecommendedReads a w⟩

/-- Ann's favourites come back as her friends, and her row has no index. -/
theorem not_readBack :
    ¬ReadBack .throws
      ⟨"Ann", "secret", "ann@x.io", "12", { friends := some [some "7"], favorites := some [some "mug"] }⟩
      World.empty { uuser := some { name := "Ann" } } := by
  intro h
  have hfavorites : [some "7"] = [some "mug"] := h.favorites
  exact absurd hfavorites (by decide)

end GiftGenie.RoundTrip
