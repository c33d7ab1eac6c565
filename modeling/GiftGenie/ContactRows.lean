import GiftGenie.SparseDocuments

/-!
# The rows of the contact page

`getFriends` and `getInvitations` build the `i`-th row from the document of the `i`-th id of a list,
and a row acts on the `userIndex` it read there, not on the id.  No document that a sign-up or a
list transaction writes has a `userIndex` (`sparse_final`), so every row acts on `null`.

`row_acts_iff` says for each action when it does what the row shows: Delete and Decline on the row
of a `null` id, and Accept never, since the document with the invitations takes no friends.
-/

set_option autoImplicit false

namespace GiftGenie.ContactRows

open GiftGenie.Library GiftGenie.Firestore GiftGenie.ListTransactions GiftGenie.ListHistories
open GiftGenie.Contacts GiftGenie.SparseDocuments

/-- The store after a sequence of writes. -/
def storeAfter (writes : List UsersWrite) : Collection :=
  SerialHistory.final UsersWrite.exec writes fun _ => none

/-- The two contact lists of `u`, `invitations` first. -/
def contactLists (users : Collection) (u : String) : List DString × List DString :=
  (items users u "invitations", items users u "friends")

/-- Delete removes `y` from the friends of `u`, and nothing else changes in either list. -/
def DeleteActsOn (users : Collection) (u : String) (row : Friend) (y : DString) : Prop :=
  contactLists (SerialHistory.final ListCall.exec (Contacts.delete row.userInex u) users) u =
    (items users u "invitations", ListSet.without (items users u "friends") y)

/-- Decline removes `y` from the invitations of `u`. -/
def DeclineActsOn (users : Collection) (u : String) (row : Friend) (y : DString) : Prop :=
  contactLists (SerialHistory.final ListCall.exec (declineReq row.userInex u) users) u =
    (ListSet.without (items users u "invitations") y, items users u "friends")

/-- The transactions of Accept, committed in this order, move `y` to the friends of `u`. -/
def AcceptActsOn (users : Collection) (u : String) (order : List ListCall) (y : DString) : Prop :=
  contactLists (SerialHistory.final ListCall.exec order users) u =
    (ListSet.without (items users u "invitations") y, ListSet.union (items users u "friends") y)

/-- Every row acts on the contact it was read from: Delete on a friend, Decline and Accept on an
invitation. -/
structure RowsAct (m : MissingRead) (users : Collection) (u : String) : Prop where
  friends : ∀ (rows : List Friend) (i : ℕ) (row : Friend) (y : DString),
    getFriends m users u = .ok rows → rows[i]? = some row →
    (items users u "friends")[i]? = some y → DeleteActsOn users u row y
  invitations : ∀ (rows : List Friend) (i : ℕ) (row : Friend) (y : DString),
    getInvitations m users u = .ok rows → rows[i]? = some row →
    (items users u "invitations")[i]? = some y → DeclineActsOn users u row y ∧
      ∀ order, order.Perm (acceptReq row.userInex u) → AcceptActsOn users u order y

/-! ### Which document a row was read from -/

theorem mapM_getElem? {α β : Type} {f : α → Except DartError β} {xs : List α} {ys : List β}
    (h : xs.mapM f = .ok ys) (i : ℕ) {x : α} {y : β} (hx : xs[i]? = some x) (hy : ys[i]? = some y) :
    f x = .ok y := by
  induction xs generalizing ys i with
  | nil => simp at hx
  | cons a xs ih =>
    rw [List.mapM_cons] at h
    obtain ⟨b, ha, h⟩ := bind_eq_ok.mp h
    obtain ⟨bs, hrest, h⟩ := bind_eq_ok.mp h
    have hys : b :: bs = ys := Except.ok.inj h
    subst hys
    cases i with
    | zero =>
      rw [← Option.some.inj hx, ← Option.some.inj hy]
      exact ha
    | succ i => exact ih hrest i hx hy

/-- A page that has loaded read its list from the user's document. -/
theorem getContacts_ok {key : String} {m : MissingRead} {users : Collection} {u : String}
    {rows : List Friend} (h : getContacts key m users u = .ok rows) :
    (items users u key).mapM (fun id => readFriend m (getDocument users id)) = .ok rows := by
  obtain ⟨v, hv, h⟩ := bind_eq_ok.mp h
  obtain ⟨ls, hls, h⟩ := bind_eq_ok.mp h
  rw [items_of_read (bind_eq_ok.mpr ⟨v, hv, hls⟩)]
  exact h

/-- The rows carry no index: no document has one, and a document that does not exist reads as
`null`. -/
theorem userInex_readFriend {m : MissingRead} {users : Collection} (h : Sparse users) {id : DString}
    {row : Friend} (hrow : readFriend m (getDocument users id) = .ok row) :
    row.userInex = none := by
  cases hx : row.userInex with
  | none => rfl
  | some x =>
    obtain ⟨d, hd, hf⟩ := userIndex_of_readFriend hrow hx
    obtain ⟨path, -, hpath⟩ := Option.bind_eq_some_iff.mp hd
    exact nomatch hf.symm.trans (h.docs path d hpath).noIndex

/-! ### The actions of a row without an index -/

variable {users : Collection} {u : String} {row : Friend} {y : DString}

/-- Where the list is there, `updateInvitations` removes the id from it, and leaves the other. -/
theorem items_updateInvitations {mode : ℤ} {key : String} (hkey : modeField mode = key)
    (hy : y ∈ items users u key) (x : DString) (key' : String) :
    items (ListCall.exec ⟨u, .updateInvitations x mode, true⟩ users).2 u key' =
      if key' = key then ListSet.without (items users u key) x else items users u key' := by
  subst hkey
  obtain ⟨d, xs, hd, hf, -⟩ := exists_list_of_mem hy
  have hexec : ListCall.exec ⟨u, .updateInvitations x mode, true⟩ users =
      (true, setDoc users u (putField d (modeField mode) (.list (ListSet.without xs x)))) :=
    exec_list ⟨u, .updateInvitations x mode, true⟩ rfl hd hf
  rw [hexec, items_of_list hd hf]
  exact items_setDoc_putField hd (ListSet.without xs x) key'

/-- Delete on a friend removes `null`. -/
theorem delete_acts_iff (hrow : row.userInex = none) (hy : y ∈ items users u "friends") :
    DeleteActsOn users u row y ↔ y = none := by
  rw [DeleteActsOn, hrow]
  show contactLists (ListCall.exec ⟨u, .updateInvitations none 1, true⟩ users).2 u = _ ↔ _
  have hkey : modeField 1 = "friends" := rfl
  rw [contactLists, items_updateInvitations hkey hy, items_updateInvitations hkey hy,
    if_neg (by decide), if_pos rfl, Prod.mk.injEq, and_iff_right rfl]
  exact ListSet.without_eq_without hy

/-- Decline on an invitation removes `null`. -/
theorem decline_acts_iff (hrow : row.userInex = none) (hy : y ∈ items users u "invitations") :
    DeclineActsOn users u row y ↔ y = none := by
  rw [DeclineActsOn, hrow]
  show contactLists (ListCall.exec ⟨u, .updateInvitations none 0, true⟩ users).2 u = _ ↔ _
  have hkey : modeField 0 = "invitations" := rfl
  rw [contactLists, items_updateInvitations hkey hy, items_updateInvitations hkey hy, if_pos rfl,
    if_neg (by decide), Prod.mk.injEq, and_iff_left rfl]
  exact ListSet.without_eq_without hy

/-- A user with invitations has no friends, and none is added. -/
theorem friends_accept (h : Sparse users) (hy : y ∈ items users u "invitations") (x : DString)
    {order : List ListCall} (horder : order.Perm (acceptReq x u)) :
    items users u "friends" = [] ∧
      items (SerialHistory.final ListCall.exec order users) u "friends" = [] := by
  obtain ⟨d, xs, hd, hf, -⟩ := exists_list_of_mem hy
  have hnone : items users u "friends" = [] := by
    rw [items, hd]
    simp only [friends_null h hd hf]
  have hfinal := final_accept h hd hf true true horder
  refine ⟨hnone, ?_⟩
  rw [hfinal, if_pos rfl, items_setDoc_putField hd, if_neg (by decide)]
  exact hnone

theorem accept_acts_never (h : Sparse users) (hy : y ∈ items users u "invitations") (x : DString)
    {order : List ListCall} (horder : order.Perm (acceptReq x u)) :
    ¬AcceptActsOn users u order y := by
  intro hacts
  have hafter := (friends_accept h hy x horder).2
  have hfriends := congrArg Prod.snd hacts
  have hmem : y ∈ ListSet.union (items users u "friends") y := ListSet.mem_union.mpr (Or.inr rfl)
  have hnil : ListSet.union (items users u "friends") y = [] := hfriends.symm.trans hafter
  rw [hnil] at hmem
  exact absurd hmem List.not_mem_nil

/-- Delete on the details page of an invitation finds no friends to delete from. -/
theorem delete_acts_invitation (h : Sparse users) (hy : y ∈ items users u "invitations") :
    DeleteActsOn users u row y := by
  obtain ⟨d, xs, hd, hf, -⟩ := exists_list_of_mem hy
  have hfriends := friends_null h hd hf
  rw [DeleteActsOn]
  show contactLists (ListCall.exec ⟨u, .updateInvitations row.userInex 1, true⟩ users).2 u = _
  rw [exec_missing ⟨u, .updateInvitations row.userInex 1, true⟩ hd hfriends, contactLists,
    (friends_accept h hy none (List.Perm.refl _)).1]
  rfl

/-- **When a row acts on its own contact.**  In every store that sign-ups and list transactions
write: a friends row deletes its own contact if and only if that is `null`; an invitations row
declines its own contact if and only if that is `null`, Delete on its details page does what it
should, and Accept never does, in whatever order its transactions commit. -/
theorem row_acts_iff (m : MissingRead) (writes : List UsersWrite) (u : String) (rows : List Friend)
    (i : ℕ) (row : Friend) (y : DString) (hrow : rows[i]? = some row) :
    (getFriends m (storeAfter writes) u = .ok rows →
      (items (storeAfter writes) u "friends")[i]? = some y →
      (DeleteActsOn (storeAfter writes) u row y ↔ y = none)) ∧
    (getInvitations m (storeAfter writes) u = .ok rows →
      (items (storeAfter writes) u "invitations")[i]? = some y →
      (DeclineActsOn (storeAfter writes) u row y ↔ y = none) ∧
        DeleteActsOn (storeAfter writes) u row y ∧
        ∀ order, order.Perm (acceptReq row.userInex u) →
          ¬AcceptActsOn (storeAfter writes) u order y) := by
  have hsparse : Sparse (storeAfter writes) := sparse_final writes
  have hindex : ∀ key, getContacts key m (storeAfter writes) u = .ok rows →
      (items (storeAfter writes) u key)[i]? = some y → row.userInex = none :=
    fun key hrows hy =>
      userInex_readFriend hsparse (mapM_getElem? (getContacts_ok hrows) i hy hrow)
  refine ⟨fun hrows hy => ?_, fun hrows hy => ?_⟩
  · exact delete_acts_iff (hindex "friends" hrows hy) (List.mem_of_getElem? hy)
  · have hmem := List.mem_of_getElem? hy
    exact ⟨decline_acts_iff (hindex "invitations" hrows hy) hmem,
      delete_acts_invitation hsparse hmem, fun order => accept_acts_never hsparse hmem _⟩

/-- Ann signs up, and her id is sent to Bob as an invitation. -/
def invitedByAnn : List UsersWrite :=
  [.userLogUp "Ann" "secret" "ann@x.io" "12",
    .listCall { id := "bob", op := .sendInvitations (some "12") 0 }]

/-- Bob declines the row of Ann, and her invitation stays. -/
theorem decline_misses : ¬∀ m writes u, RowsAct m (storeAfter writes) u := by
  intro h
  have hacts := (h .throws invitedByAnn "bob").invitations
    [⟨none, some "Ann", some "ann@x.io", none⟩] 0 _ (some "12") rfl rfl rfl
  have hgone := congrArg Prod.fst hacts.1
  exact absurd hgone (by decide)

/-- Bob has `null` among his friends, and deletes its row. -/
theorem row_acts_iff_null :
    DeleteActsOn (storeAfter [.listCall { id := "bob", op := .sendInvitations none 1 }]) "bob"
      ⟨none, none, none, none⟩ none :=
  ((row_acts_iff .givesNull [.listCall { id := "bob", op := .sendInvitations none 1 }] "bob"
    [⟨none, none, none, none⟩] 0 ⟨none, none, none, none⟩ none rfl).1 rfl rfl).mpr rfl

end GiftGenie.ContactRows
