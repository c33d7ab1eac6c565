import GiftGenie.Contacts
import GiftGenie.SignUp
import Mathlib.Data.List.Permutation

/-!
# What the documents of `Users` can hold

Two kinds of calls write documents of `Users`: the sign-up, and the list transactions.  A sign-up
writes `null` under every list field and spells the key of the index `useIndex`; a list transaction
creates a document with one list and never adds a second one.  So in every store they produce a
document has at most one list and no `userIndex` (`sparse_final`).

Accept starts two transactions, one on `friends` and one on `invitations`.  A document with the list
`invitations` has no list `friends`: the first transaction fails whenever it commits, and the second
one deletes the request (`accept_keeps_iff`).
-/

set_option autoImplicit false

namespace GiftGenie.SparseDocuments

open GiftGenie.Library GiftGenie.Firestore GiftGenie.ListTransactions GiftGenie.ListHistories
open GiftGenie.SignUp GiftGenie.Contacts

/-- A call that writes a document of `Users`. -/
inductive UsersWrite where
  | userLogUp (username password email index : String)
  | listCall (c : ListCall)

def UsersWrite.exec : UsersWrite → Collection → Bool × Collection
  | .userLogUp username password email index, users =>
      (true, setDoc users index (userDoc username password email index {}))
  | .listCall c, users => c.exec users

/-- At most one list, and no index. -/
structure SparseDoc (d : Doc) : Prop where
  oneList : ∀ key ∈ listFields, ∀ key' ∈ listFields,
    field d key ≠ .null → field d key' ≠ .null → key = key'
  noIndex : field d "userIndex" = .null

structure Sparse (users : Collection) : Prop where
  lists : ListsOrMissing users
  docs : ∀ id d, users id = some d → SparseDoc d

/-! ### One document -/

theorem userIndex_ne_key {key : String} (hkey : key ∈ listFields) : "userIndex" ≠ key := by
  rintro rfl
  exact absurd hkey (by decide)

theorem sparseDoc_single {key : String} (hkey : key ∈ listFields) (xs : List DString) :
    SparseDoc (docOf [(key, .list xs)]) where
  oneList := by
    have honly : ∀ k, field (docOf [(key, .list xs)]) k ≠ .null → k = key := by
      intro k hk
      by_contra hne
      exact hk (by rw [field_docOf_single, if_neg hne])
    intro k _ k' _ hk hk'
    rw [honly k hk, honly k' hk']
  noIndex := by rw [field_docOf_single, if_neg (userIndex_ne_key hkey)]

/-- Writing a list where there was one keeps the other fields empty. -/
theorem sparseDoc_putField {d : Doc} (h : SparseDoc d) {key : String} (hkey : key ∈ listFields)
    (hf : field d key ≠ .null) (v : Value) : SparseDoc (putField d key v) where
  oneList := by
    have hold : ∀ k, field (putField d key v) k ≠ .null → field d k ≠ .null := by
      intro k hk
      by_cases hkk : k = key
      · rw [hkk]
        exact hf
      · rwa [field_putField_ne hkk] at hk
    intro k hkl k' hkl' hk hk'
    exact h.oneList k hkl k' hkl' (hold k hk) (hold k' hk')
  noIndex := by rw [field_putField_ne (userIndex_ne_key hkey), h.noIndex]

theorem sparseDoc_userDoc (username password email index : String) :
    SparseDoc (userDoc username password email index {}) where
  oneList := fun _ hkey _ _ hf _ =>
    absurd (field_userDoc_list username password email index hkey) hf
  noIndex := rfl

/-! ### The store -/

theorem sparse_listCall (c : ListCall) {users : Collection} (h : Sparse users) :
    Sparse (c.exec users).2 where
  lists := listsOrMissing_exec c h.lists
  docs := by
    have hkey := key_mem_listFields c.op
    refine forall_docs_exec c (h.lists _ hkey) h.docs (fun _ _ => sparseDoc_single hkey _) ?_
    intro d xs ys hd hf
    have hthere : field d c.op.key ≠ .null := by
      rw [hf]
      simp
    exact sparseDoc_putField (h.docs _ d hd) hkey hthere _

theorem sparse_userLogUp {users : Collection} (h : Sparse users)
    (username password email index : String) :
    Sparse (setDoc users index (userDoc username password email index {})) where
  lists := by
    intro key hkey
    refine listOrMissing_setDoc (h.lists key hkey) fun s => ?_
    rw [field_userDoc_list _ _ _ _ hkey]
    simp
  docs := by
    intro id d hd
    by_cases hid : id = index
    · rw [hid, setDoc_self] at hd
      rw [← Option.some.inj hd]
      exact sparseDoc_userDoc username password email index
    · rw [setDoc_ne hid] at hd
      exact h.docs id d hd

theorem sparse_exec (w : UsersWrite) (users : Collection) (h : Sparse users) :
    Sparse (w.exec users).2 := by
  cases w with
  | userLogUp username password email index => exact sparse_userLogUp h username password email index
  | listCall c => exact sparse_listCall c h

theorem sparse_empty : Sparse fun _ => none where
  lists := fun _ _ _ _ _ hd => (by cases hd)
  docs := fun _ _ hd => (by cases hd)

/-- Every store that sign-ups and list transactions write. -/
theorem sparse_final (writes : List UsersWrite) :
    Sparse (SerialHistory.final UsersWrite.exec writes fun _ => none) :=
  SerialHistory.final_invariant sparse_exec writes _ sparse_empty

theorem sparse_calls (calls : List ListCall) :
    Sparse (SerialHistory.final ListCall.exec calls fun _ => none) :=
  SerialHistory.final_invariant (fun c _ h => sparse_listCall c h) calls _ sparse_empty

/-! ### Accept -/

/-- The two transactions that Accept starts, each served or given up. -/
def acceptOutcomes (x : DString) (u : String) (addServed removalServed : Bool) : List ListCall :=
  List.zipWith (fun c served => { c with served := served }) (acceptReq x u)
    [addServed, removalServed]

/-- The request has not got lost: it is still there, or it was granted. -/
def RequestKept (users : Collection) (u : String) (x : DString) : Prop :=
  x ∉ items users u "invitations" → x ∈ items users u "friends"

/-- A document with invitations has no friends. -/
theorem friends_null {users : Collection} (h : Sparse users) {u : String} {d : Doc}
    {xs : List DString} (hd : users u = some d) (hf : field d "invitations" = .list xs) :
    field d "friends" = .null := by
  by_contra hfriends
  have hinv : field d "invitations" ≠ .null := by
    rw [hf]
    simp
  have hkeys := (h.docs u d hd).oneList "friends" (by decide) "invitations" (by decide)
    hfriends hinv
  exact absurd hkeys (by decide)

/-- Adding a friend to such a document fails, served or not. -/
theorem add_fails {users : Collection} {u : String} {d : Doc} (hd : users u = some d)
    (hfriends : field d "friends" = .null) (x : DString) (served : Bool) :
    ListCall.exec ⟨u, .sendInvitations x 1, served⟩ users = (false, users) :=
  exec_missing ⟨u, .sendInvitations x 1, served⟩ hd hfriends

/-- What Accept leaves of a request, in either order: the request itself if the removal is given up,
and nothing otherwise. -/
theorem final_accept {users : Collection} (h : Sparse users) {u : String} {x : DString} {d : Doc}
    {xs : List DString} (hd : users u = some d) (hf : field d "invitations" = .list xs)
    (addServed removalServed : Bool) {order : List ListCall}
    (horder : order.Perm (acceptOutcomes x u addServed removalServed)) :
    SerialHistory.final ListCall.exec order users =
      if removalServed
      then setDoc users u (putField d "invitations" (.list (ListSet.without xs x))) else users := by
  have hfriends := friends_null h hd hf
  have hremoval : (ListCall.exec ⟨u, .updateInvitations x 0, removalServed⟩ users).2 =
      if removalServed
      then setDoc users u (putField d "invitations" (.list (ListSet.without xs x))) else users := by
    cases removalServed with
    | true => rw [exec_list ⟨u, .updateInvitations x 0, true⟩ rfl hd hf]; rfl
    | false => rfl
  rcases List.perm_pair.mp horder with rfl | rfl
  · -- the addition commits first
    show (ListCall.exec _ (ListCall.exec _ users).2).2 = _
    rw [add_fails hd hfriends]
    exact hremoval
  · show (ListCall.exec _ (ListCall.exec _ users).2).2 = _
    rw [hremoval]
    cases removalServed with
    | true =>
      rw [if_pos rfl, add_fails (setDoc_self _ _ _)]
      rw [field_putField_ne (by decide), hfriends]
    | false => exact congrArg Prod.snd (add_fails hd hfriends x addServed)

/-- **When Accept keeps the request.**  In a store that list transactions have written, whatever the
commit order and the outcomes of the two transactions of an Accept: the request is kept if and only
if its removal is given up. -/
theorem accept_keeps_iff (calls : List ListCall) (u : String) (x : DString)
    (hx : x ∈ items (SerialHistory.final ListCall.exec calls fun _ => none) u "invitations")
    (addServed removalServed : Bool) (order : List ListCall)
    (horder : order.Perm (acceptOutcomes x u addServed removalServed)) :
    RequestKept (SerialHistory.final ListCall.exec order
        (SerialHistory.final ListCall.exec calls fun _ => none)) u x ↔ removalServed = false := by
  have hsparse := sparse_calls calls
  obtain ⟨d, xs, hd, hf, -⟩ := exists_list_of_mem hx
  rw [final_accept hsparse hd hf addServed removalServed horder]
  cases removalServed with
  | false => exact iff_of_true (fun hno => absurd hx hno) rfl
  | true =>
    refine iff_of_false (fun hkept => ?_) (by decide)
    rw [if_pos rfl, RequestKept, items_setDoc_putField hd, items_setDoc_putField hd] at hkept
    have hgone : x ∉ ListSet.without xs x := fun hmem => (ListSet.mem_without.mp hmem).2 rfl
    obtain ⟨d', ys, hd', hf', -⟩ := exists_list_of_mem (hkept hgone)
    rw [hd] at hd'
    cases hd'
    rw [friends_null hsparse hd hf] at hf'
    cases hf'

/-- Ann invites Bob, whose document this creates, and Bob accepts. -/
theorem accept_loses :
    ¬∀ (calls : List ListCall) (u : String) (x : DString),
      x ∈ items (SerialHistory.final ListCall.exec calls fun _ => none) u "invitations" →
      ∀ (addServed removalServed : Bool) (order : List ListCall),
        order.Perm (acceptOutcomes x u addServed removalServed) →
        RequestKept (SerialHistory.final ListCall.exec order
          (SerialHistory.final ListCall.exec calls fun _ => none)) u x := by
  intro h
  have hkept := h [{ id := "bob", op := .sendInvitations (some "ann") 0 }] "bob" (some "ann")
    (by decide) true true _ (List.Perm.refl _)
  exact absurd (hkept (by decide)) (by decide)

/-- The removal is given up, and Ann's request stays. -/
theorem accept_keeps_iff_givenUp :
    RequestKept (SerialHistory.final ListCall.exec (acceptOutcomes (some "ann") "bob" true false)
      (SerialHistory.final ListCall.exec [{ id := "bob", op := .sendInvitations (some "ann") 0 }]
        fun _ => none)) "bob" (some "ann") :=
  (accept_keeps_iff [{ id := "bob", op := .sendInvitations (some "ann") 0 }] "bob" (some "ann")
    (by decide) true false _ (List.Perm.refl _)).mpr rfl

end GiftGenie.SparseDocuments
