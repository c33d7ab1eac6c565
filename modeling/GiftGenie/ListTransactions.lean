import GiftGenie.Firestore

/-!
# The four list transactions

`sendInvitations`, `updateInvitations`, `updateFavorites` and `updateRecommended` are one
transaction with three parameters: the list field, the edit, and whether a missing document is
created.  It reads the document, asks `data[field].contains(x)`, and writes at most that field.

The three lemmas `listTransaction_absent`, `listTransaction_missing` and `listTransaction_list` say
everything it does on a document whose field is a list or missing:

* no document: it is created with just this field, except by `updateInvitations`;
* a document without the list: `contains` is called on `null` and the transaction throws;
* a document with the list `xs`: the field becomes `edit.onList xs x`.

`items_runTransaction` restates them as one fact about the elements of the lists, which is what the
callers rely on.

Firestore may give a transaction up (`served` is `false`), and the client in this repository does so
with one that has read and has nothing to write (`ListTransactionRuns.writesNothing_fails`).
-/

set_option autoImplicit false

namespace GiftGenie.ListTransactions

open GiftGenie.Library GiftGenie.Firestore

/-- What a transaction does to its list: `sendInvitations` extends it, `updateInvitations` shrinks
it, `updateFavorites` and `updateRecommended` flip an element. -/
inductive ListEdit where
  | extend
  | shrink
  | flip
  deriving DecidableEq, Repr

/-- The `FieldValue` that is written, given what `contains` answered; `none` where the branch writes
nothing. -/
def ListEdit.write : ListEdit → Bool → Option (Value → DString → Value)
  | .extend, true => none
  | .extend, false => some arrayUnion
  | .shrink, true => some arrayRemove
  | .shrink, false => none
  | .flip, true => some arrayRemove
  | .flip, false => some arrayUnion

/-- Whether the `else` branch creates a document that does not exist. -/
def ListEdit.creates : ListEdit → Bool
  | .extend => true
  | .shrink => false
  | .flip => true

/-- The edit of a list that is there. -/
def ListEdit.onList : ListEdit → List DString → DString → List DString
  | .extend => ListSet.union
  | .shrink => ListSet.without
  | .flip => ListSet.toggle

/-- The body of the transaction. -/
def listTransaction (edit : ListEdit) (key : String) (x : DString) (id : String)
    (users : Collection) : Except DartError Collection :=
  match users id with
  | some data => do
      let present ← contains (field data key) x
      match edit.write present with
      | some w => .ok (setDoc users id (putField data key (w (field data key) x)))
      | none => .ok users
  | none =>
      if edit.creates then .ok (setDoc users id (docOf [(key, .list [x])])) else .ok users

/-- `runTransaction(..).then(true).catchError(false)`; `served` is `false` where Firestore gives the
transaction up. -/
def runTransaction (served : Bool) (edit : ListEdit) (key : String) (x : DString) (id : String)
    (users : Collection) : Bool × Collection :=
  SerialHistory.atomically served (listTransaction edit key x id) users

/-- The list that `mode` selects. -/
def modeField (mode : ℤ) : String := if mode = 0 then "invitations" else "friends"

def sendInvitations (served : Bool) (uid : DString) (userIndex : String) (mode : ℤ) :
    Collection → Bool × Collection :=
  runTransaction served .extend (modeField mode) uid userIndex

def updateInvitations (served : Bool) (uid : DString) (userIndex : String) (mode : ℤ) :
    Collection → Bool × Collection :=
  runTransaction served .shrink (modeField mode) uid userIndex

def updateFavorites (served : Bool) (uid : String) (productId : DString) :
    Collection → Bool × Collection :=
  runTransaction served .flip "favorites" productId uid

def updateRecommended (served : Bool) (uid : String) (productId : DString) :
    Collection → Bool × Collection :=
  runTransaction served .flip "recommended" productId uid

/-! ### What the body does -/

variable {key id : String} {users : Collection}

theorem listTransaction_absent (edit : ListEdit) (key : String) (x : DString)
    (h : users id = none) :
    listTransaction edit key x id users =
      .ok (if edit.creates then setDoc users id (docOf [(key, .list [x])]) else users) := by
  simp only [listTransaction, h]
  split <;> rfl

theorem listTransaction_missing (edit : ListEdit) (x : DString) {d : Doc} (hd : users id = some d)
    (hf : field d key = .null) :
    listTransaction edit key x id users = .error .noSuchMethod := by
  simp only [listTransaction, hd, hf, contains]
  rfl

/-- What is written is the edited list; a branch that writes nothing is one where the edit changes
nothing. -/
theorem write_list (edit : ListEdit) (xs : List DString) (x : DString) :
    (match edit.write (decide (x ∈ xs)) with
      | some w => w (.list xs) x
      | none => .list xs) = .list (edit.onList xs x) := by
  by_cases hx : x ∈ xs
  · cases edit with
    | extend => simp [ListEdit.write, ListEdit.onList, ListSet.union, hx]
    | shrink => simp [ListEdit.write, ListEdit.onList, arrayRemove, hx]
    | flip => simp [ListEdit.write, ListEdit.onList, arrayRemove, ListSet.toggle, hx]
  · cases edit with
    | extend => simp [ListEdit.write, ListEdit.onList, arrayUnion, hx]
    | shrink => simp [ListEdit.write, ListEdit.onList, ListSet.without_of_not_mem hx, hx]
    | flip => simp [ListEdit.write, ListEdit.onList, arrayUnion, ListSet.toggle, hx]

theorem listTransaction_list (edit : ListEdit) (x : DString) {d : Doc} {xs : List DString}
    (hd : users id = some d) (hf : field d key = .list xs) :
    listTransaction edit key x id users =
      .ok (setDoc users id (putField d key (.list (edit.onList xs x)))) := by
  have hw := write_list edit xs x
  have hbody : listTransaction edit key x id users =
      match edit.write (decide (x ∈ xs)) with
      | some w => .ok (setDoc users id (putField d key (w (.list xs) x)))
      | none => .ok users := by
    simp only [listTransaction, hd, hf, contains]
    rfl
  rw [hbody]
  cases hc : edit.write (decide (x ∈ xs)) with
  | some w =>
    rw [hc] at hw
    rw [← hw]
  | none =>
    rw [hc] at hw
    -- nothing is written, and writing the list that is there would change nothing
    have hput : putField d key (.list (edit.onList xs x)) = d := by
      rw [← hw, ← hf]
      exact putField_field (by rw [hf]; simp)
    have hset : setDoc users id d = users := by
      rw [setDoc, Function.update_eq_self_iff, hd]
    rw [hput, hset]

/-- Everything a committed or failed transaction can do, on a list that is there or missing. -/
theorem runTransaction_cases (served : Bool) (edit : ListEdit) (x : DString) (id : String)
    (hkey : ListOrMissing users key) :
    ((runTransaction served edit key x id users).1 = false ∧
        (runTransaction served edit key x id users).2 = users ∧
        (served = true → ∃ d, users id = some d ∧ field d key = .null)) ∨
      (runTransaction served edit key x id users).1 = true ∧ served = true ∧
        ((users id = none ∧ (runTransaction served edit key x id users).2 =
            if edit.creates then setDoc users id (docOf [(key, .list [x])]) else users) ∨
          ∃ d xs, users id = some d ∧ field d key = .list xs ∧
            (runTransaction served edit key x id users).2 =
              setDoc users id (putField d key (.list (edit.onList xs x)))) := by
  cases served with
  | false => exact Or.inl ⟨rfl, rfl, fun h => absurd h (by simp)⟩
  | true =>
    cases hd : users id with
    | none =>
      have hrun := SerialHistory.atomically_ok (listTransaction_absent edit key x hd)
      rw [runTransaction, hrun]
      exact Or.inr ⟨rfl, rfl, Or.inl ⟨rfl, rfl⟩⟩
    | some d =>
      cases hf : field d key with
      | null =>
        rw [runTransaction, SerialHistory.atomically_error (listTransaction_missing edit x hd hf)]
        exact Or.inl ⟨rfl, rfl, fun _ => ⟨d, rfl, hf⟩⟩
      | str s => exact absurd hf (hkey id d s hd)
      | list xs =>
        have hrun := SerialHistory.atomically_ok (listTransaction_list edit x hd hf)
        rw [runTransaction, hrun]
        exact Or.inr ⟨rfl, rfl, Or.inr ⟨d, xs, rfl, hf, rfl⟩⟩

/-! ### The elements of the lists -/

/-- A new document has one list and no other. -/
theorem items_setDoc_docOf (users : Collection) (id key key' : String) (x : DString) :
    items (setDoc users id (docOf [(key, .list [x])])) id key' = if key' = key then [x] else [] := by
  simp only [items, setDoc_self, field_docOf_single]
  by_cases hk : key' = key
  · simp [hk]
  · simp [hk]

/-- Writing one list of a document leaves its other lists alone. -/
theorem items_setDoc_putField {d : Doc} (hd : users id = some d) (ys : List DString)
    (key' : String) :
    items (setDoc users id (putField d key (.list ys))) id key' =
      if key' = key then ys else items users id key' := by
  rw [items, setDoc_self]
  by_cases hk : key' = key
  · simp [hk]
  · simp only [field_putField_ne hk, if_neg hk, items, hd]

/-- An edit of the empty list, where the document was missing. -/
theorem onList_nil (edit : ListEdit) (x : DString) :
    edit.onList [] x = if edit.creates then [x] else [] := by
  cases edit <;> simp [ListEdit.onList, ListEdit.creates, ListSet.union, ListSet.without,
    ListSet.toggle]

/-- **Effect and frame.**  A transaction that answers `true` edits the elements of its own list; all
other lists of all documents stay, and so does everything when it answers `false`. -/
theorem items_runTransaction (served : Bool) (edit : ListEdit) (x : DString) (id : String)
    (hkey : ListOrMissing users key) (id' key' : String) :
    items (runTransaction served edit key x id users).2 id' key' =
      if (runTransaction served edit key x id users).1 = true ∧ id' = id ∧ key' = key
      then edit.onList (items users id key) x else items users id' key' := by
  obtain ⟨hans, hfin, -⟩ | ⟨hans, -, ⟨hd, hfin⟩ | ⟨d, xs, hd, hf, hfin⟩⟩ :=
    runTransaction_cases served edit x id hkey
  · rw [hans, hfin]
    simp
  · rw [hans, hfin, items_of_absent hd, onList_nil]
    by_cases hid : id' = id
    · subst hid
      cases edit.creates with
      | true => simp [items_setDoc_docOf, items_of_absent hd]
      | false => simp [items_of_absent hd]
    · cases edit.creates with
      | true => simp [items_setDoc_ne hid, hid]
      | false => simp [hid]
  · rw [hans, hfin]
    by_cases hid : id' = id
    · subst hid
      rw [items_setDoc_putField hd, items_of_list hd hf]
      simp
    · simp [items_setDoc_ne hid, hid]

/-- What a toggle does to its own list. -/
theorem items_toggle (served : Bool) (x : DString) (id : String) (hkey : ListOrMissing users key) :
    items (runTransaction served .flip key x id users).2 id key =
      if (runTransaction served .flip key x id users).1 = true
      then ListSet.toggle (items users id key) x else items users id key := by
  rw [items_runTransaction served .flip x id hkey]
  simp [ListEdit.onList]

/-- A transaction answers `true` only if it was served and did not find its list missing. -/
theorem succeeds_of_answer {served : Bool} {edit : ListEdit} {x : DString}
    (hkey : ListOrMissing users key) (h : (runTransaction served edit key x id users).1 = true) :
    served = true ∧ ∀ d, users id = some d → field d key ≠ .null := by
  rcases runTransaction_cases served edit x id hkey with
    ⟨hans, -, -⟩ | ⟨-, hserved, ⟨hd, -⟩ | ⟨d, xs, hd, hf, -⟩⟩
  · exact nomatch hans.symm.trans h
  · exact ⟨hserved, fun d hd' => nomatch hd.symm.trans hd'⟩
  · refine ⟨hserved, fun d' hd' hnull => ?_⟩
    rw [← Option.some.inj (hd.symm.trans hd')] at hnull
    exact nomatch hf.symm.trans hnull

/-- Fields hold lists or nothing also after a transaction. -/
theorem listOrMissing_runTransaction (served : Bool) (edit : ListEdit) (x : DString) (id : String)
    (hkey : ListOrMissing users key) {key' : String} (hkey' : ListOrMissing users key') :
    ListOrMissing (runTransaction served edit key x id users).2 key' := by
  obtain ⟨-, hfin, -⟩ | ⟨-, -, ⟨-, hfin⟩ | ⟨d, xs, hd, -, hfin⟩⟩ :=
    runTransaction_cases served edit x id hkey
  · rw [hfin]
    exact hkey'
  · rw [hfin]
    cases edit.creates with
    | false => exact hkey'
    | true =>
      refine listOrMissing_setDoc hkey' fun s => ?_
      rw [field_docOf_single]
      by_cases hk : key' = key
      · simp [hk]
      · simp [hk]
  · rw [hfin]
    refine listOrMissing_setDoc hkey' fun s => ?_
    by_cases hk : key' = key
    · simp [hk]
    · rw [field_putField_ne hk]
      exact hkey' id d s hd

end GiftGenie.ListTransactions
