import GiftGenie.ListHistories

/-!
# The contract of the list transactions

The callers of the four transactions look at the answer only.  `Contract` says what an answer tells
about the store: the effect of `true`, when `false` is answered, and what stays in either case.

`listTransactions_contract` proves it for all four, on every store whose list fields are lists or
missing.  A field that holds `null` counts as missing: the transaction cannot tell the two apart.
A `null` document id names a new document, so it is the case of an id that has no document.

Where nothing is to be written, `true` is the answer of a Firestore that serves the call; the client in
this repository gives such a transaction up, and the answer is `false`
(`ListTransactionRuns.writesNothing_fails`).
-/

set_option autoImplicit false

namespace GiftGenie.ListContracts

open GiftGenie.Library GiftGenie.Firestore GiftGenie.ListTransactions GiftGenie.ListHistories

/-- What the callers take `true` to say: the element is in the list, is in it nowhere, or is in it
exactly if it was not. -/
def Leaves : ListEdit → List DString → DString → List DString → Prop
  | .extend, _, x, after => x ∈ after
  | .shrink, _, x, after => x ∉ after
  | .flip, before, x, after => x ∈ after ↔ x ∉ before

/-- The document is there, and the field is not. -/
def FieldMissing (users : Collection) (id key : String) : Prop :=
  ∃ d, users id = some d ∧ field d key = .null

/-- The result of a transaction on the list `key` of the document `id`: its answer and the store
after it. -/
structure Contract (served : Bool) (edit : ListEdit) (key : String) (x : DString) (id : String)
    (users : Collection) (result : Bool × Collection) : Prop where
  effect : result.1 = true → Leaves edit (items users id key) x (items result.2 id key)
  fails : result.1 = false ↔ served = false ∨ FieldMissing users id key
  unchanged : result.1 = false → result.2 = users
  otherDocuments : ∀ id', id' ≠ id → result.2 id' = users id'
  otherFields : ∀ d, users id = some d →
    ∃ d', result.2 id = some d' ∧ ∀ key', key' ≠ key → d' key' = d key'
  created : users id = none →
    result.2 id = if served && edit.creates then some (docOf [(key, .list [x])]) else none

/-- Every edit does what the callers take `true` to say. -/
theorem leaves_onList (edit : ListEdit) (xs : List DString) (x : DString) :
    Leaves edit xs x (edit.onList xs x) := by
  cases edit with
  | extend => exact ListSet.mem_union.mpr (Or.inr rfl)
  | shrink => exact fun h => (ListSet.mem_without.mp h).2 rfl
  | flip => exact ListSet.mem_toggle_self

variable {users : Collection} {key : String}

theorem contract_of_absent (served : Bool) (edit : ListEdit) (x : DString) {id : String}
    (hd : users id = none) :
    Contract served edit key x id users (runTransaction served edit key x id users) := by
  have hmissing : ¬FieldMissing users id key := by
    rintro ⟨d, hd', -⟩
    rw [hd] at hd'
    cases hd'
  cases served with
  | false =>
    refine ⟨fun h => (by cases h), iff_of_true rfl (Or.inl rfl), fun _ => rfl, fun _ _ => rfl,
      fun d hd' => ?_, fun _ => hd⟩
    rw [hd] at hd'
    cases hd'
  | true =>
    rw [runTransaction, SerialHistory.atomically_ok (listTransaction_absent edit key x hd)]
    refine ⟨fun _ => ?_, ?_, fun h => (by cases h), fun id' hid => ?_, fun d hd' => ?_, fun _ => ?_⟩
    · have hleaves := leaves_onList edit (items users id key) x
      rw [items_of_absent hd, onList_nil] at hleaves
      rw [items_of_absent hd]
      cases hc : edit.creates with
      | true => simpa [hc, items_setDoc_docOf] using hleaves
      | false => simpa [hc, items_of_absent hd] using hleaves
    · exact iff_of_false (by simp) (fun h => h.elim (by simp) hmissing)
    · cases edit.creates with
      | true => exact setDoc_ne hid
      | false => rfl
    · rw [hd] at hd'
      cases hd'
    · cases edit.creates with
      | true => exact setDoc_self _ _ _
      | false => exact hd

theorem contract_of_missing (served : Bool) (edit : ListEdit) (x : DString) {id : String} {d : Doc}
    (hd : users id = some d) (hf : field d key = .null) :
    Contract served edit key x id users (runTransaction served edit key x id users) := by
  rw [runTransaction, SerialHistory.atomically_error (listTransaction_missing edit x hd hf)]
  refine ⟨fun h => (by cases h), iff_of_true rfl (Or.inr ⟨d, hd, hf⟩), fun _ => rfl,
    fun _ _ => rfl, fun d' hd' => ⟨d', hd', fun _ _ => rfl⟩, fun hnone => ?_⟩
  rw [hd] at hnone
  cases hnone

theorem contract_of_list (served : Bool) (edit : ListEdit) (x : DString) {id : String} {d : Doc}
    {xs : List DString} (hd : users id = some d) (hf : field d key = .list xs) :
    Contract served edit key x id users (runTransaction served edit key x id users) := by
  have habsent : users id ≠ none := by
    rw [hd]
    simp
  cases served with
  | false =>
    exact ⟨fun h => (by cases h), iff_of_true rfl (Or.inl rfl), fun _ => rfl, fun _ _ => rfl,
      fun d' hd' => ⟨d', hd', fun _ _ => rfl⟩, fun hnone => absurd hnone habsent⟩
  | true =>
    have hmissing : ¬FieldMissing users id key := by
      rintro ⟨d', hd', hf'⟩
      rw [hd] at hd'
      cases hd'
      rw [hf] at hf'
      cases hf'
    rw [runTransaction, SerialHistory.atomically_ok (listTransaction_list edit x hd hf)]
    refine ⟨fun _ => ?_, ?_, fun h => (by cases h), fun id' hid => setDoc_ne hid,
      fun d' hd' => ?_, fun hnone => absurd hnone habsent⟩
    · rw [items_setDoc_putField hd, if_pos rfl, items_of_list hd hf]
      exact leaves_onList edit xs x
    · exact iff_of_false (by simp) (fun h => h.elim (by simp) hmissing)
    · rw [hd] at hd'
      cases hd'
      refine ⟨_, setDoc_self _ _ _, fun key' hkey => ?_⟩
      rw [putField, Function.update_of_ne hkey]

/-- The contract of the one transaction behind the four, in the three shapes its document can
have. -/
theorem contract_runTransaction (served : Bool) (edit : ListEdit) (x : DString) (id : String)
    (hkey : ListOrMissing users key) :
    Contract served edit key x id users (runTransaction served edit key x id users) := by
  cases hd : users id with
  | none => exact contract_of_absent served edit x hd
  | some d =>
    cases hf : field d key with
    | null => exact contract_of_missing served edit x hd hf
    | str s => exact absurd hf (hkey id d s hd)
    | list xs => exact contract_of_list served edit x hd hf

/-- The contract of a call. -/
theorem contract_exec (c : ListCall) (h : ListOrMissing users c.op.key) :
    Contract c.served c.op.edit c.op.key c.op.element c.id users (c.exec users) := by
  rw [exec_eq]
  exact contract_runTransaction c.served c.op.edit c.op.element c.id h

theorem modeField_mem_listFields (mode : ℤ) : modeField mode ∈ listFields :=
  key_mem_listFields (.sendInvitations none mode)

/-- **The contract of the four list transactions.** -/
theorem listTransactions_contract (users : Collection) (h : ListsOrMissing users) (served : Bool)
    (x : DString) (id : String) :
    (∀ mode, Contract served .extend (modeField mode) x id users
        (sendInvitations served x id mode users)) ∧
      (∀ mode, Contract served .shrink (modeField mode) x id users
        (updateInvitations served x id mode users)) ∧
      Contract served .flip "favorites" x id users (updateFavorites served id x users) ∧
      Contract served .flip "recommended" x id users (updateRecommended served id x users) := by
  have hmode : ∀ mode, ListOrMissing users (modeField mode) :=
    fun mode => h _ (modeField_mem_listFields mode)
  have hfavorites : ListOrMissing users "favorites" := h _ (by simp [listFields])
  have hrecommended : ListOrMissing users "recommended" := h _ (by simp [listFields])
  exact ⟨fun mode => contract_runTransaction served .extend x id (hmode mode),
    fun mode => contract_runTransaction served .shrink x id (hmode mode),
    contract_runTransaction served .flip x id hfavorites,
    contract_runTransaction served .flip x id hrecommended⟩

/-- A user with invitations of which one is repeated. -/
def repeatedInvitation : Collection :=
  setDoc (fun _ => none) "bob" (docOf [("invitations", .list [some "ann", some "cy", some "ann"])])

theorem listsOrMissing_repeatedInvitation : ListsOrMissing repeatedInvitation := by
  intro key _
  refine listOrMissing_setDoc (fun _ _ _ h => (by cases h)) fun s => ?_
  rw [field_docOf_single]
  split <;> simp

/-- Both occurrences go, and `friends`, which Bob does not have, is refused. -/
theorem listTransactions_contract_repeated :
    some "ann" ∉ items (updateInvitations true (some "ann") "bob" 0 repeatedInvitation).2
        "bob" "invitations" ∧
      (sendInvitations true (some "ann") "bob" 1 repeatedInvitation).1 = false := by
  have hcontract := listTransactions_contract repeatedInvitation listsOrMissing_repeatedInvitation
    true (some "ann") "bob"
  exact ⟨(hcontract.2.1 0).effect rfl, (hcontract.1 1).fails.mpr (Or.inr ⟨_, rfl, rfl⟩)⟩

end GiftGenie.ListContracts
