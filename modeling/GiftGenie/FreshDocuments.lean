import GiftGenie.ListTransactionRuns
import GiftGenie.SignUp

/-!
# Documents that one operation creates and another uses

A list transaction on a missing document creates it with its own list and no other; a sign-up
creates it with `null` under three of the list fields and without the fourth.  A transaction whose
list is missing throws, and one that finds nothing to write is not committed, since the client
commits no document that was read and not written.  `callsSucceed_iff` says exactly which sequences
of transactions all answer `true`:

* on a missing document, those in which every call that follows a creating call addresses the list
  of that call, and no call has nothing to write on the list that the calls before it leave;
* on the document of a sign-up, the empty one.
-/

set_option autoImplicit false

namespace GiftGenie.FreshDocuments

open GiftGenie.Library GiftGenie.Firestore GiftGenie.ListTransactions GiftGenie.ListHistories
  GiftGenie.Mutations GiftGenie.Transactions GiftGenie.ListTransactionRuns GiftGenie.SignUp

/-- A list transaction on the document `id` without a failure of the service: its update block runs
and is committed with nothing in between.  A failed attempt would meet the same documents again. -/
def call (id : String) (op : ListOp) : Server → Bool × Server :=
  SerialHistory.atomically true (attempt (callBlock { id := id, op := op }))

/-- Every call of the sequence answers `true`. -/
def CallsSucceed (id : String) (ops : List ListOp) (s : Server) : Prop :=
  ∀ a ∈ SerialHistory.answers (call id) ops s, a.2 = true

/-- The call that comes first creates a missing document only if the second addresses its list. -/
def Compatible (op op' : ListOp) : Prop := op.edit.creates = true → op'.key = op.key

/-- The call has something to write where its list is `xs`. -/
def Writes (xs : List DString) (op : ListOp) : Prop :=
  match op.edit with
  | .extend => op.element ∉ xs
  | .shrink => op.element ∈ xs
  | .flip => True

/-- Each call has something to write where the list is `xs` at first. -/
def EachWrites : List DString → List ListOp → Prop
  | _, [] => True
  | xs, op :: ops => Writes xs op ∧ EachWrites (op.edit.onList xs op.element) ops

/-! ### One call -/

variable {id : String} {op : ListOp} {s : Server}

/-- A call on a missing document creates it, or has nothing to write. -/
theorem call_absent (op : ListOp) (h : s.values id = none) :
    (call id op s).1 = op.edit.creates ∧ (op.edit.creates = true →
      (call id op s).2.values = setDoc s.values id (docOf [(op.key, .list [op.element])])) := by
  cases hc : op.edit.creates with
  | true =>
    have hbody : listBody op.edit op.key op.element id (s.values id) =
        .set id [(op.key, .value (.list [op.element]))] .done := by simp [h, listBody, hc]
    obtain ⟨s', hs', hvalues⟩ := attempt_set hbody
    have hcall : call id op s = (true, s') := SerialHistory.atomically_ok hs'
    rw [hcall]
    exact ⟨rfl, fun _ => hvalues⟩
  | false =>
    have hbody : listBody op.edit op.key op.element id (s.values id) = .done := by
      simp [h, listBody, hc]
    have hcall : call id op s = (false, s) := SerialHistory.atomically_error (attempt_done hbody)
    rw [hcall]
    exact ⟨rfl, fun hfalse => absurd hfalse Bool.false_ne_true⟩

/-- A call on a document without its list throws. -/
theorem call_missing {d : Doc} (hd : s.values id = some d) (hf : field d op.key = .null) :
    (call id op s).1 = false := by
  have hbody : listBody op.edit op.key op.element id (s.values id) = .fail .noSuchMethod := by
    simp [hd, listBody, hf, contains]
  have hcall : call id op s = (false, s) := SerialHistory.atomically_error (attempt_fail hbody)
  rw [hcall]

/-- What the block does with a list that is there. -/
theorem body_list {d : Doc} {xs : List DString} (hd : s.values id = some d)
    (hf : field d op.key = .list xs) :
    (Writes xs op ∧ ∃ type : TransformType, listBody op.edit op.key op.element id (s.values id) =
        .update id [(op.key, type.fieldData op.element)] .done) ∨
      (¬Writes xs op ∧ listBody op.edit op.key op.element id (s.values id) = .done) := by
  unfold Writes
  by_cases hx : op.element ∈ xs
  · cases op.edit with
    | extend => exact Or.inr ⟨not_not.mpr hx, by simp [hd, listBody, hf, contains, hx, fieldValue]⟩
    | shrink =>
      exact Or.inl ⟨hx, .arrayRemove, by simp [hd, listBody, hf, contains, hx, fieldValue]⟩
    | flip =>
      exact Or.inl ⟨trivial, .arrayRemove, by simp [hd, listBody, hf, contains, hx, fieldValue]⟩
  · cases op.edit with
    | extend => exact Or.inl ⟨hx, .arrayUnion, by simp [hd, listBody, hf, contains, hx, fieldValue]⟩
    | shrink => exact Or.inr ⟨hx, by simp [hd, listBody, hf, contains, hx, fieldValue]⟩
    | flip =>
      exact Or.inl ⟨trivial, .arrayUnion, by simp [hd, listBody, hf, contains, hx, fieldValue]⟩

/-- A call on a document with its list edits it, or has nothing to write. -/
theorem call_list {d : Doc} {xs : List DString} (hd : s.values id = some d)
    (hf : field d op.key = .list xs) :
    ((call id op s).1 = true ↔ Writes xs op) ∧ (Writes xs op →
      (call id op s).2.values =
        setDoc s.values id (putField d op.key (.list (op.edit.onList xs op.element)))) := by
  rcases body_list hd hf with ⟨hwrites, type, hbody⟩ | ⟨hidle, hbody⟩
  · obtain ⟨s', hs', -⟩ := attempt_update hd hbody
    have hcall : call id op s = (true, s') := SerialHistory.atomically_ok hs'
    have hvalues : s'.values = _ :=
      Except.ok.inj ((values_attempt hs').symm.trans (listTransaction_list op.edit op.element hd hf))
    rw [hcall]
    exact ⟨iff_of_true rfl hwrites, fun _ => hvalues⟩
  · have hcall : call id op s = (false, s) := SerialHistory.atomically_error (attempt_done hbody)
    rw [hcall]
    exact ⟨iff_of_false Bool.false_ne_true hidle, fun hwrites => absurd hwrites hidle⟩

/-! ### Sequences of calls -/

theorem callsSucceed_nil (id : String) (s : Server) : CallsSucceed id [] s := by
  intro a ha
  cases ha

theorem callsSucceed_cons (id : String) (op : ListOp) (ops : List ListOp) (s : Server) :
    CallsSucceed id (op :: ops) s ↔
      (call id op s).1 = true ∧ CallsSucceed id ops (call id op s).2 := by
  simp only [CallsSucceed, SerialHistory.answers, List.forall_mem_cons]

/-- The document has the list `xs` under `key` and none of the other lists. -/
def OnlyList (users : Collection) (id key : String) (xs : List DString) : Prop :=
  ∃ d, users id = some d ∧ field d key = .list xs ∧ ∀ key' ≠ key, field d key' = .null

/-- With one list, exactly the calls on that list succeed that have something to write. -/
theorem callsSucceed_onlyList {key : String} (ops : List ListOp) :
    ∀ xs s, OnlyList s.values id key xs →
      (CallsSucceed id ops s ↔ (∀ op ∈ ops, op.key = key) ∧ EachWrites xs ops) := by
  induction ops with
  | nil =>
    intro xs s _
    exact iff_of_true (callsSucceed_nil id s) ⟨fun op hop => (nomatch hop), trivial⟩
  | cons op ops ih =>
    intro xs s h
    obtain ⟨d, hd, hf, hother⟩ := h
    rw [callsSucceed_cons, List.forall_mem_cons]
    by_cases hkey : op.key = key
    · subst hkey
      obtain ⟨hanswer, hvalues⟩ := call_list hd hf
      rw [hanswer]
      by_cases hwrites : Writes xs op
      · have hnext : OnlyList (call id op s).2.values id op.key (op.edit.onList xs op.element) := by
          rw [hvalues hwrites]
          refine ⟨_, setDoc_self _ _ _, field_putField_self _ _ _, fun key' hkey' => ?_⟩
          rw [field_putField_ne hkey', hother key' hkey']
        rw [ih _ _ hnext]
        show _ ↔ (_ ∧ _) ∧ Writes xs op ∧ EachWrites (op.edit.onList xs op.element) ops
        simp [hwrites]
      · exact iff_of_false (fun hcalls => hwrites hcalls.1) fun hcalls => hwrites hcalls.2.1
    · rw [call_missing hd (hother op.key hkey)]
      exact iff_of_false (fun hcalls => nomatch hcalls.1) fun hcalls => hkey hcalls.1.1

/-- The calls that create a missing document have something to write on the empty list. -/
theorem writes_nil (op : ListOp) : Writes [] op ↔ op.edit.creates = true := by
  unfold Writes
  cases op.edit with
  | extend => exact iff_of_true List.not_mem_nil rfl
  | shrink => exact iff_of_false List.not_mem_nil Bool.false_ne_true
  | flip => exact iff_of_true trivial rfl

theorem onList_nil {edit : ListEdit} (h : edit.creates = true) (x : DString) :
    edit.onList [] x = [x] := by
  cases edit with
  | extend => rfl
  | shrink => cases h
  | flip => rfl

/-- On a missing document, a call that creates it must be followed by calls on its list only. -/
theorem callsSucceed_absent (ops : List ListOp) (h : s.values id = none) :
    CallsSucceed id ops s ↔ ops.Pairwise Compatible ∧ EachWrites [] ops := by
  cases ops with
  | nil => exact iff_of_true (callsSucceed_nil id s) ⟨List.Pairwise.nil, trivial⟩
  | cons op ops =>
    obtain ⟨hanswer, hvalues⟩ := call_absent op h
    rw [callsSucceed_cons, hanswer, List.pairwise_cons]
    show _ ↔ _ ∧ Writes [] op ∧ EachWrites (op.edit.onList [] op.element) ops
    rw [writes_nil]
    by_cases hc : op.edit.creates = true
    · have honly : OnlyList (call id op s).2.values id op.key [op.element] := by
        rw [hvalues hc]
        refine ⟨_, setDoc_self _ _ _, ?_, fun key' hkey' => ?_⟩
        · simp [field_docOf_single]
        · simp [field_docOf_single, hkey']
      rw [callsSucceed_onlyList ops _ _ honly, onList_nil hc]
      simp only [Compatible, hc, true_and, forall_const]
      refine ⟨fun hall => ⟨⟨hall.1, ?_⟩, hall.2⟩, fun hall => ⟨hall.1.1, hall.2⟩⟩
      -- all later calls address one list, so they are compatible with each other
      refine List.pairwise_of_forall_mem_list fun op₁ h₁ op₂ h₂ _ => ?_
      exact (hall.1 op₂ h₂).trans (hall.1 op₁ h₁).symm
    · exact iff_of_false (fun hcalls => hc hcalls.1) fun hcalls => hc hcalls.2.1

theorem callsSucceed_signUp (ops : List ListOp) {username password email : String} {w : World}
    (h : s.values id = (userLogUp username password email id {} w).users id) :
    CallsSucceed id ops s ↔ ops = [] := by
  cases ops with
  | nil => exact iff_of_true (callsSucceed_nil id _) rfl
  | cons op ops =>
    have hd : s.values id = some (userDoc username password email id {}) :=
      h.trans (setDoc_self _ _ _)
    rw [callsSucceed_cons, call_missing hd
      (field_userDoc_list username password email id (key_mem_listFields op))]
    exact iff_of_false (fun hcalls => nomatch hcalls.1) (List.cons_ne_nil op ops)

/-- **Which sequences of list transactions succeed on a fresh document.**  On a missing document:
those in which every call after a creating call addresses the list of that call, and each call has
something to write on the list as the calls before it leave it.  On the document that the sign-up
button has just written: only the empty sequence. -/
theorem callsSucceed_iff (id : String) (ops : List ListOp) (s : Server) :
    (s.values id = none →
      (CallsSucceed id ops s ↔ ops.Pairwise Compatible ∧ EachWrites [] ops)) ∧
    ∀ (username password email : String) (w : World),
      s.values id = (userLogUp username password email id {} w).users id →
        (CallsSucceed id ops s ↔ ops = []) :=
  ⟨callsSucceed_absent ops, fun _ _ _ _ => callsSucceed_signUp ops⟩

/-- A favourite makes a document that cannot take an invitation, and the document of a sign-up takes
nothing. -/
theorem callsSucceed_fails :
    ¬CallsSucceed "u1" [.updateFavorites (some "B0009KF58I"), .sendInvitations (some "u2") 0]
        (VersionedStore.Store.ofValues World.empty.users) ∧
      ¬CallsSucceed "96354" [.updateFavorites (some "B0009KF58I")]
        (VersionedStore.Store.ofValues
          (userLogUp "ann" "secret" "a@x.io" "96354" {} World.empty).users) := by
  refine ⟨fun h => ?_, fun h => ?_⟩
  · have hlast := h (.sendInvitations (some "u2") 0, false) (by decide)
    exact absurd hlast (by decide)
  · have hfirst := h (.updateFavorites (some "B0009KF58I"), false) (by decide)
    exact absurd hfirst (by decide)

/-- Two toggles of one list on a missing document succeed. -/
theorem callsSucceed_iff_toggles :
    CallsSucceed "u1" [.updateFavorites (some "B0009KF58I"), .updateFavorites (some "B010TQY7A8")]
      (VersionedStore.Store.ofValues World.empty.users) :=
  ((callsSucceed_iff "u1"
    [.updateFavorites (some "B0009KF58I"), .updateFavorites (some "B010TQY7A8")]
    (VersionedStore.Store.ofValues World.empty.users)).1 rfl).mpr
      ⟨by simp [Compatible, ListOp.key], trivial, trivial, trivial⟩

end GiftGenie.FreshDocuments
