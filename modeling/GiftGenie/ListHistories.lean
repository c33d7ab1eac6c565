import GiftGenie.ListTransactions

/-!
# Histories of list transactions

Firestore commits the list transactions of all clients one after the other.  A `ListCall` is one
of them with its arguments; a history is a list of calls in commit order, run by
`SerialHistory.answers` and `SerialHistory.final`.

* `items_exec`: a call that answers `true` edits its own list and no other.
* `toggles_not_lost`: the favourites and the recommended products are their initial sets, flipped
  once per call that answered `true`.
-/

set_option autoImplicit false

namespace GiftGenie.ListHistories

open GiftGenie.Library GiftGenie.Firestore GiftGenie.ListTransactions

/-- A list transaction without the document it addresses. -/
inductive ListOp where
  | sendInvitations (uid : DString) (mode : ℤ)
  | updateInvitations (uid : DString) (mode : ℤ)
  | updateFavorites (productId : DString)
  | updateRecommended (productId : DString)
  deriving DecidableEq, Repr

/-- A call on the document `id`; `served` is `false` where Firestore gives it up. -/
structure ListCall where
  id : String
  op : ListOp
  served : Bool := true
  deriving DecidableEq, Repr

/-- Commit a call. -/
def ListCall.exec (c : ListCall) : Collection → Bool × Collection :=
  match c.op with
  | .sendInvitations uid mode => sendInvitations c.served uid c.id mode
  | .updateInvitations uid mode => updateInvitations c.served uid c.id mode
  | .updateFavorites productId => updateFavorites c.served c.id productId
  | .updateRecommended productId => updateRecommended c.served c.id productId

def ListOp.edit : ListOp → ListEdit
  | .sendInvitations _ _ => .extend
  | .updateInvitations _ _ => .shrink
  | .updateFavorites _ => .flip
  | .updateRecommended _ => .flip

/-- The list field a call addresses. -/
def ListOp.key : ListOp → String
  | .sendInvitations _ mode => modeField mode
  | .updateInvitations _ mode => modeField mode
  | .updateFavorites _ => "favorites"
  | .updateRecommended _ => "recommended"

def ListOp.element : ListOp → DString
  | .sendInvitations uid _ => uid
  | .updateInvitations uid _ => uid
  | .updateFavorites productId => productId
  | .updateRecommended productId => productId

theorem exec_eq (c : ListCall) :
    c.exec = runTransaction c.served c.op.edit c.op.key c.op.element c.id := by
  rcases c with ⟨id, op, served⟩
  cases op <;> rfl

/-- A call on a document without its list throws. -/
theorem exec_missing (c : ListCall) {users : Collection} {d : Doc} (hd : users c.id = some d)
    (hf : field d c.op.key = .null) : c.exec users = (false, users) := by
  rw [exec_eq]
  exact SerialHistory.atomically_error (listTransaction_missing c.op.edit c.op.element hd hf)

/-- A call on a document with its list edits it. -/
theorem exec_list (c : ListCall) {users : Collection} {d : Doc} {xs : List DString}
    (hserved : c.served = true) (hd : users c.id = some d) (hf : field d c.op.key = .list xs) :
    c.exec users = (true,
      setDoc users c.id (putField d c.op.key (.list (c.op.edit.onList xs c.op.element)))) := by
  rw [exec_eq, hserved]
  exact SerialHistory.atomically_ok (listTransaction_list c.op.edit c.op.element hd hf)

/-- The fields the list transactions address. -/
def listFields : List String := ["invitations", "friends", "favorites", "recommended"]

theorem modeField_mem (mode : ℤ) : modeField mode = "invitations" ∨ modeField mode = "friends" := by
  by_cases h : mode = 0
  · exact Or.inl (if_pos h)
  · exact Or.inr (if_neg h)

theorem key_mem_listFields (op : ListOp) : op.key ∈ listFields := by
  cases op with
  | sendInvitations uid mode => rcases modeField_mem mode with h | h <;> simp [ListOp.key, listFields, h]
  | updateInvitations uid mode =>
    rcases modeField_mem mode with h | h <;> simp [ListOp.key, listFields, h]
  | updateFavorites productId => simp [ListOp.key, listFields]
  | updateRecommended productId => simp [ListOp.key, listFields]

/-- Every document holds lists, or nothing, under the list fields. -/
def ListsOrMissing (users : Collection) : Prop := ∀ key ∈ listFields, ListOrMissing users key

theorem listOrMissing_exec (c : ListCall) {users : Collection} {key : String}
    (h : ListOrMissing users c.op.key) (hkey : ListOrMissing users key) :
    ListOrMissing (c.exec users).2 key := by
  rw [exec_eq]
  exact listOrMissing_runTransaction _ _ _ _ h hkey

theorem listsOrMissing_exec (c : ListCall) {users : Collection} (h : ListsOrMissing users) :
    ListsOrMissing (c.exec users).2 :=
  fun key hkey => listOrMissing_exec c (h _ (key_mem_listFields c.op)) (h key hkey)

/-- What holds of every document holds after a call, if it holds of the document that the call may
create, and writing a list where there was one keeps it. -/
theorem forall_docs_exec (c : ListCall) {users : Collection} (hkey : ListOrMissing users c.op.key)
    {P : String → Doc → Prop} (h : ∀ id d, users id = some d → P id d)
    (hnew : users c.id = none → c.op.edit.creates = true →
      P c.id (docOf [(c.op.key, .list [c.op.element])]))
    (hedit : ∀ d xs ys, users c.id = some d → field d c.op.key = .list xs →
      P c.id (putField d c.op.key (.list ys))) :
    ∀ id d, (c.exec users).2 id = some d → P id d := by
  have hset : ∀ d', P c.id d' → ∀ id d, setDoc users c.id d' id = some d → P id d := by
    intro d' hd' id d hd
    by_cases hid : id = c.id
    · rw [hid, setDoc_self] at hd
      rw [hid, ← Option.some.inj hd]
      exact hd'
    · rw [setDoc_ne hid] at hd
      exact h id d hd
  rw [exec_eq]
  obtain ⟨-, hfin, -⟩ | ⟨-, -, ⟨habsent, hfin⟩ | ⟨d, xs, hd, hf, hfin⟩⟩ :=
    runTransaction_cases c.served c.op.edit c.op.element c.id hkey
  · rw [hfin]
    exact h
  · rw [hfin]
    cases hc : c.op.edit.creates with
    | true => exact hset _ (hnew habsent hc)
    | false => exact h
  · rw [hfin]
    exact hset _ (hedit d xs _ hd hf)

theorem items_exec (c : ListCall) {users : Collection} (h : ListOrMissing users c.op.key)
    (id key : String) :
    items (c.exec users).2 id key =
      if (c.exec users).1 = true ∧ id = c.id ∧ key = c.op.key
      then c.op.edit.onList (items users id key) c.op.element else items users id key := by
  rw [exec_eq, items_runTransaction _ _ _ _ h]
  by_cases hcond : id = c.id ∧ key = c.op.key
  · rw [hcond.1, hcond.2]
  · simp [hcond]

/-! ### No toggle is lost -/

/-- The call flips `p` in the list `key` of the document `id`, and answers `true`. -/
def flipsThere (id key : String) (p : DString) (a : ListCall × Bool) : Bool :=
  decide (a.1.id = id ∧ (a.1.op.key = key ∧ a.1.op.element = p) ∧ a.2 = true)

/-- A list that is only ever flipped: one call flips the membership of `p` exactly if it flips `p`
there and answers `true`. -/
theorem mem_exec_flip (c : ListCall) {users : Collection} (h : ListsOrMissing users) (id key : String)
    (p : DString) (hflip : c.op.key = key → c.op.edit = .flip) :
    p ∈ items (c.exec users).2 id key ↔
      (p ∈ items users id key ↔ flipsThere id key p (c, (c.exec users).1) = false) := by
  rw [items_exec c (h _ (key_mem_listFields c.op))]
  by_cases hcond : (c.exec users).1 = true ∧ id = c.id ∧ key = c.op.key
  · obtain ⟨hans, hid, hkey⟩ := hcond
    rw [if_pos ⟨hans, hid, hkey⟩, hflip hkey.symm]
    by_cases hp : c.op.element = p
    · subst hp
      simp [ListEdit.onList, flipsThere, hans, hid, hkey]
    · have hpx : p ≠ c.op.element := fun e => hp e.symm
      simp [ListEdit.onList, flipsThere, ListSet.mem_toggle_ne hpx, hp]
  · rw [if_neg hcond]
    have hno : ¬(c.id = id ∧ (c.op.key = key ∧ c.op.element = p) ∧ (c.exec users).1 = true) :=
      fun hc => hcond ⟨hc.2.2, hc.1.symm, hc.2.1.1.symm⟩
    simp [flipsThere, hno]

theorem flip_history (id key : String) (p : DString)
    (hflip : ∀ op : ListOp, op.key = key → op.edit = .flip) (calls : List ListCall)
    (users : Collection) (h : ListsOrMissing users) :
    p ∈ items (SerialHistory.final ListCall.exec calls users) id key ↔
      (p ∈ items users id key ↔
        Even ((SerialHistory.answers ListCall.exec calls users).countP (flipsThere id key p))) :=
  SerialHistory.final_observe (fun u => p ∈ items u id key) (flipsThere id key p)
    (fun c _ hu => listsOrMissing_exec c hu)
    (fun c _ hu => mem_exec_flip c hu id key p (hflip c.op)) calls users h

/-- The number of calls `op` on the document `id` that answered `true`. -/
def succeeded (op : ListOp) (id : String) (history : List (ListCall × Bool)) : ℕ :=
  history.countP fun a => decide (a.1.id = id ∧ a.1.op = op ∧ a.2 = true)

theorem modeField_ne_favorites (mode : ℤ) : modeField mode ≠ "favorites" := by
  rcases modeField_mem mode with h | h <;> simp [h]

theorem modeField_ne_recommended (mode : ℤ) : modeField mode ≠ "recommended" := by
  rcases modeField_mem mode with h | h <;> simp [h]

theorem key_favorites (op : ListOp) (p : DString) :
    op.key = "favorites" ∧ op.element = p ↔ op = .updateFavorites p := by
  cases op <;> simp [ListOp.key, ListOp.element, modeField_ne_favorites]

theorem key_recommended (op : ListOp) (p : DString) :
    op.key = "recommended" ∧ op.element = p ↔ op = .updateRecommended p := by
  cases op <;> simp [ListOp.key, ListOp.element, modeField_ne_recommended]

theorem edit_favorites {op : ListOp} (h : op.key = "favorites") : op.edit = .flip := by
  rw [(key_favorites op op.element).mp ⟨h, rfl⟩]
  rfl

theorem edit_recommended {op : ListOp} (h : op.key = "recommended") : op.edit = .flip := by
  rw [(key_recommended op op.element).mp ⟨h, rfl⟩]
  rfl

theorem succeeded_favorites (uid : String) (p : DString) (history : List (ListCall × Bool)) :
    history.countP (flipsThere uid "favorites" p) = succeeded (.updateFavorites p) uid history := by
  refine List.countP_congr fun a _ => ?_
  simp only [flipsThere, key_favorites]

theorem succeeded_recommended (uid : String) (p : DString) (history : List (ListCall × Bool)) :
    history.countP (flipsThere uid "recommended" p) =
      succeeded (.updateRecommended p) uid history := by
  refine List.countP_congr fun a _ => ?_
  simp only [flipsThere, key_recommended]

/-- **No toggle is lost.**  After any history of list transactions on a store whose list fields are
lists or missing, a product is a favourite of `uid` if it was one and an even number of
`updateFavorites` calls for it answered `true`, or it was none and an odd number did; likewise for
the recommended products.  A call that answered `false` left every list of every document as it
was. -/
theorem toggles_not_lost (users : Collection) (calls : List ListCall) (h : ListsOrMissing users) :
    (∀ uid p, p ∈ items (SerialHistory.final ListCall.exec calls users) uid "favorites" ↔
      (p ∈ items users uid "favorites" ↔
        Even (succeeded (.updateFavorites p) uid
          (SerialHistory.answers ListCall.exec calls users)))) ∧
    (∀ uid p, p ∈ items (SerialHistory.final ListCall.exec calls users) uid "recommended" ↔
      (p ∈ items users uid "recommended" ↔
        Even (succeeded (.updateRecommended p) uid
          (SerialHistory.answers ListCall.exec calls users)))) ∧
    ∀ before call after, calls = before ++ call :: after →
      (call.exec (SerialHistory.final ListCall.exec before users)).1 = false →
      ∀ id key, items (call.exec (SerialHistory.final ListCall.exec before users)).2 id key =
        items (SerialHistory.final ListCall.exec before users) id key := by
  refine ⟨fun uid p => ?_, fun uid p => ?_, ?_⟩
  · have hflip := flip_history uid "favorites" p (fun op => edit_favorites) calls users h
    rw [succeeded_favorites] at hflip
    exact hflip
  · have hflip := flip_history uid "recommended" p (fun op => edit_recommended) calls users h
    rw [succeeded_recommended] at hflip
    exact hflip
  · intro before call after _ hfalse id key
    rw [exec_eq] at hfalse ⊢
    rw [runTransaction, SerialHistory.atomically_of_false hfalse]

/-- A new document, a failed call on its other list, and two more toggles. -/
def threeToggles : List ListCall :=
  [{ id := "u1", op := .updateFavorites (some "B0009KF58I") },
    { id := "u1", op := .updateRecommended (some "B010TQY7A8") },
    { id := "u1", op := .updateFavorites (some "B0009KF58I") },
    { id := "u1", op := .updateFavorites (some "B0009KF58I") }]

theorem toggles_not_lost_run :
    (SerialHistory.answers ListCall.exec threeToggles fun _ => none).map Prod.snd =
        [true, false, true, true] ∧
      some "B0009KF58I" ∈
        items (SerialHistory.final ListCall.exec threeToggles fun _ => none) "u1" "favorites" := by
  have hnone : ListsOrMissing fun _ => none := by
    intro key _ id d s hd
    cases hd
  have hparity := (toggles_not_lost (fun _ => none) threeToggles hnone).1 "u1" (some "B0009KF58I")
  refine ⟨by decide, ?_⟩
  rw [hparity]
  decide

end GiftGenie.ListHistories
