import GiftGenie.Contacts

/-!
# Calls on different lists or elements commute

A client does not wait for the transactions it starts, so Firestore may commit them in any order.
Two calls are `Independent` if they differ in document, in list field or in element.  Independent
calls on documents that exist commute up to the order of the elements inside the lists.

The proof goes through the *slots* of the store: the value under one key of one document.  On a
document that exists a call reads and writes exactly one slot (`exec_slot`), so the
store can be compared slot by slot.
-/

set_option autoImplicit false

namespace GiftGenie.CommutingCalls

open GiftGenie.Library GiftGenie.Firestore GiftGenie.ListTransactions GiftGenie.ListHistories
open GiftGenie.Contacts

/-- One key of one document: `none` without the document, `some none` without the key. -/
abbrev Slot := Option (Option Value)

def slot (users : Collection) (id key : String) : Slot := (users id).map fun d => d key

/-- Equal, or lists with the same elements in another order. -/
def SameSlot : Slot → Slot → Prop
  | some (some (.list xs)), some (some (.list ys)) => xs.Perm ys
  | a, b => a = b

/-- The same documents with the same fields, up to the order of the elements inside the lists. -/
def SameStore (users users' : Collection) : Prop :=
  ∀ id key, SameSlot (slot users id key) (slot users' id key)

/-- No two of the same document, list field and element. -/
def Independent (c d : ListCall) : Prop :=
  c.id ≠ d.id ∨ c.op.key ≠ d.op.key ∨ c.op.element ≠ d.op.element

/-- The addressed document exists; its list field is present or missing. -/
def Addressed (c : ListCall) (users : Collection) : Prop :=
  ∃ d, users c.id = some d ∧ ∀ s, field d c.op.key ≠ .str s

/-! ### What a call does to its slot -/

/-- What the call answers, given its slot. -/
def answer (c : ListCall) : Slot → Bool
  | some (some (.list _)) => c.served
  | _ => false

/-- What the call makes of its slot. -/
def effect (c : ListCall) : Slot → Slot
  | some (some (.list xs)) =>
      if c.served then some (some (.list (c.op.edit.onList xs c.op.element)))
      else some (some (.list xs))
  | v => v

theorem slot_setDoc_putField {users : Collection} {id key : String} {d : Doc} {v : Value}
    (hd : users id = some d) (id' key' : String) :
    slot (setDoc users id (putField d key v)) id' key' =
      if id' = id ∧ key' = key then some (some v) else slot users id' key' := by
  by_cases hid : id' = id
  · subst hid
    by_cases hkey : key' = key
    · simp [slot, putField, hkey]
    · simp [slot, putField, hkey, hd]
  · simp [slot, setDoc_ne hid, hid]

/-- On a document that exists, a call is a function of its own slot. -/
theorem exec_slot (c : ListCall) {users : Collection} (h : Addressed c users) :
    (c.exec users).1 = answer c (slot users c.id c.op.key) ∧
      ∀ id key, slot (c.exec users).2 id key =
        if id = c.id ∧ key = c.op.key then effect c (slot users id key) else slot users id key := by
  obtain ⟨d, hd, hstr⟩ := h
  have hslot : slot users c.id c.op.key = some (d c.op.key) := by simp [slot, hd]
  rw [exec_eq, hslot]
  cases hk : field d c.op.key with
  | str s => exact absurd hk (hstr s)
  | null =>
    rw [runTransaction, SerialHistory.atomically_error
      (listTransaction_missing c.op.edit c.op.element hd hk)]
    have hkey := apply_of_field_null hk
    refine ⟨by rcases hkey with h | h <;> simp [answer, h], fun id key => ?_⟩
    split
    · rename_i hcond
      rw [hcond.1, hcond.2, hslot]
      rcases hkey with h | h <;> simp [effect, h]
    · rfl
  | list xs =>
    have hv : d c.op.key = some (.list xs) := apply_of_field hk (by simp)
    cases hserved : c.served with
    | false =>
      refine ⟨by simp [runTransaction, SerialHistory.atomically, answer, hv, hserved], ?_⟩
      intro id key
      show slot users id key = _
      split
      · rename_i hcond
        rw [hcond.1, hcond.2, hslot, hv]
        simp [effect, hserved]
      · rfl
    | true =>
      rw [runTransaction, SerialHistory.atomically_ok
        (listTransaction_list c.op.edit c.op.element hd hk)]
      refine ⟨by simp [answer, hv, hserved], fun id key => ?_⟩
      rw [slot_setDoc_putField hd]
      by_cases hcond : id = c.id ∧ key = c.op.key
      · rw [if_pos hcond, if_pos hcond, hcond.1, hcond.2, hslot, hv]
        simp [effect, hserved]
      · rw [if_neg hcond, if_neg hcond]

/-- A slot is a list, or nothing happens to it. -/
theorem slot_cases (v : Slot) :
    (∃ xs, v = some (some (.list xs))) ∨ ∀ c, answer c v = false ∧ effect c v = v := by
  rcases v with _ | _ | _ | s | xs
  · exact Or.inr fun c => ⟨rfl, rfl⟩
  · exact Or.inr fun c => ⟨rfl, rfl⟩
  · exact Or.inr fun c => ⟨rfl, rfl⟩
  · exact Or.inr fun c => ⟨rfl, rfl⟩
  · exact Or.inl ⟨xs, rfl⟩

/-! ### Slots up to reordering -/

theorem sameSlot_refl (v : Slot) : SameSlot v v := by
  rcases v with _ | _ | _ | s | xs
  · rfl
  · rfl
  · rfl
  · rfl
  · exact List.Perm.refl xs

/-- Two slots that are not both lists are the same only if they are equal. -/
theorem SameSlot.cases {v w : Slot} (h : SameSlot v w) :
    v = w ∨ ∃ xs ys, v = some (some (.list xs)) ∧ w = some (some (.list ys)) ∧ xs.Perm ys := by
  unfold SameSlot at h
  split at h
  · rename_i xs ys
    exact Or.inr ⟨xs, ys, rfl, rfl, h⟩
  · exact Or.inl h

theorem SameSlot.trans {u v w : Slot} (huv : SameSlot u v) (hvw : SameSlot v w) : SameSlot u w := by
  rcases huv.cases with rfl | ⟨xs, ys, rfl, rfl, hxy⟩
  · exact hvw
  · rcases hvw.cases with rfl | ⟨ys', zs, hy, rfl, hyz⟩
    · exact hxy
    · cases hy
      exact hxy.trans hyz

/-- An edit gives its element the membership it asks for, given the one it has. -/
theorem onList_eq_assign (edit : ListEdit) (xs : List DString) (x : DString) :
    edit.onList xs x = ListSet.assign (match edit with
      | .extend => true
      | .shrink => false
      | .flip => decide (x ∉ xs)) xs x := by
  cases edit with
  | extend => rfl
  | shrink => rfl
  | flip => by_cases hx : x ∈ xs <;> simp [ListEdit.onList, ListSet.toggle, ListSet.assign, hx]

theorem onList_perm (edit : ListEdit) {xs ys : List DString} (h : xs.Perm ys) (x : DString) :
    (edit.onList xs x).Perm (edit.onList ys x) := by
  rw [onList_eq_assign, onList_eq_assign]
  cases edit with
  | extend => exact ListSet.assign_perm _ h x
  | shrink => exact ListSet.assign_perm _ h x
  | flip =>
    have hmem : decide (x ∉ xs) = decide (x ∉ ys) := by simp [h.mem_iff]
    show (ListSet.assign (decide (x ∉ xs)) xs x).Perm (ListSet.assign (decide (x ∉ ys)) ys x)
    rw [hmem]
    exact ListSet.assign_perm _ h x

/-- Edits at different elements commute up to the order of the list. -/
theorem onList_onList_perm (e f : ListEdit) (xs : List DString) {x y : DString} (hxy : x ≠ y) :
    (f.onList (e.onList xs x) y).Perm (e.onList (f.onList xs y) x) := by
  rw [onList_eq_assign f (e.onList xs x), onList_eq_assign e (f.onList xs y),
    onList_eq_assign e xs, onList_eq_assign f xs]
  simp only [ListSet.mem_assign_ne _ hxy, ListSet.mem_assign_ne _ hxy.symm]
  exact ListSet.assign_assign_perm _ _ xs hxy

theorem answer_congr (c : ListCall) {v w : Slot} (h : SameSlot v w) : answer c v = answer c w := by
  rcases h.cases with rfl | ⟨xs, ys, rfl, rfl, -⟩
  · rfl
  · rfl

theorem effect_congr (c : ListCall) {v w : Slot} (h : SameSlot v w) :
    SameSlot (effect c v) (effect c w) := by
  rcases h.cases with rfl | ⟨xs, ys, rfl, rfl, hp⟩
  · exact sameSlot_refl _
  · cases hc : c.served with
    | false => simpa [effect, hc, SameSlot] using hp
    | true => simpa [effect, hc, SameSlot] using onList_perm c.op.edit hp c.op.element

/-- A call does not decide whether a slot holds a list. -/
theorem answer_effect (c d : ListCall) (v : Slot) : answer d (effect c v) = answer d v := by
  rcases slot_cases v with ⟨xs, rfl⟩ | hv
  · cases hc : c.served <;> simp [effect, answer, hc]
  · rw [(hv c).2]

theorem effect_effect (c d : ListCall) (v : Slot) (h : c.op.element ≠ d.op.element) :
    SameSlot (effect d (effect c v)) (effect c (effect d v)) := by
  rcases slot_cases v with ⟨xs, rfl⟩ | hv
  · cases hc : c.served <;> cases hd : d.served
    · simp [effect, hc, hd, SameSlot]
    · simp [effect, hc, hd, SameSlot]
    · simp [effect, hc, hd, SameSlot]
    · simpa [effect, hc, hd, SameSlot] using onList_onList_perm c.op.edit d.op.edit xs h
  · rw [(hv c).2, (hv d).2, (hv c).2]
    exact sameSlot_refl v

/-! ### Commit orders -/

theorem addressed_iff_slot {c : ListCall} {users : Collection} :
    Addressed c users ↔ ∃ v, slot users c.id c.op.key = some v ∧ ∀ s, v ≠ some (.str s) := by
  cases hd : users c.id with
  | none => simp [Addressed, slot, hd]
  | some d =>
    simp only [Addressed, slot, hd, Option.map_some, Option.some.injEq, exists_eq_left']
    refine forall_congr' fun s => not_congr ⟨fun h => ?_, fun h => ?_⟩
    · exact apply_of_field h (by simp)
    · rw [field, h]
      rfl

theorem addressed_congr {c : ListCall} {users users' : Collection} (h : SameStore users users')
    (hc : Addressed c users) : Addressed c users' := by
  obtain ⟨v, hv, hstr⟩ := addressed_iff_slot.mp hc
  have hsame := h c.id c.op.key
  rw [hv] at hsame
  rcases hsame.cases with heq | ⟨xs, ys, -, hys, -⟩
  · exact addressed_iff_slot.mpr ⟨v, heq.symm, hstr⟩
  · exact addressed_iff_slot.mpr ⟨_, hys, by simp⟩

theorem addressed_exec {c d : ListCall} {users : Collection} (hc : Addressed c users)
    (hd : Addressed d users) : Addressed c (d.exec users).2 := by
  obtain ⟨v, hv, hstr⟩ := addressed_iff_slot.mp hc
  rw [addressed_iff_slot, (exec_slot d hd).2, hv]
  split
  · rcases slot_cases (some v) with ⟨xs, hxs⟩ | hnot
    · rw [hxs]
      cases hs : d.served <;> simp [effect, hs]
    · exact ⟨v, (hnot d).2, hstr⟩
  · exact ⟨v, rfl, hstr⟩

theorem sameStore_refl (users : Collection) : SameStore users users :=
  fun _ _ => sameSlot_refl _

/-- Independent calls on existing documents do not read what the other writes, and write slots that
agree up to order. -/
theorem exec_commutes : SerialHistory.Commutes ListCall.exec Addressed SameStore Independent where
  refl := sameStore_refl
  trans := fun h₁ h₂ id key => (h₁ id key).trans (h₂ id key)
  dom_congr := addressed_congr
  dom_exec := addressed_exec
  congr := by
    intro c s t hst hc
    have hct := addressed_congr hst hc
    rw [(exec_slot c hc).1, (exec_slot c hct).1]
    refine ⟨answer_congr c (hst _ _), fun id key => ?_⟩
    rw [(exec_slot c hc).2, (exec_slot c hct).2]
    split
    · exact effect_congr c (hst id key)
    · exact hst id key
  symm_independent := by
    intro c d h
    rcases h with h | h | h
    · exact Or.inl h.symm
    · exact Or.inr (Or.inl h.symm)
    · exact Or.inr (Or.inr h.symm)
  answer := by
    intro c d s _ hc hd
    rw [(exec_slot d (addressed_exec hd hc)).1, (exec_slot d hd).1, (exec_slot c hc).2]
    split
    · exact answer_effect c d _
    · rfl
  swap := by
    intro c d s hind hc hd id key
    rw [(exec_slot d (addressed_exec hd hc)).2, (exec_slot c (addressed_exec hc hd)).2,
      (exec_slot c hc).2, (exec_slot d hd).2]
    by_cases hcs : id = c.id ∧ key = c.op.key <;> by_cases hds : id = d.id ∧ key = d.op.key
    · -- both calls write this slot, so they differ in their element
      have helem : c.op.element ≠ d.op.element := by
        rcases hind with h | h | h
        · exact absurd (hcs.1.symm.trans hds.1) h
        · exact absurd (hcs.2.symm.trans hds.2) h
        · exact h
      simp only [if_pos hcs, if_pos hds]
      exact effect_effect c d _ helem
    · simp only [if_pos hcs, if_neg hds]
      exact sameSlot_refl _
    · simp only [if_neg hcs, if_pos hds]
      exact sameSlot_refl _
    · simp only [if_neg hcs, if_neg hds]
      exact sameSlot_refl _

/-- **Independent calls commute.**  On a store in which the addressed documents exist, with their
list fields present or missing, all commit orders of pairwise independent calls give every call the
same answer and the same store up to the order inside the lists.  The two transactions of an
accepted request are a case of it. -/
theorem calls_commute (users : Collection) :
    (∀ calls calls' : List ListCall, calls.Perm calls' → calls.Pairwise Independent →
      (∀ c ∈ calls, Addressed c users) →
        (SerialHistory.answers ListCall.exec calls users).Perm
            (SerialHistory.answers ListCall.exec calls' users) ∧
          SameStore (SerialHistory.final ListCall.exec calls users)
            (SerialHistory.final ListCall.exec calls' users)) ∧
    ∀ userIndex uid, (∀ c ∈ acceptReq userIndex uid, Addressed c users) →
      (SerialHistory.answers ListCall.exec (acceptReq userIndex uid) users).Perm
          (SerialHistory.answers ListCall.exec (acceptReq userIndex uid).reverse users) ∧
        SameStore (SerialHistory.final ListCall.exec (acceptReq userIndex uid) users)
          (SerialHistory.final ListCall.exec (acceptReq userIndex uid).reverse users) := by
  refine ⟨fun calls calls' hp hind haddr => ?_, fun userIndex uid haddr => ?_⟩
  · exact SerialHistory.history_perm exec_commutes hp users hind haddr
  · have hind : (acceptReq userIndex uid).Pairwise Independent := by
      simp [acceptReq, Independent, ListOp.key, modeField]
    exact SerialHistory.history_perm exec_commutes (List.reverse_perm _).symm users hind haddr

/-- A user with both contact lists accepts a request. -/
theorem calls_commute_accept :
    SameStore
      (SerialHistory.final ListCall.exec (acceptReq (some "u2") "u1")
        (setDoc (fun _ => none) "u1" (docOf [("friends", .list []), ("invitations", .list [some "u2"])])))
      (SerialHistory.final ListCall.exec (acceptReq (some "u2") "u1").reverse
        (setDoc (fun _ => none) "u1"
          (docOf [("friends", .list []), ("invitations", .list [some "u2"])]))) := by
  refine ((calls_commute _).1 _ _ (List.reverse_perm _).symm ?_ ?_).2
  · simp [acceptReq, Independent, ListOp.key, modeField]
  · intro c hc
    simp only [acceptReq, List.mem_cons, List.not_mem_nil, or_false] at hc
    rcases hc with rfl | rfl
    · refine ⟨_, setDoc_self _ _ _, fun s => ?_⟩
      simp [field, docOf, ListOp.key, modeField]
    · refine ⟨_, setDoc_self _ _ _, fun s => ?_⟩
      simp [field, docOf, List.lookup_cons, ListOp.key, modeField]

end GiftGenie.CommutingCalls
