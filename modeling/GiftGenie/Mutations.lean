import GiftGenie.Firestore
import GiftGenie.Library.VersionedStore

/-!
# Mutations

The Firestore client turns `set` and `update` into mutations before it sends them: the plain values
of the data become a set or a patch mutation, and the `FieldValue`s a transform mutation after it.
Each mutation has a precondition on the document it is for.  This file follows the client's own code
for both, and for what a committed mutation makes of a document.

`applyAll_updateMutations`: an `update` that carries one array transform edits one field, as
`arrayUnion` and `arrayRemove` do.
-/

set_option autoImplicit false

namespace GiftGenie.Mutations

open GiftGenie.Library GiftGenie.Library.VersionedStore GiftGenie.Firestore

/-- The documents of the server.  Versions are `SnapshotVersion`s, and `none` is
`SnapshotVersion::None()`. -/
abbrev Server := Store String Doc

/-! ### Preconditions -/

inductive Precondition where
  | none
  | exists (b : Bool)
  | updateTime (version : Option ℕ)
  deriving DecidableEq, Repr

/-- `IsValidFor`, as the server checks it: the update time `None()` asks for a document that does not
exist. -/
def Precondition.isValidFor : Precondition → Option (ℕ × Doc) → Bool
  | .none, _ => true
  | .exists b, e => e.isSome == b
  | .updateTime v, e => decide (version e = v)

/-! ### Array transforms -/

inductive TransformType where
  | arrayUnion
  | arrayRemove
  deriving DecidableEq, Repr

structure ArrayTransform where
  type : TransformType
  elements : List DString
  deriving DecidableEq, Repr

/-- What is not an array is coerced to the empty one. -/
def coercedFieldValuesArray : Option Value → List DString
  | some (.list xs) => xs
  | _ => []

def ArrayTransform.edit (t : ArrayTransform) (result : List DString) (element : DString) :
    List DString :=
  match t.type with
  | .arrayUnion => ListSet.union result element
  | .arrayRemove => ListSet.without result element

/-- `Apply`. -/
def ArrayTransform.apply (t : ArrayTransform) (previousValue : Option Value) : Value :=
  .list (t.elements.foldl t.edit (coercedFieldValuesArray previousValue))

/-! ### Data of a write -/

/-- A value of the map that `set` or `update` is given. -/
inductive FieldData where
  | value (v : Value)
  | arrayUnion (elements : List DString)
  | arrayRemove (elements : List DString)
  deriving DecidableEq, Repr

/-- What the converter makes of the map: `ParsedSetData` and `ParsedUpdateData`. -/
structure ParsedData where
  data : Doc
  fieldMask : List String
  fieldTransforms : List (String × ArrayTransform)

/-- A `FieldValue` goes to the transforms, any other value to the data and the mask. -/
def ParsedData.parseField (p : ParsedData) : String × FieldData → ParsedData
  | (key, .value v) => { p with data := putField p.data key v, fieldMask := p.fieldMask ++ [key] }
  | (key, .arrayUnion elements) =>
      { p with fieldTransforms := p.fieldTransforms ++ [(key, ⟨.arrayUnion, elements⟩)] }
  | (key, .arrayRemove elements) =>
      { p with fieldTransforms := p.fieldTransforms ++ [(key, ⟨.arrayRemove, elements⟩)] }

def parseData (input : List (String × FieldData)) : ParsedData :=
  input.foldl ParsedData.parseField ⟨fun _ => none, [], []⟩

/-! ### Mutations -/

inductive Mutation where
  | set (key : String) (value : Doc) (precondition : Precondition)
  | patch (key : String) (fieldMask : List String) (value : Doc) (precondition : Precondition)
  | transform (key : String) (fieldTransforms : List (String × ArrayTransform))
  | delete (key : String) (precondition : Precondition)

def Mutation.key : Mutation → String
  | .set key _ _ => key
  | .patch key _ _ _ => key
  | .transform key _ => key
  | .delete key _ => key

/-- A transform always comes after a set or a patch and asks that the document exists. -/
def Mutation.precondition : Mutation → Precondition
  | .set _ _ precondition => precondition
  | .patch _ _ _ precondition => precondition
  | .transform _ _ => .exists true
  | .delete _ precondition => precondition

/-- Each field of the mask takes its value, or goes where there is none. -/
def patchObjectValue (fieldMask : List String) (value : Doc) (d : Doc) : Doc :=
  fieldMask.foldl (fun result key => Function.update result key (value key)) d

def transformObject (fieldTransforms : List (String × ArrayTransform)) (d : Doc) : Doc :=
  fieldTransforms.foldl (fun result t => putField result t.1 (t.2.apply (d t.1))) d

/-- What a committed mutation makes of the document. -/
def Mutation.applyToRemoteDocument : Mutation → Option Doc → Option Doc
  | .set _ value _, _ => some value
  | .patch _ fieldMask value _, doc =>
      some (patchObjectValue fieldMask value (doc.getD fun _ => none))
  | .transform _ fieldTransforms, doc => doc.map (transformObject fieldTransforms)
  | .delete _ _, _ => none

def applyAll (mutations : List Mutation) (doc : Option Doc) : Option Doc :=
  mutations.foldl (fun doc m => m.applyToRemoteDocument doc) doc

/-- The transform mutation, where there is anything to transform. -/
def ParsedData.transformMutations (p : ParsedData) (key : String) : List Mutation :=
  if p.fieldTransforms.isEmpty then [] else [.transform key p.fieldTransforms]

/-- `ParsedSetData::ToMutations`, without merge. -/
def setMutations (key : String) (input : List (String × FieldData)) (precondition : Precondition) :
    List Mutation :=
  .set key (parseData input).data precondition :: (parseData input).transformMutations key

/-- `ParsedUpdateData::ToMutations`. -/
def updateMutations (key : String) (input : List (String × FieldData))
    (precondition : Precondition) : List Mutation :=
  .patch key (parseData input).fieldMask (parseData input).data precondition ::
    (parseData input).transformMutations key

theorem key_of_mem_transformMutations {p : ParsedData} {key : String} {m : Mutation}
    (h : m ∈ p.transformMutations key) : m.key = key := by
  unfold ParsedData.transformMutations at h
  split at h
  · cases h
  · rw [List.mem_singleton.mp h]
    rfl

theorem key_of_mem_setMutations {key : String} {input : List (String × FieldData)}
    {precondition : Precondition} {m : Mutation} (h : m ∈ setMutations key input precondition) :
    m.key = key := by
  rcases List.mem_cons.mp h with h | h
  · rw [h]
    rfl
  · exact key_of_mem_transformMutations h

theorem key_of_mem_updateMutations {key : String} {input : List (String × FieldData)}
    {precondition : Precondition} {m : Mutation} (h : m ∈ updateMutations key input precondition) :
    m.key = key := by
  rcases List.mem_cons.mp h with h | h
  · rw [h]
    rfl
  · exact key_of_mem_transformMutations h

/-! ### One list field -/

/-- The `FieldValue` with one element. -/
def TransformType.fieldData : TransformType → DString → FieldData
  | .arrayUnion, x => .arrayUnion [x]
  | .arrayRemove, x => .arrayRemove [x]

/-- The edit of a field that the `FieldValue` stands for. -/
def TransformType.onField : TransformType → Value → DString → Value
  | .arrayUnion => Firestore.arrayUnion
  | .arrayRemove => Firestore.arrayRemove

/-- A transform of one element is the edit of the field. -/
theorem apply_singleton (t : TransformType) (d : Doc) (key : String) (x : DString) :
    ArrayTransform.apply ⟨t, [x]⟩ (d key) = t.onField (field d key) x := by
  have hfield : field d key = (d key).getD .null := rfl
  rw [hfield]
  cases t <;> rcases d key with _ | v <;> try rcases v with _ | s | xs
  all_goals rfl

theorem applyAll_updateMutations (t : TransformType) (id key : String) (x : DString)
    (precondition : Precondition) (d : Doc) :
    applyAll (updateMutations id [(key, t.fieldData x)] precondition) (some d) =
      some (putField d key (t.onField (field d key) x)) := by
  have happly := apply_singleton t d key x
  cases t with
  | arrayUnion => exact congrArg (fun v => some (putField d key v)) happly
  | arrayRemove => exact congrArg (fun v => some (putField d key v)) happly

/-- The data of one plain field is the document with this field. -/
theorem applyAll_setMutations (id key : String) (v : Value) (precondition : Precondition)
    (doc : Option Doc) :
    applyAll (setMutations id [(key, .value v)] precondition) doc = some (docOf [(key, v)]) := by
  have hdoc : putField (fun _ => none) key v = docOf [(key, v)] := by
    funext key'
    by_cases hk : key' = key
    · subst hk
      simp [putField, docOf]
    · have hbeq : (key' == key) = false := by simpa using hk
      simp [putField, docOf, Function.update_of_ne hk, List.lookup_cons, hbeq]
  exact congrArg some hdoc

end GiftGenie.Mutations
