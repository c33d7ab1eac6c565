import GiftGenie.Library.ListSet
import GiftGenie.Library.SerialHistory
import Mathlib.Data.List.Infix
import Mathlib.Logic.Function.Basic

/-!
# Documents of the Firestore collections

The application keeps its records in the collections `Users` and `UserEmails` and reads them
through dynamically typed maps.  This file fixes the values such a map holds, reading a key
(`data[key]`), the conversions that Dart inserts where a dynamic value meets a typed variable, and
the two `FieldValue`s that edit a list on the server.

A collection is the map of its documents.  Transactions on it are serialised, so one call is
modelled by the collection before and after it.
-/

set_option autoImplicit false

namespace GiftGenie.Firestore

open GiftGenie.Library

/-- A Dart `String` variable; `none` is `null`. -/
abbrev DString := Option String

/-- The values the application stores under a key. -/
inductive Value where
  | null
  | str (s : String)
  | list (xs : List DString)
  deriving DecidableEq, Repr

/-- The data of a document: `none` where the map has no such key. -/
abbrev Doc := String → Option Value

/-- A collection: `none` where the document does not exist. -/
abbrev Collection := String → Option Doc

/-- The two exceptions the reads and transactions run into. -/
inductive DartError where
  | noSuchMethod
  | typeError
  deriving DecidableEq, Repr

@[simp] theorem ok_bind {α β : Type} (a : α) (f : α → Except DartError β) :
    (Except.ok a >>= f) = f a := rfl

/-- A sequence of reads succeeds if each of them does. -/
theorem bind_eq_ok {α β : Type} {x : Except DartError α} {f : α → Except DartError β} {b : β} :
    (x >>= f) = .ok b ↔ ∃ a, x = .ok a ∧ f a = .ok b := by
  cases x with
  | error e => exact iff_of_false nofun fun ⟨_, h, _⟩ => nomatch h
  | ok a => exact ⟨fun h => ⟨a, rfl, h⟩, fun ⟨_, ha, h⟩ => Except.ok.inj ha ▸ h⟩

/-- A map literal as the data of a document. -/
def docOf (entries : List (String × Value)) : Doc := fun key => entries.lookup key

/-- `data[key]`: an absent key reads as `null`. -/
def field (d : Doc) (key : String) : Value := (d key).getD .null

/-- Write one field of a document. -/
def putField (d : Doc) (key : String) (v : Value) : Doc := Function.update d key (some v)

/-- Write one document of a collection, `setData` and `tx.set`. -/
def setDoc (c : Collection) (id : String) (d : Doc) : Collection := Function.update c id (some d)

@[simp] theorem setDoc_self (c : Collection) (id : String) (d : Doc) : setDoc c id d id = some d := by
  rw [setDoc, Function.update_self]

theorem setDoc_ne {c : Collection} {id id' : String} {d : Doc} (h : id' ≠ id) :
    setDoc c id d id' = c id' := by
  rw [setDoc, Function.update_of_ne h]

@[simp] theorem field_putField_self (d : Doc) (key : String) (v : Value) :
    field (putField d key v) key = v := by
  simp [field, putField]

theorem field_putField_ne {d : Doc} {key key' : String} {v : Value} (h : key' ≠ key) :
    field (putField d key v) key' = field d key' := by
  rw [field, putField, Function.update_of_ne h, field]

theorem field_docOf_single (key key' : String) (v : Value) :
    field (docOf [(key, v)]) key' = if key' = key then v else .null := by
  by_cases hk : key' = key
  · simp [field, docOf, hk]
  · have hbeq : (key' == key) = false := by simpa using hk
    simp [field, docOf, List.lookup_cons, hbeq, hk]

/-- A field that does not read as `null` is there. -/
theorem apply_of_field {d : Doc} {key : String} {v : Value} (h : field d key = v) (hv : v ≠ .null) :
    d key = some v := by
  cases hk : d key with
  | none =>
    rw [field, hk] at h
    exact absurd h.symm hv
  | some w =>
    rw [field, hk] at h
    exact congrArg some h

theorem apply_of_field_null {d : Doc} {key : String} (h : field d key = .null) :
    d key = none ∨ d key = some .null := by
  cases hk : d key with
  | none => exact Or.inl rfl
  | some w =>
    rw [field, hk] at h
    exact Or.inr (congrArg some h)

/-- Writing back what a field holds changes nothing. -/
theorem putField_field {d : Doc} {key : String} (h : field d key ≠ .null) :
    putField d key (field d key) = d := by
  rw [putField, Function.update_eq_self_iff]
  exact (apply_of_field rfl h).symm

/-! ### Snapshots -/

/-- What `ds[key]` does where the document `ds` was read from does not exist: the versions of the
plugin differ. -/
inductive MissingRead where
  | givesNull
  | throws
  deriving DecidableEq, Repr

/-- `collection.document(path).get()`.  A `null` path names a new document, which does not exist. -/
def getDocument (c : Collection) (path : DString) : Option Doc := path.bind c

/-- `ds[key]` on a snapshot. -/
def readKey (m : MissingRead) (ds : Option Doc) (key : String) : Except DartError Value :=
  match ds, m with
  | some d, _ => .ok (field d key)
  | none, .givesNull => .ok .null
  | none, .throws => .error .noSuchMethod

@[simp] theorem readKey_some (m : MissingRead) (d : Doc) (key : String) :
    readKey m (some d) key = .ok (field d key) := rfl

/-- What is read and is not `null` was read from a document. -/
theorem field_of_read {m : MissingRead} {ds : Option Doc} {key : String} {v : Value}
    (h : readKey m ds key = .ok v) (hv : v ≠ .null) : ∃ d, ds = some d ∧ field d key = v := by
  cases ds with
  | some d => exact ⟨d, rfl, Except.ok.inj h⟩
  | none =>
    cases m with
    | givesNull => exact absurd (Except.ok.inj h).symm hv
    | throws => exact nomatch h

/-- Assign a dynamic value to a variable of type `String`. -/
def asString : Value → Except DartError DString
  | .null => .ok none
  | .str s => .ok (some s)
  | .list _ => .error .typeError

theorem str_of_asString {v : Value} {s : String} (h : asString v = .ok (some s)) : v = .str s := by
  cases v with
  | null => exact nomatch h
  | str t => exact congrArg Value.str (Option.some.inj (Except.ok.inj h))
  | list xs => exact nomatch h

/-- Assign a dynamic value to a variable of type `List<dynamic>` and take its length: `null` has
none. -/
def asList : Value → Except DartError (List DString)
  | .list xs => .ok xs
  | .null => .error .noSuchMethod
  | .str _ => .error .typeError

/-- Only a list is assigned and used as one. -/
theorem list_of_asList {v : Value} {xs : List DString} (h : asList v = .ok xs) : v = .list xs := by
  cases v with
  | null => exact nomatch h
  | str s => exact nomatch h
  | list ys => exact congrArg Value.list (Except.ok.inj h)

/-! ### Lists on the server -/

/-- `FieldValue.arrayUnion([x])`: what is not a list is overwritten by one. -/
def arrayUnion (v : Value) (x : DString) : Value :=
  match v with
  | .list xs => .list (ListSet.union xs x)
  | _ => .list [x]

/-- `FieldValue.arrayRemove([x])`: every occurrence goes; what is not a list becomes the empty
one. -/
def arrayRemove (v : Value) (x : DString) : Value :=
  match v with
  | .list xs => .list (ListSet.without xs x)
  | _ => .list []

/-- `value.contains(x)` on a dynamic value: the method of lists, the one of strings, or none. -/
def contains (v : Value) (x : DString) : Except DartError Bool :=
  match v, x with
  | .list xs, x => .ok (decide (x ∈ xs))
  | .str s, some t => .ok (decide (t.toList <:+: s.toList))
  | .str _, none => .error .typeError
  | .null, _ => .error .noSuchMethod

/-- The elements of a list field, none where the document or the list is missing. -/
def items (c : Collection) (id key : String) : List DString :=
  match c id with
  | some d => match field d key with
    | .list xs => xs
    | _ => []
  | none => []

/-- A field holds a list or nothing, in every document of the collection. -/
def ListOrMissing (c : Collection) (key : String) : Prop :=
  ∀ id d s, c id = some d → field d key ≠ .str s

/-- Writing a document whose field is a list or nothing. -/
theorem listOrMissing_setDoc {c : Collection} {key id : String} {d : Doc} (h : ListOrMissing c key)
    (hd : ∀ s, field d key ≠ .str s) : ListOrMissing (setDoc c id d) key := by
  intro id' d' s hid'
  by_cases hid : id' = id
  · subst hid
    rw [setDoc_self] at hid'
    cases hid'
    exact hd s
  · rw [setDoc_ne hid] at hid'
    exact h id' d' s hid'

theorem items_of_list {c : Collection} {id key : String} {d : Doc} {xs : List DString}
    (hd : c id = some d) (hf : field d key = .list xs) : items c id key = xs := by
  simp only [items, hd, hf]

/-- A list that was read from a snapshot is the stored one. -/
theorem items_of_read {m : MissingRead} {c : Collection} {id key : String} {xs : List DString}
    (h : readKey m (c id) key >>= asList = .ok xs) : items c id key = xs := by
  obtain ⟨v, hv, hlist⟩ := bind_eq_ok.mp h
  rw [list_of_asList hlist] at hv
  obtain ⟨d, hd, hf⟩ := field_of_read hv nofun
  exact items_of_list hd hf

/-- What is in a list field was read from a document that has the list. -/
theorem exists_list_of_mem {c : Collection} {id key : String} {x : DString}
    (h : x ∈ items c id key) : ∃ d xs, c id = some d ∧ field d key = .list xs ∧ x ∈ xs := by
  unfold items at h
  split at h
  · rename_i d hd
    split at h
    · rename_i xs hf
      exact ⟨d, xs, hd, hf, h⟩
    · cases h
  · cases h

theorem items_of_absent {c : Collection} {id key : String} (h : c id = none) :
    items c id key = [] := by
  simp only [items, h]

/-- Writing one document leaves the lists of the others alone. -/
theorem items_setDoc_ne {c : Collection} {id id' key : String} {d : Doc} (h : id' ≠ id) :
    items (setDoc c id d) id' key = items c id' key := by
  simp only [items, setDoc_ne h]

end GiftGenie.Firestore
