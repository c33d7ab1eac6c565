import GiftGenie.MutationQueue
import Mathlib.Order.WithBot

/-!
# Documents with local writes

The client keeps the documents that the server has sent, and shows them with the pending mutations
applied.  This file is the part of the client that makes the one from the other: the kinds of
documents, what a mutation makes of a document before (`applyToLocalDocument`) and after
(`applyToRemoteDocument`) the server has accepted it, and the same for a batch.

* `content_applyToLocalDocument`, `content_applyToRemoteDocument`: both do the same to the contents,
  except that before the acknowledgement a transform reads the document as it was before its batch.
* `steady_of_plain`, `steady_updateMutations`: batches whose acknowledgement changes no contents.
-/

set_option autoImplicit false

namespace GiftGenie.LocalDocuments

open GiftGenie.Firestore GiftGenie.Mutations GiftGenie.MutationQueue

/-- `None()` is before all other versions. -/
abbrev SnapshotVersion := WithBot ℕ

/-- The version that a precondition names. -/
def updateTime (v : Option ℕ) : SnapshotVersion := v

inductive DocumentState where
  | synced
  | localMutations
  | committedMutations
  deriving DecidableEq, Repr

/-- `FSTMaybeDocument` and its classes. -/
inductive MaybeDocument where
  | document (data : Doc) (version : SnapshotVersion) (state : DocumentState)
  | deleted (version : SnapshotVersion) (hasCommittedMutations : Bool)
  | unknown (version : SnapshotVersion)

namespace MaybeDocument

def version : MaybeDocument → SnapshotVersion
  | document _ version _ => version
  | deleted version _ => version
  | unknown version => version

def hasPendingWrites : MaybeDocument → Bool
  | document _ _ state => decide (state ≠ .synced)
  | deleted _ hasCommittedMutations => hasCommittedMutations
  | unknown _ => true

end MaybeDocument

/-- The data, where the document is an `FSTDocument`. -/
def content : Option MaybeDocument → Option Doc
  | some (.document data _ _) => some data
  | _ => none

@[simp] theorem content_document (data : Doc) (version : SnapshotVersion) (state : DocumentState) :
    content (some (.document data version state)) = some data := rfl

/-- `IsValidFor`, as the client checks it. -/
def isValidFor : Precondition → Option MaybeDocument → Bool
  | .none, _ => true
  | .exists true, doc => (content doc).isSome
  | .exists false, none => true
  | .exists false, some (.deleted _ _) => true
  | .exists false, some _ => false
  | .updateTime v, some (.document _ version _) => version = updateTime v
  | .updateTime _, _ => false

/-! ### Mutations of documents -/

def postMutationVersionForDocument : Option MaybeDocument → SnapshotVersion
  | some (.document _ version _) => version
  | _ => ⊥

/-- `patchDocument`. -/
def patchDocument (fieldMask : List String) (value : Doc) (doc : Option Doc) : Doc :=
  patchObjectValue fieldMask value (doc.getD fun _ => none)

/-- `transformObject` with the results for the fields of `baseDoc`. -/
def transformDocument (fieldTransforms : List (String × ArrayTransform)) (baseDoc : Option Doc)
    (data : Doc) : Doc :=
  fieldTransforms.foldl
    (fun result t => putField result t.1 (t.2.apply (baseDoc.bind fun base => base t.1))) data

def applyToLocalDocument (m : Mutation) (maybeDoc baseDoc : Option MaybeDocument) :
    Option MaybeDocument :=
  if isValidFor m.precondition maybeDoc then
    let version := postMutationVersionForDocument maybeDoc
    match m with
    | .set _ value _ => some (.document value version .localMutations)
    | .patch _ fieldMask value _ =>
        some (.document (patchDocument fieldMask value (content maybeDoc)) version .localMutations)
    | .transform _ fieldTransforms =>
        -- the precondition of a transform says that the document exists
        (content maybeDoc).map fun data =>
          .document (transformDocument fieldTransforms (content baseDoc) data) version .localMutations
    | .delete _ _ => some (.deleted ⊥ false)
  else maybeDoc

structure MutationResult where
  version : SnapshotVersion
  transformResults : Option (List Value)

def applyToRemoteDocument (m : Mutation) (maybeDoc : Option MaybeDocument) (result : MutationResult) :
    Except Failure MaybeDocument :=
  match m with
  | .set _ value _ => do
      hardAssert result.transformResults.isNone .transformResults
      return .document value result.version .committedMutations
  | .patch _ fieldMask value precondition => do
      hardAssert result.transformResults.isNone .transformResults
      if isValidFor precondition maybeDoc then
        return .document (patchDocument fieldMask value (content maybeDoc)) result.version
          .committedMutations
      else return .unknown result.version
  | .transform _ fieldTransforms => do
      hardAssert result.transformResults.isSome .transformResults
      match content maybeDoc with
      | none => return .unknown result.version
      | some data =>
          hardAssert ((result.transformResults.getD []).length = fieldTransforms.length)
            .transformResults
          return .document (transformDocument fieldTransforms (some data) data) result.version
            .committedMutations
  | .delete _ _ => do
      hardAssert result.transformResults.isNone .transformResults
      return .deleted result.version true

/-- The result has the form that the server gives it. -/
def Answers (m : Mutation) (result : MutationResult) : Prop :=
  match m with
  | .transform _ fieldTransforms =>
      result.transformResults.isSome ∧
        (result.transformResults.getD []).length = fieldTransforms.length
  | _ => result.transformResults.isNone

instance (m : Mutation) (result : MutationResult) : Decidable (Answers m result) := by
  unfold Answers
  split <;> infer_instance

/-! ### Batches -/

/-- `FSTMutationBatchResult`: the results of a batch, and the version of each document. -/
structure MutationBatchResult where
  batch : MutationBatch
  mutationResults : List MutationResult
  docVersions : String → Option SnapshotVersion

/-- Where two mutations are of one document, the later one counts. -/
def recordVersion (versions : String → Option SnapshotVersion) (p : Mutation × MutationResult) :
    String → Option SnapshotVersion :=
  Function.update versions p.1.key (some p.2.version)

/-- `resultWithBatch`. -/
def MutationBatchResult.resultWithBatch (batch : MutationBatch)
    (mutationResults : List MutationResult) : Except Failure MutationBatchResult := do
  hardAssert (batch.mutations.length = mutationResults.length) .resultsMismatch
  return {
    batch := batch
    mutationResults := mutationResults
    docVersions := (batch.mutations.zip mutationResults).foldl recordVersion fun _ => none }

/-- `applyToLocalDocument` of a batch. -/
def applyBatchToLocalDocument (batch : MutationBatch) (documentKey : String)
    (maybeDoc : Option MaybeDocument) : Option MaybeDocument :=
  batch.mutations.foldl
    (fun doc m => if m.key = documentKey then applyToLocalDocument m doc maybeDoc else doc) maybeDoc

/-- One mutation of a batch, if it is of the document. -/
def applyResult (documentKey : String) (maybeDoc : Option MaybeDocument)
    (p : Mutation × MutationResult) : Except Failure (Option MaybeDocument) :=
  if p.1.key = documentKey then some <$> applyToRemoteDocument p.1 maybeDoc p.2 else pure maybeDoc

/-- `applyToRemoteDocument` of a batch. -/
def applyBatchToRemoteDocument (batch : MutationBatch) (documentKey : String)
    (mutationResults : List MutationResult) (maybeDoc : Option MaybeDocument) :
    Except Failure (Option MaybeDocument) := do
  hardAssert (mutationResults.length = batch.mutations.length) .resultsMismatch
  (batch.mutations.zip mutationResults).foldlM (applyResult documentKey) maybeDoc

theorem applyBatchToLocalDocument_of_not_mem {batch : MutationBatch} {documentKey : String}
    (h : documentKey ∉ batch.keys) (maybeDoc : Option MaybeDocument) :
    applyBatchToLocalDocument batch documentKey maybeDoc = maybeDoc := by
  have hfold : ∀ ms : List Mutation, (∀ m ∈ ms, m.key ≠ documentKey) → ∀ doc,
      ms.foldl (fun doc m => if m.key = documentKey then applyToLocalDocument m doc maybeDoc else doc)
        doc = doc := by
    intro ms
    induction ms with
    | nil => intro _ doc; rfl
    | cons m ms ih =>
      intro hms doc
      obtain ⟨hm, hrest⟩ := List.forall_mem_cons.mp hms
      rw [List.foldl_cons, if_neg hm]
      exact ih hrest doc
  exact hfold _ (fun m hm hk => h (MutationBatch.mem_keys.mpr ⟨m, hm, hk⟩)) maybeDoc

theorem applyToRemoteDocument_ok {m : Mutation} {result : MutationResult} (h : Answers m result)
    (maybeDoc : Option MaybeDocument) :
    ∃ d, applyToRemoteDocument m maybeDoc result = .ok d ∧ d.version = result.version := by
  cases m with
  | set key value precondition =>
    have h : result.transformResults.isNone = true := h
    simp only [applyToRemoteDocument, hardAssert_ok h]
    exact ⟨_, rfl, rfl⟩
  | patch key fieldMask value precondition =>
    have h : result.transformResults.isNone = true := h
    simp only [applyToRemoteDocument, hardAssert_ok h]
    cases isValidFor precondition maybeDoc with
    | true => exact ⟨_, rfl, rfl⟩
    | false => exact ⟨_, rfl, rfl⟩
  | transform key fieldTransforms =>
    obtain ⟨hsome, hlength⟩ := h
    simp only [applyToRemoteDocument, hardAssert_ok hsome]
    cases content maybeDoc with
    | none => exact ⟨_, rfl, rfl⟩
    | some data =>
      simp only [hardAssert_ok hlength]
      exact ⟨_, rfl, rfl⟩
  | delete key precondition =>
    have h : result.transformResults.isNone = true := h
    simp only [applyToRemoteDocument, hardAssert_ok h]
    exact ⟨_, rfl, rfl⟩

theorem applyResults_ok {documentKey : String} :
    ∀ {ps : List (Mutation × MutationResult)}, (∀ p ∈ ps, Answers p.1 p.2) →
      ∀ (doc : Option MaybeDocument) (versions : String → Option SnapshotVersion),
      ∃ doc', ps.foldlM (applyResult documentKey) doc = .ok doc' ∧
        ((∃ p ∈ ps, p.1.key = documentKey) →
          ∃ d, doc' = some d ∧ ps.foldl recordVersion versions documentKey = some d.version) ∧
        ((∀ p ∈ ps, p.1.key ≠ documentKey) →
          doc' = doc ∧ ps.foldl recordVersion versions documentKey = versions documentKey) := by
  intro ps
  induction ps with
  | nil =>
    intro _ doc versions
    exact ⟨doc, rfl, fun ⟨p, hp, _⟩ => absurd hp List.not_mem_nil, fun _ => ⟨rfl, rfl⟩⟩
  | cons p ps ih =>
    intro h doc versions
    obtain ⟨hp, hps⟩ := List.forall_mem_cons.mp h
    by_cases hk : p.1.key = documentKey
    · obtain ⟨d, hd, hversion⟩ := applyToRemoteDocument_ok hp doc
      obtain ⟨doc', hdoc', hsome, hnone⟩ := ih hps (some d) (recordVersion versions p)
      refine ⟨doc', ?_, fun _ => ?_, fun hall => absurd hk (hall p List.mem_cons_self)⟩
      · rw [List.foldlM_cons, applyResult, if_pos hk, hd]
        exact hdoc'
      · by_cases hrest : ∃ q ∈ ps, q.1.key = documentKey
        · exact hsome hrest
        · obtain ⟨hd', hv⟩ := hnone fun q hq hqk => hrest ⟨q, hq, hqk⟩
          refine ⟨d, hd', ?_⟩
          rw [List.foldl_cons, hv, recordVersion, hk, Function.update_self, hversion]
    · obtain ⟨doc', hdoc', hsome, hnone⟩ := ih hps doc (recordVersion versions p)
      refine ⟨doc', ?_, ?_, ?_⟩
      · rw [List.foldlM_cons, applyResult, if_neg hk]
        exact hdoc'
      · rintro ⟨q, hq, hqk⟩
        rcases List.mem_cons.mp hq with hq | hq
        · rw [hq] at hqk
          exact absurd hqk hk
        · exact hsome ⟨q, hq, hqk⟩
      · intro hall
        obtain ⟨hd', hv⟩ := hnone fun q hq => hall q (List.mem_cons_of_mem p hq)
        refine ⟨hd', ?_⟩
        rw [List.foldl_cons, hv, recordVersion, Function.update_of_ne (Ne.symm hk)]

/-- A batch that the server has answered applies to each of its documents, and the version that it
gives the document is the one in the result. -/
theorem applyBatchToRemoteDocument_ok {batch : MutationBatch} {mutationResults : List MutationResult}
    (hlength : batch.mutations.length = mutationResults.length)
    (hanswers : ∀ p ∈ batch.mutations.zip mutationResults, Answers p.1 p.2) {documentKey : String}
    (hkey : documentKey ∈ batch.keys) (maybeDoc : Option MaybeDocument) :
    ∃ d, applyBatchToRemoteDocument batch documentKey mutationResults maybeDoc = .ok (some d) ∧
      (batch.mutations.zip mutationResults).foldl recordVersion (fun _ => none) documentKey =
        some d.version := by
  have hexists : ∃ p ∈ batch.mutations.zip mutationResults, p.1.key = documentKey := by
    obtain ⟨m, hm, hmk⟩ := MutationBatch.mem_keys.mp hkey
    have hfst := List.map_fst_zip (le_of_eq hlength)
    rw [← hfst] at hm
    obtain ⟨p, hp, hpm⟩ := List.mem_map.mp hm
    exact ⟨p, hp, by rw [hpm]; exact hmk⟩
  obtain ⟨doc', hdoc', hsome, -⟩ := applyResults_ok hanswers maybeDoc fun _ => none
  obtain ⟨d, hd, hversion⟩ := hsome hexists
  refine ⟨d, ?_, hversion⟩
  rw [applyBatchToRemoteDocument, hardAssert_ok hlength.symm, ← hd]
  exact hdoc'

/-! ### Contents -/

/-- The mutations that the API makes outside of transactions: a precondition asks at most that the
document of an update exists. -/
def Ordinary : Mutation → Prop
  | .set _ _ precondition => precondition = .none
  | .patch _ _ _ precondition => precondition = .none ∨ precondition = .exists true
  | .transform _ _ => True
  | .delete _ precondition => precondition = .none

/-- What an ordinary mutation makes of the contents, where transforms read the fields of `base`. -/
def effect : Mutation → Option Doc → Option Doc → Option Doc
  | .set _ value _, _, _ => some value
  | .patch _ fieldMask value (.exists true), _, d =>
      d.map fun data => patchDocument fieldMask value (some data)
  | .patch _ fieldMask value _, _, d => some (patchDocument fieldMask value d)
  | .transform _ fieldTransforms, base, d => d.map (transformDocument fieldTransforms base)
  | .delete _ _, _, _ => none

theorem content_applyToLocalDocument {m : Mutation} (h : Ordinary m)
    (maybeDoc baseDoc : Option MaybeDocument) :
    content (applyToLocalDocument m maybeDoc baseDoc) =
      effect m (content baseDoc) (content maybeDoc) := by
  have hvalid : isValidFor (.exists true) maybeDoc = (content maybeDoc).isSome := rfl
  cases m with
  | set key value precondition =>
    cases h
    rfl
  | patch key fieldMask value precondition =>
    rcases h with h | h
    · cases h
      rfl
    · cases h
      simp only [applyToLocalDocument, Mutation.precondition, hvalid, effect]
      cases hc : content maybeDoc with
      | none => exact hc
      | some data => rfl
  | transform key fieldTransforms =>
    simp only [applyToLocalDocument, Mutation.precondition, hvalid, effect]
    cases hc : content maybeDoc with
    | none => exact hc
    | some data => rfl
  | delete key precondition =>
    cases h
    rfl

theorem content_applyToRemoteDocument {m : Mutation} (h : Ordinary m) {result : MutationResult}
    (hanswers : Answers m result) {maybeDoc : Option MaybeDocument} {d : MaybeDocument}
    (hd : applyToRemoteDocument m maybeDoc result = .ok d) :
    content (some d) = effect m (content maybeDoc) (content maybeDoc) := by
  cases m with
  | set key value precondition =>
    have hanswers : result.transformResults.isNone = true := hanswers
    simp only [applyToRemoteDocument, hardAssert_ok hanswers] at hd
    cases hd
    rfl
  | patch key fieldMask value precondition =>
    have hanswers : result.transformResults.isNone = true := hanswers
    simp only [applyToRemoteDocument, hardAssert_ok hanswers] at hd
    rcases h with h | h
    · cases h
      cases hd
      rfl
    · cases h
      have hvalid : isValidFor (.exists true) maybeDoc = (content maybeDoc).isSome := rfl
      rw [hvalid] at hd
      cases hc : content maybeDoc with
      | none =>
        rw [hc] at hd
        cases hd
        rfl
      | some data =>
        rw [hc] at hd
        cases hd
        rfl
  | transform key fieldTransforms =>
    simp only [applyToRemoteDocument, hardAssert_ok hanswers.1] at hd
    cases hc : content maybeDoc with
    | none =>
      rw [hc] at hd
      cases hd
      rfl
    | some data =>
      rw [hc] at hd
      simp only [hardAssert_ok hanswers.2] at hd
      cases hd
      rfl
  | delete key precondition =>
    have hanswers : result.transformResults.isNone = true := hanswers
    simp only [applyToRemoteDocument, hardAssert_ok hanswers] at hd
    cases hd
    rfl

/-- What the batch makes of the contents of a document: before the acknowledgement each transform
reads the document as it was before the batch. -/
def localEffect (batch : MutationBatch) (documentKey : String) (base : Option Doc) : Option Doc :=
  batch.mutations.foldl (fun d m => if m.key = documentKey then effect m base d else d) base

/-- After the acknowledgement it reads the document that it is applied to. -/
def remoteEffect (batch : MutationBatch) (documentKey : String) (base : Option Doc) : Option Doc :=
  batch.mutations.foldl (fun d m => if m.key = documentKey then effect m d d else d) base

/-- The acknowledgement of the batch changes no contents. -/
def Steady (batch : MutationBatch) : Prop :=
  ∀ documentKey base, localEffect batch documentKey base = remoteEffect batch documentKey base

theorem content_applyBatchToLocalDocument {batch : MutationBatch}
    (h : ∀ m ∈ batch.mutations, Ordinary m) (documentKey : String) (maybeDoc : Option MaybeDocument) :
    content (applyBatchToLocalDocument batch documentKey maybeDoc) =
      localEffect batch documentKey (content maybeDoc) := by
  have hfold : ∀ ms : List Mutation, (∀ m ∈ ms, Ordinary m) → ∀ doc,
      content (ms.foldl
        (fun doc m => if m.key = documentKey then applyToLocalDocument m doc maybeDoc else doc) doc) =
      ms.foldl (fun d m => if m.key = documentKey then effect m (content maybeDoc) d else d)
        (content doc) := by
    intro ms
    induction ms with
    | nil => intro _ doc; rfl
    | cons m ms ih =>
      intro hms doc
      obtain ⟨hm, hrest⟩ := List.forall_mem_cons.mp hms
      rw [List.foldl_cons, List.foldl_cons, ih hrest]
      by_cases hk : m.key = documentKey
      · rw [if_pos hk, if_pos hk, content_applyToLocalDocument hm]
      · rw [if_neg hk, if_neg hk]
  exact hfold _ h maybeDoc

theorem content_applyBatchToRemoteDocument {batch : MutationBatch}
    {mutationResults : List MutationResult} (h : ∀ m ∈ batch.mutations, Ordinary m)
    (hlength : batch.mutations.length = mutationResults.length)
    (hanswers : ∀ p ∈ batch.mutations.zip mutationResults, Answers p.1 p.2) {documentKey : String}
    {maybeDoc doc : Option MaybeDocument}
    (hdoc : applyBatchToRemoteDocument batch documentKey mutationResults maybeDoc = .ok doc) :
    content doc = remoteEffect batch documentKey (content maybeDoc) := by
  have hfold : ∀ ps : List (Mutation × MutationResult),
      (∀ p ∈ ps, Ordinary p.1 ∧ Answers p.1 p.2) → ∀ start doc,
      ps.foldlM (applyResult documentKey) start = .ok doc →
      content doc = (ps.map Prod.fst).foldl
        (fun d m => if m.key = documentKey then effect m d d else d) (content start) := by
    intro ps
    induction ps with
    | nil =>
      intro _ start doc hdoc
      cases hdoc
      rfl
    | cons p ps ih =>
      intro hps start doc hdoc
      obtain ⟨⟨hord, hans⟩, hrest⟩ := List.forall_mem_cons.mp hps
      rw [List.foldlM_cons] at hdoc
      rw [List.map_cons, List.foldl_cons]
      by_cases hk : p.1.key = documentKey
      · obtain ⟨d, hd, -⟩ := applyToRemoteDocument_ok hans start
        rw [applyResult, if_pos hk, hd] at hdoc
        rw [if_pos hk, ← content_applyToRemoteDocument hord hans hd]
        exact ih hrest _ _ hdoc
      · rw [applyResult, if_neg hk] at hdoc
        rw [if_neg hk]
        exact ih hrest _ _ hdoc
  rw [applyBatchToRemoteDocument, hardAssert_ok hlength.symm] at hdoc
  have hcontent := hfold _ (fun p hp => ⟨h _ (List.of_mem_zip hp).1, hanswers p hp⟩) _ _ hdoc
  rwa [List.map_fst_zip (le_of_eq hlength)] at hcontent

/-! ### Steady batches -/

/-- Batches without transforms. -/
theorem steady_of_plain {batch : MutationBatch}
    (h : ∀ m ∈ batch.mutations, ∀ key fieldTransforms, m ≠ .transform key fieldTransforms) :
    Steady batch := by
  have heffect : ∀ m ∈ batch.mutations, ∀ base d, effect m base d = effect m d d := by
    intro m hm base d
    cases m with
    | set key value precondition => rfl
    | patch key fieldMask value precondition =>
      cases precondition with
      | none => rfl
      | «exists» b => cases b <;> rfl
      | updateTime v => rfl
    | transform key fieldTransforms => exact absurd rfl (h _ hm key fieldTransforms)
    | delete key precondition => rfl
  intro documentKey base
  refine List.foldl_ext _ _ _ fun d m hm => ?_
  rw [heffect m hm base d]

/-- The fields of the mask have plain values, and the transformed fields have not. -/
theorem parseData_fields {input : List (String × FieldData)} (hnodup : (input.map Prod.fst).Nodup) :
    ∀ t ∈ (parseData input).fieldTransforms, t.1 ∉ (parseData input).fieldMask := by
  have hfold : ∀ (input : List (String × FieldData)) (p : ParsedData),
      (input.map Prod.fst).Nodup →
      (∀ x ∈ input, x.1 ∉ p.fieldMask ∧ ∀ t ∈ p.fieldTransforms, t.1 ≠ x.1) →
      (∀ t ∈ p.fieldTransforms, t.1 ∉ p.fieldMask) →
      ∀ t ∈ (input.foldl ParsedData.parseField p).fieldTransforms,
        t.1 ∉ (input.foldl ParsedData.parseField p).fieldMask := by
    intro input
    induction input with
    | nil => intro p _ _ h; exact h
    | cons x input ih =>
      intro p hnodup hnew h
      obtain ⟨hx, hrest⟩ := List.nodup_cons.mp hnodup
      obtain ⟨⟨hmask, htransforms⟩, hnew⟩ := List.forall_mem_cons.mp hnew
      have hother : ∀ y ∈ input, y.1 ≠ x.1 := fun y hy hk =>
        hx (List.mem_map.mpr ⟨y, hy, hk⟩)
      refine ih _ hrest ?_ ?_
      · intro y hy
        obtain ⟨hy', hyt⟩ := hnew y hy
        rcases x with ⟨key, v | elements | elements⟩
        · exact ⟨fun hm => (List.mem_append.mp hm).elim hy' fun hm =>
            hother y hy (List.mem_singleton.mp hm), hyt⟩
        · exact ⟨hy', List.forall_mem_append.mpr ⟨hyt, fun t ht => by
            rw [List.mem_singleton.mp ht]; exact Ne.symm (hother y hy)⟩⟩
        · exact ⟨hy', List.forall_mem_append.mpr ⟨hyt, fun t ht => by
            rw [List.mem_singleton.mp ht]; exact Ne.symm (hother y hy)⟩⟩
      · rcases x with ⟨key, v | elements | elements⟩
        · exact fun t ht hm => (List.mem_append.mp hm).elim (h t ht) fun hm =>
            htransforms t ht (List.mem_singleton.mp hm)
        · exact List.forall_mem_append.mpr ⟨h, fun t ht => by
            rw [List.mem_singleton.mp ht]; exact hmask⟩
        · exact List.forall_mem_append.mpr ⟨h, fun t ht => by
            rw [List.mem_singleton.mp ht]; exact hmask⟩
  refine hfold input ⟨fun _ => none, [], []⟩ hnodup (fun x _ => ⟨List.not_mem_nil, ?_⟩) ?_
  · intro t ht
    cases ht
  · intro t ht
    cases ht

theorem patchObjectValue_of_not_mem {fieldMask : List String} {field : String}
    (h : field ∉ fieldMask) (value d : Doc) : patchObjectValue fieldMask value d field = d field := by
  have hfold : ∀ (ks : List String) (d : Doc), field ∉ ks →
      ks.foldl (fun result key => Function.update result key (value key)) d field = d field := by
    intro ks
    induction ks with
    | nil => intro d _; rfl
    | cons k ks ih =>
      intro d hks
      rw [List.mem_cons, not_or] at hks
      rw [List.foldl_cons, ih _ hks.2, Function.update_of_ne hks.1]
  exact hfold fieldMask d h

theorem transformDocument_congr {fieldTransforms : List (String × ArrayTransform)}
    {base base' : Option Doc}
    (h : ∀ t ∈ fieldTransforms, base.bind (fun d => d t.1) = base'.bind fun d => d t.1) (data : Doc) :
    transformDocument fieldTransforms base data = transformDocument fieldTransforms base' data :=
  List.foldl_ext _ _ _ fun result t ht => by rw [h t ht]

/-- An update: its transforms are of fields that its patch does not touch. -/
theorem steady_updateMutations {id : BatchId} {key : String} {input : List (String × FieldData)}
    {precondition : Precondition} (hnodup : (input.map Prod.fst).Nodup)
    (hprecondition : precondition = .none ∨ precondition = .exists true) :
    Steady ⟨id, updateMutations key input precondition⟩ := by
  intro documentKey base
  let patch : Mutation := .patch key (parseData input).fieldMask (parseData input).data precondition
  have hpatch : ∀ base' d, effect patch base' d = effect patch d d := by
    intro base' d
    rcases hprecondition with h | h <;> cases h <;> rfl
  -- what the patch leaves has the fields of the transforms as they were
  have hfields : ∀ data, effect patch base base = some data →
      ∀ t ∈ (parseData input).fieldTransforms,
        base.bind (fun d => d t.1) = (some data).bind fun d => d t.1 := by
    intro data hdata t ht
    have hout := parseData_fields hnodup t ht
    cases base with
    | none =>
      rcases hprecondition with h | h
      · subst h
        cases hdata
        exact (patchObjectValue_of_not_mem hout (parseData input).data fun _ => none).symm
      · subst h
        cases hdata
    | some d =>
      rcases hprecondition with h | h <;> subst h <;> cases hdata <;>
        exact (patchObjectValue_of_not_mem hout _ _).symm
  show (patch :: (parseData input).transformMutations key).foldl _ base =
    (patch :: (parseData input).transformMutations key).foldl _ base
  by_cases hk : key = documentKey
  · have hpk : patch.key = documentKey := hk
    unfold ParsedData.transformMutations
    split
    · simp only [List.foldl_cons, List.foldl_nil, if_pos hpk]
    · have htk : (Mutation.transform key (parseData input).fieldTransforms).key = documentKey := hk
      simp only [List.foldl_cons, List.foldl_nil, if_pos hpk, if_pos htk]
      cases hd : effect patch base base with
      | none => rfl
      | some data => exact congrArg some (transformDocument_congr (hfields data hd) data)
  · have hnot : ∀ m ∈ patch :: (parseData input).transformMutations key, m.key ≠ documentKey := by
      intro m hm hmk
      have hmkey : m.key = key := @key_of_mem_updateMutations key input precondition m hm
      exact hk (hmkey.symm.trans hmk)
    refine List.foldl_ext _ _ _ fun d m hm => ?_
    rw [if_neg (hnot m hm), if_neg (hnot m hm)]

end GiftGenie.LocalDocuments
