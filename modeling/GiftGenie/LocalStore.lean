import GiftGenie.LocalDocuments

/-!
# The local store of the client

`FSTLocalStore` puts the mutation queue of the current user and the cache of remote documents
together.  What the user sees of a document is the remote document with the pending batches applied,
read through the index of the queue.

* `view`: the remote document with every pending batch of the user applied, in order.
* `documentForKey_eq`, `documentsForKeys_eq`: what is read through the index is the view.
* `write_ok`, `acknowledge_ok`, `reject_ok`, `userDidChange_ok`, `applyRemoteEvent_ok`: what each
  operation does to the queues and to the cache; none of them fails.
* `content_view_write`, `content_view_acknowledge`: a write shows at once, and its acknowledgement
  changes nothing that is seen.
-/

set_option autoImplicit false

namespace GiftGenie

open GiftGenie.Firestore GiftGenie.Mutations GiftGenie.MutationQueue GiftGenie.LocalDocuments

abbrev RemoteDocumentCache := String → Option MaybeDocument

/-- `FSTLocalStore`, with the ids that its mutation queue gives. -/
structure LocalStore where
  db : LevelDB
  remoteDocuments : RemoteDocumentCache
  userID : String
  nextBatchID : BatchId

namespace LocalStore

/-- The loop of `applyBatchResult`.  A document that is as new as the acknowledgement came by the watch
stream before it. -/
def applyBatchResultTo (result : MutationBatchResult) (cache : RemoteDocumentCache) (docKey : String) :
    Except Failure RemoteDocumentCache :=
  match result.docVersions docKey with
  | none => .error .versionMissing
  | some ackVersion =>
      if (cache docKey).all fun doc => doc.version < ackVersion then do
        match ← applyBatchToRemoteDocument result.batch docKey result.mutationResults (cache docKey) with
        | some doc => return Function.update cache docKey (some doc)
        | none => do
            hardAssert (cache docKey).isNone .resultedInNil
            return cache
      else return cache

/-- The condition of `applyRemoteEvent` for an update of a document to reach the cache. -/
def acceptsUpdate (authoritative : Bool) (existingDoc : Option MaybeDocument) (doc : MaybeDocument) :
    Bool :=
  match existingDoc with
  | none => true
  | some existing =>
      doc.version = ⊥ || (authoritative && !existing.hasPendingWrites) ||
        existing.version ≤ doc.version

variable (s : LocalStore)

def documentForKey (key : String) : Except Failure (Option MaybeDocument) := do
  let batches ← s.db.allMutationBatchesAffectingDocumentKey s.userID key
  return batches.foldl (fun doc batch => applyBatchToLocalDocument batch key doc)
    (s.remoteDocuments key)

def localViewsForDocuments (baseDocs : List (String × Option MaybeDocument)) :
    Except Failure (List (String × MaybeDocument)) := do
  let batches ← s.db.allMutationBatchesAffectingDocumentKeys s.userID (baseDocs.map Prod.fst)
  return baseDocs.map fun p =>
    (p.1, (batches.foldl (fun doc batch => applyBatchToLocalDocument batch p.1 doc) p.2).getD
      (.deleted ⊥ false))

def documentsForKeys (keys : List String) : Except Failure (List (String × MaybeDocument)) :=
  s.localViewsForDocuments (keys.map fun key => (key, s.remoteDocuments key))

def nextMutationBatchAfterBatchID (batchID : BatchId) : Except Failure (Option MutationBatch) :=
  s.db.nextMutationBatchAfterBatchID s.userID batchID

def startMutationQueue : LocalStore := { s with nextBatchID := s.db.loadNextBatchID }

/-- The documents that the batches of two users are about. -/
def changedKeys (oldUser newUser : String) : List String :=
  ((s.db.allMutationBatches oldUser ++ s.db.allMutationBatches newUser).flatMap
    fun batch => batch.mutations.map Mutation.key).dedup

def userDidChange (user : String) : Except Failure (LocalStore × List (String × MaybeDocument)) := do
  let s' := { s with userID := user }.startMutationQueue
  return (s', ← s'.documentsForKeys (s.changedKeys s.userID user))

def locallyWriteMutations (mutations : List Mutation) :
    Except Failure (LocalStore × BatchId × List (String × MaybeDocument)) := do
  let (db, batch) ← s.db.addMutationBatch s.userID s.nextBatchID mutations
  let s' := { s with db := db, nextBatchID := s.nextBatchID + 1 }
  return (s', batch.batchID, ← s'.documentsForKeys batch.keys)

def applyBatchResult (result : MutationBatchResult) : Except Failure LocalStore := do
  let cache ← result.batch.keys.foldlM (applyBatchResultTo result) s.remoteDocuments
  let db ← s.db.removeMutationBatch s.userID result.batch
  return { s with remoteDocuments := cache, db := db }

def acknowledgeBatchWithResult (result : MutationBatchResult) :
    Except Failure (LocalStore × List (String × MaybeDocument)) := do
  let s' ← s.applyBatchResult result
  s'.db.performConsistencyCheck s'.userID
  return (s', ← s'.documentsForKeys result.batch.keys)

def rejectBatchID (batchID : BatchId) :
    Except Failure (LocalStore × List (String × MaybeDocument)) :=
  match s.db.lookupMutationBatch s.userID batchID with
  | none => .error .rejectsNonexistent
  | some toReject => do
      let db ← s.db.removeMutationBatch s.userID toReject
      db.performConsistencyCheck s.userID
      let s' := { s with db := db }
      return (s', ← s'.documentsForKeys toReject.keys)

/-- The updates of a remote event that reach the cache. -/
def changedDocs (documentUpdates : List (String × MaybeDocument)) (authoritativeUpdates : List String) :
    List (String × MaybeDocument) :=
  documentUpdates.filter fun p =>
    acceptsUpdate (authoritativeUpdates.any fun key => key = p.1) (s.remoteDocuments p.1) p.2

/-- The documents of a remote event; each of them has one update. -/
def applyRemoteEvent (documentUpdates : List (String × MaybeDocument))
    (authoritativeUpdates : List String) :
    Except Failure (LocalStore × List (String × MaybeDocument)) := do
  let changedDocs := s.changedDocs documentUpdates authoritativeUpdates
  let s' := { s with
    remoteDocuments := changedDocs.foldl (fun cache p => Function.update cache p.1 (some p.2))
      s.remoteDocuments }
  return (s', ← s'.localViewsForDocuments (changedDocs.map fun p => (p.1, some p.2)))

/-! ### The view -/

def queue : List MutationBatch := s.db.allMutationBatches s.userID

/-- The remote document with every pending batch of the user applied. -/
def view (key : String) : Option MaybeDocument :=
  s.queue.foldl (fun doc batch => applyBatchToLocalDocument batch key doc) (s.remoteDocuments key)

/-- The tables are well formed, the next id is new, and it is an `int32_t`. -/
structure Valid : Prop where
  wellFormed : s.db.WellFormed
  unknown_lt : batchIdUnknown < s.nextBatchID
  lt_next : ∀ user, ∀ batch ∈ s.db.allMutationBatches user, batch.batchID < s.nextBatchID
  next_le : s.nextBatchID ≤ batchIdMax

variable {s}

/-- Batches that are not about the document leave it as it is. -/
theorem foldl_filter_local (p : MutationBatch → Bool) {key : String} :
    ∀ {batches : List MutationBatch}, (∀ batch ∈ batches, key ∈ batch.keys → p batch = true) →
      ∀ doc, (batches.filter p).foldl (fun doc batch => applyBatchToLocalDocument batch key doc) doc =
        batches.foldl (fun doc batch => applyBatchToLocalDocument batch key doc) doc := by
  intro batches
  induction batches with
  | nil => intro _ doc; rfl
  | cons batch batches ih =>
    intro h doc
    obtain ⟨hb, hrest⟩ := List.forall_mem_cons.mp h
    cases hp : p batch with
    | true =>
      rw [List.filter_cons_of_pos hp, List.foldl_cons, List.foldl_cons]
      exact ih hrest _
    | false =>
      have hout : key ∉ batch.keys := fun hk => by
        rw [hb hk] at hp
        cases hp
      rw [List.filter_cons_of_neg (by rw [hp]; exact Bool.false_ne_true), List.foldl_cons,
        applyBatchToLocalDocument_of_not_mem hout]
      exact ih hrest _

/-- **Reading.**  The index gives the view of a document. -/
theorem documentForKey_eq (hs : s.Valid) (key : String) : s.documentForKey key = .ok (s.view key) := by
  have hfold := @foldl_filter_local (fun batch => key ∈ batch.keys) key s.queue
    (fun batch _ hk => decide_eq_true hk) (s.remoteDocuments key)
  rw [documentForKey, LevelDB.affecting_eq hs.wellFormed]
  exact congrArg Except.ok hfold

theorem localViewsForDocuments_eq (hs : s.Valid) (baseDocs : List (String × Option MaybeDocument)) :
    s.localViewsForDocuments baseDocs = .ok (baseDocs.map fun p =>
      (p.1, (s.queue.foldl (fun doc batch => applyBatchToLocalDocument batch p.1 doc) p.2).getD
        (.deleted ⊥ false))) := by
  rw [localViewsForDocuments, LevelDB.affectingKeys_eq hs.wellFormed]
  refine congrArg Except.ok (List.map_congr_left fun p hp => ?_)
  have hfold := @foldl_filter_local
    (fun batch => ∃ key ∈ baseDocs.map Prod.fst, key ∈ batch.keys) p.1 s.queue
    (fun batch _ hk => decide_eq_true ⟨p.1, List.mem_map.mpr ⟨p, hp, rfl⟩, hk⟩) p.2
  exact congrArg (fun doc => (p.1, Option.getD doc _)) hfold

/-- Several documents that are read at once are the views of each. -/
theorem documentsForKeys_eq (hs : s.Valid) (keys : List String) :
    s.documentsForKeys keys =
      .ok (keys.map fun key => (key, (s.view key).getD (.deleted ⊥ false))) := by
  rw [documentsForKeys, localViewsForDocuments_eq hs, List.map_map]
  rfl

theorem nextMutationBatch_eq (s : LocalStore) (batchID : BatchId) :
    s.nextMutationBatchAfterBatchID batchID =
      .ok (s.queue.find? fun batch => batchID < batch.batchID) :=
  s.db.next_eq s.userID batchID

/-! ### The operations -/

/-- What an operation reports of the documents that it may have changed. -/
def views (s : LocalStore) (keys : List String) : List (String × MaybeDocument) :=
  keys.map fun key => (key, (s.view key).getD (.deleted ⊥ false))

/-- A write goes to the end of the queue. -/
theorem write_ok (hs : s.Valid) {mutations : List Mutation} (hne : mutations ≠ [])
    (hroom : s.nextBatchID < batchIdMax) :
    ∃ s', s.locallyWriteMutations mutations =
        .ok (s', s.nextBatchID, s'.views (MutationBatch.keys ⟨s.nextBatchID, mutations⟩)) ∧
      s'.Valid ∧ s'.userID = s.userID ∧ s'.remoteDocuments = s.remoteDocuments ∧
      s'.queue = s.queue ++ [⟨s.nextBatchID, mutations⟩] ∧
      ∀ user, user ≠ s.userID → s'.db.allMutationBatches user = s.db.allMutationBatches user := by
  obtain ⟨db, hadd, hdb, hself, hother⟩ :=
    LevelDB.add_ok hs.wellFormed hne hs.unknown_lt (hs.lt_next s.userID)
  have hs' : Valid { s with db := db, nextBatchID := s.nextBatchID + 1 } := by
    refine ⟨hdb, hs.unknown_lt.trans (Int.lt_succ _), fun user batch hb => ?_,
      Int.add_one_le_iff.mpr hroom⟩
    by_cases huser : user = s.userID
    · subst huser
      rw [show LevelDB.allMutationBatches db s.userID = _ from hself] at hb
      rcases List.mem_append.mp hb with hb | hb
      · exact (hs.lt_next _ batch hb).trans (Int.lt_succ _)
      · rw [List.mem_singleton.mp hb]
        exact Int.lt_succ _
    · rw [show LevelDB.allMutationBatches db user = _ from hother user huser] at hb
      exact (hs.lt_next user batch hb).trans (Int.lt_succ _)
  refine ⟨_, ?_, hs', rfl, rfl, hself, hother⟩
  simp only [locallyWriteMutations, hadd]
  show (do return (_, s.nextBatchID, ← documentsForKeys _ _)) = _
  rw [documentsForKeys_eq hs']
  rfl

/-- What an acknowledgement makes of a document in the cache. -/
def Acknowledged (result : MutationBatchResult) (key : String) (before after : Option MaybeDocument) :
    Prop :=
  ∃ version, result.docVersions key = some version ∧
    if before.all fun doc => doc.version < version then
      ∃ d, applyBatchToRemoteDocument result.batch key result.mutationResults before = .ok (some d) ∧
        d.version = version ∧ after = some d
    else after = before

/-- The results are those that the server gives for the mutations. -/
def Answered (mutations : List Mutation) (mutationResults : List MutationResult) : Prop :=
  mutations.length = mutationResults.length ∧ ∀ p ∈ mutations.zip mutationResults, Answers p.1 p.2

instance (mutations : List Mutation) (mutationResults : List MutationResult) :
    Decidable (Answered mutations mutationResults) := by
  unfold Answered
  infer_instance

theorem resultWithBatch_ok {batch : MutationBatch} {mutationResults : List MutationResult}
    (h : Answered batch.mutations mutationResults) :
    MutationBatchResult.resultWithBatch batch mutationResults = .ok ⟨batch, mutationResults,
      (batch.mutations.zip mutationResults).foldl recordVersion fun _ => none⟩ := by
  rw [MutationBatchResult.resultWithBatch, hardAssert_ok h.1]
  rfl

theorem applyBatchResultTo_ok {result : MutationBatchResult}
    (h : Answered result.batch.mutations result.mutationResults)
    (hversions : result.docVersions =
      (result.batch.mutations.zip result.mutationResults).foldl recordVersion fun _ => none)
    (cache : RemoteDocumentCache) {docKey : String} (hkey : docKey ∈ result.batch.keys) :
    ∃ after, applyBatchResultTo result cache docKey = .ok (Function.update cache docKey after) ∧
      Acknowledged result docKey (cache docKey) after := by
  obtain ⟨d, hd, hversion⟩ := applyBatchToRemoteDocument_ok h.1 h.2 hkey (cache docKey)
  rw [← hversions] at hversion
  unfold applyBatchResultTo
  rw [hversion]
  by_cases hold : ((cache docKey).all fun doc => decide (doc.version < d.version)) = true
  · refine ⟨some d, ?_, d.version, hversion, ?_⟩
    · simp only [hold, if_true, hd]
      rfl
    · rw [if_pos hold]
      exact ⟨d, hd, rfl, rfl⟩
  · refine ⟨cache docKey, ?_, d.version, hversion, ?_⟩
    · rw [Function.update_eq_self]
      exact if_neg hold
    · rw [if_neg hold]

theorem applyBatchResult_loop {result : MutationBatchResult}
    (h : Answered result.batch.mutations result.mutationResults)
    (hversions : result.docVersions =
      (result.batch.mutations.zip result.mutationResults).foldl recordVersion fun _ => none) :
    ∀ {docKeys : List String}, docKeys.Nodup → (∀ key ∈ docKeys, key ∈ result.batch.keys) →
      ∀ cache : RemoteDocumentCache, ∃ cache',
        docKeys.foldlM (applyBatchResultTo result) cache = .ok cache' ∧
        (∀ key ∈ docKeys, Acknowledged result key (cache key) (cache' key)) ∧
        ∀ key, key ∉ docKeys → cache' key = cache key := by
  intro docKeys
  induction docKeys with
  | nil =>
    intro _ _ cache
    exact ⟨cache, rfl, fun key hk => absurd hk List.not_mem_nil, fun key _ => rfl⟩
  | cons docKey docKeys ih =>
    intro hnodup hkeys cache
    obtain ⟨hnew, hnodup⟩ := List.nodup_cons.mp hnodup
    obtain ⟨hkey, hkeys⟩ := List.forall_mem_cons.mp hkeys
    obtain ⟨after, hafter, hack⟩ := applyBatchResultTo_ok h hversions cache hkey
    obtain ⟨cache', hcache', hin, hout⟩ := ih hnodup hkeys (Function.update cache docKey after)
    refine ⟨cache', ?_, fun key hk => ?_, fun key hk => ?_⟩
    · rw [List.foldlM_cons, hafter]
      exact hcache'
    · rcases List.mem_cons.mp hk with hk | hk
      · rw [hk, hout docKey hnew, Function.update_self]
        exact hack
      · have hne : key ≠ docKey := fun heq => hnew (heq ▸ hk)
        have hrest := hin key hk
        rwa [Function.update_of_ne hne] at hrest
    · rw [List.mem_cons, not_or] at hk
      rw [hout key hk.2, Function.update_of_ne hk.1]

/-- The queues without their first batch. -/
theorem queue_tail {db' : LevelDB} {batch : MutationBatch} {rest : List MutationBatch}
    (hhead : s.queue = batch :: rest)
    (hqueue : ∀ user, db'.allMutationBatches user = (s.db.allMutationBatches user).filter
      fun b => ¬(user = s.userID ∧ b.batchID = batch.batchID)) :
    db'.allMutationBatches s.userID = rest ∧
      ∀ user, user ≠ s.userID → db'.allMutationBatches user = s.db.allMutationBatches user := by
  constructor
  · have hsorted := s.db.queue_sorted s.userID
    rw [show s.db.allMutationBatches s.userID = batch :: rest from hhead] at hsorted
    have hlater := (List.pairwise_cons.mp hsorted).1
    rw [hqueue, show s.db.allMutationBatches s.userID = batch :: rest from hhead,
      List.filter_cons_of_neg (by simp)]
    refine List.filter_eq_self.mpr fun b hb => decide_eq_true fun h => ?_
    exact ne_of_gt (hlater b hb) h.2
  · intro user huser
    rw [hqueue]
    exact List.filter_eq_self.mpr fun b _ => decide_eq_true fun h => huser h.1

/-- A valid store whose queues get shorter. -/
theorem Valid.shrink (hs : s.Valid) {db' : LevelDB} (hdb : db'.WellFormed)
    (hsub : ∀ user, ∀ b ∈ db'.allMutationBatches user, b ∈ s.db.allMutationBatches user)
    (cache : RemoteDocumentCache) :
    Valid { s with db := db', remoteDocuments := cache } where
  wellFormed := hdb
  unknown_lt := hs.unknown_lt
  lt_next := fun user b hb => hs.lt_next user b (hsub user b hb)
  next_le := hs.next_le

/-- An acknowledgement takes the first batch off the queue. -/
theorem acknowledge_ok (hs : s.Valid) {batch : MutationBatch} {rest : List MutationBatch}
    (hhead : s.queue = batch :: rest) {result : MutationBatchResult}
    {mutationResults : List MutationResult} (h : Answered batch.mutations mutationResults)
    (hresult : MutationBatchResult.resultWithBatch batch mutationResults = .ok result) :
    ∃ s', s.acknowledgeBatchWithResult result = .ok (s', s'.views batch.keys) ∧
      s'.Valid ∧ s'.userID = s.userID ∧ s'.nextBatchID = s.nextBatchID ∧ s'.queue = rest ∧
      (∀ user, user ≠ s.userID → s'.db.allMutationBatches user = s.db.allMutationBatches user) ∧
      (∀ key ∈ batch.keys,
        Acknowledged result key (s.remoteDocuments key) (s'.remoteDocuments key)) ∧
      ∀ key, key ∉ batch.keys → s'.remoteDocuments key = s.remoteDocuments key := by
  rw [resultWithBatch_ok h] at hresult
  cases hresult
  have hmem : batch ∈ s.db.allMutationBatches s.userID := by
    rw [show s.db.allMutationBatches s.userID = batch :: rest from hhead]
    exact List.mem_cons_self
  let result : MutationBatchResult := ⟨batch, mutationResults,
    (batch.mutations.zip mutationResults).foldl recordVersion fun _ => none⟩
  have hloop := @applyBatchResult_loop result h rfl batch.keys (List.nodup_dedup _)
  obtain ⟨cache, hcache, hin, hout⟩ := hloop (fun key hk => hk) s.remoteDocuments
  obtain ⟨db', hremove, hdb, hqueue⟩ := LevelDB.remove_ok hs.wellFormed hmem
  obtain ⟨hself, hother⟩ := queue_tail hhead hqueue
  have hs' : Valid { s with db := db', remoteDocuments := cache } :=
    hs.shrink hdb (fun user b hb => by
      rw [hqueue] at hb
      exact (List.mem_filter.mp hb).1) cache
  refine ⟨_, ?_, hs', rfl, rfl, hself, hother, hin, hout⟩
  have happly : s.applyBatchResult result =
      .ok { s with db := db', remoteDocuments := cache } := by
    rw [applyBatchResult, hcache]
    show (do let db ← s.db.removeMutationBatch s.userID batch; return _) = _
    rw [hremove]
    rfl
  rw [acknowledgeBatchWithResult, happly]
  show (do db'.performConsistencyCheck s.userID; return (_, ← documentsForKeys _ _)) = _
  rw [LevelDB.check_ok hdb, documentsForKeys_eq hs']
  rfl

/-- So does a rejection, which leaves the cache as it is. -/
theorem reject_ok (hs : s.Valid) {batch : MutationBatch} {rest : List MutationBatch}
    (hhead : s.queue = batch :: rest) :
    ∃ s', s.rejectBatchID batch.batchID = .ok (s', s'.views batch.keys) ∧
      s'.Valid ∧ s'.userID = s.userID ∧ s'.nextBatchID = s.nextBatchID ∧ s'.queue = rest ∧
      (∀ user, user ≠ s.userID → s'.db.allMutationBatches user = s.db.allMutationBatches user) ∧
      s'.remoteDocuments = s.remoteDocuments := by
  have hmem : batch ∈ s.db.allMutationBatches s.userID := by
    rw [show s.db.allMutationBatches s.userID = batch :: rest from hhead]
    exact List.mem_cons_self
  obtain ⟨db', hremove, hdb, hqueue⟩ := LevelDB.remove_ok hs.wellFormed hmem
  obtain ⟨hself, hother⟩ := queue_tail hhead hqueue
  have hs' : Valid { s with db := db' } :=
    hs.shrink hdb (fun user b hb => by
      rw [hqueue] at hb
      exact (List.mem_filter.mp hb).1) s.remoteDocuments
  refine ⟨_, ?_, hs', rfl, rfl, hself, hother, rfl⟩
  rw [rejectBatchID, LevelDB.lookupMutationBatch_of_mem hmem]
  show (do
    let db ← s.db.removeMutationBatch s.userID batch
    db.performConsistencyCheck s.userID
    return (_, ← documentsForKeys { s with db := db } _)) = _
  rw [hremove]
  show (do db'.performConsistencyCheck s.userID; return (_, ← documentsForKeys _ _)) = _
  rw [LevelDB.check_ok hdb, documentsForKeys_eq hs']
  rfl

/-- The ids that are in use are such that the next one is an `int32_t`, too. -/
theorem Valid.lt_max (hs : s.Valid) {user : String} {batch : MutationBatch}
    (hb : batch ∈ s.db.allMutationBatches user) : batch.batchID < batchIdMax :=
  (hs.lt_next user batch hb).trans_le hs.next_le

theorem valid_start (hdb : s.db.WellFormed)
    (hlt : ∀ user, ∀ batch ∈ s.db.allMutationBatches user, batch.batchID < batchIdMax) :
    s.startMutationQueue.Valid where
  wellFormed := hdb
  unknown_lt := s.db.batchIdUnknown_lt_loadNextBatchID
  lt_next := fun _ _ hb => s.db.lt_loadNextBatchID hb
  next_le := LevelDB.loadNextBatchID_le (by decide) hlt

/-- Another user gets the queue that is stored for him. -/
theorem userDidChange_ok (hs : s.Valid) (user : String) :
    ∃ s', s.userDidChange user = .ok (s', s'.views (s.changedKeys s.userID user)) ∧ s'.Valid ∧
      s'.userID = user ∧ s'.db = s.db ∧ s'.remoteDocuments = s.remoteDocuments := by
  have hs' : ({ s with userID := user } : LocalStore).startMutationQueue.Valid :=
    valid_start hs.wellFormed fun _ _ hb => hs.lt_max hb
  refine ⟨_, ?_, hs', rfl, rfl, rfl⟩
  simp only [userDidChange, documentsForKeys_eq hs']
  rfl

/-- A remote event changes the cache only. -/
theorem applyRemoteEvent_ok (hs : s.Valid) (documentUpdates : List (String × MaybeDocument))
    (authoritativeUpdates : List String) :
    ∃ s' changes, s.applyRemoteEvent documentUpdates authoritativeUpdates = .ok (s', changes) ∧
      s'.Valid ∧ s'.userID = s.userID ∧ s'.db = s.db ∧ s'.nextBatchID = s.nextBatchID := by
  let s' : LocalStore := { s with
    remoteDocuments := (s.changedDocs documentUpdates authoritativeUpdates).foldl
      (fun cache p => Function.update cache p.1 (some p.2)) s.remoteDocuments }
  have hs' : s'.Valid := ⟨hs.wellFormed, hs.unknown_lt, hs.lt_next, hs.next_le⟩
  obtain ⟨changes, hviews⟩ : ∃ changes, s'.localViewsForDocuments
      ((s.changedDocs documentUpdates authoritativeUpdates).map fun p => (p.1, some p.2)) =
      .ok changes := ⟨_, localViewsForDocuments_eq hs' _⟩
  refine ⟨s', changes, ?_, hs', rfl, rfl, rfl⟩
  show (do return (s', ← s'.localViewsForDocuments _)) = _
  rw [hviews]
  rfl

/-! ### What is seen -/

/-- All pending batches of the user are of ordinary mutations. -/
def AllOrdinary (s : LocalStore) : Prop := ∀ batch ∈ s.queue, ∀ m ∈ batch.mutations, Ordinary m

theorem content_view (h : s.AllOrdinary) (key : String) :
    content (s.view key) =
      s.queue.foldl (fun d batch => localEffect batch key d) (content (s.remoteDocuments key)) := by
  have hfold : ∀ batches : List MutationBatch, (∀ batch ∈ batches, ∀ m ∈ batch.mutations, Ordinary m) →
      ∀ doc, content (batches.foldl (fun doc batch => applyBatchToLocalDocument batch key doc) doc) =
        batches.foldl (fun d batch => localEffect batch key d) (content doc) := by
    intro batches
    induction batches with
    | nil => intro _ doc; rfl
    | cons batch batches ih =>
      intro hall doc
      obtain ⟨hb, hrest⟩ := List.forall_mem_cons.mp hall
      rw [List.foldl_cons, List.foldl_cons, ih hrest, content_applyBatchToLocalDocument hb]
  exact hfold s.queue h (s.remoteDocuments key)

/-- No document of the batch is in the cache with a version that the acknowledgement does not pass. -/
def Fresh (s : LocalStore) (batch : MutationBatch) (mutationResults : List MutationResult) : Prop :=
  ∀ key ∈ batch.keys, ∀ version,
    (batch.mutations.zip mutationResults).foldl recordVersion (fun _ => none) key = some version →
      ((s.remoteDocuments key).all fun doc => doc.version < version) = true

/-- A write shows at once. -/
theorem content_view_write {s' : LocalStore} {batch : MutationBatch} (h : s'.AllOrdinary)
    (hcache : s'.remoteDocuments = s.remoteDocuments) (hqueue : s'.queue = s.queue ++ [batch])
    (key : String) : content (s'.view key) = localEffect batch key (content (s.view key)) := by
  have hs : s.AllOrdinary := fun b hb => h b (by rw [hqueue]; exact List.mem_append_left _ hb)
  rw [content_view h, content_view hs, hqueue, hcache, List.foldl_append]
  rfl

/-- An acknowledgement changes nothing that is seen. -/
theorem content_view_acknowledge {s' : LocalStore} {batch : MutationBatch}
    {rest : List MutationBatch} {result : MutationBatchResult} {mutationResults : List MutationResult}
    (h : s.AllOrdinary) (hsteady : Steady batch) (hhead : s.queue = batch :: rest)
    (hqueue : s'.queue = rest) (hanswered : Answered batch.mutations mutationResults)
    (hresult : MutationBatchResult.resultWithBatch batch mutationResults = .ok result)
    (hfresh : s.Fresh batch mutationResults)
    (hin : ∀ key ∈ batch.keys,
      Acknowledged result key (s.remoteDocuments key) (s'.remoteDocuments key))
    (hout : ∀ key, key ∉ batch.keys → s'.remoteDocuments key = s.remoteDocuments key)
    (key : String) : content (s'.view key) = content (s.view key) := by
  rw [resultWithBatch_ok hanswered] at hresult
  cases hresult
  have hbatch : ∀ m ∈ batch.mutations, Ordinary m :=
    h batch (by rw [hhead]; exact List.mem_cons_self)
  have hs' : s'.AllOrdinary := fun b hb => h b (by
    rw [hqueue] at hb
    rw [hhead]
    exact List.mem_cons_of_mem _ hb)
  have hdoc : content (s'.remoteDocuments key) =
      localEffect batch key (content (s.remoteDocuments key)) := by
    by_cases hk : key ∈ batch.keys
    · obtain ⟨version, hversion, hack⟩ := hin key hk
      rw [if_pos (hfresh key hk version hversion)] at hack
      obtain ⟨d, hd, -, hafter⟩ := hack
      rw [hafter, hsteady key,
        content_applyBatchToRemoteDocument hbatch hanswered.1 hanswered.2 hd]
    · rw [hout key hk, ← content_applyBatchToLocalDocument hbatch,
        applyBatchToLocalDocument_of_not_mem hk]
  rw [content_view h, content_view hs', hqueue, hhead, List.foldl_cons, hdoc]

end LocalStore

end GiftGenie
