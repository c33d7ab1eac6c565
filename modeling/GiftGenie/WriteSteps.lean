import GiftGenie.WritePipeline

/-!
# Between two operations of the client

`Consistent` is what holds of the client between any two operations of its queue: the pipeline is the
beginning of the queue of the current user, and the stream is started where it is needed.  The parts
that the operations have in common keep it.

* `filled_of_fill`: filling the pipeline.
* `Filled.commitResponse_ok`, `handleWriteError_ok`: the first batch is acknowledged or rejected
  (`Dequeued`), and its completion block called.
* `close_graceful`, `close_needed`, `close_error`: the ways in which the stream ends.
-/

set_option autoImplicit false

namespace GiftGenie.FirestoreClient

open GiftGenie.Mutations GiftGenie.MutationQueue GiftGenie.LocalDocuments GiftGenie.LocalStore

/-! ### Filling the pipeline -/

/-- The id of the last batch, as `fillWritePipeline` starts with it. -/
def lastBatchID (pipeline : List MutationBatch) : BatchId :=
  (pipeline.getLast?.map MutationBatch.batchID).getD batchIdUnknown

/-- The batch after the last one of a part of the queue is the first one of the rest. -/
theorem next_after {pipeline rest : List MutationBatch}
    (hsorted : (pipeline ++ rest).Pairwise fun b b' => b.batchID < b'.batchID)
    (hknown : ∀ b ∈ pipeline ++ rest, batchIdUnknown < b.batchID) :
    (pipeline ++ rest).find? (fun b => lastBatchID pipeline < b.batchID) = rest.head? := by
  obtain ⟨hpipeline, -, hacross⟩ := List.pairwise_append.mp hsorted
  have hbefore : pipeline.find? (fun b => lastBatchID pipeline < b.batchID) = none := by
    refine List.find?_eq_none.mpr fun b hb hlt => ?_
    obtain ⟨front, last, hsplit⟩ := List.eq_nil_or_concat' pipeline |>.resolve_left
      (List.ne_nil_of_mem hb)
    have hlt : lastBatchID pipeline < b.batchID := of_decide_eq_true hlt
    rw [hsplit, lastBatchID, List.getLast?_concat] at hlt
    rw [hsplit] at hb hpipeline
    rcases List.mem_append.mp hb with hb | hb
    · have hle := (List.pairwise_append.mp hpipeline).2.2 b hb last List.mem_cons_self
      exact lt_asymm hlt hle
    · rw [List.mem_singleton.mp hb] at hlt
      exact lt_irrefl _ hlt
  rw [List.find?_append, hbefore, Option.none_or]
  cases rest with
  | nil => rfl
  | cons b rest =>
    refine List.find?_cons_of_pos (decide_eq_true ?_)
    rcases List.eq_nil_or_concat' pipeline with hnil | ⟨front, last, hsplit⟩
    · rw [hnil]
      exact hknown b (List.mem_append_right _ List.mem_cons_self)
    · rw [lastBatchID, hsplit, List.getLast?_concat]
      exact hacross last (by rw [hsplit]; exact List.mem_append_right _ List.mem_cons_self) b
        List.mem_cons_self

variable {c : FirestoreClient}

theorem addBatchToWritePipeline_ok (hcan : c.canAddToWritePipeline = true)
    (hready : c.writeStream.Ready c.writePipeline) (batch : MutationBatch) :
    ∃ s, c.addBatchToWritePipeline batch =
        .ok { c with writePipeline := c.writePipeline ++ [batch], writeStream := s } ∧
      s.Ready (c.writePipeline ++ [batch]) ∧ s.state = c.writeStream.state ∧
      s.handshakeComplete = c.writeStream.handshakeComplete := by
  by_cases hsent : c.writeStream.state = .opened ∧ c.writeStream.handshakeComplete = true
  · obtain ⟨hopen, hcomplete⟩ := hsent
    obtain ⟨s, hs, hready', hopen', hcomplete'⟩ := hready.writeMutations hopen hcomplete batch
    refine ⟨s, ?_, hready', hopen'.trans hopen.symm, hcomplete'.trans hcomplete.symm⟩
    have hisopen := WriteStream.isOpen_iff.mpr hopen
    simp only [addBatchToWritePipeline, hardAssert_ok hcan, ok_bind, hisopen, hcomplete, Bool.and_self,
      if_true, hs, pure_eq_ok]
  · refine ⟨c.writeStream, ?_, hready.append hsent batch, rfl, rfl⟩
    have hunsent : (c.writeStream.isOpen && c.writeStream.handshakeComplete) = false := by
      refine Bool.eq_false_iff.mpr fun hand => hsent ?_
      obtain ⟨hopen, hcomplete⟩ := (Bool.and_eq_true _ _).mp hand
      exact ⟨WriteStream.isOpen_iff.mp hopen, hcomplete⟩
    simp only [addBatchToWritePipeline, hardAssert_ok hcan, ok_bind, hunsent, Bool.false_eq_true,
      if_false, pure_eq_ok]

/-- The loop takes from the queue until the pipeline is full or the queue is at its end. -/
theorem fillLoop_ok (henabled : c.isNetworkEnabled = true) (hvalid : c.localStore.Valid) :
    ∀ (n : ℕ) (pipeline rest : List MutationBatch) (s : WriteStream),
      c.localStore.queue = pipeline ++ rest → s.Ready pipeline →
      pipeline.length ≤ maxPendingWrites → maxPendingWrites < n + pipeline.length →
      ∃ s', fillLoop n (lastBatchID pipeline) { c with writePipeline := pipeline, writeStream := s } =
          .ok { c with
            writePipeline := c.localStore.queue.take maxPendingWrites, writeStream := s' } ∧
        s'.Ready (c.localStore.queue.take maxPendingWrites) ∧ s'.state = s.state ∧
        s'.handshakeComplete = s.handshakeComplete := by
  intro n
  induction n with
  | zero =>
    intro pipeline rest s _ _ hle hlt
    omega
  | succ n ih =>
    intro pipeline rest s hqueue hready hle hlt
    let c₁ : FirestoreClient := { c with writePipeline := pipeline, writeStream := s }
    by_cases hroom : pipeline.length < maxPendingWrites
    · have hcan : c₁.canAddToWritePipeline = true := by
        rw [canAddToWritePipeline, show c₁.isNetworkEnabled = true from henabled]
        exact decide_eq_true hroom
      have hsorted := c.localStore.db.queue_sorted c.localStore.userID
      have hknown : ∀ b ∈ c.localStore.queue, batchIdUnknown < b.batchID := fun b hb =>
        LevelDB.known_of_mem hvalid.wellFormed hb
      have hnext : c.localStore.nextMutationBatchAfterBatchID (lastBatchID pipeline) =
          .ok rest.head? := by
        rw [LocalStore.nextMutationBatch_eq, hqueue]
        rw [hqueue] at hknown
        rw [show c.localStore.db.allMutationBatches c.localStore.userID = _ from hqueue] at hsorted
        exact congrArg Except.ok (next_after hsorted hknown)
      cases rest with
      | nil =>
        have htake : c.localStore.queue.take maxPendingWrites = pipeline := by
          rw [hqueue, List.append_nil]
          exact List.take_of_length_le hle
        rw [htake]
        by_cases hempty : pipeline = []
        · subst hempty
          refine ⟨s.markIdle, ?_, hready.markIdle, s.markIdle_state, s.markIdle_handshakeComplete⟩
          show (if c₁.canAddToWritePipeline then _ else _) = _
          simp only [hcan, if_true, hnext, ok_bind, List.head?_nil]
          rfl
        · refine ⟨s, ?_, hready, rfl, rfl⟩
          have hlength : pipeline.length ≠ 0 := fun h => hempty (List.length_eq_zero_iff.mp h)
          show (if c₁.canAddToWritePipeline then _ else _) = _
          simp only [hcan, if_true, hnext, ok_bind, List.head?_nil, hlength, if_false]
          rfl
      | cons batch rest =>
        obtain ⟨s₁, hadd, hready₁, hstate₁, hcomplete₁⟩ := addBatchToWritePipeline_ok hcan hready batch
        have hlast : lastBatchID (pipeline ++ [batch]) = batch.batchID := by
          rw [lastBatchID, List.getLast?_concat]
          rfl
        obtain ⟨s', hs', hready', hstate', hcomplete'⟩ := ih (pipeline ++ [batch]) rest s₁
          (by rw [hqueue, List.append_assoc]; rfl) hready₁
          (by rw [List.length_append]; exact hroom) (by rw [List.length_append, List.length_singleton]; omega)
        rw [hlast] at hs'
        refine ⟨s', ?_, hready', hstate'.trans hstate₁, hcomplete'.trans hcomplete₁⟩
        show (if c₁.canAddToWritePipeline then _ else _) = _
        simp only [hcan, if_true, hnext, ok_bind, List.head?_cons]
        show (do fillLoop n batch.batchID (← c₁.addBatchToWritePipeline batch)) = _
        rw [hadd]
        exact hs'
    · have hfull : c₁.canAddToWritePipeline = false := by
        rw [canAddToWritePipeline, show c₁.isNetworkEnabled = true from henabled]
        exact decide_eq_false hroom
      have htake : c.localStore.queue.take maxPendingWrites = pipeline := by
        rw [hqueue]
        exact List.take_left' (le_antisymm hle (not_lt.mp hroom))
      refine ⟨s, ?_, by rw [htake]; exact hready, rfl, rfl⟩
      rw [htake]
      show (if c₁.canAddToWritePipeline then _ else _) = _
      simp only [hfull, Bool.false_eq_true, if_false]
      rfl

theorem shouldStart_iff : c.shouldStartWriteStream = true ↔
    c.isNetworkEnabled = true ∧ c.writeStream.isStarted = false ∧ c.writePipeline ≠ [] := by
  rw [shouldStartWriteStream, Bool.and_eq_true, Bool.and_eq_true, Bool.not_eq_true',
    decide_eq_true_eq, List.length_pos_iff, and_assoc]

theorem startIfNeeded_of_needed (hready : c.writeStream.Ready c.writePipeline)
    (hshould : c.shouldStartWriteStream = true) :
    ∃ s, c.startIfNeeded = .ok { c with writeStream := s } ∧ s.Ready c.writePipeline ∧
      s.isStarted = true ∧ s.state ≠ .opened ∧
      s.handshakeComplete = c.writeStream.handshakeComplete := by
  obtain ⟨-, hstopped, hneeded⟩ := shouldStart_iff.mp hshould
  obtain ⟨s, hs, hready', hstarted, hclosed, hkept, -⟩ := hready.start hstopped hneeded
  refine ⟨s, ?_, hready', hstarted, hclosed, hkept⟩
  simp only [startIfNeeded, startWriteStream, hshould, if_true, hardAssert_ok, ok_bind, hs, pure_eq_ok]

theorem startIfNeeded_of_not (hshould : c.shouldStartWriteStream = false) :
    c.startIfNeeded = .ok c := by
  rw [startIfNeeded, hshould, if_neg Bool.false_ne_true]

/-- The pipeline takes what it can, and the stream is started for it. -/
theorem fillWritePipeline_ok (henabled : c.isNetworkEnabled = true) (hvalid : c.localStore.Valid)
    (hready : c.writeStream.Ready c.writePipeline) (hfront : c.writePipeline <+: c.localStore.queue)
    (hle : c.writePipeline.length ≤ maxPendingWrites) :
    ∃ s, c.fillWritePipeline = .ok { c with
        writePipeline := c.localStore.queue.take maxPendingWrites, writeStream := s } ∧
      s.Ready (c.localStore.queue.take maxPendingWrites) ∧
      s.handshakeComplete = c.writeStream.handshakeComplete ∧
      (s.state = .opened ↔ c.writeStream.state = .opened) ∧
      (c.localStore.queue.take maxPendingWrites ≠ [] → s.isStarted = true) := by
  obtain ⟨rest, hrest⟩ := hfront
  obtain ⟨s, hs, hready', hstate, hcomplete⟩ := fillLoop_ok henabled hvalid (maxPendingWrites + 1)
    c.writePipeline rest c.writeStream hrest.symm hready hle (by omega)
  let c₁ : FirestoreClient :=
    { c with writePipeline := c.localStore.queue.take maxPendingWrites, writeStream := s }
  have hfill : c.fillWritePipeline = c₁.startIfNeeded := by
    show (do
      let c ← fillLoop (maxPendingWrites + 1) (lastBatchID c.writePipeline) c
      c.startIfNeeded) = _
    rw [hs]
    rfl
  cases hshould : c₁.shouldStartWriteStream with
  | true =>
    obtain ⟨s', hs', hready'', hstarted, hclosed, hkept⟩ := startIfNeeded_of_needed hready' hshould
    refine ⟨s', hfill.trans hs', hready'', hkept.trans hcomplete, ?_, fun _ => hstarted⟩
    refine iff_of_false hclosed fun hopen => ?_
    have hstopped : s.isStarted = false := (shouldStart_iff.mp hshould).2.1
    rcases WriteStream.isStarted_eq_false.mp hstopped with h | h <;> rw [hstate, hopen] at h <;> cases h
  | false =>
    refine ⟨s, hfill.trans (startIfNeeded_of_not hshould), hready', hcomplete, by rw [hstate],
      fun hne => ?_⟩
    by_contra hnot
    have htrue : c₁.shouldStartWriteStream = true :=
      shouldStart_iff.mpr ⟨henabled, Bool.eq_false_iff.mpr hnot, hne⟩
    rw [htrue] at hshould
    cases hshould

/-- Without the network nothing is taken. -/
theorem fillWritePipeline_disabled (hdisabled : c.isNetworkEnabled = false) :
    c.fillWritePipeline = .ok c := by
  have hcan : c.canAddToWritePipeline = false := by
    rw [canAddToWritePipeline, hdisabled]
    rfl
  have hshould : c.shouldStartWriteStream = false := by
    rw [shouldStartWriteStream, hdisabled]
    rfl
  simp only [fillWritePipeline, fillLoop, hcan, Bool.false_eq_true, if_false, pure_eq_ok, ok_bind,
    startIfNeeded_of_not hshould]

/-! ### Between two operations -/

/-- The pipeline belongs to the queue of the current user, and the stream to the pipeline. -/
structure Filled (c : FirestoreClient) : Prop where
  valid : c.localStore.Valid
  user : c.currentUser = c.localStore.userID
  ready : c.writeStream.Ready c.writePipeline
  filled : c.writePipeline =
    if c.isNetworkEnabled then c.localStore.queue.take maxPendingWrites else []
  running : c.isNetworkEnabled = true → c.writePipeline ≠ [] → c.writeStream.isStarted = true
  stopped : c.isNetworkEnabled = false → c.writeStream.isStarted = false

structure Consistent (c : FirestoreClient) : Prop extends Filled c where
  handshake : c.writeStream.handshakeComplete = true → c.writeStream.state = .opened

/-- Only the network, the pipeline and the stream differ. -/
structure SameStore (c c' : FirestoreClient) : Prop where
  localStore : c'.localStore = c.localStore
  currentUser : c'.currentUser = c.currentUser
  blocks : c'.mutationCompletionBlocks = c.mutationCompletionBlocks
  completed : c'.completed = c.completed

theorem SameStore.trans {c₁ c₂ c₃ : FirestoreClient} (h : SameStore c₁ c₂) (h' : SameStore c₂ c₃) :
    SameStore c₁ c₃ where
  localStore := h'.localStore.trans h.localStore
  currentUser := h'.currentUser.trans h.currentUser
  blocks := h'.blocks.trans h.blocks
  completed := h'.completed.trans h.completed

theorem Filled.enabled_of_started (h : c.Filled) (hstarted : c.writeStream.isStarted = true) :
    c.isNetworkEnabled = true := by
  cases henabled : c.isNetworkEnabled with
  | true => rfl
  | false =>
    rw [h.stopped henabled] at hstarted
    cases hstarted

theorem Filled.pipeline_eq (h : c.Filled) (henabled : c.isNetworkEnabled = true) :
    c.writePipeline = c.localStore.queue.take maxPendingWrites := by
  rw [h.filled, if_pos henabled]

theorem Filled.prefix_queue (h : c.Filled) : c.writePipeline <+: c.localStore.queue := by
  rw [h.filled]
  split
  · exact List.take_prefix _ _
  · exact List.nil_prefix

theorem Filled.length_le (h : c.Filled) : c.writePipeline.length ≤ maxPendingWrites := by
  rw [h.filled]
  split
  · exact List.length_take_le _ _
  · exact Nat.zero_le _

/-- Filling the pipeline. -/
theorem filled_of_fill (hvalid : c.localStore.Valid) (huser : c.currentUser = c.localStore.userID)
    (hready : c.writeStream.Ready c.writePipeline) (hfront : c.writePipeline <+: c.localStore.queue)
    (hle : c.writePipeline.length ≤ maxPendingWrites)
    (hdisabled : c.isNetworkEnabled = false →
      c.writePipeline = [] ∧ c.writeStream.isStarted = false) :
    ∃ c', c.fillWritePipeline = .ok c' ∧ c'.Filled ∧ SameStore c c' ∧
      c'.isNetworkEnabled = c.isNetworkEnabled ∧
      (c'.writeStream.state = .opened ↔ c.writeStream.state = .opened) ∧
      c'.writeStream.handshakeComplete = c.writeStream.handshakeComplete := by
  cases henabled : c.isNetworkEnabled with
  | true =>
    obtain ⟨s, hs, hready', hkept, hopen, hstarted⟩ :=
      fillWritePipeline_ok henabled hvalid hready hfront hle
    refine ⟨_, hs, ⟨hvalid, huser, hready', ?_, fun _ => hstarted, fun hfalse => ?_⟩,
      ⟨rfl, rfl, rfl, rfl⟩, henabled, hopen, hkept⟩
    · rw [if_pos henabled]
    · rw [show c.isNetworkEnabled = false from hfalse] at henabled
      cases henabled
  | false =>
    obtain ⟨hempty, hstopped⟩ := hdisabled henabled
    refine ⟨c, fillWritePipeline_disabled henabled, ⟨hvalid, huser, hready, ?_, fun htrue => ?_,
      fun _ => hstopped⟩, ⟨rfl, rfl, rfl, rfl⟩, henabled, Iff.rfl, rfl⟩
    · rw [henabled, hempty]
      rfl
    · rw [htrue] at henabled
      cases henabled

/-- Filling the pipeline at the end of an operation. -/
theorem consistent_of_fill (hvalid : c.localStore.Valid) (huser : c.currentUser = c.localStore.userID)
    (hready : c.writeStream.Ready c.writePipeline) (hfront : c.writePipeline <+: c.localStore.queue)
    (hle : c.writePipeline.length ≤ maxPendingWrites)
    (hdisabled : c.isNetworkEnabled = false →
      c.writePipeline = [] ∧ c.writeStream.isStarted = false)
    (hhandshake : c.writeStream.handshakeComplete = true → c.writeStream.state = .opened) :
    ∃ c', c.fillWritePipeline = .ok c' ∧ c'.Consistent ∧ SameStore c c' ∧
      c'.isNetworkEnabled = c.isNetworkEnabled := by
  obtain ⟨c', hfill, hfilled, hsame, henabled, hopen, hkept⟩ :=
    filled_of_fill hvalid huser hready hfront hle hdisabled
  refine ⟨c', hfill, ⟨hfilled, fun hcomplete => hopen.mpr (hhandshake ?_)⟩, hsame, henabled⟩
  rw [← hkept]
  exact hcomplete

/-! ### Batches that leave the queue -/

/-- The first batch of the current user is answered, and its completion block called. -/
structure Dequeued (c c' : FirestoreClient) (batch : MutationBatch) (rest : List MutationBatch)
    (error : Option ErrorCode) : Prop where
  head : c.localStore.queue = batch :: rest
  tail : c'.localStore.queue = rest
  userID : c'.localStore.userID = c.localStore.userID
  others : ∀ user, user ≠ c.localStore.userID →
    c'.localStore.db.allMutationBatches user = c.localStore.db.allMutationBatches user
  currentUser : c'.currentUser = c.currentUser
  blocks : c'.mutationCompletionBlocks =
    (c.processUserCallbacksForBatchID batch.batchID error).mutationCompletionBlocks
  completed : c'.completed = (c.processUserCallbacksForBatchID batch.batchID error).completed

/-- What follows in the same operation does not change what was dequeued. -/
theorem Dequeued.trans {c' c'' : FirestoreClient} {batch : MutationBatch} {rest : List MutationBatch}
    {error : Option ErrorCode} (h : Dequeued c c' batch rest error) (h' : SameStore c' c'') :
    Dequeued c c'' batch rest error where
  head := h.head
  tail := by rw [h'.localStore, h.tail]
  userID := by rw [h'.localStore, h.userID]
  others := fun user huser => by rw [h'.localStore, h.others user huser]
  currentUser := h'.currentUser.trans h.currentUser
  blocks := h'.blocks.trans h.blocks
  completed := h'.completed.trans h.completed

/-- Completion blocks are called without a look at the rest of the client. -/
theorem processUserCallbacks_eq (c : FirestoreClient) (localStore : LocalStore) (enabled : Bool)
    (pipeline : List MutationBatch) (s : WriteStream) (batchID : BatchId) (error : Option ErrorCode) :
    processUserCallbacksForBatchID
        { c with localStore := localStore, isNetworkEnabled := enabled, writePipeline := pipeline,
                 writeStream := s } batchID error =
      { c with
        localStore := localStore, isNetworkEnabled := enabled, writePipeline := pipeline,
        writeStream := s,
        mutationCompletionBlocks :=
          (c.processUserCallbacksForBatchID batchID error).mutationCompletionBlocks,
        completed := (c.processUserCallbacksForBatchID batchID error).completed } := by
  cases hblock : c.mutationCompletionBlocks c.currentUser batchID with
  | none => simp only [processUserCallbacksForBatchID, hblock]
  | some completion => simp only [processUserCallbacksForBatchID, hblock]

/-- The first batch of a pipeline that is filled is the first one of the queue. -/
theorem head_of_pipeline {batch : MutationBatch} {pipeline : List MutationBatch}
    (hfilled : batch :: pipeline = c.localStore.queue.take maxPendingWrites) :
    ∃ rest, c.localStore.queue = batch :: rest ∧ pipeline <+: rest := by
  cases hqueue : c.localStore.queue with
  | nil =>
    rw [hqueue] at hfilled
    cases hfilled
  | cons b rest =>
    rw [hqueue, maxPendingWrites, List.take_succ_cons, List.cons.injEq] at hfilled
    obtain ⟨hb, hpipeline⟩ := hfilled
    refine ⟨rest, by rw [hb], ?_⟩
    rw [hpipeline]
    exact List.take_prefix _ _

/-- What an acknowledged batch did to the cache of remote documents. -/
def Applied (c c' : FirestoreClient) (batch : MutationBatch) (mutationResults : List MutationResult) :
    Prop :=
  Answered batch.mutations mutationResults ∧
    ∃ result, MutationBatchResult.resultWithBatch batch mutationResults = .ok result ∧
      (∀ key ∈ batch.keys, Acknowledged result key (c.localStore.remoteDocuments key)
        (c'.localStore.remoteDocuments key)) ∧
      ∀ key, key ∉ batch.keys →
        c'.localStore.remoteDocuments key = c.localStore.remoteDocuments key

theorem Filled.commitResponse_ok (h : c.Filled) (hopen : c.writeStream.state = .opened)
    (hcomplete : c.writeStream.handshakeComplete = true) {mutationResults : List MutationResult}
    {batch : MutationBatch} {pipeline : List MutationBatch} (hpipeline : c.writePipeline = batch :: pipeline)
    (hanswered : Answered batch.mutations mutationResults) :
    ∃ c' rest, commitResponse { c with writeStream := { c.writeStream with
          requests := c.writeStream.requests.tail } } mutationResults = .ok c' ∧
      c'.Consistent ∧ c'.isNetworkEnabled = true ∧ Dequeued c c' batch rest none ∧
      Applied c c' batch mutationResults := by
  have hstarted := WriteStream.isStarted_of_opened hopen
  have henabled := h.enabled_of_started hstarted
  have hfilled := h.pipeline_eq henabled
  have hle := h.length_le
  rw [hpipeline] at hfilled hle
  obtain ⟨rest, hqueue, hfront⟩ := head_of_pipeline hfilled
  have hready := (hpipeline ▸ h.ready).answered hopen hcomplete
  have hresult := resultWithBatch_ok hanswered
  obtain ⟨localStore, hack, hvalid, huser, -, hrest, hothers, hin, hout⟩ :=
    LocalStore.acknowledge_ok h.valid hqueue hanswered hresult
  let s : WriteStream := { c.writeStream with requests := c.writeStream.requests.tail }
  let c₁ : FirestoreClient := { c with
    localStore := localStore, writePipeline := pipeline, writeStream := s,
    mutationCompletionBlocks :=
      (c.processUserCallbacksForBatchID batch.batchID none).mutationCompletionBlocks,
    completed := (c.processUserCallbacksForBatchID batch.batchID none).completed }
  obtain ⟨c', hfill, hconsistent, hsame, hkept⟩ := consistent_of_fill (c := c₁) hvalid
    (h.user.trans huser.symm) hready (by rw [show c₁.localStore.queue = rest from hrest]; exact hfront)
    (Nat.le_of_succ_le hle) (fun hfalse => by
      rw [show c.isNetworkEnabled = false from hfalse] at henabled
      cases henabled) fun _ => hopen
  refine ⟨c', rest, ?_, hconsistent, hkept.trans henabled, ?_, hanswered, _, hresult,
    fun key hkey => ?_, fun key hkey => ?_⟩
  · show (do
      hardAssert (s.isStarted = true) Failure.notStarted
      writeStreamDidReceiveResponse { c with writeStream := s } mutationResults) = _
    rw [hardAssert_ok (show s.isStarted = true from hstarted), ok_bind]
    simp only [writeStreamDidReceiveResponse, hpipeline, hresult, ok_bind,
      applySuccessfulWriteWithResult]
    rw [processUserCallbacks_eq c c.localStore c.isNetworkEnabled pipeline s]
    show (do
      let c' ← (do
        let p ← c.localStore.acknowledgeBatchWithResult _
        return { c₁ with localStore := p.1 })
      c'.fillWritePipeline) = _
    rw [hack]
    exact hfill
  · have hdequeued : Dequeued c c₁ batch rest none :=
      ⟨hqueue, hrest, huser, hothers, rfl, rfl, rfl⟩
    exact hdequeued.trans hsame
  · rw [hsame.localStore]
    exact hin key hkey
  · rw [hsame.localStore]
    exact hout key hkey

/-- With the answer to the handshake the pipeline is sent. -/
theorem Filled.handshakeResponse_ok (h : c.Filled) (hopen : c.writeStream.state = .opened)
    (hfalse : c.writeStream.handshakeComplete = false) :
    ∃ s, handshakeResponse { c with writeStream := { c.writeStream with
          requests := c.writeStream.requests.tail } } = .ok { c with writeStream := s } ∧
      Consistent { c with writeStream := s } ∧ s.state = .opened ∧ s.handshakeComplete = true := by
  have hstarted := WriteStream.isStarted_of_opened hopen
  have henabled := h.enabled_of_started hstarted
  obtain ⟨s, hs, hready, hopen', hcomplete'⟩ :=
    @WriteStream.Ready.sendAll c.writePipeline _ _ (h.ready.handshaken hopen hfalse) hopen rfl
  refine ⟨s, ?_, ⟨⟨h.valid, h.user, hready, h.filled, fun _ _ => ?_, fun hdisabled => ?_⟩,
    fun _ => hopen'⟩, hopen', hcomplete'⟩
  · show (do
      hardAssert (c.writeStream.isStarted = true) Failure.notStarted
      let s ← c.writePipeline.foldlM
        (fun (s : WriteStream) (batch : MutationBatch) => s.writeMutations batch.mutations)
        { c.writeStream with requests := c.writeStream.requests.tail, handshakeComplete := true }
      return { c with writeStream := s }) = _
    rw [hardAssert_ok hstarted, ok_bind, hs]
    rfl
  · exact WriteStream.isStarted_of_opened hopen'
  · rw [show c.isNetworkEnabled = false from hdisabled] at henabled
    cases henabled

/-! ### Closing -/

/-- A stream that is closed and not needed stays closed. -/
theorem close_graceful (hle : ∀ n ∈ c.writeStream.tokenRequests, n ≤ c.writeStream.closeCount)
    (hready : c.writeStream.Ready c.writePipeline)
    (hhandshake : c.writeStream.handshakeComplete = true → c.writeStream.state = .opened)
    (hneedless : c.isNetworkEnabled = false ∨ c.writePipeline = []) :
    ∃ s, c.close none = .ok { c with writeStream := s } ∧ (∀ pipeline, s.Ready pipeline) ∧
      s.isStarted = false ∧ s.handshakeComplete = false := by
  cases hstarted : c.writeStream.isStarted with
  | false =>
    refine ⟨c.writeStream, ?_, hready.of_stopped hstarted, hstarted, ?_⟩
    · simp only [close, hstarted, Option.isNone_none, Bool.not_false, Bool.and_self, if_true,
        pure_eq_ok]
    · refine Bool.eq_false_iff.mpr fun hcomplete => ?_
      rcases WriteStream.isStarted_eq_false.mp hstarted with hstate | hstate <;>
        rw [hhandshake hcomplete] at hstate <;> cases hstate
  | true =>
    have hclosed := WriteStream.closed_isStarted c.writeStream true
    have hshould : shouldStartWriteStream { c with writeStream := c.writeStream.closed true } = false := by
      refine Bool.eq_false_iff.mpr fun hshould => ?_
      obtain ⟨henabled, -, hne⟩ := shouldStart_iff.mp hshould
      rcases hneedless with hdisabled | hempty
      · rw [show c.isNetworkEnabled = true from henabled] at hdisabled
        cases hdisabled
      · exact hne hempty
    refine ⟨{ c.writeStream.closed true with handshakeComplete := false }, ?_, fun pipeline => ?_, hclosed,
      rfl⟩
    · simp only [close, hstarted, Option.isNone_none, Bool.not_true, Bool.and_false, Bool.false_eq_true,
        if_false, hardAssert_ok, ok_bind, writeStreamWasInterruptedWithError, hshould, implies_true,
        handleStreamError, startIfNeeded_of_not hshould, pure_eq_ok]
    · refine (WriteStream.ready_closed hle true pipeline).with_handshake (fun hopen => ?_) false
      rcases WriteStream.isStarted_eq_false.mp hclosed with hstate | hstate <;> rw [hopen] at hstate <;>
        cases hstate

/-- A stream that ends with the status OK while there are writes to send ends the program. -/
theorem close_needed (hstarted : c.writeStream.isStarted = true) (henabled : c.isNetworkEnabled = true)
    (hne : c.writePipeline ≠ []) : c.close none = .error .stoppedWhileNeeded := by
  have hshould : shouldStartWriteStream { c with writeStream := c.writeStream.closed true } = true :=
    shouldStart_iff.mpr ⟨henabled, WriteStream.closed_isStarted _ _, hne⟩
  have hinterrupted : writeStreamWasInterruptedWithError
      { c with writeStream := c.writeStream.closed true } none = .error .stoppedWhileNeeded := by
    rw [writeStreamWasInterruptedWithError, hardAssert, if_neg fun h => ?_]
    · rfl
    · rw [h rfl] at hshould
      cases hshould
  simp only [close, hstarted, Option.isNone_none, Bool.not_true, Bool.and_false, Bool.false_eq_true,
    if_false, hardAssert_ok, ok_bind, hinterrupted]
  rfl

/-- The handshake is forgotten when the stream is closed. -/
theorem Filled.reset (h : c.Filled) (hclosed : c.writeStream.state ≠ .opened) :
    Consistent { c with writeStream := { c.writeStream with handshakeComplete := false } } where
  valid := h.valid
  user := h.user
  ready := h.ready.with_handshake hclosed false
  filled := h.filled
  running := h.running
  stopped := h.stopped
  handshake := fun hfalse => by cases hfalse

/-- A permanent error is the answer to the first batch of the pipeline. -/
theorem handleWriteError_ok (hvalid : c.localStore.Valid) (huser : c.currentUser = c.localStore.userID)
    (henabled : c.isNetworkEnabled = true) (hready : c.writeStream.Ready c.writePipeline)
    (hstopped : c.writeStream.isStarted = false)
    (hfilled : c.writePipeline = c.localStore.queue.take maxPendingWrites)
    (hne : c.writePipeline ≠ []) {error : ErrorCode} (hpermanent : isPermanentWriteError error = true) :
    ∃ c' batch rest, c.handleWriteError error = .ok c' ∧ c'.Filled ∧ c'.writeStream.state ≠ .opened ∧
      Dequeued c c' batch rest (some error) ∧
      c'.localStore.remoteDocuments = c.localStore.remoteDocuments := by
  obtain ⟨batch, pipeline, hpipeline⟩ := List.exists_cons_of_ne_nil hne
  have hle : (batch :: pipeline).length ≤ maxPendingWrites := by
    rw [← hpipeline, hfilled]
    exact List.length_take_le _ _
  obtain ⟨rest, hqueue, hfront⟩ := head_of_pipeline (hpipeline ▸ hfilled)
  obtain ⟨hinhibit, hready'⟩ := hready.inhibitBackoff hstopped
  obtain ⟨localStore, hreject, hvalid', huser', -, hrest, hothers, hcache⟩ :=
    LocalStore.reject_ok hvalid hqueue
  let s : WriteStream := { c.writeStream with state := .initial }
  let c₁ : FirestoreClient := { c with
    localStore := localStore, writePipeline := pipeline, writeStream := s,
    mutationCompletionBlocks :=
      (c.processUserCallbacksForBatchID batch.batchID (some error)).mutationCompletionBlocks,
    completed := (c.processUserCallbacksForBatchID batch.batchID (some error)).completed }
  obtain ⟨c', hfill, hfilled', hsame, -, hopen, -⟩ := filled_of_fill (c := c₁) hvalid'
    (huser.trans huser'.symm) (hready'.of_stopped rfl pipeline)
    (by rw [show c₁.localStore.queue = rest from hrest]; exact hfront) (Nat.le_of_succ_le hle)
    fun hfalse => by
      rw [show c.isNetworkEnabled = false from hfalse] at henabled
      cases henabled
  refine ⟨c', batch, rest, ?_, hfilled', fun h => ?_, ?_, ?_⟩
  · simp only [handleWriteError, hpermanent, if_true, hpipeline, hinhibit, ok_bind,
      rejectFailedWriteWithBatchID, hreject, pure_eq_ok]
    rw [processUserCallbacks_eq c localStore c.isNetworkEnabled pipeline s]
    exact hfill
  · cases hopen.mp h
  · have hdequeued : Dequeued c c₁ batch rest (some error) :=
      ⟨hqueue, hrest, huser', hothers, rfl, rfl, rfl⟩
    exact hdequeued.trans hsame
  · rw [hsame.localStore]
    exact hcache

/-- The error is the answer to the first batch of the pipeline. -/
def rejects (c : FirestoreClient) (error : ErrorCode) : Bool :=
  decide (0 < c.writePipeline.length) && c.writeStream.handshakeComplete && isPermanentWriteError error

theorem handleStreamError_eq (c : FirestoreClient) (error : ErrorCode) :
    c.handleStreamError (some error) = if c.rejects error then c.handleWriteError error else .ok c := by
  rw [handleStreamError, rejects]
  cases hsent : decide (0 < c.writePipeline.length) && c.writeStream.handshakeComplete with
  | false => rfl
  | true =>
    cases hpermanent : isPermanentWriteError error with
    | false =>
      rw [handleWriteError, hpermanent]
      rfl
    | true => rfl

/-- Without a rejection the stream is started again if there is something to send. -/
theorem restart_ok (hvalid : c.localStore.Valid) (huser : c.currentUser = c.localStore.userID)
    (henabled : c.isNetworkEnabled = true) (hready : c.writeStream.Ready c.writePipeline)
    (hstopped : c.writeStream.isStarted = false)
    (hfilled : c.writePipeline = c.localStore.queue.take maxPendingWrites) :
    ∃ c', c.startIfNeeded = .ok c' ∧ c'.Filled ∧ c'.writeStream.state ≠ .opened ∧ SameStore c c' := by
  cases hshould : c.shouldStartWriteStream with
  | true =>
    obtain ⟨s, hs, hready', hstarted, hclosed, -⟩ := startIfNeeded_of_needed hready hshould
    refine ⟨_, hs, ⟨hvalid, huser, hready', ?_, fun _ _ => hstarted, fun hfalse => ?_⟩, hclosed,
      ⟨rfl, rfl, rfl, rfl⟩⟩
    · rw [if_pos henabled]
      exact hfilled
    · rw [show c.isNetworkEnabled = false from hfalse] at henabled
      cases henabled
  | false =>
    refine ⟨c, startIfNeeded_of_not hshould, ⟨hvalid, huser, hready, ?_, fun _ hne => ?_,
      fun _ => hstopped⟩, ?_, ⟨rfl, rfl, rfl, rfl⟩⟩
    · rw [if_pos henabled]
      exact hfilled
    · have htrue : c.shouldStartWriteStream = true := shouldStart_iff.mpr ⟨henabled, hstopped, hne⟩
      rw [htrue] at hshould
      cases hshould
    · rcases WriteStream.isStarted_eq_false.mp hstopped with hstate | hstate <;> rw [hstate] <;> decide

/-- Closing the stream before a batch leaves the queue changes nothing of it. -/
theorem Dequeued.of_stream {c' : FirestoreClient} {s : WriteStream} {batch : MutationBatch}
    {rest : List MutationBatch} {error : Option ErrorCode}
    (h : Dequeued { c with writeStream := s } c' batch rest error) :
    Dequeued c c' batch rest error := by
  have hprocess := processUserCallbacks_eq c c.localStore c.isNetworkEnabled c.writePipeline s
    batch.batchID error
  refine ⟨h.head, h.tail, h.userID, h.others, h.currentUser, h.blocks.trans ?_, h.completed.trans ?_⟩
  · rw [hprocess]
  · rw [hprocess]

/-- The stream ends with an error: the first batch is rejected, or what is in the pipeline is sent again
later. -/
theorem close_error (hvalid : c.localStore.Valid) (huser : c.currentUser = c.localStore.userID)
    (henabled : c.isNetworkEnabled = true)
    (hle : ∀ n ∈ c.writeStream.tokenRequests, n ≤ c.writeStream.closeCount)
    (hstarted : c.writeStream.isStarted = true)
    (hfilled : c.writePipeline = c.localStore.queue.take maxPendingWrites) (error : ErrorCode) :
    ∃ c', c.close (some error) = .ok c' ∧ c'.Consistent ∧
      if c.rejects error then ∃ batch rest, Dequeued c c' batch rest (some error) ∧
        c'.localStore.remoteDocuments = c.localStore.remoteDocuments
      else SameStore c c' := by
  let c₁ : FirestoreClient := { c with writeStream := c.writeStream.closed false }
  have hready : ∀ pipeline, c₁.writeStream.Ready pipeline := WriteStream.ready_closed hle false
  have hstopped : c₁.writeStream.isStarted = false := WriteStream.closed_isStarted _ _
  have hclose : c.close (some error) = (do
      let c' ← (if c.rejects error then c₁.handleWriteError error else .ok c₁) >>= startIfNeeded
      return { c' with writeStream := { c'.writeStream with handshakeComplete := false } }) := by
    simp only [close, Option.isNone_some, Bool.false_and, Bool.false_eq_true, if_false, hardAssert_ok,
      hstarted, ok_bind, writeStreamWasInterruptedWithError, false_implies]
    rw [handleStreamError_eq c₁ error]
    rfl
  cases hrejects : c.rejects error with
  | false =>
    obtain ⟨c', hstart, hfilled', hclosed, hsame⟩ :=
      restart_ok (c := c₁) hvalid huser henabled (hready _) hstopped hfilled
    refine ⟨_, ?_, hfilled'.reset hclosed,
      ⟨hsame.localStore, hsame.currentUser, hsame.blocks, hsame.completed⟩⟩
    rw [hclose, hrejects, if_neg Bool.false_ne_true, ok_bind, hstart]
    rfl
  | true =>
    obtain ⟨hsent, hpermanent⟩ := (Bool.and_eq_true _ _).mp hrejects
    have hne : c.writePipeline ≠ [] :=
      List.length_pos_iff.mp (of_decide_eq_true ((Bool.and_eq_true _ _).mp hsent).1)
    obtain ⟨c₂, batch, rest, hc₂, hfilled₂, hclosed₂, hdequeued, hcache⟩ := handleWriteError_ok (c := c₁)
      hvalid huser henabled (hready _) hstopped hfilled hne hpermanent
    have hshould : c₂.shouldStartWriteStream = false := by
      refine Bool.eq_false_iff.mpr fun hshould => ?_
      obtain ⟨henabled₂, hstopped₂, hne₂⟩ := shouldStart_iff.mp hshould
      rw [hfilled₂.running henabled₂ hne₂] at hstopped₂
      cases hstopped₂
    refine ⟨_, ?_, hfilled₂.reset hclosed₂, batch, rest, ?_, hcache⟩
    · rw [hclose, hrejects, if_pos rfl, hc₂, ok_bind, startIfNeeded_of_not hshould]
      rfl
    · exact hdequeued.of_stream.trans ⟨rfl, rfl, rfl, rfl⟩

end GiftGenie.FirestoreClient
