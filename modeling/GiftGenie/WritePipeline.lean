import GiftGenie.LocalStore
import GiftGenie.WriteStream

/-!
# The write pipeline of the client

The part of the Firestore client that brings the writes to the server.  `FSTSyncEngine` stores the
mutations of a write and keeps its completion block, `FSTRemoteStore` takes up to ten batches of the
queue into its pipeline and sends them over the write stream.  An answer is for the first batch of the
pipeline; when the stream ends, what is in the pipeline is sent again.

All of this runs on one queue, so the operations of the queue are the steps of a machine (`step`): a call
of the app, an answer of the server or of the credentials provider, a timer.  A failed `HARD_ASSERT`
ends the program.
-/

set_option autoImplicit false

namespace GiftGenie

open GiftGenie.Mutations GiftGenie.MutationQueue GiftGenie.LocalDocuments

/-- `kMaxPendingWrites`. -/
def maxPendingWrites : ℕ := 10

/-- A completion block, by a name. -/
abbrev Completion := ℕ

/-- A completion block that was called: for which user and batch, and with which error. -/
structure Completed where
  userID : String
  batchID : Option BatchId
  completion : Completion
  error : Option ErrorCode
  deriving DecidableEq, Repr

/-- `FSTFirestoreClient` with its stores and its sync engine.  `completed` are the calls of completion
blocks up to now. -/
structure FirestoreClient where
  localStore : LocalStore
  currentUser : String
  mutationCompletionBlocks : String → BatchId → Option Completion := fun _ _ => none
  isNetworkEnabled : Bool := false
  writePipeline : List MutationBatch := []
  writeStream : WriteStream := {}
  completed : List Completed := []

namespace FirestoreClient

variable (c : FirestoreClient)

/-! ### `FSTRemoteStore`: filling the pipeline -/

def shouldStartWriteStream : Bool :=
  c.isNetworkEnabled && !c.writeStream.isStarted && decide (0 < c.writePipeline.length)

def startWriteStream : Except Failure FirestoreClient := do
  hardAssert (c.shouldStartWriteStream = true) .startNotNeeded
  return { c with writeStream := ← c.writeStream.start }

/-- Where the source starts the stream, it asks first. -/
def startIfNeeded : Except Failure FirestoreClient :=
  if c.shouldStartWriteStream then c.startWriteStream else .ok c

def canAddToWritePipeline : Bool :=
  c.isNetworkEnabled && decide (c.writePipeline.length < maxPendingWrites)

def addBatchToWritePipeline (batch : MutationBatch) : Except Failure FirestoreClient := do
  hardAssert (c.canAddToWritePipeline = true) .pipelineFull
  let c := { c with writePipeline := c.writePipeline ++ [batch] }
  if c.writeStream.isOpen && c.writeStream.handshakeComplete then
    return { c with writeStream := ← c.writeStream.writeMutations batch.mutations }
  else return c

/-- The loop of `fillWritePipeline`, at most so many times. -/
def fillLoop : ℕ → BatchId → FirestoreClient → Except Failure FirestoreClient
  | 0, _, c => return c
  | n + 1, lastBatchIDRetrieved, c =>
      if c.canAddToWritePipeline then do
        match ← c.localStore.nextMutationBatchAfterBatchID lastBatchIDRetrieved with
        | none =>
            if c.writePipeline.length = 0 then return { c with writeStream := c.writeStream.markIdle }
            else return c
        | some batch => fillLoop n batch.batchID (← c.addBatchToWritePipeline batch)
      else return c

def fillWritePipeline : Except Failure FirestoreClient := do
  let lastBatchIDRetrieved := (c.writePipeline.getLast?.map MutationBatch.batchID).getD batchIdUnknown
  -- the loop ends when the pipeline is full
  let c ← fillLoop (maxPendingWrites + 1) lastBatchIDRetrieved c
  c.startIfNeeded

/-! ### `FSTSyncEngine` -/

def processUserCallbacksForBatchID (batchID : BatchId) (error : Option ErrorCode) : FirestoreClient :=
  match c.mutationCompletionBlocks c.currentUser batchID with
  | none => c
  | some completion =>
      { c with
        completed := c.completed ++ [⟨c.currentUser, some batchID, completion, error⟩]
        mutationCompletionBlocks := Function.update c.mutationCompletionBlocks c.currentUser
          (Function.update (c.mutationCompletionBlocks c.currentUser) batchID none) }

def applySuccessfulWriteWithResult (result : MutationBatchResult) : Except Failure FirestoreClient := do
  let c := c.processUserCallbacksForBatchID result.batch.batchID none
  let (localStore, _) ← c.localStore.acknowledgeBatchWithResult result
  return { c with localStore := localStore }

def rejectFailedWriteWithBatchID (batchID : BatchId) (error : ErrorCode) :
    Except Failure FirestoreClient := do
  let (localStore, _) ← c.localStore.rejectBatchID batchID
  return { c with localStore := localStore }.processUserCallbacksForBatchID batchID (some error)

def addMutationCompletionBlock (completion : Completion) (batchID : BatchId) : FirestoreClient :=
  { c with
    mutationCompletionBlocks := Function.update c.mutationCompletionBlocks c.currentUser
      (Function.update (c.mutationCompletionBlocks c.currentUser) batchID (some completion)) }

/-- `writeMutations` of the client and of the sync engine; a write of nothing is complete at once. -/
def writeMutations (mutations : List Mutation) (completion : Completion) :
    Except Failure FirestoreClient :=
  if mutations.length = 0 then
    return { c with completed := c.completed ++ [⟨c.currentUser, none, completion, none⟩] }
  else do
    let (localStore, batchID, _) ← c.localStore.locallyWriteMutations mutations
    let c := { c with localStore := localStore }.addMutationCompletionBlock completion batchID
    c.fillWritePipeline

/-! ### `FSTRemoteStore`: the delegate of the write stream -/

/-- `writeStreamDidCompleteHandshake`: the pipeline is sent. -/
def writeStreamDidCompleteHandshake : Except Failure FirestoreClient := do
  let writeStream ← c.writePipeline.foldlM (fun s batch => s.writeMutations batch.mutations) c.writeStream
  return { c with writeStream := writeStream }

/-- `writeStreamDidReceiveResponseWithVersion`: the answer is for the first batch of the pipeline. -/
def writeStreamDidReceiveResponse (mutationResults : List MutationResult) :
    Except Failure FirestoreClient :=
  match c.writePipeline with
  | [] => .error .pipelineEmpty
  | batch :: rest => do
      let result ← MutationBatchResult.resultWithBatch batch mutationResults
      let c ← { c with writePipeline := rest }.applySuccessfulWriteWithResult result
      c.fillWritePipeline

def handleWriteError (error : ErrorCode) : Except Failure FirestoreClient :=
  if isPermanentWriteError error then
    match c.writePipeline with
    | [] => .error .pipelineEmpty
    | batch :: rest => do
        let writeStream ← c.writeStream.inhibitBackoff
        let c ← { c with writePipeline := rest, writeStream := writeStream
          }.rejectFailedWriteWithBatchID batch.batchID error
        c.fillWritePipeline
  else return c

/-- An error before the end of the handshake resets at most the stream token. -/
def handleStreamError : Option ErrorCode → Except Failure FirestoreClient
  | some error =>
      if decide (0 < c.writePipeline.length) && c.writeStream.handshakeComplete then
        c.handleWriteError error
      else .ok c
  | none => .ok c

def writeStreamWasInterruptedWithError (error : Option ErrorCode) : Except Failure FirestoreClient := do
  hardAssert (error.isNone = true → c.shouldStartWriteStream = false) .stoppedWhileNeeded
  let c ← c.handleStreamError error
  c.startIfNeeded

/-! ### `Stream`: what calls the delegate -/

/-- `Close`, where no error is the status OK. -/
def close (error : Option ErrorCode) : Except Failure FirestoreClient :=
  if error.isNone && !c.writeStream.isStarted then return c
  else do
    hardAssert (c.writeStream.isStarted = true) .notStarted
    let c ← { c with writeStream := c.writeStream.closed error.isNone
      }.writeStreamWasInterruptedWithError error
    return { c with writeStream := { c.writeStream with handshakeComplete := false } }

def resumeStartWithCredentials (error : Option ErrorCode) : Except Failure FirestoreClient := do
  hardAssert (c.writeStream.state = .starting) .notStarting
  match error with
  | some error => c.close (some error)
  | none => return { c with writeStream := ← c.writeStream.onStreamStart }

/-- `OnStreamRead` with the answer to the handshake, which is the first one. -/
def handshakeResponse : Except Failure FirestoreClient := do
  hardAssert (c.writeStream.isStarted = true) .notStarted
  { c with writeStream := { c.writeStream with handshakeComplete := true }
    }.writeStreamDidCompleteHandshake

/-- `OnStreamRead` with a later answer. -/
def commitResponse (mutationResults : List MutationResult) : Except Failure FirestoreClient := do
  hardAssert (c.writeStream.isStarted = true) .notStarted
  c.writeStreamDidReceiveResponse mutationResults

def onStreamRead (mutationResults : List MutationResult) : Except Failure FirestoreClient :=
  if c.writeStream.handshakeComplete then c.commitResponse mutationResults
  else c.handshakeResponse

/-! ### The network -/

def enableNetwork : Except Failure FirestoreClient :=
  { c with isNetworkEnabled := true }.fillWritePipeline

def disableNetworkInternal : Except Failure FirestoreClient := do
  let c ← c.close none
  return { c with writePipeline := [] }

def disableNetwork : Except Failure FirestoreClient :=
  { c with isNetworkEnabled := false }.disableNetworkInternal

/-- `credentialDidChange` of the remote store. -/
def credentialDidChange : Except Failure FirestoreClient :=
  if c.isNetworkEnabled then do
    let c ← { c with isNetworkEnabled := false }.disableNetworkInternal
    c.enableNetwork
  else return c

def credentialDidChangeWithUser (user : String) : Except Failure FirestoreClient := do
  let c' ← if c.currentUser ≠ user then do
      let (localStore, _) ← c.localStore.userDidChange user
      pure { c with currentUser := user, localStore := localStore }
    else pure c
  c'.credentialDidChange

def applyRemoteEvent (documentUpdates : List (String × MaybeDocument))
    (authoritativeUpdates : List String) : Except Failure FirestoreClient := do
  let (localStore, _) ← c.localStore.applyRemoteEvent documentUpdates authoritativeUpdates
  return { c with localStore := localStore }

end FirestoreClient

/-- `initializeWithUser`, with what an earlier process left in the database. -/
def initializeWithUser (db : LevelDB) (remoteDocuments : RemoteDocumentCache) (user : String) :
    Except Failure FirestoreClient :=
  let localStore : LocalStore := ⟨db, remoteDocuments, user, 0⟩
  FirestoreClient.enableNetwork ⟨localStore.startMutationQueue, user, fun _ _ => none, false, [], {}, []⟩

/-! ### Steps -/

/-- The operations that come to the queue of the client. -/
inductive ClientEvent where
  | write (mutations : List Mutation) (completion : Completion)
  /-- The request for a token that was made at this close count is answered. -/
  | token (closeCount : ℕ) (error : Option ErrorCode)
  /-- The server answers the oldest request of the call. -/
  | response (mutationResults : List MutationResult)
  /-- The call is over, with an error or with the status OK. -/
  | finished (error : Option ErrorCode)
  | idleTimeout
  | backoffElapsed
  | enableNetwork
  | disableNetwork
  | credentialChange (user : String)
  | remoteEvent (documentUpdates : List (String × MaybeDocument)) (authoritativeUpdates : List String)

namespace FirestoreClient

/-- The server answers what it was asked: with one result for each mutation of the request. -/
def expects (c : FirestoreClient) (mutationResults : List MutationResult) : Bool :=
  match c.writeStream.requests with
  | [] => false
  | .handshake :: _ => true
  | .mutations mutations :: _ => decide (LocalStore.Answered mutations mutationResults)

/-- One operation; `none` where it cannot come.  A write that would take the last `int32_t` as its
id is no step, as there is no next id after it, and neither is what would close a stream once more than
an `int` can count. -/
def step (c : FirestoreClient) : ClientEvent → Option (Except Failure FirestoreClient)
  | .write mutations completion =>
      if mutations = [] ∨ c.localStore.nextBatchID < batchIdMax then
        some (c.writeMutations mutations completion)
      else none
  | .token closeCount error =>
      if closeCount ∈ c.writeStream.tokenRequests then
        let c' := { c with writeStream := { c.writeStream with
          tokenRequests := c.writeStream.tokenRequests.erase closeCount } }
        -- the stream was closed meanwhile
        if closeCount ≠ c.writeStream.closeCount then some (.ok c')
        else if error = none ∨ c.writeStream.CanClose then some (c'.resumeStartWithCredentials error)
        else none
      else none
  | .response mutationResults =>
      if c.expects mutationResults then
        some ({ c with writeStream := { c.writeStream with requests := c.writeStream.requests.tail }
          }.onStreamRead mutationResults)
      else none
  | .finished error =>
      if c.writeStream.state = .opened ∧ c.writeStream.CanClose then some (c.close error) else none
  | .idleTimeout =>
      if c.writeStream.idlenessTimer ∧ c.writeStream.CanClose then some (c.close none) else none
  | .backoffElapsed =>
      if c.writeStream.backoffTimer then
        some (c.writeStream.backoffElapsed.map fun writeStream => { c with writeStream := writeStream })
      else none
  | .enableNetwork => some c.enableNetwork
  | .disableNetwork => if c.writeStream.CanClose then some c.disableNetwork else none
  | .credentialChange user =>
      if c.writeStream.CanClose then some (c.credentialDidChangeWithUser user) else none
  | .remoteEvent documentUpdates authoritativeUpdates =>
      some (c.applyRemoteEvent documentUpdates authoritativeUpdates)

end FirestoreClient

end GiftGenie
