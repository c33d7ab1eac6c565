import GiftGenie.WriteSteps

/-!
# What the operations of the client do

`step_effect` says once what an operation can do: it keeps the client consistent, and does to the
queues, to the completion blocks and to the cache what `Effect` says, or it ends the program.  That
happens with one kind of operation only: the call of the write stream ends with the status OK while there
are writes to send.
-/

set_option autoImplicit false

namespace GiftGenie.FirestoreClient

open GiftGenie.Mutations GiftGenie.MutationQueue GiftGenie.LocalDocuments GiftGenie.LocalStore

variable {c : FirestoreClient}

/-! ### Tokens and timers -/

theorem Consistent.complete_opened (h : c.Consistent) (hclosed : c.writeStream.state ≠ .opened) :
    c.writeStream.handshakeComplete = false :=
  Bool.eq_false_iff.mpr fun hcomplete => hclosed (h.handshake hcomplete)

/-- The stream has changed in a way that leaves it started or stopped. -/
theorem Consistent.with_stream (h : c.Consistent) {s : WriteStream} (hready : s.Ready c.writePipeline)
    (hstarted : s.isStarted = c.writeStream.isStarted)
    (hhandshake : s.handshakeComplete = true → s.state = .opened) :
    Consistent { c with writeStream := s } where
  valid := h.valid
  user := h.user
  ready := hready
  filled := h.filled
  running := fun henabled hne => hstarted.trans (h.running henabled hne)
  stopped := fun hdisabled => hstarted.trans (h.stopped hdisabled)
  handshake := hhandshake

/-- The token for the current start. -/
theorem Consistent.token_ok (h : c.Consistent)
    (hmem : c.writeStream.closeCount ∈ c.writeStream.tokenRequests) :
    ∃ s, resumeStartWithCredentials { c with writeStream := { c.writeStream with
          tokenRequests := c.writeStream.tokenRequests.erase c.writeStream.closeCount } } none =
        .ok { c with writeStream := s } ∧
      Consistent { c with writeStream := s } ∧ s.state = .opened ∧ s.handshakeComplete = false := by
  obtain ⟨hstate, -⟩ := h.ready.starting_of_token hmem
  have hfalse := h.complete_opened (by rw [hstate]; decide)
  obtain ⟨s, hs, hready, hopen, hfalse'⟩ := h.ready.onStreamStart hmem hfalse
  refine ⟨s, ?_, h.with_stream hready ?_ fun _ => hopen, hopen, hfalse'⟩
  · rw [resumeStartWithCredentials, hardAssert_ok hstate]
    show (do return { c with writeStream := ← WriteStream.onStreamStart _ }) = _
    rw [hs]
    rfl
  · rw [WriteStream.isStarted_of_opened hopen, WriteStream.isStarted, hstate]
    rfl

/-- Without a token the stream ends with an error, and nothing that was not sent is lost. -/
theorem Consistent.token_error (h : c.Consistent)
    (hmem : c.writeStream.closeCount ∈ c.writeStream.tokenRequests) (error : ErrorCode) :
    ∃ c', resumeStartWithCredentials { c with writeStream := { c.writeStream with
          tokenRequests := c.writeStream.tokenRequests.erase c.writeStream.closeCount } } (some error) =
        .ok c' ∧ c'.Consistent ∧ SameStore c c' := by
  obtain ⟨hstate, -⟩ := h.ready.starting_of_token hmem
  have hstarted : c.writeStream.isStarted = true := by
    rw [WriteStream.isStarted, hstate]
    rfl
  have hfalse := h.complete_opened (by rw [hstate]; decide)
  have henabled := h.enabled_of_started hstarted
  let c₁ : FirestoreClient := { c with writeStream := { c.writeStream with
    tokenRequests := c.writeStream.tokenRequests.erase c.writeStream.closeCount } }
  have hkept : c₁.rejects error = false := by
    rw [rejects, show c₁.writeStream.handshakeComplete = false from hfalse, Bool.and_false,
      Bool.false_and]
  obtain ⟨c', hclose, hconsistent, heffect⟩ := close_error (c := c₁) h.valid h.user henabled
    (fun n hn => h.ready.tokens_le n (List.mem_of_mem_erase hn)) hstarted (h.pipeline_eq henabled) error
  rw [hkept, if_neg Bool.false_ne_true] at heffect
  refine ⟨c', ?_, hconsistent, heffect.localStore, heffect.currentUser, heffect.blocks,
    heffect.completed⟩
  rw [resumeStartWithCredentials, hardAssert_ok hstate]
  exact hclose

theorem Consistent.token_stale (h : c.Consistent) {n : ℕ} (hstale : n ≠ c.writeStream.closeCount) :
    Consistent { c with writeStream := { c.writeStream with
      tokenRequests := c.writeStream.tokenRequests.erase n } } :=
  h.with_stream (h.ready.dropToken hstale) rfl h.handshake

theorem Consistent.backoffElapsed (h : c.Consistent) (htimer : c.writeStream.backoffTimer = true) :
    ∃ s, c.writeStream.backoffElapsed = .ok s ∧ Consistent { c with writeStream := s } ∧
      s.state = .starting := by
  have hstate := h.ready.backoff.mp htimer
  obtain ⟨s, hs, hready, hstarting, hkept⟩ := h.ready.backoffElapsed htimer
  have hfalse := h.complete_opened (by rw [hstate]; decide)
  refine ⟨s, hs, h.with_stream hready ?_ fun hcomplete => ?_, hstarting⟩
  · rw [WriteStream.isStarted, WriteStream.isStarted, hstate, hstarting]
    rfl
  · rw [← hkept, hcomplete] at hfalse
    cases hfalse

/-! ### The network and the user -/

theorem Consistent.enableNetwork (h : c.Consistent) :
    ∃ c', c.enableNetwork = .ok c' ∧ c'.Consistent ∧ SameStore c c' ∧ c'.isNetworkEnabled = true := by
  obtain ⟨c', hfill, hconsistent, hsame, henabled⟩ := consistent_of_fill
    (c := { c with isNetworkEnabled := true }) h.valid h.user h.ready h.prefix_queue h.length_le
    (fun hfalse => by cases hfalse) h.handshake
  exact ⟨c', hfill, hconsistent, ⟨hsame.localStore, hsame.currentUser, hsame.blocks, hsame.completed⟩,
    henabled⟩

/-- Without the network nothing is in the pipeline, and the stream is stopped. -/
theorem disableNetwork_ok (hvalid : c.localStore.Valid) (huser : c.currentUser = c.localStore.userID)
    (hready : c.writeStream.Ready c.writePipeline)
    (hhandshake : c.writeStream.handshakeComplete = true → c.writeStream.state = .opened) :
    ∃ c', c.disableNetwork = .ok c' ∧ c'.Consistent ∧ SameStore c c' := by
  obtain ⟨s, hclose, hstopped, hisstarted, hfalse⟩ := close_graceful
    (c := { c with isNetworkEnabled := false }) hready.tokens_le hready hhandshake (Or.inl rfl)
  refine ⟨{ c with isNetworkEnabled := false, writePipeline := [], writeStream := s }, ?_,
    ⟨⟨hvalid, huser, hstopped _, rfl, (fun _ hne => absurd rfl hne), fun _ => hisstarted⟩,
      fun hcomplete => ?_⟩, ⟨rfl, rfl, rfl, rfl⟩⟩
  · rw [disableNetwork, disableNetworkInternal, hclose]
    rfl
  · rw [show s.handshakeComplete = true from hcomplete] at hfalse
    cases hfalse

/-- The remote store starts again for another user. -/
theorem credentialDidChange_ok (hvalid : c.localStore.Valid)
    (huser : c.currentUser = c.localStore.userID) (hready : c.writeStream.Ready c.writePipeline)
    (hhandshake : c.writeStream.handshakeComplete = true → c.writeStream.state = .opened)
    (hdisabled : c.isNetworkEnabled = false →
      c.writePipeline = [] ∧ c.writeStream.isStarted = false) :
    ∃ c', c.credentialDidChange = .ok c' ∧ c'.Consistent ∧ SameStore c c' := by
  cases henabled : c.isNetworkEnabled with
  | true =>
    obtain ⟨c₁, hdisable, hconsistent₁, hsame₁⟩ := disableNetwork_ok hvalid huser hready hhandshake
    obtain ⟨c', henable, hconsistent, hsame, -⟩ := hconsistent₁.enableNetwork
    refine ⟨c', ?_, hconsistent, hsame₁.trans hsame⟩
    rw [credentialDidChange, henabled, if_pos rfl]
    show (do let c' ← c.disableNetwork; c'.enableNetwork) = _
    rw [hdisable]
    exact henable
  | false =>
    obtain ⟨hempty, hstopped⟩ := hdisabled henabled
    refine ⟨c, ?_, ⟨⟨hvalid, huser, hready, ?_, fun htrue => ?_, fun _ => hstopped⟩, hhandshake⟩,
      ⟨rfl, rfl, rfl, rfl⟩⟩
    · rw [credentialDidChange, henabled, if_neg Bool.false_ne_true]
      rfl
    · rw [henabled, hempty]
      rfl
    · rw [htrue] at henabled
      cases henabled

/-- Another user is the current one; the queues and the blocks are those that were there. -/
structure Switched (c c' : FirestoreClient) (user : String) : Prop where
  currentUser : c'.currentUser = user
  db : c'.localStore.db = c.localStore.db
  remoteDocuments : c'.localStore.remoteDocuments = c.localStore.remoteDocuments
  blocks : c'.mutationCompletionBlocks = c.mutationCompletionBlocks
  completed : c'.completed = c.completed

theorem Consistent.credentialChange_ok (h : c.Consistent) (user : String) :
    ∃ c', c.credentialDidChangeWithUser user = .ok c' ∧ c'.Consistent ∧ Switched c c' user := by
  have hdisabled : c.isNetworkEnabled = false →
      c.writePipeline = [] ∧ c.writeStream.isStarted = false := fun hfalse => by
    refine ⟨?_, h.stopped hfalse⟩
    rw [h.filled, hfalse]
    rfl
  by_cases huser : c.currentUser ≠ user
  · obtain ⟨localStore, hchange, hvalid, huserID, hdb, hcache⟩ :=
      LocalStore.userDidChange_ok h.valid user
    let c₁ : FirestoreClient := { c with currentUser := user, localStore := localStore }
    obtain ⟨c', hcredential, hconsistent, hsame⟩ := credentialDidChange_ok (c := c₁) hvalid
      huserID.symm h.ready h.handshake hdisabled
    refine ⟨c', ?_, hconsistent, hsame.currentUser, ?_, ?_, hsame.blocks, hsame.completed⟩
    · rw [credentialDidChangeWithUser, if_pos huser, hchange]
      exact hcredential
    · rw [hsame.localStore]
      exact hdb
    · rw [hsame.localStore]
      exact hcache
  · obtain ⟨c', hcredential, hconsistent, hsame⟩ :=
      credentialDidChange_ok h.valid h.user h.ready h.handshake hdisabled
    refine ⟨c', ?_, hconsistent, hsame.currentUser.trans (not_not.mp huser), ?_, ?_, hsame.blocks,
      hsame.completed⟩
    · rw [credentialDidChangeWithUser, if_neg huser]
      exact hcredential
    · rw [hsame.localStore]
    · rw [hsame.localStore]

/-! ### Writes and remote events -/

/-- A write of nothing is complete at once. -/
structure CompletedAtOnce (c c' : FirestoreClient) (completion : Completion) : Prop where
  localStore : c'.localStore = c.localStore
  currentUser : c'.currentUser = c.currentUser
  blocks : c'.mutationCompletionBlocks = c.mutationCompletionBlocks
  completed : c'.completed = c.completed ++ [⟨c.currentUser, none, completion, none⟩]

/-- A write is at the end of the queue of the current user, with its completion block. -/
structure Queued (c c' : FirestoreClient) (mutations : List Mutation) (completion : Completion) : Prop
    where
  queue : c'.localStore.queue = c.localStore.queue ++ [⟨c.localStore.nextBatchID, mutations⟩]
  userID : c'.localStore.userID = c.localStore.userID
  others : ∀ user, user ≠ c.localStore.userID →
    c'.localStore.db.allMutationBatches user = c.localStore.db.allMutationBatches user
  remoteDocuments : c'.localStore.remoteDocuments = c.localStore.remoteDocuments
  currentUser : c'.currentUser = c.currentUser
  blocks : c'.mutationCompletionBlocks =
    (c.addMutationCompletionBlock completion c.localStore.nextBatchID).mutationCompletionBlocks
  completed : c'.completed = c.completed

theorem Consistent.write_nothing (h : c.Consistent) (completion : Completion) :
    ∃ c', c.writeMutations [] completion = .ok c' ∧ c'.Consistent ∧ CompletedAtOnce c c' completion :=
  ⟨_, rfl, ⟨⟨h.valid, h.user, h.ready, h.filled, h.running, h.stopped⟩, h.handshake⟩,
    ⟨rfl, rfl, rfl, rfl⟩⟩

theorem Consistent.write_ok (h : c.Consistent) {mutations : List Mutation} (hne : mutations ≠ [])
    (hroom : c.localStore.nextBatchID < batchIdMax) (completion : Completion) :
    ∃ c', c.writeMutations mutations completion = .ok c' ∧ c'.Consistent ∧
      Queued c c' mutations completion := by
  obtain ⟨localStore, hwrite, hvalid, huserID, hcache, hqueue, hothers⟩ :=
    LocalStore.write_ok h.valid hne hroom
  let c₁ : FirestoreClient := { c with localStore := localStore }.addMutationCompletionBlock completion
    c.localStore.nextBatchID
  obtain ⟨c', hfill, hconsistent, hsame, -⟩ := consistent_of_fill (c := c₁) hvalid
    (h.user.trans huserID.symm) h.ready
    (by
      show c.writePipeline <+: localStore.queue
      rw [hqueue]
      exact h.prefix_queue.trans (List.prefix_append _ _))
    h.length_le
    (fun hfalse => by
      refine ⟨?_, h.stopped hfalse⟩
      show c.writePipeline = []
      rw [h.filled, show c.isNetworkEnabled = false from hfalse]
      rfl)
    h.handshake
  refine ⟨c', ?_, hconsistent, ?_, ?_, fun user huser => ?_, ?_, hsame.currentUser, hsame.blocks,
    hsame.completed⟩
  · have hlength : mutations.length ≠ 0 := fun hzero => hne (List.length_eq_zero_iff.mp hzero)
    rw [writeMutations, if_neg hlength, hwrite]
    exact hfill
  · rw [hsame.localStore]
    exact hqueue
  · rw [hsame.localStore]
    exact huserID
  · rw [hsame.localStore]
    exact hothers user huser
  · rw [hsame.localStore]
    exact hcache

/-- Only the cache of remote documents may be another one. -/
structure Cached (c c' : FirestoreClient) : Prop where
  db : c'.localStore.db = c.localStore.db
  userID : c'.localStore.userID = c.localStore.userID
  currentUser : c'.currentUser = c.currentUser
  blocks : c'.mutationCompletionBlocks = c.mutationCompletionBlocks
  completed : c'.completed = c.completed

theorem Consistent.remoteEvent_ok (h : c.Consistent) (documentUpdates : List (String × MaybeDocument))
    (authoritativeUpdates : List String) :
    ∃ c', c.applyRemoteEvent documentUpdates authoritativeUpdates = .ok c' ∧ c'.Consistent ∧
      Cached c c' := by
  obtain ⟨localStore, changes, happly, hvalid, huserID, hdb, -⟩ :=
    LocalStore.applyRemoteEvent_ok h.valid documentUpdates authoritativeUpdates
  have hqueue : localStore.queue = c.localStore.queue := by
    rw [LocalStore.queue, LocalStore.queue, huserID, hdb]
  refine ⟨{ c with localStore := localStore }, ?_, ⟨⟨hvalid, h.user.trans huserID.symm, h.ready, ?_,
    h.running, h.stopped⟩, h.handshake⟩, ⟨hdb, huserID, rfl, rfl, rfl⟩⟩
  · rw [applyRemoteEvent, happly]
    rfl
  · show c.writePipeline = if c.isNetworkEnabled then localStore.queue.take maxPendingWrites else []
    rw [hqueue]
    exact h.filled

/-! ### One operation -/

/-- The call of the write stream ends with the status OK while there are writes to send. -/
def StopsWhileNeeded (c : FirestoreClient) : ClientEvent → Prop
  | .finished none => c.writePipeline ≠ []
  | _ => False

/-- What an operation does to the queues, the completion blocks and the cache. -/
def Effect (c c' : FirestoreClient) : ClientEvent → Prop
  | .write [] completion => CompletedAtOnce c c' completion
  | .write mutations completion => Queued c c' mutations completion
  | .response mutationResults =>
      if c.writeStream.handshakeComplete then
        ∃ batch rest, Dequeued c c' batch rest none ∧ Applied c c' batch mutationResults
      else SameStore c c'
  | .finished (some error) =>
      if c.rejects error then ∃ batch rest, Dequeued c c' batch rest (some error) ∧
        c'.localStore.remoteDocuments = c.localStore.remoteDocuments
      else SameStore c c'
  | .credentialChange user => Switched c c' user
  | .remoteEvent _ _ => Cached c c'
  | _ => SameStore c c'

/-- What the server answers is the handshake or the first batch of the pipeline. -/
theorem Consistent.asked (h : c.Consistent) {mutationResults : List MutationResult}
    (hexpects : c.expects mutationResults = true) :
    c.writeStream.state = .opened ∧
      (c.writeStream.handshakeComplete = false ∨
        c.writeStream.handshakeComplete = true ∧ ∃ batch pipeline,
          c.writePipeline = batch :: pipeline ∧ Answered batch.mutations mutationResults) := by
  have hrequests : c.writeStream.requests ≠ [] := fun hnil => by
    rw [expects, hnil] at hexpects
    cases hexpects
  have hopen : c.writeStream.state = .opened := by
    by_contra hclosed
    exact hrequests (h.ready.closed hclosed).1
  refine ⟨hopen, ?_⟩
  cases hcomplete : c.writeStream.handshakeComplete with
  | false => exact Or.inl rfl
  | true =>
    obtain ⟨hsent, -⟩ := h.ready.established hopen hcomplete
    obtain ⟨batch, pipeline, hpipeline⟩ := List.exists_cons_of_ne_nil fun hnil : c.writePipeline = [] =>
      hrequests (by rw [hsent, hnil]; rfl)
    refine Or.inr ⟨rfl, batch, pipeline, hpipeline, ?_⟩
    rw [expects, hsent, hpipeline] at hexpects
    exact of_decide_eq_true hexpects

theorem Consistent.response_ok (h : c.Consistent) {mutationResults : List MutationResult}
    (hexpects : c.expects mutationResults = true) :
    ∃ c', onStreamRead { c with writeStream := { c.writeStream with
          requests := c.writeStream.requests.tail } } mutationResults = .ok c' ∧
      c'.Consistent ∧ Effect c c' (.response mutationResults) := by
  obtain ⟨hopen, hfalse | ⟨hcomplete, batch, pipeline, hpipeline, hanswered⟩⟩ := h.asked hexpects
  · obtain ⟨s, hs, hconsistent, -, -⟩ := h.toFilled.handshakeResponse_ok hopen hfalse
    refine ⟨_, ?_, hconsistent, ?_⟩
    · rw [onStreamRead, if_neg (by rw [hfalse]; exact Bool.false_ne_true)]
      exact hs
    · rw [Effect, hfalse]
      exact ⟨rfl, rfl, rfl, rfl⟩
  · obtain ⟨c', rest, hresponse, hconsistent, -, hdequeued, happlied⟩ :=
      h.toFilled.commitResponse_ok hopen hcomplete hpipeline hanswered
    refine ⟨c', ?_, hconsistent, ?_⟩
    · rw [onStreamRead, if_pos hcomplete]
      exact hresponse
    · rw [Effect, hcomplete]
      exact ⟨batch, rest, hdequeued, happlied⟩

/-- The call ends with an error. -/
theorem Consistent.finished_error (h : c.Consistent) (hopen : c.writeStream.state = .opened)
    (error : ErrorCode) :
    ∃ c', c.close (some error) = .ok c' ∧ c'.Consistent ∧ Effect c c' (.finished (some error)) := by
  have hstarted := WriteStream.isStarted_of_opened hopen
  have henabled := h.enabled_of_started hstarted
  exact close_error h.valid h.user henabled h.ready.tokens_le hstarted (h.pipeline_eq henabled) error

/-- The stream is stopped, and nothing is to be sent. -/
theorem Consistent.close_idle (h : c.Consistent) (hempty : c.writePipeline = []) :
    ∃ c', c.close none = .ok c' ∧ c'.Consistent ∧ SameStore c c' := by
  obtain ⟨s, hclose, hready, hstopped, hfalse⟩ := close_graceful h.ready.tokens_le h.ready h.handshake
    (Or.inr hempty)
  refine ⟨_, hclose, ⟨⟨h.valid, h.user, hready _, h.filled, fun _ hne => absurd hempty hne,
    fun _ => hstopped⟩, fun hcomplete => ?_⟩, ⟨rfl, rfl, rfl, rfl⟩⟩
  rw [show s.handshakeComplete = true from hcomplete] at hfalse
  cases hfalse

/-- The idle timer runs only where nothing is to be sent. -/
theorem Consistent.idle_empty (h : c.Consistent) (htimer : c.writeStream.idlenessTimer = true) :
    c.writePipeline = [] := by
  have hopen : c.writeStream.state = .opened := by
    by_contra hclosed
    rw [(h.ready.closed hclosed).2] at htimer
    cases htimer
  cases hcomplete : c.writeStream.handshakeComplete with
  | false =>
    rw [(h.ready.handshaking hopen hcomplete).2.1] at htimer
    cases htimer
  | true => exact (h.ready.established hopen hcomplete).2 htimer

/-- **One operation.** -/
theorem step_effect (h : c.Consistent) {event : ClientEvent} {r : Except Failure FirestoreClient}
    (hstep : c.step event = some r) :
    (c.StopsWhileNeeded event ∧ r = .error .stoppedWhileNeeded) ∨
      (¬c.StopsWhileNeeded event ∧ ∃ c', r = .ok c' ∧ c'.Consistent ∧ Effect c c' event) := by
  cases event with
  | write mutations completion =>
    refine Or.inr ⟨id, ?_⟩
    rw [step] at hstep
    split at hstep
    · rename_i hwrites
      obtain rfl := Option.some.inj hstep
      cases mutations with
      | nil => exact h.write_nothing completion
      | cons m ms =>
        have hne := List.cons_ne_nil m ms
        exact h.write_ok hne (hwrites.resolve_left hne) completion
    · cases hstep
  | token closeCount error =>
    refine Or.inr ⟨id, ?_⟩
    rw [step] at hstep
    split at hstep
    · rename_i hmem
      by_cases hstale : closeCount ≠ c.writeStream.closeCount
      · rw [if_pos hstale] at hstep
        exact ⟨_, (Option.some.inj hstep).symm, h.token_stale hstale, ⟨rfl, rfl, rfl, rfl⟩⟩
      · rw [if_neg hstale] at hstep
        obtain ⟨-, hr⟩ := Option.ite_none_right_eq_some.mp hstep
        obtain rfl := Option.some.inj hr
        obtain rfl := not_not.mp hstale
        cases error with
        | none =>
          obtain ⟨s, hs, hconsistent, -, -⟩ := h.token_ok hmem
          exact ⟨_, hs, hconsistent, ⟨rfl, rfl, rfl, rfl⟩⟩
        | some error => exact h.token_error hmem error
    · cases hstep
  | response mutationResults =>
    refine Or.inr ⟨id, ?_⟩
    rw [step] at hstep
    split at hstep
    · rename_i hexpects
      obtain rfl := Option.some.inj hstep
      exact h.response_ok hexpects
    · cases hstep
  | finished error =>
    rw [step] at hstep
    split at hstep
    · rename_i hcan
      have hopen := hcan.1
      obtain rfl := Option.some.inj hstep
      cases error with
      | none =>
        by_cases hempty : c.writePipeline = []
        · obtain ⟨c', hclose, hconsistent, hsame⟩ := h.close_idle hempty
          exact Or.inr ⟨fun hne => hne hempty, c', hclose, hconsistent, hsame⟩
        · have hstarted := WriteStream.isStarted_of_opened hopen
          exact Or.inl ⟨hempty, close_needed hstarted (h.enabled_of_started hstarted) hempty⟩
      | some error => exact Or.inr ⟨id, h.finished_error hopen error⟩
    · cases hstep
  | idleTimeout =>
    refine Or.inr ⟨id, ?_⟩
    rw [step] at hstep
    split at hstep
    · rename_i htimer
      obtain rfl := Option.some.inj hstep
      exact h.close_idle (h.idle_empty htimer.1)
    · cases hstep
  | backoffElapsed =>
    refine Or.inr ⟨id, ?_⟩
    rw [step] at hstep
    split at hstep
    · rename_i htimer
      obtain rfl := Option.some.inj hstep
      obtain ⟨s, hs, hconsistent, -⟩ := h.backoffElapsed htimer
      refine ⟨_, ?_, hconsistent, ⟨rfl, rfl, rfl, rfl⟩⟩
      rw [hs]
      rfl
    · cases hstep
  | enableNetwork =>
    obtain rfl : c.enableNetwork = r := Option.some.inj hstep
    obtain ⟨c', henable, hconsistent, hsame, -⟩ := h.enableNetwork
    exact Or.inr ⟨id, c', henable, hconsistent, hsame⟩
  | disableNetwork =>
    obtain ⟨-, hr⟩ := Option.ite_none_right_eq_some.mp hstep
    obtain rfl : c.disableNetwork = r := Option.some.inj hr
    exact Or.inr ⟨id, disableNetwork_ok h.valid h.user h.ready h.handshake⟩
  | credentialChange user =>
    obtain ⟨-, hr⟩ := Option.ite_none_right_eq_some.mp hstep
    obtain rfl : c.credentialDidChangeWithUser user = r := Option.some.inj hr
    exact Or.inr ⟨id, h.credentialChange_ok user⟩
  | remoteEvent documentUpdates authoritativeUpdates =>
    obtain rfl : c.applyRemoteEvent documentUpdates authoritativeUpdates = r := Option.some.inj hstep
    exact Or.inr ⟨id, h.remoteEvent_ok documentUpdates authoritativeUpdates⟩

/-- A client starts with the queue that an earlier process left. -/
theorem initialize_ok {db : LevelDB} (hdb : db.WellFormed)
    (hlt : ∀ user, ∀ batch ∈ db.allMutationBatches user, batch.batchID < batchIdMax)
    (remoteDocuments : RemoteDocumentCache) (user : String) :
    ∃ c, initializeWithUser db remoteDocuments user = .ok c ∧ c.Consistent ∧ c.currentUser = user ∧
      c.localStore.db = db ∧ c.localStore.remoteDocuments = remoteDocuments ∧
      c.mutationCompletionBlocks = (fun _ _ => none) ∧ c.completed = [] ∧
      c.isNetworkEnabled = true := by
  let localStore : LocalStore := ⟨db, remoteDocuments, user, 0⟩
  let c₀ : FirestoreClient :=
    ⟨localStore.startMutationQueue, user, fun _ _ => none, true, [], {}, []⟩
  have hvalid : localStore.startMutationQueue.Valid := LocalStore.valid_start hdb hlt
  obtain ⟨c, hfill, hconsistent, hsame, henabled⟩ := consistent_of_fill (c := c₀) hvalid rfl
    (WriteStream.ready_initial []) List.nil_prefix (Nat.zero_le _) (fun hfalse => by cases hfalse)
    (fun hfalse => by cases hfalse)
  refine ⟨c, hfill, hconsistent, hsame.currentUser, ?_, ?_, hsame.blocks, hsame.completed, henabled⟩
  · rw [hsame.localStore]
    rfl
  · rw [hsame.localStore]
    rfl

/-- The first start on a device. -/
theorem initialize_empty (user : String) :
    ∃ c, initializeWithUser {} (fun _ => none) user = .ok c ∧ c.Consistent ∧ c.currentUser = user ∧
      c.localStore.db = {} ∧ c.localStore.remoteDocuments = (fun _ => none) ∧
      c.mutationCompletionBlocks = (fun _ _ => none) ∧ c.completed = [] ∧
      c.isNetworkEnabled = true :=
  initialize_ok LevelDB.wellFormed_empty (fun user b hb => absurd hb (LevelDB.not_mem_empty user b))
    (fun _ => none) user

end GiftGenie.FirestoreClient
