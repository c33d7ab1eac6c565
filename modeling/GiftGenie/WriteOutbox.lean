import GiftGenie.Library.Outbox
import GiftGenie.WriteRuns

/-!
# The client as an outbox

Seen from the app, the write path is an outbox: every user has a queue of writes with their completion
blocks, and the server answers the writes of the current user one after the other.  The ids of the
batches, the index, the pipeline and the stream are not seen.

* `client_refines_outbox`: every run of a device is a run of the outbox.
* `writes_kept`: no write is lost, done twice or put before another one of its user, over any number of
  processes.
* `blocks_called`: in one process, every completion block is called at most once, and in the order
  of the writes.
-/

set_option autoImplicit false

namespace GiftGenie.FirestoreClient

open GiftGenie.Library GiftGenie.Mutations GiftGenie.MutationQueue GiftGenie.LocalDocuments
open GiftGenie.LocalStore

/-- An outbox of writes, with the error of a rejected write as its answer. -/
abbrev WriteOutbox := Outbox String (List Mutation) Completion (Option ErrorCode)

abbrev OutboxEvent := Outbox.Event String (List Mutation) Completion (Option ErrorCode)

/-- The completion blocks of writes that were called for a user. -/
def calledFor (user : String) (completed : List Completed) : List (Completion × Option ErrorCode) :=
  (completed.filter fun x => x.userID = user && x.batchID.isSome).map fun x => (x.completion, x.error)

def outbox (c : FirestoreClient) : WriteOutbox where
  current := c.currentUser
  pending user := (c.localStore.db.allMutationBatches user).map fun batch =>
    (batch.mutations, c.mutationCompletionBlocks user batch.batchID)
  called user := calledFor user c.completed

/-- The answers of the server to writes: one for each batch, also where it is rejected. -/
def answered (c : FirestoreClient) : DeviceEvent → List (Option ErrorCode)
  | .operation (.response _) => if c.writeStream.handshakeComplete then [none] else []
  | .operation (.finished (some error)) => if c.rejects error then [some error] else []
  | _ => []

/-- What is seen of a step in the outbox. -/
def seen (c : FirestoreClient) : DeviceEvent → List OutboxEvent
  | .operation (.write [] _) => []
  | .operation (.write mutations completion) => [.submit mutations completion]
  | .operation (.credentialChange user) => [.switch user]
  | .launch user => [.relaunch user]
  | event => (c.answered event).map .answer

theorem calledFor_append (user : String) (completed called : List Completed) :
    calledFor user (completed ++ called) = calledFor user completed ++ calledFor user called := by
  rw [calledFor, List.filter_append, List.map_append]
  rfl

/-! ### Completion blocks -/

theorem processUserCallbacks_completed (c : FirestoreClient) (batchID : BatchId)
    (error : Option ErrorCode) :
    (c.processUserCallbacksForBatchID batchID error).completed =
      c.completed ++ (c.mutationCompletionBlocks c.currentUser batchID).toList.map fun completion =>
        ⟨c.currentUser, some batchID, completion, error⟩ := by
  unfold processUserCallbacksForBatchID
  cases hblock : c.mutationCompletionBlocks c.currentUser batchID with
  | none => exact (List.append_nil _).symm
  | some completion => rfl

/-- Only the block that is called is taken away. -/
theorem processUserCallbacks_blocks (c : FirestoreClient) (batchID : BatchId) (error : Option ErrorCode)
    {user : String} {batchID' : BatchId} (hother : user = c.currentUser → batchID' ≠ batchID) :
    (c.processUserCallbacksForBatchID batchID error).mutationCompletionBlocks user batchID' =
      c.mutationCompletionBlocks user batchID' := by
  unfold processUserCallbacksForBatchID
  cases hblock : c.mutationCompletionBlocks c.currentUser batchID with
  | none => rfl
  | some completion =>
    show Function.update c.mutationCompletionBlocks c.currentUser _ user batchID' = _
    by_cases huser : user = c.currentUser
    · subst huser
      rw [Function.update_self, Function.update_of_ne (hother rfl)]
    · rw [Function.update_of_ne huser]

/-- A new block is seen under its id only. -/
theorem addCompletionBlock_blocks (c : FirestoreClient) (completion : Completion) (batchID : BatchId)
    {user : String} {batchID' : BatchId} (hother : user = c.currentUser → batchID' ≠ batchID) :
    (c.addMutationCompletionBlock completion batchID).mutationCompletionBlocks user batchID' =
      c.mutationCompletionBlocks user batchID' := by
  show Function.update c.mutationCompletionBlocks c.currentUser _ user batchID' = _
  by_cases huser : user = c.currentUser
  · subst huser
    rw [Function.update_self, Function.update_of_ne (hother rfl)]
  · rw [Function.update_of_ne huser]

/-! ### Steps -/

variable {c c' : FirestoreClient}

theorem outbox_same (h : SameStore c c') : outbox c' = outbox c := by
  simp only [outbox, h.localStore, h.currentUser, h.blocks, h.completed]

/-- A write is submitted. -/
theorem outbox_queued (hc : c.Consistent) {mutations : List Mutation} {completion : Completion}
    (h : Queued c c' mutations completion) :
    (outbox c).step (.submit mutations completion) = some (outbox c') := by
  refine congrArg some (Outbox.ext h.currentUser.symm (funext fun user => ?_) (funext fun user => ?_))
  · show Function.update (outbox c).pending c.currentUser _ user = _
    by_cases huser : user = c.currentUser
    · subst huser
      have hqueue : c'.localStore.db.allMutationBatches c.currentUser =
          c.localStore.db.allMutationBatches c.currentUser ++ [⟨c.localStore.nextBatchID, mutations⟩] := by
        have hqueue := h.queue
        rw [LocalStore.queue, LocalStore.queue, h.userID, ← hc.user] at hqueue
        exact hqueue
      rw [Function.update_self]
      simp only [outbox, hqueue, List.map_append, List.map_cons, List.map_nil, h.blocks]
      congr 1
      · refine List.map_congr_left fun batch hbatch => ?_
        rw [addCompletionBlock_blocks c completion _ fun _ =>
          ne_of_lt (hc.valid.lt_next c.currentUser batch hbatch)]
      · show _ = [(mutations, Function.update c.mutationCompletionBlocks c.currentUser _ _ _)]
        rw [Function.update_self, Function.update_self]
    · rw [Function.update_of_ne huser]
      simp only [outbox, h.others user (hc.user ▸ huser), h.blocks]
      refine List.map_congr_left fun batch _ => ?_
      rw [addCompletionBlock_blocks c completion _ fun heq => absurd heq huser]
  · show calledFor user c.completed = calledFor user c'.completed
    rw [h.completed]

/-- The first write of the current user is answered. -/
theorem outbox_dequeued (hc : c.Consistent) {batch : MutationBatch} {rest : List MutationBatch}
    {error : Option ErrorCode} (h : Dequeued c c' batch rest error) :
    (outbox c).step (.answer error) = some (outbox c') := by
  have hhead : c.localStore.db.allMutationBatches c.currentUser = batch :: rest := by
    rw [hc.user]
    exact h.head
  have htail : c'.localStore.db.allMutationBatches c.currentUser = rest := by
    rw [hc.user, ← h.userID]
    exact h.tail
  have hpending : (outbox c).pending c.currentUser =
      (batch.mutations, c.mutationCompletionBlocks c.currentUser batch.batchID) ::
        rest.map fun b => (b.mutations, c.mutationCompletionBlocks c.currentUser b.batchID) := by
    show (c.localStore.db.allMutationBatches c.currentUser).map _ = _
    rw [hhead]
    rfl
  have hlater : ∀ b ∈ rest, b.batchID ≠ batch.batchID := by
    have hsorted := c.localStore.db.queue_sorted c.currentUser
    rw [hhead] at hsorted
    exact fun b hb => ne_of_gt ((List.pairwise_cons.mp hsorted).1 b hb)
  rw [Outbox.step_answer hpending]
  refine congrArg some (Outbox.ext h.currentUser.symm (funext fun user => ?_) (funext fun user => ?_))
  · show Function.update (outbox c).pending c.currentUser _ user = _
    by_cases huser : user = c.currentUser
    · subst huser
      rw [Function.update_self]
      simp only [outbox, htail, h.blocks]
      refine List.map_congr_left fun b hb => ?_
      rw [processUserCallbacks_blocks c batch.batchID error fun _ => hlater b hb]
    · rw [Function.update_of_ne huser]
      simp only [outbox, h.others user (hc.user ▸ huser), h.blocks]
      refine List.map_congr_left fun b _ => ?_
      rw [processUserCallbacks_blocks c batch.batchID error fun heq => absurd heq huser]
  · show Function.update (outbox c).called c.currentUser _ user = calledFor user c'.completed
    rw [h.completed, processUserCallbacks_completed, calledFor_append]
    by_cases huser : user = c.currentUser
    · subst huser
      rw [Function.update_self]
      show calledFor c.currentUser c.completed ++ _ = _
      cases c.mutationCompletionBlocks c.currentUser batch.batchID with
      | none => rfl
      | some completion => simp [calledFor]
    · rw [Function.update_of_ne huser]
      show calledFor user c.completed = _
      cases c.mutationCompletionBlocks c.currentUser batch.batchID with
      | none => exact (List.append_nil _).symm
      | some completion => simp [calledFor, Ne.symm huser]

theorem outbox_switched {user : String} (h : Switched c c' user) :
    (outbox c).step (.switch user) = some (outbox c') := by
  simp only [Outbox.step, outbox, h.currentUser, h.db, h.blocks, h.completed]

theorem outbox_cached (h : Cached c c') : outbox c' = outbox c := by
  simp only [outbox, h.db, h.currentUser, h.blocks, h.completed]

/-- A write of nothing is not seen in the outbox. -/
theorem outbox_completedAtOnce {completion : Completion} (h : CompletedAtOnce c c' completion) :
    outbox c' = outbox c := by
  have hcalled : ∀ user, calledFor user c'.completed = calledFor user c.completed := fun user => by
    rw [h.completed, calledFor_append]
    simp [calledFor]
  simp only [outbox, h.localStore, h.currentUser, h.blocks, hcalled]

/-- A step of a device is one of the outbox, or is not seen there. -/
theorem outbox_step (hc : c.Consistent) {event : DeviceEvent} (hstep : c.deviceStep event = some c') :
    Machine.run Outbox.step (outbox c) (seen c event) = some (outbox c') := by
  have hkept : outbox c' = outbox c → Machine.run Outbox.step (outbox c) [] = some (outbox c') :=
    fun heq => congrArg some heq.symm
  have hone : ∀ d, (outbox c).step d = some (outbox c') →
      Machine.run Outbox.step (outbox c) [d] = some (outbox c') := fun d hd =>
    Machine.run_cons.mpr ⟨_, hd, rfl⟩
  cases event with
  | launch user =>
    obtain ⟨c₁, hlaunch, -, huser, hdb, -, hblocks, hcompleted⟩ := launch_ok hc user
    obtain rfl := Option.some.inj (hlaunch.symm.trans hstep)
    refine hone _ (congrArg some (Outbox.ext huser.symm ?_ ?_))
    · funext u
      simp only [outbox, hdb, hblocks, List.map_map]
      rfl
    · funext u
      simp only [outbox, hcompleted]
      rfl
  | operation event =>
    obtain ⟨-, heffect⟩ := operation_effect hc hstep
    cases event with
    | write mutations completion =>
      cases mutations with
      | nil => exact hkept (outbox_completedAtOnce heffect)
      | cons m ms => exact hone _ (outbox_queued hc heffect)
    | response mutationResults =>
      simp only [seen, answered]
      rw [Effect] at heffect
      cases hcomplete : c.writeStream.handshakeComplete with
      | false =>
        rw [hcomplete] at heffect
        exact hkept (outbox_same heffect)
      | true =>
        rw [hcomplete] at heffect
        obtain ⟨batch, rest, hdequeued, -⟩ := heffect
        exact hone _ (outbox_dequeued hc hdequeued)
    | finished error =>
      cases error with
      | none => exact hkept (outbox_same heffect)
      | some error =>
        simp only [seen, answered]
        rw [Effect] at heffect
        cases hrejects : c.rejects error with
        | false =>
          rw [hrejects] at heffect
          exact hkept (outbox_same heffect)
        | true =>
          rw [hrejects] at heffect
          obtain ⟨batch, rest, hdequeued, -⟩ := heffect
          exact hone _ (outbox_dequeued hc hdequeued)
    | credentialChange user => exact hone _ (outbox_switched heffect)
    | remoteEvent _ _ => exact hkept (outbox_cached heffect)
    | token _ _ => exact hkept (outbox_same heffect)
    | idleTimeout => exact hkept (outbox_same heffect)
    | backoffElapsed => exact hkept (outbox_same heffect)
    | enableNetwork => exact hkept (outbox_same heffect)
    | disableNetwork => exact hkept (outbox_same heffect)

/-! ### Runs -/

theorem firstLaunch_outbox {user : String} {c₀ : FirestoreClient} (hfirst : firstLaunch user = .ok c₀) :
    outbox c₀ = ⟨user, fun _ => [], fun _ => []⟩ := by
  obtain ⟨-, huser, hdb, hcompleted⟩ := firstLaunch_ok hfirst
  refine Outbox.ext huser (funext fun u => ?_) (funext fun u => ?_)
  · simp only [outbox, hdb]
    rfl
  · simp only [outbox, hcompleted]
    rfl

theorem run_outbox (hc : c.Consistent) {es : List DeviceEvent}
    (hrun : Machine.run deviceStep c es = some c') :
    Machine.run Outbox.step (outbox c) (Machine.observe deviceStep seen c es) = some (outbox c') := by
  refine Machine.run_observe ?_ es c c' hc hrun
  intro c e c' hc hstep
  exact ⟨deviceStep_consistent hc hstep, outbox_step hc hstep⟩

/-- **Refinement.**  Every run of a device is, as it is seen, a run of the outbox. -/
theorem client_refines_outbox {user : String} {c₀ c : FirestoreClient} {es : List DeviceEvent}
    (hfirst : firstLaunch user = .ok c₀) (hrun : Machine.run deviceStep c₀ es = some c) :
    Machine.run Outbox.step ⟨user, fun _ => [], fun _ => []⟩ (Machine.observe deviceStep seen c₀ es) =
      some (outbox c) := by
  rw [← firstLaunch_outbox hfirst]
  exact run_outbox (firstLaunch_ok hfirst).1 hrun

theorem client_refines_outbox_sentWrite : ∃ c₀ c, firstLaunch "anna" = .ok c₀ ∧
    Machine.run deviceStep c₀ sentWrite = some c ∧
    Machine.run Outbox.step ⟨"anna", fun _ => [], fun _ => []⟩
      (Machine.observe deviceStep seen c₀ sentWrite) = some (outbox c) := by
  obtain ⟨c₀, c, hfirst, hrun, -⟩ := sentWrite_reached
  exact ⟨c₀, c, hfirst, hrun, client_refines_outbox hfirst hrun⟩

/-! ### Writes and answers -/

/-- The user after the event. -/
def userAfter (user : String) : DeviceEvent → String
  | .operation (.credentialChange user') => user'
  | .launch user' => user'
  | _ => user

def writeOf : DeviceEvent → List (List Mutation × Completion)
  | .operation (.write [] _) => []
  | .operation (.write mutations completion) => [(mutations, completion)]
  | _ => []

/-- The writes of a user in the events, where `current` is the user before them. -/
def writesOf (user : String) : String → List DeviceEvent → List (List Mutation × Completion)
  | _, [] => []
  | current, event :: es =>
      (if current = user then writeOf event else []) ++ writesOf user (userAfter current event) es

/-- The answers of the server to the writes of a user in a run. -/
def answersTo (user : String) (c : FirestoreClient) (es : List DeviceEvent) : List (Option ErrorCode) :=
  Machine.observe deviceStep (fun c event => if c.currentUser = user then c.answered event else []) c es

theorem answers_submitted (answers : List (Option ErrorCode)) (user current : String) :
    Outbox.submitted user current (answers.map .answer : List OutboxEvent) = [] := by
  induction answers with
  | nil => rfl
  | cons answer answers ih =>
    rw [List.map_cons, Outbox.submitted, Outbox.ofOwner_cons_of_nil rfl]
    exact ih

theorem answers_answersTo (answers : List (Option ErrorCode)) (user current : String) :
    Outbox.answersTo user current (answers.map .answer : List OutboxEvent) =
      if current = user then answers else [] := by
  induction answers with
  | nil => exact (ite_self _).symm
  | cons answer answers ih =>
    rw [Outbox.answersTo] at ih
    rw [List.map_cons, Outbox.answersTo, Outbox.ofOwner,
      show Outbox.Event.next current (.answer answer : OutboxEvent) = current from rfl, ih]
    by_cases h : current = user
    · rw [if_pos h, if_pos h, if_pos h]
      rfl
    · rw [if_neg h, if_neg h, if_neg h]
      rfl

theorem answers_next (answers : List (Option ErrorCode)) (current : String) :
    (answers.map .answer : List OutboxEvent).foldl Outbox.Event.next current = current := by
  induction answers with
  | nil => rfl
  | cons answer answers ih => exact ih

/-- What is seen of a step is a write of the current user, an answer to one, or a change of the user. -/
theorem seen_eq (c : FirestoreClient) (event : DeviceEvent) (user current : String) :
    Outbox.submitted user current (seen c event) = (if current = user then writeOf event else []) ∧
      Outbox.answersTo user current (seen c event) =
        (if current = user then c.answered event else []) ∧
      (seen c event).foldl Outbox.Event.next current = userAfter current event := by
  have hcommand : ∀ d : OutboxEvent, seen c event = [d] → d.submission = writeOf event →
      d.answers = c.answered event → d.next current = userAfter current event →
      Outbox.submitted user current (seen c event) = (if current = user then writeOf event else []) ∧
        Outbox.answersTo user current (seen c event) =
          (if current = user then c.answered event else []) ∧
        (seen c event).foldl Outbox.Event.next current = userAfter current event := by
    intro d hseen hwrite hanswered huser
    rw [hseen, ← hwrite, ← hanswered, ← huser, Outbox.submitted, Outbox.answersTo,
      Outbox.ofOwner_singleton, Outbox.ofOwner_singleton]
    exact ⟨rfl, rfl, rfl⟩
  have hanswers : writeOf event = [] → seen c event = (c.answered event).map .answer →
      userAfter current event = current →
      Outbox.submitted user current (seen c event) = (if current = user then writeOf event else []) ∧
        Outbox.answersTo user current (seen c event) =
          (if current = user then c.answered event else []) ∧
        (seen c event).foldl Outbox.Event.next current = userAfter current event := by
    intro hwrite hseen huser
    rw [hwrite, hseen, huser, ite_self]
    exact ⟨answers_submitted _ _ _, answers_answersTo _ _ _, answers_next _ _⟩
  cases event with
  | launch user' => exact hcommand _ rfl rfl rfl rfl
  | operation event =>
    cases event with
    | write mutations completion =>
      cases mutations with
      | nil => exact hanswers rfl rfl rfl
      | cons m ms => exact hcommand _ rfl rfl rfl rfl
    | credentialChange user' => exact hcommand _ rfl rfl rfl rfl
    | response _ => exact hanswers rfl rfl rfl
    | finished _ => exact hanswers rfl rfl rfl
    | remoteEvent _ _ => exact hanswers rfl rfl rfl
    | token _ _ => exact hanswers rfl rfl rfl
    | idleTimeout => exact hanswers rfl rfl rfl
    | backoffElapsed => exact hanswers rfl rfl rfl
    | enableNetwork => exact hanswers rfl rfl rfl
    | disableNetwork => exact hanswers rfl rfl rfl

/-- What is seen of a run are the writes of its events and the answers of the server. -/
theorem seen_run (user : String) :
    ∀ {es : List DeviceEvent} {c c' : FirestoreClient}, c.Consistent →
      Machine.run deviceStep c es = some c' →
      Outbox.submitted user c.currentUser (Machine.observe deviceStep seen c es) =
          writesOf user c.currentUser es ∧
        Outbox.answersTo user c.currentUser (Machine.observe deviceStep seen c es) =
          answersTo user c es := by
  intro es
  induction es with
  | nil => intro c c' _ _; exact ⟨rfl, rfl⟩
  | cons event es ih =>
    intro c c' hc hrun
    obtain ⟨c₁, hstep, hrest⟩ := Machine.run_cons.mp hrun
    obtain ⟨hwrite, hanswered, huser⟩ := seen_eq c event user c.currentUser
    obtain ⟨hwrites, hanswers⟩ := ih (deviceStep_consistent hc hstep) hrest
    have huser₁ : userAfter c.currentUser event = c₁.currentUser := by
      rw [← huser]
      exact (Outbox.run_current (outbox_step hc hstep)).symm
    rw [Machine.observe_cons seen hstep]
    constructor
    · rw [Outbox.submitted, Outbox.ofOwner_append, huser, huser₁, writesOf, huser₁, ← hwrites, ← hwrite]
      rfl
    · rw [Outbox.answersTo, Outbox.ofOwner_append, huser, huser₁, answersTo,
        Machine.observe_cons _ hstep, ← hanswered]
      exact congrArg (_ ++ ·) hanswers

/-- Within a process nothing is launched. -/
theorem relaunch_not_seen (owner : String) :
    ∀ (fs : List ClientEvent) (c : FirestoreClient),
      Outbox.Event.relaunch owner ∉ Machine.observe deviceStep seen c (fs.map .operation) := by
  have hstep : ∀ (c : FirestoreClient) (event : ClientEvent),
      Outbox.Event.relaunch owner ∉ seen c (.operation event) := by
    intro c event hmem
    have hanswers : ∀ answers : List (Option ErrorCode),
        (.relaunch owner : OutboxEvent) ∉ answers.map .answer := fun answers hmem => by
      obtain ⟨answer, -, heq⟩ := List.mem_map.mp hmem
      cases heq
    cases event with
    | write mutations completion =>
      cases mutations with
      | nil => cases hmem
      | cons m ms => cases List.mem_singleton.mp hmem
    | credentialChange user => cases List.mem_singleton.mp hmem
    | response _ => exact hanswers _ hmem
    | finished _ => exact hanswers _ hmem
    | remoteEvent _ _ => exact hanswers _ hmem
    | token _ _ => exact hanswers _ hmem
    | idleTimeout => exact hanswers _ hmem
    | backoffElapsed => exact hanswers _ hmem
    | enableNetwork => exact hanswers _ hmem
    | disableNetwork => exact hanswers _ hmem
  intro fs
  induction fs with
  | nil => intro c hmem; cases hmem
  | cons event fs ih =>
    intro c hmem
    rcases List.mem_append.mp hmem with hmem | hmem
    · exact hstep c event hmem
    · cases hnext : c.deviceStep (.operation event) with
      | none =>
        rw [hnext] at hmem
        cases hmem
      | some c' =>
        rw [hnext] at hmem
        exact ih c' hmem

/-- **Writes are kept.**  Over any number of processes on a device, the writes of a user are, in their
order, those that the server has answered and then those in the queue of the user. -/
theorem writes_kept {user : String} {c₀ c : FirestoreClient} {es : List DeviceEvent}
    (hfirst : firstLaunch user = .ok c₀) (hrun : Machine.run deviceStep c₀ es = some c)
    (user' : String) :
    ∃ done : List (List Mutation),
      (writesOf user' user es).map Prod.fst =
        done ++ (c.localStore.db.allMutationBatches user').map MutationBatch.mutations ∧
      done.length = (answersTo user' c₀ es).length := by
  obtain ⟨hconsistent, huser, -, -⟩ := firstLaunch_ok hfirst
  have houtbox := firstLaunch_outbox hfirst
  obtain ⟨hwrites, hanswers⟩ := seen_run user' hconsistent hrun
  obtain ⟨done, hdone, hlength⟩ := @Outbox.run_items _ _ _ _ _ user' _ _ _ (run_outbox hconsistent hrun)
  refine ⟨done, ?_, ?_⟩
  · rw [show (outbox c₀).pending user' = [] from congrFun (congrArg Outbox.pending houtbox) user',
      show (outbox c₀).current = c₀.currentUser from rfl, hwrites, huser] at hdone
    rw [show (writesOf user' user es).map Prod.fst = _ from hdone, outbox, List.map_map]
    rfl
  · rw [hlength, ← hanswers]
    rfl

theorem writes_kept_sentWrite : ∃ c₀ c, firstLaunch "anna" = .ok c₀ ∧
    Machine.run deviceStep c₀ sentWrite = some c ∧ ∃ done : List (List Mutation),
      (writesOf "anna" "anna" sentWrite).map Prod.fst =
        done ++ (c.localStore.db.allMutationBatches "anna").map MutationBatch.mutations ∧
      done.length = (answersTo "anna" c₀ sentWrite).length := by
  obtain ⟨c₀, c, hfirst, hrun, -⟩ := sentWrite_reached
  exact ⟨c₀, c, hfirst, hrun, writes_kept hfirst hrun "anna"⟩

/-- **Blocks are called in order.**  In one process the server answers first what earlier processes
left in the queue of a user and then the writes of the process; the block of every write that is
answered is called once, with the answer, and no other block is called. -/
theorem blocks_called {first user : String} {c₀ c₁ c₂ c : FirestoreClient} {es : List DeviceEvent}
    {fs : List ClientEvent} (hfirst : firstLaunch first = .ok c₀)
    (hbefore : Machine.run deviceStep c₀ es = some c₁) (hlaunch : c₁.deviceStep (.launch user) = some c₂)
    (hrun : Machine.run deviceStep c₂ (fs.map .operation) = some c) (user' : String) :
    ∃ done : List ((List Mutation × Option Completion) × Option ErrorCode),
      (c₁.localStore.db.allMutationBatches user').map (fun batch => (batch.mutations, none)) ++
          (writesOf user' user (fs.map .operation)).map (fun p => (p.1, some p.2)) =
        done.map Prod.fst ++ (c.localStore.db.allMutationBatches user').map (fun batch =>
          (batch.mutations, c.mutationCompletionBlocks user' batch.batchID)) ∧
      done.map Prod.snd = answersTo user' c₂ (fs.map .operation) ∧
      calledFor user' c.completed = Outbox.calls done := by
  have hreached := reached_consistent hfirst hbefore
  obtain ⟨c₃, hlaunch', hconsistent, huser, hdb, -, hblocks, hcompleted⟩ := launch_ok hreached user
  obtain rfl := Option.some.inj (hlaunch'.symm.trans hlaunch)
  obtain ⟨hwrites, hanswers⟩ := seen_run user' hconsistent hrun
  obtain ⟨done, hdone, hanswered, hcalled⟩ := @Outbox.run_callbacks _ _ _ _ _ user' _ _ _
    (run_outbox hconsistent hrun) fun owner => relaunch_not_seen owner fs c₃
  refine ⟨done, ?_, hanswered.trans hanswers, ?_⟩
  · rw [show (outbox c₃).current = c₃.currentUser from rfl, hwrites, huser] at hdone
    simp only [outbox, hdb, hblocks] at hdone
    exact hdone
  · rw [show (outbox c₃).called user' = [] by simp only [outbox, hcompleted]; rfl,
      List.nil_append] at hcalled
    exact hcalled

/-- A write that waits for the next process. -/
def leftWrite : List DeviceEvent :=
  [.operation .disableNetwork, .operation (.write [.delete "list/a" .none] 1)]

/-- The next process: it sends what it finds, writes once more, and gets two answers. -/
def nextProcess : List ClientEvent :=
  [.token 0 none, .response [], .write [.delete "list/b" .none] 2, .response [accepted],
    .response [accepted]]

theorem blocks_called_leftWrite : ∃ c₀ c₁ c₂ c, firstLaunch "anna" = .ok c₀ ∧
    Machine.run deviceStep c₀ leftWrite = some c₁ ∧ c₁.deviceStep (.launch "anna") = some c₂ ∧
    Machine.run deviceStep c₂ (nextProcess.map .operation) = some c ∧
    calledFor "anna" c.completed = [(2, none)] ∧
    ∃ done : List ((List Mutation × Option Completion) × Option ErrorCode),
      done.map Prod.snd = answersTo "anna" c₂ (nextProcess.map .operation) ∧
      calledFor "anna" c.completed = Outbox.calls done := by
  have hreached : ((firstLaunch "anna").toOption.bind fun c =>
      (Machine.run deviceStep c (leftWrite ++ .launch "anna" :: nextProcess.map .operation)).map
        fun c => calledFor "anna" c.completed) = some [(2, none)] := by
    decide +kernel
  obtain ⟨c₀, c, hfirst, hall, hcalled⟩ := exists_reached hreached
  rw [Machine.run_append, Option.bind_eq_some_iff] at hall
  obtain ⟨c₁, hbefore, hrest⟩ := hall
  obtain ⟨c₂, hlaunch, hrun⟩ := Machine.run_cons.mp hrest
  obtain ⟨done, -, hanswers, hcalls⟩ := blocks_called hfirst hbefore hlaunch hrun "anna"
  exact ⟨c₀, c₁, c₂, c, hfirst, hbefore, hlaunch, hrun, hcalled, done, hanswers, hcalls⟩

end GiftGenie.FirestoreClient
