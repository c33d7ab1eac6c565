import GiftGenie.WriteRuns

/-!
# What is seen of the writes

The documents that the client gives to the app, over whole runs.

* `documents_read`: what is read through the index of the queue is the cached document with the pending
  writes of the current user on it, and nothing of other users.
* `writes_seen`: the app sees its writes at once and from then on.  What the server, the timers and the
  network do to the queue, and new processes of the same user, change nothing of what is seen.
* `quiet_set`, `quiet_update`, `quiet_delete`: the writes for which this holds.
-/

set_option autoImplicit false

namespace GiftGenie.FirestoreClient

open GiftGenie.Library GiftGenie.Firestore GiftGenie.Mutations GiftGenie.MutationQueue
open GiftGenie.LocalDocuments GiftGenie.LocalStore

/-- **Reading.**  In every state that a device reaches. -/
theorem documents_read {user : String} {c₀ c : FirestoreClient} {es : List DeviceEvent}
    (hfirst : firstLaunch user = .ok c₀) (hrun : Machine.run deviceStep c₀ es = some c) :
    let seen : String → Option MaybeDocument := fun key =>
      (c.localStore.db.allMutationBatches c.currentUser).foldl
        (fun doc batch => applyBatchToLocalDocument batch key doc) (c.localStore.remoteDocuments key)
    (∀ key, c.localStore.documentForKey key = .ok (seen key)) ∧
      ∀ keys, c.localStore.documentsForKeys keys =
        .ok (keys.map fun key => (key, (seen key).getD (.deleted ⊥ false))) := by
  have h := reached_consistent hfirst hrun
  intro seen
  have hseen : seen = c.localStore.view := by
    funext key
    show (c.localStore.db.allMutationBatches c.currentUser).foldl _ _ = _
    rw [h.user]
    rfl
  rw [hseen]
  exact ⟨fun key => documentForKey_eq h.valid key, fun keys => documentsForKeys_eq h.valid keys⟩

theorem documents_read_sentWrite : ∃ c₀ c, firstLaunch "anna" = .ok c₀ ∧
    Machine.run deviceStep c₀ sentWrite = some c ∧
    c.localStore.documentForKey "users/anna" =
      .ok ((c.localStore.db.allMutationBatches c.currentUser).foldl
        (fun doc batch => applyBatchToLocalDocument batch "users/anna" doc)
        (c.localStore.remoteDocuments "users/anna")) := by
  obtain ⟨c₀, c, hfirst, hrun, -⟩ := sentWrite_reached
  exact ⟨c₀, c, hfirst, hrun, (documents_read hfirst hrun).1 "users/anna"⟩

/-! ### Quiet writes -/

/-- A write whose acknowledgement changes nothing that is seen. -/
def Quiet (mutations : List Mutation) : Prop :=
  (∀ m ∈ mutations, Ordinary m) ∧ ∀ batchID, Steady ⟨batchID, mutations⟩

/-- `setData` with values only. -/
theorem quiet_set {key : String} {input : List (String × FieldData)}
    (hplain : (parseData input).fieldTransforms = []) : Quiet (setMutations key input .none) := by
  have hset : setMutations key input .none = [.set key (parseData input).data .none] := by
    rw [setMutations, ParsedData.transformMutations, hplain]
    rfl
  rw [hset]
  constructor
  · intro m hm
    rw [List.mem_singleton.mp hm]
    rfl
  · refine fun batchID => steady_of_plain fun m hm key' fieldTransforms heq => ?_
    rw [List.mem_singleton.mp hm] at heq
    cases heq

/-- `updateData`, also with array unions and array removals. -/
theorem quiet_update {key : String} {input : List (String × FieldData)}
    (hnodup : (input.map Prod.fst).Nodup) : Quiet (updateMutations key input (.exists true)) := by
  constructor
  · intro m hm
    rcases List.mem_cons.mp hm with hm | hm
    · rw [hm]
      exact Or.inr rfl
    · unfold ParsedData.transformMutations at hm
      split at hm
      · cases hm
      · rw [List.mem_singleton.mp hm]
        trivial
  · exact fun batchID => steady_updateMutations hnodup (Or.inr rfl)

theorem quiet_delete (key : String) : Quiet [.delete key .none] := by
  constructor
  · intro m hm
    rw [List.mem_singleton.mp hm]
    rfl
  · refine fun batchID => steady_of_plain fun m hm key' fieldTransforms heq => ?_
    rw [List.mem_singleton.mp hm] at heq
    cases heq

/-- Every batch of every user is quiet. -/
def AllQuiet (c : FirestoreClient) : Prop :=
  ∀ user, ∀ batch ∈ c.localStore.db.allMutationBatches user, Quiet batch.mutations

/-- The event writes nothing but quiet writes. -/
def WritesQuietly : DeviceEvent → Prop
  | .operation (.write mutations _) => Quiet mutations
  | _ => True

variable {c c' : FirestoreClient}

theorem AllQuiet.of_db (h : c.AllQuiet) (hdb : c'.localStore.db = c.localStore.db) : c'.AllQuiet := by
  intro user batch hbatch
  rw [hdb] at hbatch
  exact h user batch hbatch

theorem AllQuiet.of_dequeued (h : c.AllQuiet) {batch : MutationBatch} {rest : List MutationBatch}
    {error : Option ErrorCode} (hd : Dequeued c c' batch rest error) : c'.AllQuiet := by
  intro user b hb
  by_cases huser : user = c.localStore.userID
  · subst huser
    have htail : c'.localStore.db.allMutationBatches c.localStore.userID = rest := by
      rw [← hd.userID]
      exact hd.tail
    rw [htail] at hb
    refine h c.localStore.userID b ?_
    rw [show c.localStore.db.allMutationBatches c.localStore.userID = batch :: rest from hd.head]
    exact List.mem_cons_of_mem batch hb
  · rw [hd.others user huser] at hb
    exact h user b hb

theorem AllQuiet.of_queued (h : c.AllQuiet) {mutations : List Mutation} {completion : Completion}
    (hq : Queued c c' mutations completion) (hquiet : Quiet mutations) : c'.AllQuiet := by
  intro user b hb
  by_cases huser : user = c.localStore.userID
  · subst huser
    have hqueue : c'.localStore.db.allMutationBatches c.localStore.userID =
        c.localStore.queue ++ [⟨c.localStore.nextBatchID, mutations⟩] := by
      rw [← hq.userID]
      exact hq.queue
    rw [hqueue] at hb
    rcases List.mem_append.mp hb with hb | hb
    · exact h c.localStore.userID b hb
    · rw [List.mem_singleton.mp hb]
      exact hquiet
  · rw [hq.others user huser] at hb
    exact h user b hb

/-- Quiet writes keep all batches quiet. -/
theorem deviceStep_quiet (hc : c.Consistent) (h : c.AllQuiet) {event : DeviceEvent}
    (hwrites : WritesQuietly event) (hstep : c.deviceStep event = some c') : c'.AllQuiet := by
  cases event with
  | launch user =>
    obtain ⟨c₁, hlaunch, -, -, hdb, -⟩ := launch_ok hc user
    obtain rfl := Option.some.inj (hlaunch.symm.trans hstep)
    exact h.of_db hdb
  | operation event =>
    obtain ⟨-, heffect⟩ := operation_effect hc hstep
    have hsame : SameStore c c' → c'.AllQuiet := fun hsame => h.of_db (by rw [hsame.localStore])
    cases event with
    | write mutations completion =>
      cases mutations with
      | nil => exact h.of_db (by rw [heffect.localStore])
      | cons m ms => exact h.of_queued heffect hwrites
    | response mutationResults =>
      rw [Effect] at heffect
      split at heffect
      · obtain ⟨batch, rest, hdequeued, -⟩ := heffect
        exact h.of_dequeued hdequeued
      · exact hsame heffect
    | finished error =>
      cases error with
      | none => exact hsame heffect
      | some error =>
        rw [Effect] at heffect
        split at heffect
        · obtain ⟨batch, rest, hdequeued, -⟩ := heffect
          exact h.of_dequeued hdequeued
        · exact hsame heffect
    | credentialChange user => exact h.of_db heffect.db
    | remoteEvent _ _ => exact h.of_db heffect.db
    | token _ _ => exact hsame heffect
    | idleTimeout => exact hsame heffect
    | backoffElapsed => exact hsame heffect
    | enableNetwork => exact hsame heffect
    | disableNetwork => exact hsame heffect

/-! ### Steps -/

/-- The server accepts what it answers, sends no documents, and the user stays the same.  An
acknowledgement comes before the watch stream has brought a document of its version. -/
def Undisturbed (c : FirestoreClient) : DeviceEvent → Prop
  | .operation (.response mutationResults) =>
      c.writeStream.handshakeComplete = true →
        ∀ batch ∈ c.localStore.queue.head?, c.localStore.Fresh batch mutationResults
  | .operation (.finished (some error)) => c.rejects error = false
  | .operation (.credentialChange user) => user = c.currentUser
  | .operation (.remoteEvent _ _) => False
  | .launch user => user = c.currentUser
  | _ => True

/-- The contents of a document, as the app sees them. -/
def seenContent (c : FirestoreClient) (key : String) : Option Doc := content (c.localStore.view key)

/-- What a step writes. -/
def written : DeviceEvent → List (List Mutation)
  | .operation (.write mutations _) => [mutations]
  | _ => []

/-- What writes make of the contents of a document. -/
def writeAll (key : String) (writes : List (List Mutation)) (d : Option Doc) : Option Doc :=
  writes.foldl (fun d mutations => localEffect ⟨batchIdUnknown, mutations⟩ key d) d

theorem seenContent_of_store (hqueue : c'.localStore.queue = c.localStore.queue)
    (hcache : c'.localStore.remoteDocuments = c.localStore.remoteDocuments) (key : String) :
    c'.seenContent key = c.seenContent key := by
  rw [seenContent, seenContent, view, view, hqueue, hcache]

theorem AllQuiet.ordinary (h : c.AllQuiet) : c.localStore.AllOrdinary := fun batch hbatch m hm =>
  (h c.localStore.userID batch hbatch).1 m hm

theorem seenContent_dequeued (h : c.AllQuiet) {batch : MutationBatch} {rest : List MutationBatch}
    {mutationResults : List MutationResult} (hd : Dequeued c c' batch rest none)
    (happlied : Applied c c' batch mutationResults)
    (hfresh : c.localStore.Fresh batch mutationResults) (key : String) :
    c'.seenContent key = c.seenContent key := by
  obtain ⟨hanswered, result, hresult, hin, hout⟩ := happlied
  have hmem : batch ∈ c.localStore.db.allMutationBatches c.localStore.userID := by
    rw [show c.localStore.db.allMutationBatches c.localStore.userID = batch :: rest from hd.head]
    exact List.mem_cons_self
  exact content_view_acknowledge h.ordinary ((h _ batch hmem).2 batch.batchID) hd.head hd.tail hanswered
    hresult hfresh hin hout key

/-- A step that is not disturbed shows its write and nothing else. -/
theorem seenContent_step (hc : c.Consistent) (h : c.AllQuiet) {event : DeviceEvent}
    (hwrites : WritesQuietly event) (hundisturbed : c.Undisturbed event)
    (hstep : c.deviceStep event = some c') (key : String) :
    c'.seenContent key = writeAll key (written event) (c.seenContent key) := by
  have hsame : SameStore c c' → c'.seenContent key = c.seenContent key := fun hsame => by
    rw [seenContent, seenContent, hsame.localStore]
  cases event with
  | launch user =>
    obtain ⟨c₁, hlaunch, hconsistent, huser, hdb, hcache, -⟩ := launch_ok hc user
    obtain rfl := Option.some.inj (hlaunch.symm.trans hstep)
    refine seenContent_of_store ?_ hcache key
    rw [queue, queue, hdb, ← hconsistent.user, ← hc.user, huser, show user = c.currentUser from hundisturbed]
  | operation event =>
    obtain ⟨hconsistent, heffect⟩ := operation_effect hc hstep
    cases event with
    | write mutations completion =>
      cases mutations with
      | nil =>
        rw [seenContent, heffect.localStore]
        rfl
      | cons m ms =>
        have hquiet := h.of_queued heffect hwrites
        exact content_view_write hquiet.ordinary heffect.remoteDocuments heffect.queue key
    | response mutationResults =>
      rw [Effect] at heffect
      split at heffect
      · rename_i hcomplete
        obtain ⟨batch, rest, hdequeued, happlied⟩ := heffect
        refine seenContent_dequeued h hdequeued happlied (hundisturbed hcomplete batch ?_) key
        rw [hdequeued.head]
        rfl
      · exact hsame heffect
    | finished error =>
      cases error with
      | none => exact hsame heffect
      | some error =>
        rw [Effect, show c.rejects error = false from hundisturbed] at heffect
        exact hsame heffect
    | credentialChange user =>
      refine seenContent_of_store ?_ heffect.remoteDocuments key
      rw [queue, queue, heffect.db, ← hconsistent.user, ← hc.user, heffect.currentUser,
        show user = c.currentUser from hundisturbed]
    | remoteEvent _ _ => exact hundisturbed.elim
    | token _ _ => exact hsame heffect
    | idleTimeout => exact hsame heffect
    | backoffElapsed => exact hsame heffect
    | enableNetwork => exact hsame heffect
    | disableNetwork => exact hsame heffect

/-! ### Runs -/

theorem firstLaunch_quiet {user : String} {c₀ : FirestoreClient} (hfirst : firstLaunch user = .ok c₀) :
    c₀.AllQuiet := by
  intro u batch hbatch
  rw [(firstLaunch_ok hfirst).2.2.1] at hbatch
  cases hbatch

theorem run_quiet {es : List DeviceEvent} (hc : c.Consistent) (h : c.AllQuiet)
    (hwrites : ∀ event ∈ es, WritesQuietly event) (hrun : Machine.run deviceStep c es = some c') :
    c'.Consistent ∧ c'.AllQuiet := by
  refine @Machine.run_guarded _ _ deviceStep (fun c => c.Consistent ∧ c.AllQuiet)
    (fun _ event => WritesQuietly event) ?_ es c c' ⟨hc, h⟩ ?_ hrun
  · intro c event c' hI hwrites hstep
    exact ⟨deviceStep_consistent hI.1 hstep, deviceStep_quiet hI.1 hI.2 hwrites hstep⟩
  · exact Machine.allSteps_of_forall c fun event hevent _ => hwrites event hevent

theorem seenContent_run {key : String} :
    ∀ {fs : List DeviceEvent} {c : FirestoreClient}, c.Consistent → c.AllQuiet →
      (∀ event ∈ fs, WritesQuietly event) → Machine.AllSteps deviceStep Undisturbed c fs →
      Machine.run deviceStep c fs = some c' →
      c'.seenContent key = writeAll key (fs.flatMap written) (c.seenContent key) := by
  intro fs
  induction fs with
  | nil =>
    intro c _ _ _ _ hrun
    cases hrun
    rfl
  | cons event fs ih =>
    intro c hc hquiet hwrites hundisturbed hrun
    obtain ⟨c₁, hstep, hrest⟩ := Machine.run_cons.mp hrun
    obtain ⟨hevent, hwrites⟩ := List.forall_mem_cons.mp hwrites
    have hnext := ih (deviceStep_consistent hc hstep) (deviceStep_quiet hc hquiet hevent hstep) hwrites
      (hundisturbed.2 c₁ hstep) hrest
    rw [hnext, seenContent_step hc hquiet hevent hundisturbed.1 hstep key, List.flatMap_cons, writeAll,
      writeAll, writeAll, List.foldl_append]

/-- **The app sees its writes.**  Where all writes on a device are quiet, the documents that are read at
the end of a run that is not disturbed are those that were read before it with the writes of the run,
in order. -/
theorem writes_seen {user : String} {c₀ c c' : FirestoreClient} {es fs : List DeviceEvent}
    (hfirst : firstLaunch user = .ok c₀) (hbefore : Machine.run deviceStep c₀ es = some c)
    (hwrites : ∀ event ∈ es ++ fs, WritesQuietly event)
    (hundisturbed : Machine.AllSteps deviceStep Undisturbed c fs)
    (hrun : Machine.run deviceStep c fs = some c') (key : String) :
    ∃ before after, c.localStore.documentForKey key = .ok before ∧
      c'.localStore.documentForKey key = .ok after ∧
      content after = writeAll key (fs.flatMap written) (content before) := by
  obtain ⟨hes, hfs⟩ := List.forall_mem_append.mp hwrites
  obtain ⟨hc, hquiet⟩ := run_quiet (firstLaunch_ok hfirst).1 (firstLaunch_quiet hfirst) hes
    hbefore
  obtain ⟨hc', -⟩ := run_quiet hc hquiet hfs hrun
  exact ⟨_, _, documentForKey_eq hc.valid key, documentForKey_eq hc'.valid key,
    seenContent_run hc hquiet hfs hundisturbed hrun⟩

/-- Documents that are not in the cache have no version. -/
theorem fresh_of_uncached {s : LocalStore} (hcache : s.remoteDocuments = fun _ => none)
    (batch : MutationBatch) (mutationResults : List MutationResult) : s.Fresh batch mutationResults := by
  intro key _ version _
  rw [hcache]
  rfl

/-- The name is read after the write has been acknowledged. -/
theorem writes_seen_sentWrite : ∃ c₀ c, firstLaunch "anna" = .ok c₀ ∧
    Machine.run deviceStep c₀ (sentWrite ++ [.operation (.response [accepted])]) = some c ∧
    ∃ doc d, c.localStore.documentForKey "users/anna" = .ok doc ∧ content doc = some d ∧
      field d "name" = .str "Anna" := by
  have hreached : ((firstLaunch "anna").toOption.bind fun c =>
      (Machine.run deviceStep c (sentWrite ++ [.operation (.response [accepted])])).map
        fun c => c.completed.length) = some 1 := by
    decide +kernel
  obtain ⟨c₀, c, hfirst, hrun, -⟩ := exists_reached hreached
  have hquiet : Quiet annaName := quiet_set rfl
  have hwrites : ∀ event ∈ sentWrite ++ [.operation (.response [accepted])], WritesQuietly event := by
    intro event hevent
    simp only [sentWrite, List.cons_append, List.nil_append, List.mem_cons, List.not_mem_nil, or_false]
      at hevent
    rcases hevent with rfl | rfl | rfl | rfl
    · exact hquiet
    · trivial
    · trivial
    · trivial
  -- the cache stays empty until the last answer
  have hundisturbed : Machine.AllSteps deviceStep Undisturbed c₀
      (sentWrite ++ [.operation (.response [accepted])]) := by
    obtain ⟨c₁, hinit, -, -, -, hcache, -⟩ := initialize_empty "anna"
    obtain rfl := Except.ok.inj (hfirst.symm.trans hinit)
    refine ⟨trivial, fun s₁ hs₁ => ⟨trivial, fun s₂ hs₂ => ?_⟩⟩
    obtain ⟨h₁, hwrite⟩ := operation_effect (firstLaunch_ok hfirst).1 hs₁
    obtain ⟨h₂, htoken⟩ := operation_effect h₁ hs₂
    have hcache₂ : s₂.localStore.remoteDocuments = fun _ => none := by
      rw [htoken.localStore, hwrite.remoteDocuments, hcache]
    refine ⟨fun _ batch _ => fresh_of_uncached hcache₂ batch _, fun s₃ hs₃ => ⟨?_, fun _ _ => trivial⟩⟩
    obtain ⟨-, hresponse⟩ := operation_effect h₂ hs₃
    have hcache₃ : s₃.localStore.remoteDocuments = fun _ => none := by
      rw [Effect] at hresponse
      split at hresponse
      · obtain ⟨batch, rest, -, ⟨hlength, -⟩, result, -, -, hout⟩ := hresponse
        funext key
        rw [hout key, hcache₂]
        rw [MutationBatch.mem_keys, List.length_eq_zero_iff.mp hlength]
        rintro ⟨m, hm, -⟩
        cases hm
      · rw [hresponse.localStore, hcache₂]
    exact fun _ batch _ => fresh_of_uncached hcache₃ batch _
  obtain ⟨before, after, -, hafter, hcontent⟩ :=
    @writes_seen "anna" c₀ c₀ c [] _ hfirst rfl hwrites hundisturbed hrun "users/anna"
  exact ⟨c₀, c, hfirst, hrun, after, _, hafter, hcontent, rfl⟩

end GiftGenie.FirestoreClient
