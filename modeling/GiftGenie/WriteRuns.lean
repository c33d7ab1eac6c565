import GiftGenie.Library.Termination
import GiftGenie.WriteCounts
import GiftGenie.WriteEffects

/-!
# Runs of the client

A device starts with an empty database.  Its client works on one operation after the other, and may be
launched again at any time, also after an operation that ended the program; what the database holds
stays.

* `reached_consistent`: in every state that a device reaches the client is consistent.
* `batchID_mem_range`, `closeCount_mem_range`: the 32 bits of the batch ids, and those of the count of
  closes, are enough.
* `ends_only_if_stopped`: no `HARD_ASSERT` of the write path fails, but for one.
* `pipeline_sent`: the pipeline, and what is sent of it.
* `queue_drains`: no write is stuck.
-/

set_option autoImplicit false

namespace GiftGenie.FirestoreClient

open GiftGenie.Library GiftGenie.Mutations GiftGenie.MutationQueue GiftGenie.LocalDocuments
open GiftGenie.LocalStore

/-- What happens on a device. -/
inductive DeviceEvent where
  | operation (event : ClientEvent)
  | launch (user : String)

/-- The next state of the client; an operation that ends the program leaves what the database held. -/
def deviceStep (c : FirestoreClient) : DeviceEvent → Option FirestoreClient
  | .operation event => (c.step event).bind Except.toOption
  | .launch user => (initializeWithUser c.localStore.db c.localStore.remoteDocuments user).toOption

/-- The first launch on a device. -/
def firstLaunch (user : String) : Except Failure FirestoreClient :=
  initializeWithUser {} (fun _ => none) user

theorem deviceStep_operation {c c' : FirestoreClient} {event : ClientEvent} :
    c.deviceStep (.operation event) = some c' ↔ c.step event = some (.ok c') := by
  rw [deviceStep, Option.bind_eq_some_iff]
  constructor
  · rintro ⟨r, hstep, hr⟩
    cases r with
    | error f => cases hr
    | ok c₁ =>
      obtain rfl := Option.some.inj hr
      exact hstep
  · intro hstep
    exact ⟨_, hstep, rfl⟩

/-- An operation keeps the client consistent and has its effect. -/
theorem operation_effect {c c' : FirestoreClient} (h : c.Consistent) {event : ClientEvent}
    (hstep : c.deviceStep (.operation event) = some c') : c'.Consistent ∧ Effect c c' event := by
  rcases step_effect h (deviceStep_operation.mp hstep) with ⟨-, hfail⟩ | ⟨-, c₁, hok, heffect⟩
  · cases hfail
  · obtain rfl := Except.ok.inj hok
    exact heffect

theorem deviceStep_launch {c c' : FirestoreClient} {user : String} :
    c.deviceStep (.launch user) = some c' ↔
      initializeWithUser c.localStore.db c.localStore.remoteDocuments user = .ok c' := by
  rw [deviceStep]
  cases initializeWithUser c.localStore.db c.localStore.remoteDocuments user with
  | error f => exact iff_of_false (fun h => by cases h) fun h => by cases h
  | ok c₁ =>
    exact ⟨fun h => congrArg Except.ok (Option.some.inj h), fun h => congrArg some (Except.ok.inj h)⟩

/-- A launch finds the database as it was left. -/
theorem launch_ok {c : FirestoreClient} (h : c.Consistent) (user : String) :
    ∃ c', c.deviceStep (.launch user) = some c' ∧ c'.Consistent ∧ c'.currentUser = user ∧
      c'.localStore.db = c.localStore.db ∧
      c'.localStore.remoteDocuments = c.localStore.remoteDocuments ∧
      c'.mutationCompletionBlocks = (fun _ _ => none) ∧ c'.completed = [] := by
  obtain ⟨c', hinit, hconsistent, huser, hdb, hcache, hblocks, hcompleted, -⟩ :=
    initialize_ok h.valid.wellFormed (fun _ _ hb => h.valid.lt_max hb) c.localStore.remoteDocuments
      user
  exact ⟨c', deviceStep_launch.mpr hinit, hconsistent, huser, hdb, hcache, hblocks, hcompleted⟩

theorem deviceStep_consistent {c c' : FirestoreClient} (h : c.Consistent) {event : DeviceEvent}
    (hstep : c.deviceStep event = some c') : c'.Consistent := by
  cases event with
  | operation event => exact (operation_effect h hstep).1
  | launch user =>
    obtain ⟨c₁, hlaunch, hconsistent, -⟩ := launch_ok h user
    obtain rfl := Option.some.inj (hlaunch.symm.trans hstep)
    exact hconsistent

theorem firstLaunch_ok {user : String} {c₀ : FirestoreClient} (hfirst : firstLaunch user = .ok c₀) :
    c₀.Consistent ∧ c₀.currentUser = user ∧ c₀.localStore.db = {} ∧ c₀.completed = [] := by
  obtain ⟨c₁, hinit, hconsistent, huser, hdb, -, -, hcompleted, -⟩ :=
    initialize_empty user
  obtain rfl := Except.ok.inj (hfirst.symm.trans hinit)
  exact ⟨hconsistent, huser, hdb, hcompleted⟩

theorem reached_consistent {user : String} {c₀ c : FirestoreClient} {es : List DeviceEvent}
    (hfirst : firstLaunch user = .ok c₀) (hrun : Machine.run deviceStep c₀ es = some c) :
    c.Consistent :=
  Machine.run_invariant (fun _ _ _ h hstep => deviceStep_consistent h hstep) es c₀ c
    (firstLaunch_ok hfirst).1 hrun

/-- The ids of a device are `int32_t`s, as are the ids that come after them. -/
theorem batchID_mem_range {user : String} {c₀ c : FirestoreClient} {es : List DeviceEvent}
    (hfirst : firstLaunch user = .ok c₀) (hrun : Machine.run deviceStep c₀ es = some c) :
    batchIdUnknown < c.localStore.nextBatchID ∧ c.localStore.nextBatchID ≤ batchIdMax ∧
      ∀ user', ∀ batch ∈ c.localStore.db.allMutationBatches user',
        batchIdUnknown < batch.batchID ∧ batch.batchID + 1 ≤ batchIdMax := by
  have hvalid := (reached_consistent hfirst hrun).valid
  refine ⟨hvalid.unknown_lt, hvalid.next_le, fun user' batch hb => ⟨?_, ?_⟩⟩
  · exact LevelDB.known_of_mem hvalid.wellFormed hb
  · exact Int.add_one_le_iff.mpr (hvalid.lt_max hb)

theorem closeCount_mem_range {user : String} {c₀ c : FirestoreClient} {es : List DeviceEvent}
    (hfirst : firstLaunch user = .ok c₀) (hrun : Machine.run deviceStep c₀ es = some c) :
    c.writeStream.closeCount ≤ WriteStream.closeCountMax := by
  have hstart : c₀.writeStream.closeCount ≤ WriteStream.closeCountMax := by
    rw [closeCount_launched hfirst]
    exact Nat.zero_le _
  refine Machine.run_invariant (I := fun c => c.writeStream.closeCount ≤ WriteStream.closeCountMax)
    (fun c event c' hle hstep => ?_) es c₀ c hstart hrun
  cases event with
  | operation event => exact closeCount_step hle (deviceStep_operation.mp hstep) c' rfl
  | launch user' =>
    rw [closeCount_launched (deviceStep_launch.mp hstep)]
    exact Nat.zero_le _

theorem exists_reached {α : Type} {user : String} {es : List DeviceEvent} {f : FirestoreClient → α} {v : α}
    (h : ((firstLaunch user).toOption.bind fun c => (Machine.run deviceStep c es).map f) = some v) :
    ∃ c₀ c, firstLaunch user = .ok c₀ ∧ Machine.run deviceStep c₀ es = some c ∧ f c = v := by
  obtain ⟨c₀, hfirst, hrun⟩ := Option.bind_eq_some_iff.mp h
  obtain ⟨c, hc, hv⟩ := Option.map_eq_some_iff.mp hrun
  refine ⟨c₀, c, ?_, hc, hv⟩
  cases hr : firstLaunch user with
  | error f =>
    rw [hr] at hfirst
    cases hfirst
  | ok c₁ =>
    rw [hr] at hfirst
    rw [Option.some.inj hfirst]

/-- `setData` with a name. -/
def annaName : List Mutation := setMutations "users/anna" [("name", .value (.str "Anna"))] .none

/-- A write that is sent on a new stream. -/
def sentWrite : List DeviceEvent :=
  [.operation (.write annaName 1), .operation (.token 0 none), .operation (.response [])]

/-- The answer of the server to a mutation without transforms. -/
def accepted : MutationResult := ⟨updateTime (some 1), none⟩

theorem sentWrite_reached : ∃ c₀ c, firstLaunch "anna" = .ok c₀ ∧
    Machine.run deviceStep c₀ sentWrite = some c ∧ c.isNetworkEnabled = true ∧
    c.writeStream.state = .opened ∧ c.writeStream.handshakeComplete = true ∧
    c.writePipeline.length = 1 ∧ c.writeStream.closeCount = 0 := by
  have hreached : ((firstLaunch "anna").toOption.bind fun c => (Machine.run deviceStep c sentWrite).map
      fun c => (c.isNetworkEnabled, c.writeStream.state, c.writeStream.handshakeComplete,
        c.writePipeline.length, c.writeStream.closeCount)) = some (true, .opened, true, 1, 0) := by
    decide +kernel
  obtain ⟨c₀, c, hfirst, hrun, hc⟩ := exists_reached hreached
  simp only [Prod.mk.injEq] at hc
  exact ⟨c₀, c, hfirst, hrun, hc⟩

/-- **No assertion fails but for one.**  On no device does a launch fail, and an operation ends the
program exactly where the call of the write stream ends with the status OK while there are writes to
send. -/
theorem ends_only_if_stopped {user : String} {c₀ c : FirestoreClient} {es : List DeviceEvent}
    (hfirst : firstLaunch user = .ok c₀) (hrun : Machine.run deviceStep c₀ es = some c) :
    (∀ user', ∃ c', c.deviceStep (.launch user') = some c') ∧
      ∀ event r, c.step event = some r →
        ∀ f, r = .error f ↔ f = .stoppedWhileNeeded ∧ c.StopsWhileNeeded event := by
  have h := reached_consistent hfirst hrun
  constructor
  · intro user'
    obtain ⟨c', hlaunch, -⟩ := launch_ok h user'
    exact ⟨c', hlaunch⟩
  · intro event r hstep f
    rcases step_effect h hstep with ⟨hstops, hr⟩ | ⟨hstops, c', hr, -⟩
    · rw [hr, Except.error.injEq]
      exact ⟨fun hf => ⟨hf.symm, hstops⟩, fun hf => hf.1.symm⟩
    · rw [hr]
      exact iff_of_false (fun hf => by cases hf) fun hf => hstops hf.2

theorem ends_only_if_stopped_sentWrite : ∃ c₀ c, firstLaunch "anna" = .ok c₀ ∧
    Machine.run deviceStep c₀ sentWrite = some c ∧
    c.step (.finished none) = some (.error .stoppedWhileNeeded) := by
  obtain ⟨c₀, c, hfirst, hrun, -, hopen, -, hlength, hcount⟩ := sentWrite_reached
  have hcan : c.writeStream.CanClose := by
    rw [WriteStream.CanClose, hcount]
    decide
  have hstep : c.step (.finished none) = some (c.close none) := if_pos ⟨hopen, hcan⟩
  have hne : c.writePipeline ≠ [] := fun hnil => by
    rw [hnil] at hlength
    cases hlength
  have hends := ((ends_only_if_stopped hfirst hrun).2 _ _ hstep _).mpr ⟨rfl, hne⟩
  exact ⟨c₀, c, hfirst, hrun, by rw [hstep, hends]⟩

/-- **The pipeline.**  While the network is enabled it holds the first ten batches of the current user,
and the stream is started for them; what was sent on the stream and not answered is the handshake
or all of the pipeline, in order. -/
theorem pipeline_sent {user : String} {c₀ c : FirestoreClient} {es : List DeviceEvent}
    (hfirst : firstLaunch user = .ok c₀) (hrun : Machine.run deviceStep c₀ es = some c) :
    c.writePipeline =
        (if c.isNetworkEnabled then
          (c.localStore.db.allMutationBatches c.currentUser).take maxPendingWrites else []) ∧
      (c.writePipeline ≠ [] → c.writeStream.isStarted = true) ∧
      c.writeStream.requests =
        if c.writeStream.state = .opened then
          if c.writeStream.handshakeComplete then c.writePipeline.map WriteStream.requestOf
          else [.handshake]
        else [] := by
  have h := reached_consistent hfirst hrun
  refine ⟨?_, fun hne => ?_, ?_⟩
  · rw [h.user]
    exact h.filled
  · refine h.running ?_ hne
    by_contra hdisabled
    rw [h.filled, if_neg hdisabled] at hne
    exact hne rfl
  · split
    · rename_i hopen
      split
      · rename_i hcomplete
        exact (h.ready.established hopen hcomplete).1
      · rename_i hcomplete
        exact (h.ready.handshaking hopen (Bool.eq_false_iff.mpr hcomplete)).1
    · rename_i hclosed
      exact (h.ready.closed hclosed).1

theorem pipeline_sent_sentWrite : ∃ c₀ c, firstLaunch "anna" = .ok c₀ ∧
    Machine.run deviceStep c₀ sentWrite = some c ∧ c.writePipeline.length = 1 ∧
    c.writeStream.requests = c.writePipeline.map WriteStream.requestOf := by
  obtain ⟨c₀, c, hfirst, hrun, -, hopen, hcomplete, hlength, -⟩ := sentWrite_reached
  have hsent := (pipeline_sent hfirst hrun).2.2
  rw [if_pos hopen, if_pos hcomplete] at hsent
  exact ⟨c₀, c, hfirst, hrun, hlength, hsent⟩

/-! ### Progress -/

/-- What the server, the credentials provider and the timers do when nothing goes wrong. -/
def Helpful (c : FirestoreClient) : ClientEvent → Prop
  | .token closeCount none => closeCount = c.writeStream.closeCount
  | .response _ => True
  | .backoffElapsed => True
  | _ => False

/-- How far the stream is from the next answer to a write. -/
def stage (s : WriteStream) : ℕ :=
  match s.state with
  | .backoff => 3
  | .starting => 2
  | .opened => if s.handshakeComplete then 0 else 1
  | _ => 0

/-- The steps that are left for the queue of the current user, at most. -/
def stepsLeft (c : FirestoreClient) : ℕ := 4 * c.localStore.queue.length + stage c.writeStream

theorem stage_le (s : WriteStream) : stage s ≤ 3 := by
  unfold stage
  split
  · exact le_rfl
  · omega
  · split <;> omega
  · omega

/-- The server can answer whatever it is asked. -/
theorem exists_answered (mutations : List Mutation) :
    ∃ mutationResults, Answered mutations mutationResults := by
  have hone : ∀ m : Mutation, ∃ result, Answers m result := by
    intro m
    cases m with
    | transform key fieldTransforms =>
      exact ⟨⟨⊥, some (fieldTransforms.map fun _ => .null)⟩, rfl, List.length_map _⟩
    | set key value precondition => exact ⟨⟨⊥, none⟩, rfl⟩
    | patch key fieldMask value precondition => exact ⟨⟨⊥, none⟩, rfl⟩
    | delete key precondition => exact ⟨⟨⊥, none⟩, rfl⟩
  choose result hresult using hone
  have hzip : mutations.zip (mutations.map result) = mutations.map fun m => (m, result m) := by
    have hzip := List.zip_map' (f := id) (g := result) (l := mutations)
    rwa [List.map_id] at hzip
  refine ⟨mutations.map result, (List.length_map _).symm, fun p hp => ?_⟩
  rw [hzip] at hp
  obtain ⟨m, -, rfl⟩ := List.mem_map.mp hp
  exact hresult m

/-- A helpful operation brings the queue nearer to its end. -/
theorem helpful_stepsLeft {c c' : FirestoreClient} (h : c.Consistent) {event : ClientEvent}
    (hhelp : c.Helpful event) (henabled : c.isNetworkEnabled = true)
    (hstep : c.step event = some (.ok c')) :
    c'.isNetworkEnabled = true ∧ stepsLeft c' < stepsLeft c := by
  cases event with
  | token closeCount error =>
    cases error with
    | some error => exact hhelp.elim
    | none =>
      have hcurrent : closeCount = c.writeStream.closeCount := hhelp
      subst hcurrent
      rw [step] at hstep
      split at hstep
      · rename_i hmem
        rw [if_neg (not_not.mpr rfl), if_pos (Or.inl rfl)] at hstep
        obtain ⟨hstate, -⟩ := h.ready.starting_of_token hmem
        obtain ⟨s, hs, -, hopen, hfalse⟩ := h.token_ok hmem
        rw [hs] at hstep
        obtain rfl := Except.ok.inj (Option.some.inj hstep)
        refine ⟨henabled, Nat.add_lt_add_left ?_ _⟩
        simp only [stage, hstate, hopen, hfalse]
        decide
      · cases hstep
  | backoffElapsed =>
    rw [step] at hstep
    split at hstep
    · rename_i htimer
      have hstate := h.ready.backoff.mp htimer
      obtain ⟨s, hs, -, hstarting⟩ := h.backoffElapsed htimer
      rw [hs] at hstep
      obtain rfl := Except.ok.inj (Option.some.inj hstep)
      refine ⟨henabled, Nat.add_lt_add_left ?_ _⟩
      simp only [stage, hstate, hstarting]
      decide
    · cases hstep
  | response mutationResults =>
    rw [step] at hstep
    split at hstep
    · rename_i hexpects
      obtain hstep := Option.some.inj hstep
      obtain ⟨hopen, hor⟩ := h.asked hexpects
      rcases hor with hfalse | ⟨hcomplete, batch, pipeline, hpipeline, hanswered⟩
      · obtain ⟨s, hs, -, hopen', hcomplete⟩ := h.toFilled.handshakeResponse_ok hopen hfalse
        rw [onStreamRead, if_neg (by rw [hfalse]; exact Bool.false_ne_true), hs] at hstep
        obtain rfl := Except.ok.inj hstep
        refine ⟨henabled, Nat.add_lt_add_left ?_ _⟩
        simp only [stage, hopen, hopen', hfalse, hcomplete]
        decide
      · obtain ⟨c₁, rest, hresponse, -, henabled₁, hdequeued, -⟩ :=
          h.toFilled.commitResponse_ok hopen hcomplete hpipeline hanswered
        rw [onStreamRead, if_pos hcomplete, hresponse] at hstep
        obtain rfl := Except.ok.inj hstep
        refine ⟨henabled₁, ?_⟩
        have hstage := stage_le c₁.writeStream
        rw [stepsLeft, stepsLeft, hdequeued.head, hdequeued.tail, List.length_cons]
        omega
    · cases hstep
  | write _ _ => exact hhelp.elim
  | finished _ => exact hhelp.elim
  | idleTimeout => exact hhelp.elim
  | enableNetwork => exact hhelp.elim
  | disableNetwork => exact hhelp.elim
  | credentialChange _ => exact hhelp.elim
  | remoteEvent _ _ => exact hhelp.elim

/-- While there is a write in the queue, something helpful can happen. -/
theorem exists_helpful {c : FirestoreClient} (h : c.Consistent) (henabled : c.isNetworkEnabled = true)
    (hne : c.localStore.queue ≠ []) : ∃ event c', c.Helpful event ∧ c.step event = some (.ok c') := by
  have hpipeline : c.writePipeline ≠ [] := by
    rw [h.pipeline_eq henabled]
    exact fun hnil => hne (List.take_eq_nil_iff.mp hnil |>.resolve_left (by decide))
  have hstarted := h.running henabled hpipeline
  cases hstate : c.writeStream.state with
  | initial =>
    rw [WriteStream.isStarted, WriteStream.isOpen, hstate] at hstarted
    cases hstarted
  | error =>
    rw [WriteStream.isStarted, WriteStream.isOpen, hstate] at hstarted
    cases hstarted
  | starting =>
    have hcount := h.ready.tokens
    rw [if_pos hstate] at hcount
    have hmem : c.writeStream.closeCount ∈ c.writeStream.tokenRequests :=
      List.count_pos_iff.mp (by rw [hcount]; decide)
    obtain ⟨s, hs, -⟩ := h.token_ok hmem
    refine ⟨.token c.writeStream.closeCount none, { c with writeStream := s }, rfl, ?_⟩
    rw [step, if_pos hmem, if_neg (not_not.mpr rfl), if_pos (Or.inl rfl), hs]
  | backoff =>
    have htimer := h.ready.backoff.mpr hstate
    obtain ⟨s, hs, -⟩ := h.backoffElapsed htimer
    refine ⟨.backoffElapsed, { c with writeStream := s }, trivial, ?_⟩
    rw [step, if_pos htimer, hs]
    rfl
  | opened =>
    obtain ⟨batch, pipeline, hcons⟩ := List.exists_cons_of_ne_nil hpipeline
    obtain ⟨mutationResults, hanswered⟩ := exists_answered batch.mutations
    have hexpects : c.expects mutationResults = true := by
      cases hcomplete : c.writeStream.handshakeComplete with
      | false =>
        rw [expects, (h.ready.handshaking hstate hcomplete).1]
      | true =>
        rw [expects, (h.ready.established hstate hcomplete).1, hcons]
        exact decide_eq_true hanswered
    obtain ⟨c', hresponse, -⟩ := h.response_ok hexpects
    refine ⟨.response mutationResults, c', trivial, ?_⟩
    rw [step, if_pos hexpects, hresponse]

/-- **No write is stuck.**  While the network is enabled, the server can answer all writes of the current
user: what helpful operations there are, one after the other, at most `4 * n + 3` for `n` batches,
and where no more is possible the queue is empty. -/
theorem queue_drains {user : String} {c₀ c c' : FirestoreClient} {es : List DeviceEvent}
    {fs : List ClientEvent} (hfirst : firstLaunch user = .ok c₀)
    (hrun : Machine.run deviceStep c₀ es = some c) (henabled : c.isNetworkEnabled = true)
    (hhelp : Machine.AllSteps (fun c event => deviceStep c (.operation event)) Helpful c fs)
    (hrun' : Machine.run (fun c event => deviceStep c (.operation event)) c fs = some c') :
    fs.length ≤ 4 * (c.localStore.db.allMutationBatches c.currentUser).length + 3 ∧
      ((∀ event c'', c'.Helpful event → c'.step event ≠ some (.ok c'')) →
        c'.localStore.db.allMutationBatches c'.currentUser = []) := by
  have h := reached_consistent hfirst hrun
  obtain ⟨⟨h', henabled'⟩, hle⟩ := @Machine.length_add_le _ _ _ Helpful
    (fun c => c.Consistent ∧ c.isNetworkEnabled = true) stepsLeft
    (fun c event c' hc hhelp hstep => by
      obtain ⟨hkept, hlt⟩ := helpful_stepsLeft hc.1 hhelp hc.2 (deviceStep_operation.mp hstep)
      exact ⟨⟨(operation_effect hc.1 hstep).1, hkept⟩, hlt⟩)
    fs c c' ⟨h, henabled⟩ hhelp hrun'
  constructor
  · have hstage := stage_le c.writeStream
    rw [stepsLeft] at hle
    rw [h.user]
    exact le_trans (Nat.le_add_right _ _) (hle.trans (Nat.add_le_add_left hstage _))
  · intro hstuck
    rw [h'.user]
    by_contra hne
    obtain ⟨event, c'', hhelp', hstep'⟩ := exists_helpful h' henabled' hne
    exact hstuck event c'' hhelp' hstep'

theorem queue_drains_sentWrite : ∃ c₀ c c', firstLaunch "anna" = .ok c₀ ∧
    Machine.run deviceStep c₀ sentWrite = some c ∧
    c.deviceStep (.operation (.response [accepted])) = some c' ∧
    1 ≤ 4 * (c.localStore.db.allMutationBatches c.currentUser).length + 3 := by
  have hreached : ((firstLaunch "anna").toOption.bind fun c => (Machine.run deviceStep c sentWrite).map
      fun c => (c.isNetworkEnabled, (c.deviceStep (.operation (.response [accepted]))).isSome)) =
      some (true, true) := by
    decide +kernel
  obtain ⟨c₀, c, hfirst, hrun, hc⟩ := exists_reached hreached
  obtain ⟨henabled, hanswered⟩ := Prod.mk.inj hc
  obtain ⟨c', hstep⟩ := Option.isSome_iff_exists.mp hanswered
  have hone : Machine.run (fun c event => deviceStep c (.operation event)) c
      [.response [accepted]] = some c' := Machine.run_cons.mpr ⟨c', hstep, rfl⟩
  have hhelp : Machine.AllSteps (fun c event => deviceStep c (.operation event)) Helpful c
      [.response [accepted]] := ⟨trivial, fun _ _ => trivial⟩
  have hdrains := queue_drains hfirst hrun henabled hhelp hone
  exact ⟨c₀, c, c', hfirst, hrun, hstep, hdrains.1⟩

end GiftGenie.FirestoreClient
