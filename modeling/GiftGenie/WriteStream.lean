import GiftGenie.MutationQueue

/-!
# The write stream

The stream that carries the writes to the server: it asks for a token, opens, sends a handshake, and
after the answer to that the mutations of one batch after the other.  When it ends with an error it
can be started again after a delay, and when it is idle for some time it is stopped.  `Stream` and
`WriteStream` hold the state; what they call of their delegate is in the module of the client.

`Ready` says what holds of the stream and of the batches in the pipeline between any two operations on
the queue of the client: once the handshake is answered, what is sent and not answered is the pipeline.
-/

set_option autoImplicit false

namespace GiftGenie

open GiftGenie.Mutations GiftGenie.MutationQueue

/-- The codes of a status that is not OK. -/
inductive ErrorCode where
  | cancelled
  | unknown
  | invalidArgument
  | deadlineExceeded
  | notFound
  | alreadyExists
  | permissionDenied
  | resourceExhausted
  | failedPrecondition
  | aborted
  | outOfRange
  | unimplemented
  | internal
  | unavailable
  | dataLoss
  | unauthenticated
  deriving DecidableEq, Repr

def isPermanentError : ErrorCode → Bool
  | .cancelled | .unknown | .deadlineExceeded | .resourceExhausted | .internal | .unavailable
  | .unauthenticated => false
  | .invalidArgument | .notFound | .alreadyExists | .permissionDenied | .failedPrecondition
  | .aborted | .outOfRange | .unimplemented | .dataLoss => true

def isPermanentWriteError (error : ErrorCode) : Bool :=
  isPermanentError error && decide (error ≠ .aborted)

inductive StreamState where
  | initial
  | starting
  | opened
  | error
  | backoff
  deriving DecidableEq, Repr

inductive Request where
  | handshake
  | mutations (mutations : List Mutation)

/-- `WriteStream`.  Of a request for a token the stream remembers the close count at which it was made;
`requests` are those on the current call that the server has not answered.  `closeCount` is an `int`
in the source, and `FirestoreClient.step` closes no stream that has been closed `closeCountMax`
times. -/
structure WriteStream where
  state : StreamState := .initial
  closeCount : ℕ := 0
  handshakeComplete : Bool := false
  idlenessTimer : Bool := false
  backoffTimer : Bool := false
  tokenRequests : List ℕ := []
  requests : List Request := []

namespace WriteStream

variable (s : WriteStream)

/-- The largest `int`. -/
def closeCountMax : ℕ := 2147483647

/-- There is a next close count. -/
def CanClose : Prop := s.closeCount < closeCountMax

instance : Decidable s.CanClose := inferInstanceAs (Decidable (_ < _))

def isOpen : Bool := s.state = .opened

def isStarted : Bool := s.state = .starting || s.state = .backoff || s.isOpen

def requestCredentials : WriteStream := { s with tokenRequests := s.tokenRequests ++ [s.closeCount] }

def backoffAndTryRestarting : Except Failure WriteStream := do
  hardAssert (s.state = .error) .notInError
  return { s with state := .backoff, backoffTimer := true }

def start : Except Failure WriteStream :=
  if s.state = .error then s.backoffAndTryRestarting
  else do
    hardAssert (s.state = .initial) .alreadyStarted
    return { s with state := .starting }.requestCredentials

/-- What `BackoffAndTryRestarting` has put on the timer. -/
def backoffElapsed : Except Failure WriteStream := do
  hardAssert (s.state = .backoff) .notInBackoff
  let s' ← { s with state := .initial, backoffTimer := false }.start
  hardAssert (s'.isStarted = true) .notStarted
  return s'

def inhibitBackoff : Except Failure WriteStream := do
  hardAssert (s.isStarted = false) .notStopped
  return { s with state := .initial }

def markIdle : WriteStream :=
  if s.isOpen && !s.idlenessTimer then { s with idlenessTimer := true } else s

def cancelIdleCheck : WriteStream := { s with idlenessTimer := false }

def write (request : Request) : Except Failure WriteStream := do
  hardAssert (s.isOpen = true) .notOpen
  return { s.cancelIdleCheck with requests := s.requests ++ [request] }

def writeHandshake : Except Failure WriteStream := do
  hardAssert (s.isOpen = true) .notOpen
  hardAssert (s.handshakeComplete = false) .handshakeComplete
  s.write .handshake

def writeMutations (mutations : List Mutation) : Except Failure WriteStream := do
  hardAssert (s.isOpen = true) .notOpen
  hardAssert (s.handshakeComplete = true) .handshakeIncomplete
  s.write (.mutations mutations)

/-- The call is started; the delegate's `writeStreamDidOpen` writes the handshake. -/
def onStreamStart : Except Failure WriteStream := { s with state := .opened }.writeHandshake

/-- Steps 2 to 7 of `Close`, up to the call of the delegate. -/
def closed (graceful : Bool) : WriteStream :=
  { s with
    state := if graceful then .initial else .error
    closeCount := s.closeCount + 1
    idlenessTimer := false
    backoffTimer := false
    requests := [] }

/-! ### The stream and the pipeline -/

/-- The request for the mutations of a batch. -/
def requestOf (batch : MutationBatch) : Request := .mutations batch.mutations

/-- What holds of the stream with the batches of the pipeline. -/
structure Ready (pipeline : List MutationBatch) : Prop where
  /-- One token request is current while the stream waits for it, and none otherwise. -/
  tokens : s.tokenRequests.count s.closeCount = if s.state = .starting then 1 else 0
  tokens_le : ∀ n ∈ s.tokenRequests, n ≤ s.closeCount
  backoff : s.backoffTimer = true ↔ s.state = .backoff
  closed : s.state ≠ .opened → s.requests = [] ∧ s.idlenessTimer = false
  waiting : s.isStarted = true → s.state ≠ .opened → pipeline ≠ []
  handshaking : s.state = .opened → s.handshakeComplete = false →
    s.requests = [.handshake] ∧ s.idlenessTimer = false ∧ pipeline ≠ []
  established : s.state = .opened → s.handshakeComplete = true →
    s.requests = pipeline.map requestOf ∧ (s.idlenessTimer = true → pipeline = [])

variable {s} {pipeline : List MutationBatch}

theorem isStarted_eq_false : s.isStarted = false ↔ s.state = .initial ∨ s.state = .error := by
  rcases s with ⟨state, _⟩
  cases state <;> simp [isStarted, isOpen]

theorem isOpen_iff : s.isOpen = true ↔ s.state = .opened := decide_eq_true_iff

theorem isStarted_of_opened (hopen : s.state = .opened) : s.isStarted = true := by
  rw [isStarted, isOpen_iff.mpr hopen, Bool.or_true]

/-- A stream that is not open sends nothing, and waits only if there is something to send. -/
theorem ready_of_not_open
    (htokens : s.tokenRequests.count s.closeCount = if s.state = .starting then 1 else 0)
    (hle : ∀ n ∈ s.tokenRequests, n ≤ s.closeCount) (hbackoff : s.backoffTimer = true ↔ s.state = .backoff)
    (hclosed : s.state ≠ .opened) (hrequests : s.requests = []) (hidle : s.idlenessTimer = false)
    (hwaiting : s.isStarted = true → pipeline ≠ []) : s.Ready pipeline where
  tokens := htokens
  tokens_le := hle
  backoff := hbackoff
  closed := fun _ => ⟨hrequests, hidle⟩
  waiting := fun hstarted _ => hwaiting hstarted
  handshaking := fun hopen => absurd hopen hclosed
  established := fun hopen => absurd hopen hclosed

theorem ready_initial (pipeline : List MutationBatch) : ({} : WriteStream).Ready pipeline := by
  apply ready_of_not_open
  · rfl
  · intro n hn
    exact absurd hn List.not_mem_nil
  · exact iff_of_false Bool.false_ne_true (by decide)
  · decide
  · rfl
  · rfl
  · intro hstarted
    cases hstarted

/-- A stream that is stopped is ready for any pipeline. -/
theorem Ready.of_stopped (h : s.Ready pipeline) (hstopped : s.isStarted = false)
    (pipeline' : List MutationBatch) : s.Ready pipeline' := by
  have hclosed : s.state ≠ .opened := by
    rcases isStarted_eq_false.mp hstopped with hstate | hstate <;> rw [hstate] <;> decide
  refine ready_of_not_open h.tokens h.tokens_le h.backoff hclosed (h.closed hclosed).1
    (h.closed hclosed).2 fun hstarted => ?_
  rw [hstopped] at hstarted
  cases hstarted

/-- A stream that is stopped starts: at once, or after a delay where it ended with an error. -/
theorem Ready.start (h : s.Ready pipeline) (hstopped : s.isStarted = false) (hneeded : pipeline ≠ []) :
    ∃ s', s.start = .ok s' ∧ s'.Ready pipeline ∧ s'.isStarted = true ∧ s'.state ≠ .opened ∧
      s'.handshakeComplete = s.handshakeComplete ∧ (s.state = .initial → s'.state = .starting) := by
  have hcount := h.tokens
  rcases isStarted_eq_false.mp hstopped with hstate | hstate
  · rw [hstate, if_neg (by decide)] at hcount
    obtain ⟨hrequests, hidle⟩ := h.closed (by rw [hstate]; decide)
    have htimer : s.backoffTimer ≠ true := fun ht => by
      rw [h.backoff.mp ht] at hstate
      cases hstate
    refine ⟨{ s with state := .starting }.requestCredentials, ?_, ?_, rfl, by simp [requestCredentials],
      rfl, fun _ => rfl⟩
    · rw [WriteStream.start, if_neg (by rw [hstate]; decide), hardAssert_ok hstate]
      rfl
    · apply ready_of_not_open
      · show (s.tokenRequests ++ [s.closeCount]).count s.closeCount = 1
        rw [List.count_append, hcount, List.count_singleton_self]
      · intro n hn
        rcases List.mem_append.mp hn with hn | hn
        · exact h.tokens_le n hn
        · exact le_of_eq (List.mem_singleton.mp hn)
      · exact iff_of_false htimer (by simp [requestCredentials])
      · simp [requestCredentials]
      · exact hrequests
      · exact hidle
      · exact fun _ => hneeded
  · rw [hstate, if_neg (by decide)] at hcount
    obtain ⟨hrequests, hidle⟩ := h.closed (by rw [hstate]; decide)
    refine ⟨{ s with state := .backoff, backoffTimer := true }, ?_, ?_, rfl, by simp, rfl,
      fun hinitial => ?_⟩
    · rw [WriteStream.start, if_pos hstate, backoffAndTryRestarting, hardAssert_ok hstate]
      rfl
    · exact ready_of_not_open hcount h.tokens_le (iff_of_true rfl rfl) (by simp) hrequests hidle
        fun _ => hneeded
    · rw [hstate] at hinitial
      cases hinitial

theorem Ready.backoffElapsed (h : s.Ready pipeline) (htimer : s.backoffTimer = true) :
    ∃ s', s.backoffElapsed = .ok s' ∧ s'.Ready pipeline ∧ s'.state = .starting ∧
      s'.handshakeComplete = s.handshakeComplete := by
  have hstate := h.backoff.mp htimer
  have hopened : s.state ≠ .opened := by
    rw [hstate]
    decide
  have hneeded : pipeline ≠ [] := h.waiting (by rw [isStarted, hstate]; rfl) hopened
  have hcount := h.tokens
  rw [hstate, if_neg (by decide)] at hcount
  obtain ⟨hrequests, hidle⟩ := h.closed hopened
  have hready : ({ s with state := .initial, backoffTimer := false } : WriteStream).Ready pipeline :=
    ready_of_not_open hcount h.tokens_le (iff_of_false Bool.false_ne_true (by simp)) (by simp)
      hrequests hidle fun _ => hneeded
  obtain ⟨s', hs', hready', hstarted, -, hkept, hstarting⟩ := hready.start rfl hneeded
  refine ⟨s', ?_, hready', hstarting rfl, hkept⟩
  simp only [WriteStream.backoffElapsed, hardAssert_ok hstate]
  show (do
    let s' ← ({ s with state := .initial, backoffTimer := false } : WriteStream).start
    hardAssert (s'.isStarted = true) Failure.notStarted
    return s') = _
  rw [hs']
  show (do
    hardAssert (s'.isStarted = true) Failure.notStarted
    return s') = _
  rw [hardAssert_ok hstarted]
  rfl

theorem Ready.inhibitBackoff (h : s.Ready pipeline) (hstopped : s.isStarted = false) :
    s.inhibitBackoff = .ok { s with state := .initial } ∧
      ({ s with state := .initial } : WriteStream).Ready pipeline := by
  have hnot : s.state ≠ .opened ∧ s.state ≠ .starting ∧ s.state ≠ .backoff := by
    rcases isStarted_eq_false.mp hstopped with hstate | hstate <;> rw [hstate] <;> decide
  obtain ⟨hopened, hstarting, hbackoff⟩ := hnot
  constructor
  · rw [WriteStream.inhibitBackoff, hardAssert_ok hstopped]
    rfl
  · have hcount := h.tokens
    rw [if_neg hstarting] at hcount
    refine ready_of_not_open hcount h.tokens_le
      (iff_of_false (fun ht => hbackoff (h.backoff.mp ht)) (by simp)) (by simp)
      (h.closed hopened).1 (h.closed hopened).2 fun hstarted => ?_
    cases hstarted

theorem closed_isStarted (s : WriteStream) (graceful : Bool) :
    (s.closed graceful).isStarted = false := by
  cases graceful <;> rfl

/-- Closing: what was asked for before is not current any more. -/
theorem ready_closed (hle : ∀ n ∈ s.tokenRequests, n ≤ s.closeCount) (graceful : Bool)
    (pipeline : List MutationBatch) : (s.closed graceful).Ready pipeline := by
  have hstate : (s.closed graceful).state = .initial ∨ (s.closed graceful).state = .error := by
    cases graceful
    · exact Or.inr rfl
    · exact Or.inl rfl
  have hnot : (s.closed graceful).state ≠ .starting ∧ (s.closed graceful).state ≠ .backoff ∧
      (s.closed graceful).state ≠ .opened := by
    rcases hstate with hstate | hstate <;> rw [hstate] <;> decide
  obtain ⟨hstarting, hbackoff, hopened⟩ := hnot
  apply ready_of_not_open
  · rw [if_neg hstarting]
    refine List.count_eq_zero.mpr fun hmem => ?_
    exact absurd (hle _ hmem) (Nat.not_succ_le_self s.closeCount)
  · exact fun n hn => Nat.le_succ_of_le (hle n hn)
  · exact iff_of_false Bool.false_ne_true hbackoff
  · exact hopened
  · rfl
  · rfl
  · intro hstarted
    rw [closed_isStarted] at hstarted
    cases hstarted

/-- Whether the handshake is complete matters for an open stream only. -/
theorem Ready.with_handshake (h : s.Ready pipeline) (hclosed : s.state ≠ .opened) (complete : Bool) :
    ({ s with handshakeComplete := complete } : WriteStream).Ready pipeline where
  tokens := h.tokens
  tokens_le := h.tokens_le
  backoff := h.backoff
  closed := h.closed
  waiting := h.waiting
  handshaking := fun hopen => absurd hopen hclosed
  established := fun hopen => absurd hopen hclosed

/-- A batch for a stream that is established is sent at once. -/
theorem Ready.writeMutations (h : s.Ready pipeline) (hopen : s.state = .opened)
    (hcomplete : s.handshakeComplete = true) (batch : MutationBatch) :
    ∃ s', s.writeMutations batch.mutations = .ok s' ∧ s'.Ready (pipeline ++ [batch]) ∧
      s'.state = .opened ∧ s'.handshakeComplete = true := by
  have hisopen : s.isOpen = true := isOpen_iff.mpr hopen
  refine ⟨{ s.cancelIdleCheck with requests := s.requests ++ [.mutations batch.mutations] }, ?_, ?_,
    hopen, hcomplete⟩
  · rw [WriteStream.writeMutations, hardAssert_ok hisopen, hardAssert_ok hcomplete]
    show s.write _ = _
    rw [WriteStream.write, hardAssert_ok hisopen]
    rfl
  · obtain ⟨hrequests, -⟩ := h.established hopen hcomplete
    refine ⟨h.tokens, h.tokens_le, h.backoff, fun hclosed => absurd hopen hclosed,
      fun _ hclosed => absurd hopen hclosed, fun _ hfalse => ?_,
      fun _ _ => ⟨?_, fun hidle => by cases hidle⟩⟩
    · rw [show s.handshakeComplete = false from hfalse] at hcomplete
      cases hcomplete
    · rw [List.map_append, ← hrequests]
      rfl

/-- A pipeline that is not sent yet may grow. -/
theorem Ready.append (h : s.Ready pipeline)
    (hunsent : ¬(s.state = .opened ∧ s.handshakeComplete = true)) (batch : MutationBatch) :
    s.Ready (pipeline ++ [batch]) := by
  have hne : pipeline ++ [batch] ≠ [] :=
    List.append_ne_nil_of_right_ne_nil _ (List.cons_ne_nil _ _)
  refine ⟨h.tokens, h.tokens_le, h.backoff, h.closed, fun _ _ => hne, fun hopen hfalse => ?_,
    fun hopen hcomplete => absurd ⟨hopen, hcomplete⟩ hunsent⟩
  obtain ⟨hrequests, hidle, -⟩ := h.handshaking hopen hfalse
  exact ⟨hrequests, hidle, hne⟩

theorem Ready.markIdle (h : s.Ready []) : s.markIdle.Ready [] := by
  unfold WriteStream.markIdle
  split
  · rename_i hidle
    have hopen : s.state = .opened := isOpen_iff.mp (Bool.and_eq_true _ _ ▸ hidle).1
    refine ⟨h.tokens, h.tokens_le, h.backoff, fun hclosed => absurd hopen hclosed,
      fun _ hclosed => absurd hopen hclosed, fun _ hfalse => ?_,
      fun _ hcomplete => ⟨(h.established hopen hcomplete).1, fun _ => rfl⟩⟩
    exact absurd rfl (h.handshaking hopen hfalse).2.2
  · exact h

theorem markIdle_state (s : WriteStream) : s.markIdle.state = s.state := by
  unfold WriteStream.markIdle
  split <;> rfl

theorem markIdle_handshakeComplete (s : WriteStream) :
    s.markIdle.handshakeComplete = s.handshakeComplete := by
  unfold WriteStream.markIdle
  split <;> rfl

/-! ### Answers -/

/-- A token that came too late is not looked at. -/
theorem Ready.dropToken (h : s.Ready pipeline) {n : ℕ} (hstale : n ≠ s.closeCount) :
    ({ s with tokenRequests := s.tokenRequests.erase n } : WriteStream).Ready pipeline := by
  refine ⟨?_, fun m hm => h.tokens_le m (List.mem_of_mem_erase hm), h.backoff, h.closed, h.waiting,
    h.handshaking, h.established⟩
  show (s.tokenRequests.erase n).count s.closeCount = _
  rw [List.count_erase_of_ne (Ne.symm hstale)]
  exact h.tokens

/-- The current token finds the stream waiting for it. -/
theorem Ready.starting_of_token (h : s.Ready pipeline) (hmem : s.closeCount ∈ s.tokenRequests) :
    s.state = .starting ∧ (s.tokenRequests.erase s.closeCount).count s.closeCount = 0 := by
  have hcount := h.tokens
  have hpos := List.count_pos_iff.mpr hmem
  split at hcount
  · rename_i hstate
    refine ⟨hstate, ?_⟩
    rw [List.count_erase_self, hcount]
  · omega

/-- With the token the stream opens and sends the handshake. -/
theorem Ready.onStreamStart (h : s.Ready pipeline) (hmem : s.closeCount ∈ s.tokenRequests)
    (hfalse : s.handshakeComplete = false) :
    ∃ s', ({ s with tokenRequests := s.tokenRequests.erase s.closeCount } :
        WriteStream).onStreamStart = .ok s' ∧ s'.Ready pipeline ∧ s'.state = .opened ∧
      s'.handshakeComplete = false := by
  obtain ⟨hstate, hcount⟩ := h.starting_of_token hmem
  have hneeded : pipeline ≠ [] :=
    h.waiting (by rw [isStarted, hstate]; rfl) (by rw [hstate]; decide)
  obtain ⟨hrequests, hidle⟩ := h.closed (by rw [hstate]; decide)
  refine ⟨{ s with
    state := .opened, tokenRequests := s.tokenRequests.erase s.closeCount, idlenessTimer := false,
    requests := s.requests ++ [.handshake] }, ?_, ?_, rfl, hfalse⟩
  · simp only [WriteStream.onStreamStart, writeHandshake, write, isOpen, decide_true, hardAssert_ok,
      hfalse]
    rfl
  · refine ⟨hcount, fun m hm => h.tokens_le m (List.mem_of_mem_erase hm), ?_,
      fun hclosed => absurd rfl hclosed, fun _ hclosed => absurd rfl hclosed,
      fun _ _ => ⟨?_, rfl, hneeded⟩, fun _ htrue => ?_⟩
    · refine iff_of_false (fun ht => ?_) (by simp)
      rw [h.backoff.mp ht] at hstate
      cases hstate
    · rw [hrequests]
      rfl
    · rw [show s.handshakeComplete = true from htrue] at hfalse
      cases hfalse

/-- Batches for a stream that is established are sent in order. -/
theorem Ready.sendAll :
    ∀ {batches pipeline : List MutationBatch} {s : WriteStream}, s.Ready pipeline →
      s.state = .opened → s.handshakeComplete = true →
      ∃ s', batches.foldlM (fun s batch => s.writeMutations batch.mutations) s = .ok s' ∧
        s'.Ready (pipeline ++ batches) ∧ s'.state = .opened ∧ s'.handshakeComplete = true := by
  intro batches
  induction batches with
  | nil =>
    intro pipeline s h hopen hcomplete
    exact ⟨s, rfl, by rw [List.append_nil]; exact h, hopen, hcomplete⟩
  | cons batch batches ih =>
    intro pipeline s h hopen hcomplete
    obtain ⟨s₁, hs₁, h₁, hopen₁, hcomplete₁⟩ := h.writeMutations hopen hcomplete batch
    obtain ⟨s', hs', h', hopen', hcomplete'⟩ := ih h₁ hopen₁ hcomplete₁
    rw [List.append_assoc] at h'
    refine ⟨s', ?_, h', hopen', hcomplete'⟩
    rw [List.foldlM_cons, hs₁]
    exact hs'

/-- With the answer to the handshake nothing is sent that is not answered. -/
theorem Ready.handshaken (h : s.Ready pipeline) (hopen : s.state = .opened)
    (hfalse : s.handshakeComplete = false) :
    ({ s with requests := s.requests.tail, handshakeComplete := true } : WriteStream).Ready [] := by
  obtain ⟨hrequests, hidle, -⟩ := h.handshaking hopen hfalse
  refine ⟨h.tokens, h.tokens_le, h.backoff, fun hclosed => absurd hopen hclosed,
    fun _ hclosed => absurd hopen hclosed, (fun _ htrue => by cases htrue),
    fun _ _ => ⟨?_, fun _ => rfl⟩⟩
  show s.requests.tail = []
  rw [hrequests]
  rfl

/-- The answer to the first batch. -/
theorem Ready.answered {batch : MutationBatch} (h : s.Ready (batch :: pipeline))
    (hopen : s.state = .opened) (hcomplete : s.handshakeComplete = true) :
    ({ s with requests := s.requests.tail } : WriteStream).Ready pipeline := by
  obtain ⟨hrequests, hidle⟩ := h.established hopen hcomplete
  refine ⟨h.tokens, h.tokens_le, h.backoff, fun hclosed => absurd hopen hclosed,
    fun _ hclosed => absurd hopen hclosed, fun _ hfalse => ?_, fun _ _ => ⟨?_, fun htimer => ?_⟩⟩
  · rw [show s.handshakeComplete = false from hfalse] at hcomplete
    cases hcomplete
  · show s.requests.tail = _
    rw [hrequests]
    rfl
  · cases hidle htimer

end WriteStream

end GiftGenie
