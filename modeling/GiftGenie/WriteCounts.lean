import GiftGenie.WritePipeline

/-!
# The count of closes

The write stream counts its closes in an `int`, by which it knows late tokens.  An operation closes the
stream once at most, and none does so where the count is at `closeCountMax`.  So the count stays an
`int` (`closeCount_step`).
-/

set_option autoImplicit false

namespace GiftGenie

open GiftGenie.Mutations GiftGenie.MutationQueue GiftGenie.LocalDocuments

/-! ### What a computation gives -/

section Gives

variable {α β : Type} {P : α → Prop} {Q : β → Prop}

/-- The value of the computation, if it has one, has the property. -/
def Gives (P : α → Prop) (r : Except Failure α) : Prop := ∀ a, r = .ok a → P a

theorem gives_ok {a : α} (h : P a) : Gives P (.ok a) := by
  intro b hb
  cases hb
  exact h

theorem gives_error (f : Failure) : Gives P (.error f) := fun _ h => absurd h (by simp)

theorem gives_any (r : Except Failure α) : Gives (fun _ => True) r := fun _ _ => trivial

theorem gives_bind {x : Except Failure β} {f : β → Except Failure α} (hx : Gives Q x)
    (hf : ∀ b, Q b → Gives P (f b)) : Gives P (x >>= f) := by
  cases x with
  | error e => exact gives_error e
  | ok b => exact hf b (hx b rfl)

theorem gives_foldlM {xs : List β} {f : α → β → Except Failure α}
    (hf : ∀ a b, P a → Gives P (f a b)) : ∀ {a : α}, P a → Gives P (xs.foldlM f a) := by
  induction xs with
  | nil => exact fun ha => gives_ok ha
  | cons b xs ih =>
    intro a ha
    rw [List.foldlM_cons]
    exact gives_bind (hf a b ha) fun a' ha' => ih ha'

end Gives

/-! ### The stream -/

namespace WriteStream

variable {s : WriteStream} {n : ℕ}

/-- The stream has been closed `n` times. -/
def Counted (n : ℕ) (s : WriteStream) : Prop := s.closeCount = n

theorem counted_start (h : s.Counted n) : Gives (Counted n) s.start := by
  unfold start
  split
  · exact gives_bind (gives_any _) fun _ _ => gives_ok h
  · exact gives_bind (gives_any _) fun _ _ => gives_ok h

theorem counted_backoffElapsed (h : s.Counted n) : Gives (Counted n) s.backoffElapsed :=
  gives_bind (gives_any _) fun _ _ =>
    gives_bind (counted_start (s := { s with state := .initial, backoffTimer := false }) h) fun _ hs =>
      gives_bind (gives_any _) fun _ _ => gives_ok hs

theorem counted_inhibitBackoff (h : s.Counted n) : Gives (Counted n) s.inhibitBackoff :=
  gives_bind (gives_any _) fun _ _ => gives_ok h

theorem counted_markIdle (h : s.Counted n) : s.markIdle.Counted n := by
  unfold markIdle
  split
  · exact h
  · exact h

theorem counted_write (h : s.Counted n) (request : Request) : Gives (Counted n) (s.write request) :=
  gives_bind (gives_any _) fun _ _ => gives_ok h

theorem counted_writeMutations (h : s.Counted n) (mutations : List Mutation) :
    Gives (Counted n) (s.writeMutations mutations) :=
  gives_bind (gives_any _) fun _ _ => gives_bind (gives_any _) fun _ _ => counted_write h _

theorem counted_onStreamStart (h : s.Counted n) : Gives (Counted n) s.onStreamStart :=
  gives_bind (gives_any _) fun _ _ => gives_bind (gives_any _) fun _ _ =>
    counted_write (s := { s with state := .opened }) h _

end WriteStream

/-! ### The client -/

namespace FirestoreClient

open WriteStream

variable {c : FirestoreClient} {n : ℕ}

/-- The write stream of the client has been closed `n` times. -/
def Counted (n : ℕ) (c : FirestoreClient) : Prop := c.writeStream.Counted n

theorem counted_startIfNeeded (h : c.Counted n) : Gives (Counted n) c.startIfNeeded := by
  unfold startIfNeeded
  split
  · exact gives_bind (gives_any _) fun _ _ => gives_bind (counted_start h) fun _ hs => gives_ok hs
  · exact gives_ok h

theorem counted_addBatch (h : c.Counted n) (batch : MutationBatch) :
    Gives (Counted n) (c.addBatchToWritePipeline batch) := by
  refine gives_bind (gives_any _) fun _ _ => ?_
  dsimp only
  split
  · exact gives_bind (counted_writeMutations h _) fun _ hs => gives_ok hs
  · exact gives_ok h

theorem counted_fillLoop : ∀ (k : ℕ) (batchID : BatchId) {c : FirestoreClient}, c.Counted n →
    Gives (Counted n) (fillLoop k batchID c) := by
  intro k
  induction k with
  | zero => exact fun _ _ h => gives_ok h
  | succ k ih =>
    intro batchID c h
    unfold fillLoop
    split
    · refine gives_bind (gives_any _) fun next _ => ?_
      cases next with
      | none =>
        dsimp only
        split
        · exact gives_ok (counted_markIdle h)
        · exact gives_ok h
      | some batch => exact gives_bind (counted_addBatch h batch) fun c' h' => ih _ h'
    · exact gives_ok h

theorem counted_fillWritePipeline (h : c.Counted n) : Gives (Counted n) c.fillWritePipeline :=
  gives_bind (counted_fillLoop _ _ h) fun _ h' => counted_startIfNeeded h'

theorem counted_processUserCallbacks (h : c.Counted n) (batchID : BatchId) (error : Option ErrorCode) :
    (c.processUserCallbacksForBatchID batchID error).Counted n := by
  unfold processUserCallbacksForBatchID
  split
  · exact h
  · exact h

theorem counted_writeMutations (h : c.Counted n) (mutations : List Mutation) (completion : Completion) :
    Gives (Counted n) (c.writeMutations mutations completion) := by
  unfold FirestoreClient.writeMutations
  split
  · exact gives_ok h
  · exact gives_bind (gives_any _) fun _ _ => counted_fillWritePipeline h

theorem counted_receiveResponse (h : c.Counted n) (mutationResults : List MutationResult) :
    Gives (Counted n) (c.writeStreamDidReceiveResponse mutationResults) := by
  unfold writeStreamDidReceiveResponse
  split
  · exact gives_error _
  · rename_i batch rest _
    refine gives_bind (gives_any _) fun result _ => ?_
    have happly : Gives (Counted n)
        (applySuccessfulWriteWithResult { c with writePipeline := rest } result) :=
      gives_bind (gives_any _) fun _ _ =>
        gives_ok (counted_processUserCallbacks (c := { c with writePipeline := rest }) h _ _)
    exact gives_bind happly fun c' h' => counted_fillWritePipeline h'

theorem counted_handleStreamError (h : c.Counted n) (error : Option ErrorCode) :
    Gives (Counted n) (c.handleStreamError error) := by
  cases error with
  | none => exact gives_ok h
  | some error =>
    unfold handleStreamError handleWriteError
    dsimp only
    split
    · split
      · split
        · exact gives_error _
        · rename_i batch rest _
          refine gives_bind (counted_inhibitBackoff h) fun s hs => ?_
          have hreject : Gives (Counted n) (rejectFailedWriteWithBatchID
              { c with writePipeline := rest, writeStream := s } batch.batchID error) :=
            gives_bind (gives_any _) fun localStore _ => gives_ok
              (counted_processUserCallbacks
                (c := { c with writePipeline := rest, writeStream := s, localStore := localStore.1 })
                hs _ _)
          exact gives_bind hreject fun c' h' => counted_fillWritePipeline h'
      · exact gives_ok h
    · exact gives_ok h

/-- `Close` closes the stream once at most. -/
theorem counted_close (h : c.Counted n) (error : Option ErrorCode) :
    Gives (fun c' => c'.Counted n ∨ c'.Counted (n + 1)) (c.close error) := by
  unfold close
  split
  · exact gives_ok (Or.inl h)
  · refine gives_bind (gives_any _) fun _ _ => ?_
    have hclosed : Counted (n + 1) { c with writeStream := c.writeStream.closed error.isNone } :=
      congrArg Nat.succ h
    have hinterrupted : Gives (Counted (n + 1)) (writeStreamWasInterruptedWithError
        { c with writeStream := c.writeStream.closed error.isNone } error) :=
      gives_bind (gives_any _) fun _ _ =>
        gives_bind (counted_handleStreamError hclosed error) fun _ h' => counted_startIfNeeded h'
    exact gives_bind hinterrupted fun _ h' => gives_ok (Or.inr h')

theorem counted_resumeStart (h : c.Counted n) :
    Gives (Counted n) (c.resumeStartWithCredentials none) :=
  gives_bind (gives_any _) fun _ _ =>
    gives_bind (counted_onStreamStart h) fun _ hs => gives_ok hs

theorem counted_resumeStart_error (h : c.Counted n) (error : ErrorCode) :
    Gives (fun c' => c'.Counted n ∨ c'.Counted (n + 1)) (c.resumeStartWithCredentials (some error)) :=
  gives_bind (gives_any _) fun _ _ => counted_close h (some error)

theorem counted_onStreamRead (h : c.Counted n) (mutationResults : List MutationResult) :
    Gives (Counted n) (c.onStreamRead mutationResults) := by
  unfold onStreamRead
  split
  · exact gives_bind (gives_any _) fun _ _ => counted_receiveResponse h mutationResults
  · refine gives_bind (gives_any _) fun _ _ => gives_bind (gives_foldlM ?_ h) fun _ hs => gives_ok hs
    exact fun s batch hs => WriteStream.counted_writeMutations hs _

theorem counted_disableNetwork (h : c.Counted n) :
    Gives (fun c' => c'.Counted n ∨ c'.Counted (n + 1)) c.disableNetwork :=
  gives_bind (counted_close (c := { c with isNetworkEnabled := false }) h none) fun _ h' => gives_ok h'

theorem counted_credentialDidChange (h : c.Counted n) :
    Gives (fun c' => c'.Counted n ∨ c'.Counted (n + 1)) c.credentialDidChange := by
  unfold credentialDidChange
  split
  · refine gives_bind (counted_disableNetwork h) fun c' h' => ?_
    rcases h' with h' | h'
    · exact fun a ha => Or.inl (counted_fillWritePipeline (c := { c' with isNetworkEnabled := true }) h' a ha)
    · exact fun a ha => Or.inr (counted_fillWritePipeline (c := { c' with isNetworkEnabled := true }) h' a ha)
  · exact gives_ok (Or.inl h)

theorem counted_credentialDidChangeWithUser (h : c.Counted n) (user : String) :
    Gives (fun c' => c'.Counted n ∨ c'.Counted (n + 1)) (c.credentialDidChangeWithUser user) := by
  unfold credentialDidChangeWithUser
  split
  · exact gives_bind (gives_any _) fun _ _ => counted_credentialDidChange h
  · exact counted_credentialDidChange h

/-! ### One operation -/

theorem closeCount_le (hle : n ≤ closeCountMax) {r : Except Failure FirestoreClient}
    (h : Gives (Counted n) r) : Gives (fun c' => c'.writeStream.closeCount ≤ closeCountMax) r := by
  intro c' hc'
  exact le_of_eq_of_le (h c' hc') hle

/-- Where the stream may be closed, there is a next count. -/
theorem closeCount_le_of_canClose (hcan : c.writeStream.CanClose) {r : Except Failure FirestoreClient}
    (h : Gives (fun c' => c'.Counted c.writeStream.closeCount ∨
      c'.Counted (c.writeStream.closeCount + 1)) r) :
    Gives (fun c' => c'.writeStream.closeCount ≤ closeCountMax) r := by
  intro c' hc'
  rcases h c' hc' with h' | h'
  · exact le_of_eq_of_le h' (Nat.le_of_lt hcan)
  · exact le_of_eq_of_le h' hcan

/-- **The count fits.**  An operation leaves the count of closes an `int`. -/
theorem closeCount_step (hle : c.writeStream.closeCount ≤ closeCountMax) {event : ClientEvent}
    {r : Except Failure FirestoreClient} (hstep : c.step event = some r) :
    Gives (fun c' => c'.writeStream.closeCount ≤ closeCountMax) r := by
  have hsame : c.Counted c.writeStream.closeCount := rfl
  cases event with
  | write mutations completion =>
    obtain ⟨-, hr⟩ := Option.ite_none_right_eq_some.mp hstep
    rw [← Option.some.inj hr]
    exact closeCount_le hle (counted_writeMutations hsame mutations completion)
  | token closeCount error =>
    obtain ⟨-, hr⟩ := Option.ite_none_right_eq_some.mp hstep
    split at hr
    · rw [← Option.some.inj hr]
      exact gives_ok hle
    · obtain ⟨hcan, hr⟩ := Option.ite_none_right_eq_some.mp hr
      rw [← Option.some.inj hr]
      cases error with
      | none =>
        refine closeCount_le hle (counted_resumeStart ?_)
        exact hsame
      | some error =>
        refine closeCount_le_of_canClose (hcan.resolve_left (by simp)) (counted_resumeStart_error ?_ error)
        exact hsame
  | response mutationResults =>
    obtain ⟨-, hr⟩ := Option.ite_none_right_eq_some.mp hstep
    rw [← Option.some.inj hr]
    refine closeCount_le hle (counted_onStreamRead ?_ mutationResults)
    exact hsame
  | finished error =>
    obtain ⟨hcan, hr⟩ := Option.ite_none_right_eq_some.mp hstep
    rw [← Option.some.inj hr]
    exact closeCount_le_of_canClose hcan.2 (counted_close hsame error)
  | idleTimeout =>
    obtain ⟨hcan, hr⟩ := Option.ite_none_right_eq_some.mp hstep
    rw [← Option.some.inj hr]
    exact closeCount_le_of_canClose hcan.2 (counted_close hsame none)
  | backoffElapsed =>
    obtain ⟨-, hr⟩ := Option.ite_none_right_eq_some.mp hstep
    rw [← Option.some.inj hr]
    exact closeCount_le hle (gives_bind (counted_backoffElapsed hsame) fun _ hs => gives_ok hs)
  | enableNetwork =>
    rw [← Option.some.inj hstep]
    exact closeCount_le hle (counted_fillWritePipeline hsame)
  | disableNetwork =>
    obtain ⟨hcan, hr⟩ := Option.ite_none_right_eq_some.mp hstep
    rw [← Option.some.inj hr]
    exact closeCount_le_of_canClose hcan (counted_disableNetwork hsame)
  | credentialChange user =>
    obtain ⟨hcan, hr⟩ := Option.ite_none_right_eq_some.mp hstep
    rw [← Option.some.inj hr]
    exact closeCount_le_of_canClose hcan (counted_credentialDidChangeWithUser hsame user)
  | remoteEvent documentUpdates authoritativeUpdates =>
    rw [← Option.some.inj hstep]
    exact closeCount_le hle (gives_bind (gives_any _) fun _ _ => gives_ok hsame)

theorem closeCount_launched {db : LevelDB} {remoteDocuments : RemoteDocumentCache} {user : String}
    (h : initializeWithUser db remoteDocuments user = .ok c) : c.writeStream.closeCount = 0 := by
  refine counted_fillWritePipeline (n := 0) ?_ c h
  rfl

end FirestoreClient

end GiftGenie
