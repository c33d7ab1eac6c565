import GiftGenie.Mutations

/-!
# One attempt of a transaction

`runTransaction` gives the update block a transaction object.  A read records the version of the
document; a write only stores its mutations, with the recorded version as their precondition; the
commit sends all of them if every document that was read is also written.  The update block is a
program over these calls (`Block`).

`Block.execute` runs it with all its reads in one state of the server, `attempt` runs and commits
it.  `Watched` is what an attempt knows of a server that other clients change meanwhile:
`attempt_of_accepted` says that where the server accepts the commit, the attempt did what it would
have done in the state it is committed in, however old its reads are.
-/

set_option autoImplicit false

namespace GiftGenie.Transactions

open GiftGenie.Library.VersionedStore GiftGenie.Firestore GiftGenie.Mutations

/-- Why a transaction fails. -/
inductive TransactionError where
  /-- "A document cannot be read twice within a single transaction." -/
  | readTwice
  /-- "All reads in a transaction must be done before any writes." -/
  | readAfterWrite
  /-- "Can't update a document that doesn't exist." -/
  | updateMissing
  /-- "Every document read in a transaction must also be written in that transaction." -/
  | readNotWritten
  /-- The update block threw. -/
  | block (e : DartError)
  /-- The server did not answer a lookup. -/
  | lookupFailed
  /-- The server did not answer a commit with success. -/
  | commitFailed
  /-- "Transaction failed all retries." -/
  | failedAllRetries (underlying : TransactionError)
  deriving DecidableEq, Repr

/-- `FSTTransaction`; the latest entry of a key in `readVersions` counts. -/
structure Transaction where
  readVersions : List (String × Option ℕ) := []
  mutations : List Mutation := []
  lastWriteError : Option TransactionError := none

namespace Transaction

variable (tx : Transaction)

/-- `_readVersions.find(key)`. -/
def readVersion? (key : String) : Option (Option ℕ) :=
  (tx.readVersions.find? fun p => p.1 = key).map Prod.snd

def recordVersionForDocument (key : String) (version : Option ℕ) :
    Except TransactionError Transaction :=
  match tx.readVersion? key with
  | none => .ok { tx with readVersions := (key, version) :: tx.readVersions }
  | some _ => .error .readTwice

/-- `lookupDocumentsForKeys` of one key, answered with the entry `e`. -/
def lookupDocument (key : String) (e : Option (ℕ × Doc)) : Except TransactionError Transaction :=
  if tx.mutations.isEmpty then tx.recordVersionForDocument key (version e)
  else .error .readAfterWrite

def writeMutations (mutations : List Mutation) : Transaction :=
  { tx with mutations := tx.mutations ++ mutations }

def preconditionForDocumentKey (key : String) : Precondition :=
  match tx.readVersion? key with
  | none => .none
  | some v => .updateTime v

def preconditionForUpdateWithDocumentKey (key : String) : Except TransactionError Precondition :=
  match tx.readVersion? key with
  | none => .ok (.exists true)
  | some none => .error .updateMissing
  | some (some v) => .ok (.updateTime (some v))

def setData (key : String) (data : List (String × FieldData)) : Transaction :=
  tx.writeMutations (setMutations key data (tx.preconditionForDocumentKey key))

def updateData (key : String) (data : List (String × FieldData)) : Transaction :=
  match tx.preconditionForUpdateWithDocumentKey key with
  | .ok precondition => tx.writeMutations (updateMutations key data precondition)
  | .error e => { tx with lastWriteError := some e }

/-- The next write of the document is one of a document that does not exist. -/
def deleteDocument (key : String) : Transaction :=
  { tx.writeMutations [.delete key (tx.preconditionForDocumentKey key)] with
    readVersions := (key, none) :: tx.readVersions }

/-- The mutations that the commit sends. -/
def commitMutations : Except TransactionError (List Mutation) :=
  match tx.lastWriteError with
  | some e => .error e
  | none =>
      if tx.readVersions.all fun p => tx.mutations.any fun m => m.key = p.1 then .ok tx.mutations
      else .error .readNotWritten

end Transaction

/-! ### The server's side of a commit -/

/-- The first mutation of a document. -/
def firstWrite (mutations : List Mutation) (key : String) : Option Mutation :=
  mutations.find? fun m => m.key = key

/-- What the server has checked when it accepts a commit: the first mutation of each document meets
its precondition. -/
def accepts (s : Server) (mutations : List Mutation) : Bool :=
  mutations.all fun m =>
    (firstWrite mutations m.key).all fun first => first.precondition.isValidFor (s.entries m.key)

/-- The mutations of an accepted commit are applied at one time. -/
def commit (s : Server) (mutations : List Mutation) : Server :=
  s.write (fun key => mutations.any fun m => m.key = key)
    fun key => applyAll (mutations.filter fun m => m.key = key)

theorem valid_of_accepts {s : Server} {mutations : List Mutation} (h : accepts s mutations = true)
    {key : String} {first : Mutation} (hfirst : firstWrite mutations key = some first) :
    first.precondition.isValidFor (s.entries key) = true := by
  have hkey : first.key = key := by simpa using List.find?_some hfirst
  have hall := List.all_eq_true.mp h first (List.mem_of_find?_eq_some hfirst)
  rw [hkey, hfirst] at hall
  exact hall

theorem firstWrite_append (ms ms' : List Mutation) (key : String) :
    firstWrite (ms ++ ms') key = (firstWrite ms key).or (firstWrite ms' key) :=
  List.find?_append

theorem firstWrite_eq_none {ms : List Mutation} {key : String} :
    firstWrite ms key = none ↔ ∀ m ∈ ms, m.key ≠ key := by
  simp [firstWrite]

/-! ### Update blocks -/

/-- The calls an update block makes, up to its return (`done`) or its exception (`fail`). -/
inductive Block where
  | done
  | fail (e : DartError)
  | get (key : String) (next : Option Doc → Block)
  | set (key : String) (data : List (String × FieldData)) (next : Block)
  | update (key : String) (data : List (String × FieldData)) (next : Block)
  | delete (key : String) (next : Block)

/-- The next call of the block; `none` where it has returned. -/
def Block.step (s : Server) : Block → Transaction →
    Option (Except TransactionError (Transaction × Block))
  | .done, _ => none
  | .fail e, _ => some (.error (.block e))
  | .get key next, tx =>
      some ((tx.lookupDocument key (s.entries key)).map fun tx' => (tx', next (s.values key)))
  | .set key data next, tx => some (.ok (tx.setData key data, next))
  | .update key data next, tx => some (.ok (tx.updateData key data, next))
  | .delete key next, tx => some (.ok (tx.deleteDocument key, next))

/-- The whole block, with all its reads in the state `s`. -/
def Block.execute (s : Server) : Block → Transaction → Except TransactionError Transaction
  | .done, tx => .ok tx
  | .fail e, _ => .error (.block e)
  | .get key next, tx =>
      match tx.lookupDocument key (s.entries key) with
      | .ok tx' => (next (s.values key)).execute s tx'
      | .error e => .error e
  | .set key data next, tx => next.execute s (tx.setData key data)
  | .update key data next, tx => next.execute s (tx.updateData key data)
  | .delete key next, tx => next.execute s (tx.deleteDocument key)

/-- Run the block and commit it, with nothing in between. -/
def attempt (b : Block) (s : Server) : Except TransactionError Server :=
  match b.execute s {} with
  | .ok tx =>
      match tx.commitMutations with
      | .ok mutations => .ok (commit s mutations)
      | .error e => .error e
  | .error e => .error e

theorem mutations_of_lookup {tx tx' : Transaction} {key : String} {e : Option (ℕ × Doc)}
    (h : tx.lookupDocument key e = .ok tx') : tx'.mutations = tx.mutations := by
  unfold Transaction.lookupDocument at h
  split at h
  · unfold Transaction.recordVersionForDocument at h
    split at h
    · cases h
      rfl
    · cases h
  · cases h

/-! ### What an attempt knows -/

theorem readVersion?_cons_self (tx : Transaction) (key : String) (v : Option ℕ) :
    ({ tx with readVersions := (key, v) :: tx.readVersions } : Transaction).readVersion? key =
      some v := by
  simp [Transaction.readVersion?]

theorem readVersion?_cons_ne (tx : Transaction) {key key' : String} (h : key' ≠ key)
    (v : Option ℕ) :
    ({ tx with readVersions := (key, v) :: tx.readVersions } : Transaction).readVersion? key' =
      tx.readVersion? key' := by
  simp [Transaction.readVersion?, Ne.symm h]

/-- The commit of `tx` checks the version of the entry `e` that was read from `key`: the first write
of the document carries it, or will. -/
def Guards (tx : Transaction) (key : String) (e : Option (ℕ × Doc)) : Prop :=
  match firstWrite tx.mutations key with
  | some first => first.precondition = .updateTime (version e)
  | none => tx.readVersion? key = some (version e)

/-- Writes of one document, the first of them with the recorded version as its precondition, keep
what is guarded. -/
theorem Guards.write {tx : Transaction} {key : String} {e : Option (ℕ × Doc)} (h : Guards tx key e)
    {key' : String} {m : Mutation} {ms : List Mutation} (hkey : ∀ m' ∈ m :: ms, m'.key = key')
    (hpre : ∀ v, tx.readVersion? key' = some v → m.precondition = .updateTime v) :
    Guards (tx.writeMutations (m :: ms)) key e := by
  show match firstWrite (tx.mutations ++ m :: ms) key with
    | some first => first.precondition = .updateTime (version e)
    | none => tx.readVersion? key = some (version e)
  unfold Guards at h
  rw [firstWrite_append]
  cases hold : firstWrite tx.mutations key with
  | some first =>
    rw [hold] at h
    exact h
  | none =>
    rw [hold] at h
    by_cases hk : key' = key
    · have hfirst : firstWrite (m :: ms) key = some m := by
        have hm : m.key = key := (hkey m List.mem_cons_self).trans hk
        simp [firstWrite, hm]
      rw [hfirst]
      exact hpre (version e) (hk ▸ h)
    · have hfirst : firstWrite (m :: ms) key = none :=
        firstWrite_eq_none.mpr fun m' hm' hm => hk ((hkey m' hm').symm.trans hm)
      rw [hfirst]
      exact h

/-- What is recorded of a document that is already written does not matter. -/
theorem Guards.record {tx : Transaction} {key : String} {e : Option (ℕ × Doc)} (h : Guards tx key e)
    {key' : String} {v : Option ℕ} (hwritten : firstWrite tx.mutations key' ≠ none) :
    Guards { tx with readVersions := (key', v) :: tx.readVersions } key e := by
  unfold Guards at h ⊢
  by_cases hk : key = key'
  · subst hk
    cases hold : firstWrite tx.mutations key with
    | some first =>
      rw [hold] at h
      exact h
    | none => exact absurd hold hwritten
  · rw [readVersion?_cons_ne tx hk]
    exact h

/-- An attempt of the block `b` is at `rest` with the transaction object `tx`, and has read the
entries `observed`: their versions still tell whether they are current, the commit will check them,
and where they are all current the attempt is the one that reads now. -/
structure Watched (b : Block) (s : Server) (tx : Transaction) (rest : Block)
    (observed : List (String × Option (ℕ × Doc))) : Prop where
  seen : ∀ p ∈ observed, s.Seen p.1 p.2
  recorded : ∀ p ∈ observed, ∃ q ∈ tx.readVersions, q.1 = p.1
  guarded : ∀ p ∈ observed, Guards tx p.1 p.2
  replay : ∀ u : Server, (∀ p ∈ observed, u.entries p.1 = p.2) →
    b.execute u {} = rest.execute u tx

theorem watched_start (b : Block) (s : Server) : Watched b s {} b [] where
  seen := nofun
  recorded := nofun
  guarded := nofun
  replay := fun _ _ => rfl

variable {b rest rest' : Block} {s : Server} {tx tx' : Transaction}
  {observed : List (String × Option (ℕ × Doc))}

/-- Another client's commit leaves an attempt as it is. -/
theorem Watched.commit (h : Watched b s tx rest observed) (mutations : List Mutation) :
    Watched b (commit s mutations) tx rest observed where
  seen := fun p hp => (h.seen p hp).write _ _
  recorded := h.recorded
  guarded := h.guarded
  replay := h.replay

theorem watched_get {key : String} {next : Option Doc → Block}
    (h : Watched b s tx (.get key next) observed)
    (hl : tx.lookupDocument key (s.entries key) = .ok tx') :
    Watched b s tx' (next (s.values key)) ((key, s.entries key) :: observed) := by
  have hl' := hl
  -- nothing is written yet, and this document was not read before
  unfold Transaction.lookupDocument at hl
  split at hl
  · rename_i hempty
    unfold Transaction.recordVersionForDocument at hl
    split at hl
    · rename_i hnew
      cases hl
      have hmuts : tx.mutations = [] := List.isEmpty_iff.mp hempty
      constructor
      · intro p hp
        rcases List.mem_cons.mp hp with hp | hp
        · rw [hp]
          exact s.seen_self key
        · exact h.seen p hp
      · intro p hp
        rcases List.mem_cons.mp hp with hp | hp
        · rw [hp]
          exact ⟨_, List.mem_cons_self, rfl⟩
        · obtain ⟨q, hq, hqp⟩ := h.recorded p hp
          exact ⟨q, List.mem_cons_of_mem _ hq, hqp⟩
      · intro p hp
        unfold Guards
        rw [show firstWrite _ p.1 = none from firstWrite_eq_none.mpr (by simp [hmuts])]
        rcases List.mem_cons.mp hp with hp | hp
        · rw [hp]
          exact readVersion?_cons_self tx key _
        · have hold : tx.readVersion? p.1 = some (version p.2) := by
            have hg := h.guarded p hp
            unfold Guards at hg
            rwa [show firstWrite _ p.1 = none from firstWrite_eq_none.mpr (by simp [hmuts])] at hg
          have hne : p.1 ≠ key := by
            intro hk
            rw [hk, hnew] at hold
            cases hold
          exact (readVersion?_cons_ne tx hne _).trans hold
      · intro u hu
        have hkey : u.entries key = s.entries key := hu (key, s.entries key) List.mem_cons_self
        rw [h.replay u fun p hp => hu p (List.mem_cons_of_mem _ hp), Block.execute, hkey, hl',
          show u.values key = s.values key from congrArg value hkey]
    · cases hl
  · cases hl

theorem Watched.writeMutations {key : String} {m : Mutation} {ms : List Mutation}
    (h : Watched b s tx rest observed) (hkey : ∀ m' ∈ m :: ms, m'.key = key)
    (hpre : ∀ v, tx.readVersion? key = some v → m.precondition = .updateTime v)
    (hreplay : ∀ u, rest.execute u tx = rest'.execute u (tx.writeMutations (m :: ms))) :
    Watched b s (tx.writeMutations (m :: ms)) rest' observed where
  seen := h.seen
  recorded := h.recorded
  guarded := fun p hp => (h.guarded p hp).write hkey hpre
  replay := fun u hu => (h.replay u hu).trans (hreplay u)

theorem preconditionForDocumentKey_of_read {key : String} {v : Option ℕ}
    (h : tx.readVersion? key = some v) : tx.preconditionForDocumentKey key = .updateTime v := by
  simp only [Transaction.preconditionForDocumentKey, h]

theorem preconditionForUpdate_of_read {key : String} {v : Option ℕ} {p : Precondition}
    (h : tx.readVersion? key = some v)
    (hp : tx.preconditionForUpdateWithDocumentKey key = .ok p) : p = .updateTime v := by
  simp only [Transaction.preconditionForUpdateWithDocumentKey, h] at hp
  cases v with
  | none => exact nomatch hp
  | some n => exact (Except.ok.inj hp).symm

/-- What the next call of the block reads. -/
def Block.reads (s : Server) : Block → List (String × Option (ℕ × Doc))
  | .get key _ => [(key, s.entries key)]
  | _ => []

/-- Every call of the update block keeps what the attempt knows. -/
theorem watched_step (h : Watched b s tx rest observed)
    (hstep : rest.step s tx = some (.ok (tx', rest'))) :
    Watched b s tx' rest' (rest.reads s ++ observed) := by
  cases rest with
  | done => exact nomatch hstep
  | fail e => exact nomatch hstep
  | get key next =>
    cases hl : tx.lookupDocument key (s.entries key) with
    | error e => simp [Block.step, hl, Except.map] at hstep
    | ok tx₁ =>
      simp only [Block.step, hl, Except.map, Option.some.injEq, Except.ok.injEq,
        Prod.mk.injEq] at hstep
      obtain ⟨htx, hb⟩ := hstep
      subst htx hb
      exact watched_get h hl
  | set key data next =>
    cases hstep
    exact h.writeMutations (fun m hm => key_of_mem_setMutations hm)
      (fun v hv => preconditionForDocumentKey_of_read hv) fun u => rfl
  | update key data next =>
    cases hstep
    cases hp : tx.preconditionForUpdateWithDocumentKey key with
    | ok p =>
      have htx : tx.updateData key data = tx.writeMutations (updateMutations key data p) := by
        simp only [Transaction.updateData, hp]
      rw [htx]
      refine h.writeMutations (fun m hm => key_of_mem_updateMutations hm)
        (fun v hv => preconditionForUpdate_of_read hv hp) fun u => ?_
      rw [Block.execute, htx]
      rfl
    | error e =>
      have htx : tx.updateData key data = { tx with lastWriteError := some e } := by
        simp only [Transaction.updateData, hp]
      rw [htx]
      refine ⟨h.seen, h.recorded, h.guarded, fun u hu => (h.replay u hu).trans ?_⟩
      rw [Block.execute, htx]
  | delete key next =>
    cases hstep
    let m : Mutation := .delete key (tx.preconditionForDocumentKey key)
    have hkey : ∀ m' ∈ [m], m'.key = key := by
      intro m' hm'
      rw [List.mem_singleton.mp hm']
      rfl
    have hwritten : firstWrite (tx.mutations ++ [m]) key ≠ none := by
      intro hnone
      exact firstWrite_eq_none.mp hnone m (List.mem_append_right _ List.mem_cons_self) rfl
    refine ⟨h.seen, fun p hp => ?_, fun p hp => ?_, fun u hu => h.replay u hu⟩
    · obtain ⟨q, hq, hqp⟩ := h.recorded p hp
      exact ⟨q, List.mem_cons_of_mem _ hq, hqp⟩
    · have hg : Guards (tx.writeMutations [m]) p.1 p.2 :=
        (h.guarded p hp).write hkey fun v hv => preconditionForDocumentKey_of_read hv
      exact hg.record hwritten

/-- What a commit sends are the mutations of a transaction without a write error that wrote all it
read. -/
theorem commitMutations_ok {tx : Transaction} {mutations : List Mutation}
    (h : tx.commitMutations = .ok mutations) :
    tx.mutations = mutations ∧ ∀ q ∈ tx.readVersions, firstWrite mutations q.1 ≠ none := by
  unfold Transaction.commitMutations at h
  split at h
  · cases h
  · split at h
    · rename_i hall
      cases h
      refine ⟨rfl, fun q hq hnone => ?_⟩
      obtain ⟨m, hm, hmq⟩ := List.any_eq_true.mp (List.all_eq_true.mp hall q hq)
      exact firstWrite_eq_none.mp hnone m hm (by simpa using hmq)
    · cases h

/-- The commit checks every document that was read. -/
theorem Watched.first (h : Watched b s tx rest observed) {mutations : List Mutation}
    (hcommit : tx.commitMutations = .ok mutations) {p : String × Option (ℕ × Doc)}
    (hp : p ∈ observed) : ∃ first, firstWrite mutations p.1 = some first ∧
      first.precondition = .updateTime (version p.2) := by
  obtain ⟨hmuts, hwritten⟩ := commitMutations_ok hcommit
  obtain ⟨q, hq, hqp⟩ := h.recorded p hp
  have hg : Guards tx p.1 p.2 := h.guarded p hp
  unfold Guards at hg
  rw [hmuts] at hg
  cases hfirst : firstWrite mutations p.1 with
  | none => exact absurd hfirst (hqp ▸ hwritten q hq)
  | some first =>
    rw [hfirst] at hg
    exact ⟨first, rfl, hg⟩

/-- **Accepted means current.**  Where the server accepts the commit, everything that was read is
what the server holds, and the attempt is the one that reads and commits now. -/
theorem attempt_of_accepted (h : Watched b s tx .done observed) {mutations : List Mutation}
    (hcommit : tx.commitMutations = .ok mutations) (hacc : accepts s mutations = true) :
    attempt b s = .ok (commit s mutations) := by
  have hcurrent : ∀ p ∈ observed, s.entries p.1 = p.2 := by
    intro p hp
    obtain ⟨first, hfirst, hpre⟩ := h.first hcommit hp
    have hvalid : Precondition.isValidFor (.updateTime (version p.2)) (s.entries p.1) = true :=
      hpre ▸ valid_of_accepts hacc hfirst
    exact (h.seen p hp).eq_of_version (of_decide_eq_true hvalid)
  have hexec : b.execute s {} = .ok tx := h.replay s hcurrent
  simp only [attempt, hexec, hcommit]

end GiftGenie.Transactions
