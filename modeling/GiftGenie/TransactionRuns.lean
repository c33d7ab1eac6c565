import GiftGenie.Library.Machine
import GiftGenie.Transactions

/-!
# Transactions of many clients

`transactionWithRetries` runs an update block and commits it; when the commit does not succeed it
starts over with a new transaction object, five times at most.  Here any number of these calls run
at once: a step is one call of one update block, or one commit, in any order.

* A commit is refused, or accepted; the answer to an accepted one may be lost, and then the client
  starts over as if it had been refused.
* `transactions_serialise`: the server ends as if the accepted commits had been whole transactions,
  run one after the other.
* `count_commits`: how often each of them took effect.
-/

set_option autoImplicit false

namespace GiftGenie.TransactionRuns

open GiftGenie.Library GiftGenie.Firestore GiftGenie.Mutations GiftGenie.Transactions

variable {ι : Type} [DecidableEq ι]

/-- A call of `runTransaction`: an attempt with the retries that are left, or its completion with an
error or, for `none`, with success. -/
inductive Phase where
  | running (retries : ℕ) (transaction : Transaction) (rest : Block)
  | completed (error : Option TransactionError)

/-- The server, the calls, and the calls whose commits the server has accepted, in that order. -/
structure State (ι : Type) where
  server : Server
  phase : ι → Phase
  commits : List ι := []

/-- What becomes of a commit. -/
inductive Outcome where
  | accepted
  | lost
  | refused
  deriving DecidableEq, Repr

inductive Event (ι : Type) where
  /-- The update block makes its next call. -/
  | call (i : ι)
  /-- The server does not answer the lookup the update block is at. -/
  | lookupFails (i : ι)
  /-- The update block has returned, and what it did cannot be committed. -/
  | cannotCommit (i : ι)
  /-- The update block has returned, and its commit reaches the server. -/
  | commit (i : ι) (outcome : Outcome)
  deriving DecidableEq, Repr

def State.setPhase (s : State ι) (i : ι) (p : Phase) : State ι :=
  { s with phase := Function.update s.phase i p }

/-- The commit of `i` takes effect. -/
def State.accept (s : State ι) (i : ι) (mutations : List Mutation) (p : Phase) : State ι where
  server := Transactions.commit s.server mutations
  phase := Function.update s.phase i p
  commits := s.commits ++ [i]

/-- After a commit without success. -/
def retry (block : Block) (e : TransactionError) : ℕ → Phase
  | 0 => .completed (some (.failedAllRetries e))
  | n + 1 => .running n {} block

variable (blocks : ι → Block)

def step (s : State ι) : Event ι → Option (State ι)
  | .call i =>
      match s.phase i with
      | .running retries tx rest =>
          match rest.step s.server tx with
          | some (.ok (tx', rest')) => some (s.setPhase i (.running retries tx' rest'))
          | some (.error e) => some (s.setPhase i (.completed (some e)))
          | none => none
      | .completed _ => none
  | .lookupFails i =>
      match s.phase i with
      | .running _ tx (.get _ _) =>
          if tx.mutations.isEmpty then some (s.setPhase i (.completed (some .lookupFailed)))
          else none
      | _ => none
  | .cannotCommit i =>
      match s.phase i with
      | .running retries tx .done =>
          match tx.commitMutations with
          | .error e => some (s.setPhase i (retry (blocks i) e retries))
          | .ok _ => none
      | _ => none
  | .commit i outcome =>
      match s.phase i with
      | .running retries tx .done =>
          match tx.commitMutations, outcome with
          | .ok mutations, .accepted =>
              if accepts s.server mutations then some (s.accept i mutations (.completed none))
              else none
          | .ok mutations, .lost =>
              if accepts s.server mutations then
                some (s.accept i mutations (retry (blocks i) .commitFailed retries))
              else none
          | .ok _, .refused => some (s.setPhase i (retry (blocks i) .commitFailed retries))
          | .error _, _ => none
      | _ => none

/-- `transactionWithRetries:5` for every call. -/
def initial (server : Server) : State ι where
  server := server
  phase i := .running 5 {} (blocks i)

/-- A whole transaction, run and committed at once. -/
def serially (i : ι) : Server → Bool × Server := SerialHistory.atomically true (attempt (blocks i))

variable {blocks}

/-! ### What a step can do -/

/-- The phases that a step may lead a call to without the server: its next call, or the end, or a
new attempt. -/
inductive Moves (blocks : ι → Block) (server : Server) (i : ι) : Phase → Event ι → Phase → Prop where
  | call {retries tx rest tx' rest'} (h : rest.step server tx = some (.ok (tx', rest'))) :
      Moves blocks server i (.running retries tx rest) (.call i) (.running retries tx' rest')
  | throws {retries tx rest e} (h : rest.step server tx = some (.error e)) :
      Moves blocks server i (.running retries tx rest) (.call i) (.completed (some e))
  | lookupFails {retries tx key next} :
      Moves blocks server i (.running retries tx (.get key next)) (.lookupFails i)
        (.completed (some .lookupFailed))
  | cannotCommit {retries tx e} (h : tx.commitMutations = .error e) :
      Moves blocks server i (.running retries tx .done) (.cannotCommit i)
        (retry (blocks i) e retries)
  | refused {retries tx mutations} (h : tx.commitMutations = .ok mutations) :
      Moves blocks server i (.running retries tx .done) (.commit i .refused)
        (retry (blocks i) .commitFailed retries)

/-- The phase after an accepted commit. -/
def afterAccept (block : Block) (retries : ℕ) (heard : Bool) : Phase :=
  if heard then .completed none else retry block .commitFailed retries

/-- A step moves one call, or commits one. -/
theorem step_cases {s t : State ι} {e : Event ι} (h : step blocks s e = some t) :
    (∃ i p, Moves blocks s.server i (s.phase i) e p ∧ t = s.setPhase i p) ∨
      ∃ i retries tx mutations heard, s.phase i = .running retries tx .done ∧
        tx.commitMutations = .ok mutations ∧ accepts s.server mutations = true ∧
        e = .commit i (if heard then .accepted else .lost) ∧
        t = s.accept i mutations (afterAccept (blocks i) retries heard) := by
  cases e with
  | call i =>
    simp only [step] at h
    split at h
    · rename_i retries tx rest hphase
      split at h
      · rename_i tx' rest' hstep
        cases h
        exact Or.inl ⟨i, _, hphase ▸ Moves.call hstep, rfl⟩
      · rename_i err hstep
        cases h
        exact Or.inl ⟨i, _, hphase ▸ Moves.throws hstep, rfl⟩
      · cases h
    · cases h
  | lookupFails i =>
    simp only [step] at h
    split at h
    · rename_i retries tx key next hphase
      split at h
      · cases h
        exact Or.inl ⟨i, _, hphase ▸ Moves.lookupFails, rfl⟩
      · cases h
    · cases h
  | cannotCommit i =>
    simp only [step] at h
    split at h
    · rename_i retries tx hphase
      split at h
      · rename_i err hcommit
        cases h
        exact Or.inl ⟨i, _, hphase ▸ Moves.cannotCommit hcommit, rfl⟩
      · cases h
    · cases h
  | commit i outcome =>
    simp only [step] at h
    split at h
    · rename_i retries tx hphase
      split at h
      · rename_i mutations hcommit
        split at h
        · rename_i hacc
          cases h
          exact Or.inr ⟨i, retries, tx, mutations, true, hphase, hcommit, hacc, rfl, rfl⟩
        · cases h
      · rename_i mutations hcommit
        split at h
        · rename_i hacc
          cases h
          exact Or.inr ⟨i, retries, tx, mutations, false, hphase, hcommit, hacc, rfl, rfl⟩
        · cases h
      · rename_i mutations hcommit
        cases h
        exact Or.inl ⟨i, _, hphase ▸ Moves.refused hcommit, rfl⟩
      · cases h
    · cases h

@[simp] theorem phase_setPhase_self (s : State ι) (i : ι) (p : Phase) :
    (s.setPhase i p).phase i = p := Function.update_self ..

theorem phase_setPhase_ne {s : State ι} {i j : ι} {p : Phase} (h : j ≠ i) :
    (s.setPhase i p).phase j = s.phase j := Function.update_of_ne h ..

@[simp] theorem phase_accept_self (s : State ι) (i : ι) (mutations : List Mutation) (p : Phase) :
    (s.accept i mutations p).phase i = p := Function.update_self ..

theorem phase_accept_ne {s : State ι} {i j : ι} {mutations : List Mutation} {p : Phase}
    (h : j ≠ i) : (s.accept i mutations p).phase j = s.phase j := Function.update_of_ne h ..

/-! ### Serialisability -/

/-- What a call knows of the server. -/
def PhaseWatched (block : Block) (server : Server) : Phase → Prop
  | .running _ tx rest => ∃ observed, Watched block server tx rest observed
  | .completed _ => True

theorem phaseWatched_retry (block : Block) (server : Server) (e : TransactionError) (retries : ℕ) :
    PhaseWatched block server (retry block e retries) := by
  cases retries with
  | zero => trivial
  | succ n => exact ⟨[], watched_start block server⟩

theorem phaseWatched_afterAccept (block : Block) (server : Server) (retries : ℕ) (heard : Bool) :
    PhaseWatched block server (afterAccept block retries heard) := by
  cases heard with
  | true => trivial
  | false => exact phaseWatched_retry block server _ retries

omit [DecidableEq ι] in
theorem phaseWatched_moves {server : Server} {i : ι} {p p' : Phase} {e : Event ι}
    (h : Moves blocks server i p e p') (hp : PhaseWatched (blocks i) server p) :
    PhaseWatched (blocks i) server p' := by
  cases h with
  | call hstep =>
    obtain ⟨observed, hw⟩ := hp
    exact ⟨_, watched_step hw hstep⟩
  | throws _ => trivial
  | lookupFails => trivial
  | cannotCommit _ => exact phaseWatched_retry _ _ _ _
  | refused _ => exact phaseWatched_retry _ _ _ _

theorem phaseWatched_commit {block : Block} {server : Server} {p : Phase}
    (mutations : List Mutation) (h : PhaseWatched block server p) :
    PhaseWatched block (Transactions.commit server mutations) p := by
  cases p with
  | running retries tx rest =>
    obtain ⟨observed, hw⟩ := h
    exact ⟨observed, hw.commit mutations⟩
  | completed e => trivial

/-- The server is where the committed transactions, run one after the other, have led it. -/
structure Serial (blocks : ι → Block) (start : Server) (s : State ι) : Prop where
  server : s.server = SerialHistory.final (serially blocks) s.commits start
  succeed : ∀ a ∈ SerialHistory.answers (serially blocks) s.commits start, a.2 = true
  watched : ∀ i, PhaseWatched (blocks i) s.server (s.phase i)

omit [DecidableEq ι] in
theorem serial_initial (blocks : ι → Block) (server : Server) :
    Serial blocks server (initial blocks server) where
  server := rfl
  succeed := nofun
  watched i := ⟨[], watched_start (blocks i) server⟩

theorem serial_step {start : Server} (s : State ι) (e : Event ι) (t : State ι)
    (h : Serial blocks start s) (hstep : step blocks s e = some t) : Serial blocks start t := by
  obtain ⟨i, p, hmoves, ht⟩ | ⟨i, retries, tx, mutations, heard, hphase, hcommit, hacc, -, ht⟩ :=
    step_cases hstep
  · subst ht
    refine ⟨h.server, h.succeed, fun j => ?_⟩
    by_cases hj : j = i
    · subst hj
      rw [phase_setPhase_self]
      exact phaseWatched_moves hmoves (h.watched j)
    · rw [phase_setPhase_ne hj]
      exact h.watched j
  · subst ht
    -- the accepted commit is the whole transaction, run now
    have hnow : serially blocks i s.server = (true, Transactions.commit s.server mutations) := by
      have hw := h.watched i
      rw [hphase] at hw
      obtain ⟨observed, hw⟩ := hw
      exact SerialHistory.atomically_ok (attempt_of_accepted hw hcommit hacc)
    refine ⟨?_, fun a ha => ?_, fun j => ?_⟩
    · show Transactions.commit s.server mutations = SerialHistory.final _ (s.commits ++ [i]) start
      rw [SerialHistory.final_append, ← h.server]
      exact (congrArg Prod.snd hnow).symm
    · rw [show (s.accept i mutations _).commits = s.commits ++ [i] from rfl,
        SerialHistory.answers_append, ← h.server] at ha
      rcases List.mem_append.mp ha with ha | ha
      · exact h.succeed a ha
      · rw [List.mem_singleton.mp ha]
        exact congrArg Prod.fst hnow
    · by_cases hj : j = i
      · subst hj
        rw [phase_accept_self]
        exact phaseWatched_afterAccept _ _ _ _
      · rw [phase_accept_ne hj]
        exact phaseWatched_commit mutations (h.watched j)

/-- **Serialisability.**  However the calls of any number of clients interleave, and whatever answers
are lost, the server ends as if the accepted commits had been whole transactions, each run at one
time in the order of the commits, and each of these succeeds. -/
theorem transactions_serialise (blocks : ι → Block) (server : Server) (es : List (Event ι))
    (t : State ι) (hrun : Machine.run (step blocks) (initial blocks server) es = some t) :
    t.server = SerialHistory.final (serially blocks) t.commits server ∧
      ∀ a ∈ SerialHistory.answers (serially blocks) t.commits server, a.2 = true := by
  have h := Machine.run_invariant serial_step es _ t (serial_initial blocks server) hrun
  exact ⟨h.server, h.succeed⟩

/-- Two calls that read the same entry: the second commit is refused, and its next attempt reads what
the first one wrote. -/
theorem transactions_serialise_conflict :
    let blocks : Bool → Block := fun _ =>
      .get "u" fun d => .set "u" [("seen", .value (if d.isSome then .str "other" else .null))] .done
    ∃ t, Machine.run (step blocks) (initial blocks ⟨fun _ => none, 0, nofun⟩)
        [.call true, .call false, .call true, .call false, .commit false .accepted,
          .commit true .refused, .call true, .call true, .commit true .accepted] = some t ∧
      t.commits = [false, true] ∧
      t.server = SerialHistory.final (serially blocks) t.commits ⟨fun _ => none, 0, nofun⟩ := by
  intro blocks
  obtain ⟨t, hrun, hcommits⟩ : ∃ t, Machine.run (step blocks)
      (initial blocks ⟨fun _ => none, 0, nofun⟩)
      [.call true, .call false, .call true, .call false, .commit false .accepted,
        .commit true .refused, .call true, .call true, .commit true .accepted] = some t ∧
      t.commits = [false, true] := ⟨_, rfl, rfl⟩
  exact ⟨t, hrun, hcommits, (transactions_serialise blocks _ _ t hrun).1⟩

/-! ### How often a call takes effect -/

def Phase.succeeded : Phase → Bool
  | .completed none => true
  | _ => false

theorem completed_of_succeeded {p : Phase} (h : p.succeeded = true) : p = .completed none := by
  cases p with
  | running retries tx rest => cases h
  | completed error =>
    cases error with
    | none => rfl
    | some e => cases h

/-- The events that end an attempt. -/
def Event.endsAttempt (i : ι) : Event ι → Bool
  | .cannotCommit j => j = i
  | .commit j _ => j = i
  | _ => false

omit [DecidableEq ι] in
theorem not_succeeded_retry (block : Block) (e : TransactionError) (retries : ℕ) :
    (retry block e retries).succeeded = false := by
  cases retries <;> rfl

omit [DecidableEq ι] in
/-- Without a commit no call succeeds. -/
theorem not_succeeded_moves {server : Server} {i : ι} {p p' : Phase} {e : Event ι}
    (h : Moves blocks server i p e p') : p.succeeded = false ∧ p'.succeeded = false := by
  cases h with
  | call _ => exact ⟨rfl, rfl⟩
  | throws _ => exact ⟨rfl, rfl⟩
  | lookupFails => exact ⟨rfl, rfl⟩
  | cannotCommit _ => exact ⟨rfl, not_succeeded_retry _ _ _⟩
  | refused _ => exact ⟨rfl, not_succeeded_retry _ _ _⟩

omit [DecidableEq ι] in
/-- Only a commit loses an answer. -/
theorem not_lost_moves {server : Server} {i j : ι} {p p' : Phase} {e : Event ι}
    (h : Moves blocks server j p e p') : e ≠ .commit i .lost := by
  cases h <;> nofun

/-- What one step adds to the commits of a call. -/
theorem count_commits_step {s t : State ι} {e : Event ι} (i : ι)
    (h : step blocks s e = some t) :
    t.commits.count i + (s.phase i).succeeded.toNat =
      s.commits.count i + [e].count (.commit i .lost) + (t.phase i).succeeded.toNat := by
  obtain ⟨j, p, hmoves, ht⟩ | ⟨j, retries, tx, mutations, heard, hphase, -, -, he, ht⟩ :=
    step_cases h
  · subst ht
    have hcount : [e].count (.commit i .lost) = 0 :=
      List.count_eq_zero_of_not_mem fun hmem =>
        not_lost_moves hmoves (List.mem_singleton.mp hmem).symm
    have hsucc := not_succeeded_moves hmoves
    rw [hcount]
    by_cases hj : i = j
    · subst hj
      rw [phase_setPhase_self, hsucc.1, hsucc.2]
      rfl
    · rw [phase_setPhase_ne hj]
      rfl
  · subst ht he
    rw [show (s.accept j mutations _).commits = s.commits ++ [j] from rfl, List.count_append]
    by_cases hj : i = j
    · subst hj
      rw [phase_accept_self, hphase]
      cases heard with
      | true => simp [afterAccept, Phase.succeeded]
      | false =>
        rw [show afterAccept (blocks i) retries false = retry (blocks i) .commitFailed retries
          from rfl, not_succeeded_retry]
        simp [Phase.succeeded]
    · rw [phase_accept_ne hj]
      have hne : j ≠ i := fun hji => hj hji.symm
      cases heard <;> simp [hne]

theorem count_commits_run (i : ι) : ∀ (es : List (Event ι)) (s t : State ι),
    Machine.run (step blocks) s es = some t →
      t.commits.count i + (s.phase i).succeeded.toNat =
        s.commits.count i + es.count (.commit i .lost) + (t.phase i).succeeded.toNat := by
  intro es
  induction es with
  | nil =>
    intro s t hrun
    cases hrun
    rfl
  | cons e es ih =>
    intro s t hrun
    obtain ⟨s', he, hrest⟩ := Machine.run_cons.mp hrun
    have hfirst := count_commits_step i he
    have hrest' := ih s' t hrest
    rw [show e :: es = [e] ++ es from rfl, List.count_append]
    omega

/-- The retries that are left and the attempts that have ended. -/
def Spent (attempts : ℕ) : Phase → Prop
  | .running retries _ _ => attempts + retries = 5
  | .completed _ => attempts ≤ 6

theorem spent_retry {attempts retries : ℕ} (block : Block) (e : TransactionError)
    (h : attempts + retries = 5) : Spent (attempts + 1) (retry block e retries) := by
  cases retries with
  | zero => exact Nat.le_of_eq (congrArg (· + 1) h)
  | succ n =>
    show attempts + 1 + n = 5
    omega

omit [DecidableEq ι] in
theorem Spent.le {attempts : ℕ} {p : Phase} (h : Spent attempts p) : attempts ≤ 6 := by
  cases p with
  | running retries tx rest =>
    have hsum : attempts + retries = 5 := h
    omega
  | completed e => exact h

theorem spent_moves {server : Server} {i : ι} {p p' : Phase} {e : Event ι} {attempts : ℕ}
    (hmoves : Moves blocks server i p e p') (h : Spent attempts p) :
    Spent (attempts + [e].countP (Event.endsAttempt i)) p' := by
  cases hmoves with
  | call _ => exact h
  | throws _ => exact h.le
  | lookupFails => exact h.le
  | cannotCommit _ =>
    rw [show [Event.cannotCommit i].countP (Event.endsAttempt i) = 1 by simp [Event.endsAttempt]]
    exact spent_retry _ _ h
  | refused _ =>
    rw [show [Event.commit i .refused].countP (Event.endsAttempt i) = 1 by
      simp [Event.endsAttempt]]
    exact spent_retry _ _ h

/-- An event of another call ends no attempt of `i`. -/
theorem countP_endsAttempt_moves {server : Server} {i j : ι} {p p' : Phase} {e : Event ι}
    (hmoves : Moves blocks server j p e p') (hj : i ≠ j) :
    [e].countP (Event.endsAttempt i) = 0 := by
  have hne : j ≠ i := hj.symm
  cases hmoves <;> simp [Event.endsAttempt, hne]

theorem spent_step {s t : State ι} {e : Event ι} (i : ι) {attempts : ℕ}
    (hspent : Spent attempts (s.phase i)) (h : step blocks s e = some t) :
    Spent (attempts + [e].countP (Event.endsAttempt i)) (t.phase i) := by
  obtain ⟨j, p, hmoves, ht⟩ | ⟨j, retries, tx, mutations, heard, hphase, -, -, he, ht⟩ :=
    step_cases h
  · subst ht
    by_cases hj : i = j
    · subst hj
      rw [phase_setPhase_self]
      exact spent_moves hmoves hspent
    · rw [phase_setPhase_ne hj, countP_endsAttempt_moves hmoves hj]
      exact hspent
  · subst ht he
    by_cases hj : i = j
    · subst hj
      rw [hphase] at hspent
      rw [phase_accept_self,
        show [Event.commit i _].countP (Event.endsAttempt i) = 1 by simp [Event.endsAttempt]]
      cases heard with
      | true => exact Nat.succ_le_succ (Nat.le.intro hspent)
      | false => exact spent_retry _ _ hspent
    · have hne : j ≠ i := fun hji => hj hji.symm
      rw [phase_accept_ne hj,
        show [Event.commit j _].countP (Event.endsAttempt i) = 0 by simp [Event.endsAttempt, hne]]
      exact hspent

theorem spent_run (i : ι) : ∀ (es : List (Event ι)) (s t : State ι) (attempts : ℕ),
    Spent attempts (s.phase i) → Machine.run (step blocks) s es = some t →
      Spent (attempts + es.countP (Event.endsAttempt i)) (t.phase i) := by
  intro es
  induction es with
  | nil =>
    intro s t attempts hspent hrun
    cases hrun
    exact hspent
  | cons e es ih =>
    intro s t attempts hspent hrun
    obtain ⟨s', he, hrest⟩ := Machine.run_cons.mp hrun
    have hall := ih s' t _ (spent_step i hspent he) hrest
    rw [show e :: es = [e] ++ es from rfl, List.countP_append, ← Nat.add_assoc]
    exact hall

/-- **At most six attempts, and no effect without a commit.**  A call takes effect once for every
answer to its commits that is lost, and once more if it completes with success; all of this within
six attempts. -/
theorem count_commits (blocks : ι → Block) (server : Server) (es : List (Event ι)) (t : State ι)
    (hrun : Machine.run (step blocks) (initial blocks server) es = some t) (i : ι) :
    t.commits.count i = es.count (.commit i .lost) + (t.phase i).succeeded.toNat ∧
      es.countP (Event.endsAttempt i) ≤ 6 := by
  constructor
  · have h := count_commits_run i es _ t hrun
    simpa [initial, Phase.succeeded] using h
  · have h : Spent (0 + es.countP (Event.endsAttempt i)) (t.phase i) :=
      spent_run i es (initial blocks server) t 0 rfl hrun
    have hle := h.le
    omega

/-- A commit whose answer is lost takes effect a second time. -/
theorem count_commits_lost :
    let blocks : Unit → Block := fun _ => .set "u" [("n", .value .null)] .done
    ∃ t, Machine.run (step blocks) (initial blocks ⟨fun _ => none, 0, nofun⟩)
        [.call (), .commit () .lost, .call (), .commit () .accepted] = some t ∧
      t.commits.count () = 2 ∧
      t.commits.count () = 1 + (t.phase ()).succeeded.toNat := by
  intro blocks
  obtain ⟨t, hrun, hcommits⟩ : ∃ t, Machine.run (step blocks)
      (initial blocks ⟨fun _ => none, 0, nofun⟩)
      [.call (), .commit () .lost, .call (), .commit () .accepted] = some t ∧
      t.commits = [(), ()] := ⟨_, rfl, rfl⟩
  have h := (count_commits blocks _ _ t hrun ()).1
  exact ⟨t, hrun, congrArg (List.count ()) hcommits, h⟩

/-! ### Calls end -/

/-- The call that takes the step. -/
def Event.owner : Event ι → ι
  | .call i => i
  | .lookupFails i => i
  | .cannotCommit i => i
  | .commit i _ => i

omit [DecidableEq ι] in
theorem owner_moves {server : Server} {j : ι} {p p' : Phase} {e : Event ι}
    (h : Moves blocks server j p e p') : e.owner = j := by
  cases h <;> rfl

/-- The block returns or throws within `n` calls, whatever it reads. -/
def Within : Block → ℕ → Prop
  | .done, _ => True
  | .fail _, n => 0 < n
  | .get _ next, n => 0 < n ∧ ∀ doc, Within (next doc) (n - 1)
  | .set _ _ next, n => 0 < n ∧ Within next (n - 1)
  | .update _ _ next, n => 0 < n ∧ Within next (n - 1)
  | .delete _ next, n => 0 < n ∧ Within next (n - 1)

theorem within_step {s : Server} {b b' : Block} {tx tx' : Transaction} {n : ℕ} (h : Within b n)
    (hstep : b.step s tx = some (.ok (tx', b'))) : 0 < n ∧ Within b' (n - 1) := by
  cases b with
  | done => exact nomatch hstep
  | fail e => exact nomatch hstep
  | get key next =>
    cases hl : tx.lookupDocument key (s.entries key) with
    | error e => simp [Block.step, hl, Except.map] at hstep
    | ok tx₁ =>
      simp only [Block.step, hl, Except.map, Option.some.injEq, Except.ok.injEq,
        Prod.mk.injEq] at hstep
      rw [← hstep.2]
      exact ⟨h.1, h.2 _⟩
  | set key data next => cases hstep; exact h
  | update key data next => cases hstep; exact h
  | delete key next => cases hstep; exact h

/-- A call has at most `k` steps left: those of this attempt, and `n + 1` for each retry. -/
def StepsLeft (n k : ℕ) : Phase → Prop
  | .running retries _ rest => ∃ m, Within rest m ∧ retries * (n + 1) + m + 1 ≤ k
  | .completed _ => True

theorem stepsLeft_retry {block : Block} {n k m retries : ℕ} (hb : Within block n)
    (e : TransactionError) (h : retries * (n + 1) + m + 1 ≤ k) :
    StepsLeft n (k - 1) (retry block e retries) := by
  cases retries with
  | zero => trivial
  | succ r =>
    refine ⟨n, hb, ?_⟩
    rw [Nat.succ_mul] at h
    omega

omit [DecidableEq ι] in
theorem stepsLeft_moves {server : Server} {i : ι} {p p' : Phase} {e : Event ι} {n k : ℕ}
    (hb : Within (blocks i) n) (hmoves : Moves blocks server i p e p') (h : StepsLeft n k p) :
    1 ≤ k ∧ StepsLeft n (k - 1) p' := by
  cases hmoves with
  | call hstep =>
    obtain ⟨m, hm, hk⟩ := h
    obtain ⟨hpos, hm'⟩ := within_step hm hstep
    exact ⟨by omega, m - 1, hm', by omega⟩
  | throws _ =>
    obtain ⟨m, -, hk⟩ := h
    exact ⟨by omega, trivial⟩
  | lookupFails =>
    obtain ⟨m, -, hk⟩ := h
    exact ⟨by omega, trivial⟩
  | cannotCommit _ =>
    obtain ⟨m, -, hk⟩ := h
    exact ⟨by omega, stepsLeft_retry hb _ hk⟩
  | refused _ =>
    obtain ⟨m, -, hk⟩ := h
    exact ⟨by omega, stepsLeft_retry hb _ hk⟩

/-- Every step of a call is one of those it has left; the steps of others are not. -/
theorem stepsLeft_step {s t : State ι} {e : Event ι} {i : ι} {n k : ℕ} (hb : Within (blocks i) n)
    (h : StepsLeft n k (s.phase i)) (hstep : step blocks s e = some t) :
    (e.owner = i ∧ 1 ≤ k ∧ StepsLeft n (k - 1) (t.phase i)) ∨
      e.owner ≠ i ∧ StepsLeft n k (t.phase i) := by
  obtain ⟨j, p, hmoves, ht⟩ | ⟨j, retries, tx, mutations, heard, hphase, -, -, he, ht⟩ :=
    step_cases hstep
  · subst ht
    by_cases hj : i = j
    · subst hj
      rw [phase_setPhase_self]
      exact Or.inl ⟨owner_moves hmoves, stepsLeft_moves hb hmoves h⟩
    · rw [phase_setPhase_ne hj]
      exact Or.inr ⟨fun hi => hj (hi.symm.trans (owner_moves hmoves)), h⟩
  · subst ht he
    by_cases hj : i = j
    · subst hj
      rw [hphase] at h
      obtain ⟨m, -, hk⟩ := h
      rw [phase_accept_self]
      refine Or.inl ⟨rfl, by omega, ?_⟩
      cases heard with
      | true => trivial
      | false => exact stepsLeft_retry hb _ hk
    · rw [phase_accept_ne hj]
      exact Or.inr ⟨fun hi => hj hi.symm, h⟩

theorem stepsLeft_run {i : ι} {n : ℕ} (hb : Within (blocks i) n) :
    ∀ (es : List (Event ι)) (s t : State ι) (k : ℕ), StepsLeft n k (s.phase i) →
      Machine.run (step blocks) s es = some t → es.countP (fun e => e.owner = i) ≤ k := by
  intro es
  induction es with
  | nil => intro s t k _ _; exact Nat.zero_le k
  | cons e es ih =>
    intro s t k h hrun
    obtain ⟨s', he, hrest⟩ := Machine.run_cons.mp hrun
    rw [List.countP_cons]
    obtain ⟨howner, hk, hleft⟩ | ⟨howner, hleft⟩ := stepsLeft_step hb h he
    · have hall := ih s' t _ hleft hrest
      simp only [howner, decide_true, if_true]
      omega
    · have hall := ih s' t _ hleft hrest
      simpa [howner] using hall

/-- A call that is not completed has a step that it can take. -/
theorem exists_step (blocks : ι → Block) (s : State ι) (i : ι) :
    (∃ e, s.phase i = .completed e) ∨ ∃ e t, Event.owner e = i ∧ step blocks s e = some t := by
  cases hphase : s.phase i with
  | completed e => exact Or.inl ⟨e, rfl⟩
  | running retries tx rest =>
    right
    cases hrest : rest.step s.server tx with
    | some r =>
      cases r with
      | ok p => exact ⟨.call i, _, rfl, by simp only [step, hphase, hrest]; rfl⟩
      | error e => exact ⟨.call i, _, rfl, by simp only [step, hphase, hrest]; rfl⟩
    | none =>
      cases rest with
      | done =>
        cases hcommit : tx.commitMutations with
        | ok mutations => exact ⟨.commit i .refused, _, rfl, by simp only [step, hphase, hcommit]; rfl⟩
        | error e => exact ⟨.cannotCommit i, _, rfl, by simp only [step, hphase, hcommit]; rfl⟩
      | fail e => exact nomatch hrest
      | get key next => exact nomatch hrest
      | set key data next => exact nomatch hrest
      | update key data next => exact nomatch hrest
      | delete key next => exact nomatch hrest

end GiftGenie.TransactionRuns
