import GiftGenie.TransactionRuns

/-!
# Transactions that compete

A commit that the server refuses costs the call one of its six attempts.  Where the server refuses a
commit only because the document it writes is not the one that was read, somebody else must have
committed in between: `refused_le` counts, for a call that writes only what it has read, no more
refusals than commits of the other calls.  `six_of_failed` is what this means for the six attempts:
fewer than six commits of others cannot make a call fail whose block always succeeds.
-/

set_option autoImplicit false

namespace GiftGenie.TransactionContention

open GiftGenie.Library GiftGenie.Firestore GiftGenie.Mutations GiftGenie.Transactions
  GiftGenie.TransactionRuns

/-- The block writes only the documents `keys` and those it reads before. -/
def WritesRead : List String → Block → Prop
  | _, .done => True
  | _, .fail _ => True
  | keys, .get key next => ∀ doc, WritesRead (key :: keys) (next doc)
  | keys, .set key _ next => key ∈ keys ∧ WritesRead keys next
  | keys, .update key _ next => key ∈ keys ∧ WritesRead keys next
  | keys, .delete key next => key ∈ keys ∧ WritesRead keys next

/-- The mutations so far write only what was read. -/
def Covered (tx : Transaction) (observed : List (String × Option (ℕ × Doc))) : Prop :=
  ∀ m ∈ tx.mutations, ∃ p ∈ observed, p.1 = m.key

variable {b rest rest' : Block} {s : Server} {tx tx' : Transaction}
  {observed : List (String × Option (ℕ × Doc))}

theorem Covered.write (h : Covered tx observed) {key : String} (hkey : key ∈ observed.map Prod.fst)
    {ms : List Mutation} (hms : ∀ m ∈ ms, m.key = key) : Covered (tx.writeMutations ms) observed := by
  intro m hm
  rcases List.mem_append.mp hm with hm | hm
  · exact h m hm
  · obtain ⟨p, hp, hpkey⟩ := List.mem_map.mp hkey
    exact ⟨p, hp, hpkey.trans (hms m hm).symm⟩

theorem covered_step (h : Covered tx observed) (hrest : WritesRead (observed.map Prod.fst) rest)
    (hstep : rest.step s tx = some (.ok (tx', rest'))) :
    Covered tx' (rest.reads s ++ observed) ∧
      WritesRead ((rest.reads s ++ observed).map Prod.fst) rest' := by
  cases rest with
  | done => exact nomatch hstep
  | fail e => exact nomatch hstep
  | get key next =>
    cases hl : tx.lookupDocument key (s.entries key) with
    | error e => simp [Block.step, hl, Except.map] at hstep
    | ok tx₁ =>
      simp only [Block.step, hl, Except.map, Option.some.injEq, Except.ok.injEq,
        Prod.mk.injEq] at hstep
      obtain ⟨htx, hb⟩ := hstep
      subst htx hb
      refine ⟨fun m hm => ?_, hrest _⟩
      -- a lookup is made before any write
      have hnone : tx₁.mutations = tx.mutations := mutations_of_lookup hl
      obtain ⟨p, hp, hpkey⟩ := h m (hnone ▸ hm)
      exact ⟨p, List.mem_append_right _ hp, hpkey⟩
  | set key data next =>
    cases hstep
    exact ⟨h.write hrest.1 fun m hm => key_of_mem_setMutations hm, hrest.2⟩
  | update key data next =>
    cases hstep
    refine ⟨?_, hrest.2⟩
    unfold Transaction.updateData
    split
    · exact h.write hrest.1 fun m hm => key_of_mem_updateMutations hm
    · exact h
  | delete key next =>
    cases hstep
    refine ⟨fun m hm => h.write hrest.1 (fun m hm => ?_) m hm, hrest.2⟩
    rw [List.mem_singleton.mp hm]
    rfl

/-- Where everything that was read is current, the commit is accepted. -/
theorem accepts_of_current (h : Watched b s tx rest observed) (hcov : Covered tx observed)
    {mutations : List Mutation} (hcommit : tx.commitMutations = .ok mutations)
    (hcurrent : ∀ p ∈ observed, s.entries p.1 = p.2) : accepts s mutations = true := by
  refine List.all_eq_true.mpr fun m hm => ?_
  obtain ⟨p, hp, hpkey⟩ := hcov m ((commitMutations_ok hcommit).1 ▸ hm)
  obtain ⟨first, hfirst, hpre⟩ := h.first hcommit hp
  rw [← hpkey, hfirst]
  show first.precondition.isValidFor (s.entries p.1) = true
  rw [hpre, hcurrent p hp]
  exact decide_eq_true rfl

/-! ### The race -/

/-- An attempt of a call that was refused `refused` times, with `commits` commits of the others so
far.  If none of them came since the attempt began, everything it has read is current. -/
def Racing (b : Block) (s : Server) (tx : Transaction) (rest : Block) (refused commits : ℕ) : Prop :=
  ∃ observed start, Watched b s tx rest observed ∧ Covered tx observed ∧
    WritesRead (observed.map Prod.fst) rest ∧ refused ≤ start ∧ start ≤ commits ∧
    (start = commits → ∀ p ∈ observed, s.entries p.1 = p.2)

variable {refused commits : ℕ}

theorem racing_start (hb : WritesRead [] b) (s : Server) (h : refused ≤ commits) :
    Racing b s {} b refused commits :=
  ⟨[], commits, watched_start b s, nofun, hb, h, le_refl _, fun _ => nofun⟩

theorem Racing.step (h : Racing b s tx rest refused commits)
    (hstep : rest.step s tx = some (.ok (tx', rest'))) : Racing b s tx' rest' refused commits := by
  obtain ⟨observed, start, hw, hcov, hrest, hrefused, hstart, hcurrent⟩ := h
  obtain ⟨hcov', hrest'⟩ := covered_step hcov hrest hstep
  refine ⟨_, start, watched_step hw hstep, hcov', hrest', hrefused, hstart, fun hs p hp => ?_⟩
  rcases List.mem_append.mp hp with hp | hp
  · -- what is read now is current
    cases rest with
    | get key next =>
      rw [List.mem_singleton.mp hp]
    | _ => exact nomatch hp
  · exact hcurrent hs p hp

theorem Racing.commit (h : Racing b s tx rest refused commits) (mutations : List Mutation) :
    Racing b (commit s mutations) tx rest refused (commits + 1) := by
  obtain ⟨observed, start, hw, hcov, hrest, hrefused, hstart, -⟩ := h
  exact ⟨observed, start, hw.commit mutations, hcov, hrest, hrefused, Nat.le_succ_of_le hstart,
    fun hs => by omega⟩

/-- A refusal that is not arbitrary is one that a commit of another call has brought about. -/
theorem Racing.lt_of_refused (h : Racing b s tx .done refused commits) {mutations : List Mutation}
    (hcommit : tx.commitMutations = .ok mutations) (hacc : accepts s mutations = false) :
    refused + 1 ≤ commits := by
  obtain ⟨observed, start, hw, hcov, -, hrefused, hstart, hcurrent⟩ := h
  have hne : start ≠ commits := by
    intro hs
    exact nomatch hacc.symm.trans (accepts_of_current hw hcov hcommit (hcurrent hs))
  omega

/-! ### Runs -/

variable {ι : Type} [DecidableEq ι] {blocks : ι → Block}

/-- The server refuses a commit only where a precondition does not hold. -/
def refusesStale (s : State ι) : Event ι → Bool
  | .commit i .refused =>
      match s.phase i with
      | .running _ tx .done =>
          match tx.commitMutations with
          | .ok mutations => !accepts s.server mutations
          | .error _ => true
      | _ => true
  | _ => true

/-- The guard of the runs in which the server refuses nothing else. -/
def RefusesStale (s : State ι) (e : Event ι) : Prop := refusesStale s e = true

instance decidableRefusesStale (s : State ι) (e : Event ι) : Decidable (RefusesStale s e) :=
  inferInstanceAs (Decidable (refusesStale s e = true))

omit [DecidableEq ι] in
theorem RefusesStale.not_accepts {s : State ι} {i : ι} {retries : ℕ} {tx : Transaction}
    {mutations : List Mutation} (h : RefusesStale s (.commit i .refused))
    (hphase : s.phase i = .running retries tx .done)
    (hcommit : tx.commitMutations = .ok mutations) : accepts s.server mutations = false := by
  simpa [RefusesStale, refusesStale, hphase, hcommit] using h

/-- The commits of the other calls. -/
def others (i : ι) (s : State ι) : ℕ := s.commits.countP fun j => j ≠ i

/-- The call `i` was refused `refused` times. -/
structure Contended (blocks : ι → Block) (i : ι) (refused : ℕ) (s : State ι) : Prop where
  le_others : refused ≤ others i s
  racing : ∀ retries tx rest, s.phase i = .running retries tx rest →
    Racing (blocks i) s.server tx rest refused (others i s)

theorem contended_retry {i : ι} (hb : WritesRead [] (blocks i)) {refused retries : ℕ}
    {e : TransactionError} {s : State ι} (hphase : s.phase i = retry (blocks i) e retries)
    (h : refused ≤ others i s) : Contended blocks i refused s := by
  refine ⟨h, fun r tx rest hrun => ?_⟩
  rw [hphase] at hrun
  cases retries with
  | zero => exact nomatch hrun
  | succ n =>
    cases hrun
    exact racing_start hb s.server h

theorem contended_completed {i : ι} {refused : ℕ} {e : Option TransactionError} {s : State ι}
    (hphase : s.phase i = .completed e) (h : refused ≤ others i s) : Contended blocks i refused s :=
  ⟨h, fun _ _ _ hrun => nomatch hphase.symm.trans hrun⟩

omit [DecidableEq ι] in
/-- A move of another call is no refusal of `i`. -/
theorem not_refused_moves {server : Server} {i j : ι} {p p' : Phase} {e : Event ι}
    (h : Moves blocks server j p e p') (hj : i ≠ j) : e ≠ .commit i .refused := by
  intro he
  rw [he] at h
  cases h
  exact hj rfl

theorem contended_step {s t : State ι} {e : Event ι} {i : ι} (hb : WritesRead [] (blocks i))
    {refused : ℕ} (h : Contended blocks i refused s) (hstale : RefusesStale s e)
    (hstep : step blocks s e = some t) :
    Contended blocks i (refused + [e].count (.commit i .refused)) t := by
  obtain ⟨j, p, hmoves, ht⟩ | ⟨j, retries, tx, mutations, heard, hphase, -, -, he, ht⟩ :=
    step_cases hstep
  · subst ht
    by_cases hj : i = j
    · subst hj
      have hself : (s.setPhase i p).phase i = p := phase_setPhase_self s i p
      generalize hp : s.phase i = p₀ at hmoves
      cases hmoves with
      | call hrest =>
        refine ⟨h.le_others, fun r tx rest hrun => ?_⟩
        cases hself.symm.trans hrun
        exact (h.racing _ _ _ hp).step hrest
      | throws _ => exact contended_completed hself h.le_others
      | lookupFails => exact contended_completed hself h.le_others
      | cannotCommit _ => exact contended_retry hb hself h.le_others
      | refused hcommit =>
        have hlt := (h.racing _ _ _ hp).lt_of_refused hcommit (hstale.not_accepts hp hcommit)
        rw [show [Event.commit i .refused].count (.commit i .refused) = 1 by simp]
        exact contended_retry hb hself hlt
    · rw [List.count_eq_zero_of_not_mem fun hmem =>
        not_refused_moves hmoves hj (List.mem_singleton.mp hmem).symm]
      refine ⟨h.le_others, fun r tx rest hrun => h.racing r tx rest ?_⟩
      rwa [phase_setPhase_ne hj] at hrun
  · subst ht he
    have hcount : [Event.commit j (if heard = true then .accepted else .lost)].count
        (.commit i .refused) = 0 := by
      cases heard <;> simp
    rw [hcount]
    by_cases hj : i = j
    · subst hj
      have hothers : others i (s.accept i mutations (afterAccept (blocks i) retries heard)) =
          others i s := by
        simp [others, State.accept, List.countP_append]
      have hle := h.le_others
      rw [← hothers] at hle
      cases heard with
      | true => exact contended_completed (phase_accept_self ..) hle
      | false => exact contended_retry hb (phase_accept_self ..) hle
    · have hothers : others i (s.accept j mutations (afterAccept (blocks j) retries heard)) =
          others i s + 1 := by
        have hne : j ≠ i := fun hji => hj hji.symm
        simp [others, State.accept, List.countP_append, hne]
      refine ⟨by rw [hothers]; exact Nat.le_succ_of_le h.le_others, fun r tx rest hrun => ?_⟩
      rw [phase_accept_ne hj] at hrun
      rw [hothers]
      exact (h.racing r tx rest hrun).commit mutations

theorem contended_run {i : ι} (hb : WritesRead [] (blocks i)) :
    ∀ (es : List (Event ι)) (s t : State ι) (refused : ℕ), Contended blocks i refused s →
      Machine.AllSteps (step blocks) RefusesStale s es → Machine.run (step blocks) s es = some t →
      Contended blocks i (refused + es.count (.commit i .refused)) t := by
  intro es
  induction es with
  | nil =>
    intro s t refused h _ hrun
    cases hrun
    exact h
  | cons e es ih =>
    intro s t refused h hstale hrun
    obtain ⟨s', he, hrest⟩ := Machine.run_cons.mp hrun
    have hnext := ih s' t _ (contended_step hb h hstale.1 he) (hstale.2 s' he) hrest
    rw [show e :: es = [e] ++ es from rfl, List.count_append, ← Nat.add_assoc]
    exact hnext

theorem refused_le {blocks : ι → Block} {server : Server} {es : List (Event ι)} {t : State ι} {i : ι}
    (hb : WritesRead [] (blocks i))
    (hstale : Machine.AllSteps (step blocks) RefusesStale (initial blocks server) es)
    (hrun : Machine.run (step blocks) (initial blocks server) es = some t) :
    es.count (.commit i .refused) ≤ others i t := by
  have hstart : Contended blocks i 0 (initial blocks server) := by
    refine ⟨Nat.zero_le _, fun r tx rest hrun => ?_⟩
    cases hrun
    exact racing_start hb server (Nat.zero_le _)
  have h := (contended_run hb es _ t 0 hstart hstale hrun).le_others
  rwa [Nat.zero_add] at h

/-! ### When a call fails -/

/-- Where an attempt of the block may be on a server that satisfies `I` throughout. -/
inductive Reached (I : Server → Prop) (b : Block) : Transaction → Block → Prop where
  | start : Reached I b {} b
  | step {s : Server} {tx tx' : Transaction} {rest rest' : Block} (h : Reached I b tx rest)
      (hI : I s) (hstep : rest.step s tx = some (.ok (tx', rest'))) : Reached I b tx' rest'

/-- On such a server the block never throws, and what it has done when it returns can be
committed. -/
structure NeverFails (I : Server → Prop) (b : Block) : Prop where
  steps : ∀ s tx rest e, I s → Reached I b tx rest → rest.step s tx ≠ some (.error e)
  commits : ∀ tx e, Reached I b tx .done → tx.commitMutations ≠ .error e

/-- A call that always gets its answers ends only with success or with its sixth refusal. -/
def OnlyRefused (I : Server → Prop) (block : Block) (refused : ℕ) : Phase → Prop
  | .running retries tx rest => refused + retries = 5 ∧ Reached I block tx rest
  | .completed none => True
  | .completed (some _) => refused = 6

theorem onlyRefused_retry {I : Server → Prop} {block : Block} {refused retries : ℕ}
    (e : TransactionError) (h : refused + retries = 5) :
    OnlyRefused I block (refused + 1) (retry block e retries) := by
  cases retries with
  | zero => exact congrArg (· + 1) h
  | succ n =>
    refine ⟨?_, Reached.start⟩
    omega

theorem onlyRefused_step {I : Server → Prop} {s t : State ι} {e : Event ι} {i : ι} {refused : ℕ}
    (hfails : NeverFails I (blocks i)) (hI : I s.server)
    (hheard : e ≠ .lookupFails i ∧ e ≠ .commit i .lost)
    (h : OnlyRefused I (blocks i) refused (s.phase i)) (hstep : step blocks s e = some t) :
    OnlyRefused I (blocks i) (refused + [e].count (.commit i .refused)) (t.phase i) := by
  obtain ⟨j, p, hmoves, ht⟩ | ⟨j, retries, tx, mutations, heard, hphase, -, -, he, ht⟩ :=
    step_cases hstep
  · subst ht
    by_cases hj : i = j
    · subst hj
      rw [phase_setPhase_self]
      generalize s.phase i = p₀ at hmoves h
      cases hmoves with
      | call hrest => exact ⟨h.1, h.2.step hI hrest⟩
      | throws hrest => exact absurd hrest (hfails.steps _ _ _ _ hI h.2)
      | lookupFails => exact absurd rfl hheard.1
      | cannotCommit herr => exact absurd herr (hfails.commits _ _ h.2)
      | refused _ =>
        rw [show [Event.commit i .refused].count (.commit i .refused) = 1 by simp]
        exact onlyRefused_retry _ h.1
    · rw [phase_setPhase_ne hj, List.count_eq_zero_of_not_mem fun hmem =>
        not_refused_moves hmoves hj (List.mem_singleton.mp hmem).symm]
      exact h
  · subst ht he
    by_cases hj : i = j
    · subst hj
      rw [phase_accept_self]
      cases heard with
      | true => trivial
      | false => exact absurd rfl hheard.2
    · have hcount : [Event.commit j (if heard = true then .accepted else .lost)].count
          (.commit i .refused) = 0 := by
        cases heard <;> simp
      rw [phase_accept_ne hj, hcount]
      exact h

/-- What successful transactions keep holds of the server at all times. -/
theorem server_step {I : Server → Prop} {start : Server} {s t : State ι} {e : Event ι}
    (hI : ∀ i u u', I u → attempt (blocks i) u = .ok u' → I u') (hs : Serial blocks start s)
    (h : I s.server) (hstep : step blocks s e = some t) : I t.server := by
  obtain ⟨j, p, -, ht⟩ | ⟨j, retries, tx, mutations, heard, hphase, hcommit, hacc, -, ht⟩ :=
    step_cases hstep
  · rw [ht]
    exact h
  · rw [ht]
    have hw := hs.watched j
    rw [hphase] at hw
    obtain ⟨observed, hw⟩ := hw
    exact hI j _ _ h (attempt_of_accepted hw hcommit hacc)

theorem onlyRefused_run {I : Server → Prop} {i : ι} {start : Server}
    (hfails : NeverFails I (blocks i))
    (hI : ∀ j u u', I u → attempt (blocks j) u = .ok u' → I u') :
    ∀ (es : List (Event ι)) (s t : State ι) (refused : ℕ), Serial blocks start s → I s.server →
      (∀ e ∈ es, e ≠ .lookupFails i ∧ e ≠ .commit i .lost) →
      OnlyRefused I (blocks i) refused (s.phase i) → Machine.run (step blocks) s es = some t →
      OnlyRefused I (blocks i) (refused + es.count (.commit i .refused)) (t.phase i) := by
  intro es
  induction es with
  | nil =>
    intro s t refused _ _ _ h hrun
    cases hrun
    exact h
  | cons e es ih =>
    intro s t refused hs hIs hheard h hrun
    obtain ⟨s', he, hrest⟩ := Machine.run_cons.mp hrun
    have hfirst := onlyRefused_step hfails hIs (hheard e List.mem_cons_self) h he
    have hnext := ih s' t _ (serial_step s e s' hs he) (server_step hI hs hIs he)
      (fun e' he' => hheard e' (List.mem_cons_of_mem e he')) hfirst hrest
    rw [show e :: es = [e] ++ es from rfl, List.count_append, ← Nat.add_assoc]
    exact hnext

/-- A call whose block cannot fail, and that gets its answers, fails only if the other calls commit
six times. -/
theorem six_of_failed {I : Server → Prop} {blocks : ι → Block} {server : Server}
    {es : List (Event ι)} {t : State ι} {i : ι} (hb : WritesRead [] (blocks i))
    (hfails : NeverFails I (blocks i)) (hserver : I server)
    (hI : ∀ j u u', I u → attempt (blocks j) u = .ok u' → I u')
    (hheard : ∀ e ∈ es, e ≠ .lookupFails i ∧ e ≠ .commit i .lost)
    (hstale : Machine.AllSteps (step blocks) RefusesStale (initial blocks server) es)
    (hrun : Machine.run (step blocks) (initial blocks server) es = some t) {e : TransactionError}
    (hfail : t.phase i = .completed (some e)) : 6 ≤ others i t := by
  have hstart : OnlyRefused I (blocks i) 0 ((initial blocks server).phase i) := ⟨rfl, Reached.start⟩
  have h := onlyRefused_run hfails hI es _ t 0 (serial_initial blocks server) hserver hheard hstart
    hrun
  rw [hfail, Nat.zero_add] at h
  have hsix : es.count (.commit i .refused) = 6 := h
  exact hsix ▸ (refused_le hb hstale hrun)

/-! ### When a call cannot succeed -/

/-- Where a call is whose blocks leave nothing that can be committed. -/
def Futile (I : Server → Prop) (block : Block) : Phase → Prop
  | .running _ tx rest => Reached I block tx rest
  | .completed error => error ≠ none

theorem futile_retry (I : Server → Prop) (block : Block) (e : TransactionError) (retries : ℕ) :
    Futile I block (retry block e retries) := by
  cases retries with
  | zero => exact nofun
  | succ n => exact Reached.start

omit [DecidableEq ι] in
theorem futile_moves {I : Server → Prop} {server : Server} {i : ι} {p p' : Phase} {e : Event ι}
    (hI : I server) (h : Moves blocks server i p e p') (hp : Futile I (blocks i) p) :
    Futile I (blocks i) p' := by
  cases h with
  | call hstep => exact hp.step hI hstep
  | throws _ => exact nofun
  | lookupFails => exact nofun
  | cannotCommit _ => exact futile_retry I _ _ _
  | refused _ => exact futile_retry I _ _ _

theorem futile_step {I : Server → Prop} {s t : State ι} {e : Event ι} {i : ι}
    (hnone : ∀ tx mutations, Reached I (blocks i) tx .done → tx.commitMutations ≠ .ok mutations)
    (hI : I s.server) (h : i ∉ s.commits ∧ Futile I (blocks i) (s.phase i))
    (hstep : step blocks s e = some t) : i ∉ t.commits ∧ Futile I (blocks i) (t.phase i) := by
  obtain ⟨j, p, hmoves, ht⟩ | ⟨j, retries, tx, mutations, heard, hphase, hcommit, -, -, ht⟩ :=
    step_cases hstep
  · subst ht
    refine ⟨h.1, ?_⟩
    by_cases hj : i = j
    · subst hj
      rw [phase_setPhase_self]
      exact futile_moves hI hmoves h.2
    · rw [phase_setPhase_ne hj]
      exact h.2
  · subst ht
    have hj : i ≠ j := by
      intro hj
      subst hj
      rw [hphase] at h
      exact hnone tx mutations h.2 hcommit
    refine ⟨fun hmem => ?_, by rw [phase_accept_ne hj]; exact h.2⟩
    rcases List.mem_append.mp hmem with hmem | hmem
    · exact h.1 hmem
    · exact hj (List.mem_singleton.mp hmem)

/-- A call whose blocks leave nothing that can be committed has no effect and does not succeed. -/
theorem futile_run {I : Server → Prop} {blocks : ι → Block} {server : Server}
    {es : List (Event ι)} {t : State ι} {i : ι}
    (hnone : ∀ tx mutations, Reached I (blocks i) tx .done → tx.commitMutations ≠ .ok mutations)
    (hserver : I server) (hI : ∀ j u u', I u → attempt (blocks j) u = .ok u' → I u')
    (hrun : Machine.run (step blocks) (initial blocks server) es = some t) :
    i ∉ t.commits ∧ t.phase i ≠ .completed none := by
  have hstep : ∀ s e s', (Serial blocks server s ∧ I s.server ∧ i ∉ s.commits ∧
      Futile I (blocks i) (s.phase i)) → step blocks s e = some s' →
      Serial blocks server s' ∧ I s'.server ∧ i ∉ s'.commits ∧ Futile I (blocks i) (s'.phase i) :=
    fun s e s' h hs => ⟨serial_step s e s' h.1 hs, server_step hI h.1 h.2.1 hs,
      futile_step hnone h.2.1 h.2.2 hs⟩
  have h := Machine.run_invariant hstep es _ t
    ⟨serial_initial blocks server, hserver, nofun, Reached.start⟩ hrun
  refine ⟨h.2.2.1, fun hphase => ?_⟩
  have hfutile := h.2.2.2
  rw [hphase] at hfutile
  exact hfutile rfl

end GiftGenie.TransactionContention
