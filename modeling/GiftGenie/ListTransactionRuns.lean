import GiftGenie.ListHistories
import GiftGenie.TransactionContention
import Mathlib.Data.Fintype.BigOperators

/-!
# The list transactions as their clients run them

`sendInvitations`, `updateInvitations`, `updateFavorites` and `updateRecommended` as update blocks:
what `listTransaction` does at once is here a lookup, a test and at most one write.  The clients run
these blocks as `TransactionRuns` describes.

* `values_attempt`: an attempt that can be committed writes what `listTransaction` writes.
* `lists_refine`: any run leaves the documents that the committed calls leave when they are executed
  one after the other.
* `toggles_add_up`: what a run leaves of a list of products.
* `toggle_fails_only_if`: what can make a toggle fail.
* `writesNothing_fails`: a call that has nothing to write uses up its attempts and fails.
-/

set_option autoImplicit false

namespace GiftGenie.ListTransactionRuns

open GiftGenie.Library GiftGenie.Firestore GiftGenie.ListTransactions GiftGenie.ListHistories
  GiftGenie.Mutations GiftGenie.Transactions GiftGenie.TransactionRuns
  GiftGenie.TransactionContention

/-- The `FieldValue` that the block writes, given what `contains` answered. -/
def fieldValue : ListEdit → Bool → Option TransformType
  | .extend, true => none
  | .extend, false => some .arrayUnion
  | .shrink, true => some .arrayRemove
  | .shrink, false => none
  | .flip, true => some .arrayRemove
  | .flip, false => some .arrayUnion

/-- What the update block does with the snapshot. -/
def listBody (edit : ListEdit) (key : String) (x : DString) (id : String) : Option Doc → Block
  | some data =>
      match contains (field data key) x with
      | .ok present =>
          match fieldValue edit present with
          | some type => .update id [(key, type.fieldData x)] .done
          | none => .done
      | .error e => .fail e
  | none => if edit.creates then .set id [(key, .value (.list [x]))] .done else .done

/-- The update block of the four transactions. -/
def listBlock (edit : ListEdit) (key : String) (x : DString) (id : String) : Block :=
  .get id (listBody edit key x id)

def callBlock (c : ListCall) : Block := listBlock c.op.edit c.op.key c.op.element c.id

/-! ### One attempt -/

variable {edit : ListEdit} {key id : String} {x : DString} {s : Server}

/-- Mutations of one document change this document and no other. -/
theorem values_commit {ms : List Mutation} (hne : ms ≠ []) (hkey : ∀ m ∈ ms, m.key = id) {d : Doc}
    (hd : applyAll ms (s.values id) = some d) : (commit s ms).values = setDoc s.values id d := by
  funext id'
  rw [commit, VersionedStore.Store.values_write]
  by_cases hid : id' = id
  · subst hid
    have hany : (ms.any fun m => m.key = id') = true := by
      obtain ⟨m, hm⟩ := List.exists_mem_of_ne_nil ms hne
      exact List.any_eq_true.mpr ⟨m, hm, by simpa using hkey m hm⟩
    have hfilter : (ms.filter fun m => m.key = id') = ms :=
      List.filter_eq_self.mpr fun m hm => by simpa using hkey m hm
    rw [if_pos hany, hfilter, hd, setDoc_self]
  · have hany : (ms.any fun m => m.key = id') = false :=
      List.any_eq_false.mpr fun m hm => by simpa [hkey m hm] using fun h => hid h.symm
    rw [if_neg (by rw [hany]; exact Bool.false_ne_true), setDoc_ne hid]

/-- The transaction object after the lookup. -/
def looked (id : String) (s : Server) : Transaction :=
  { readVersions := [(id, VersionedStore.version (s.entries id))] }

theorem execute_listBlock (edit : ListEdit) (key : String) (x : DString) (id : String) (s : Server) :
    (listBlock edit key x id).execute s {} =
      (listBody edit key x id (s.values id)).execute s (looked id s) := rfl

/-- A body that writes nothing leaves a document that was read and not written. -/
theorem attempt_done (h : listBody edit key x id (s.values id) = .done) :
    attempt (listBlock edit key x id) s = .error .readNotWritten := by
  simp only [attempt, execute_listBlock, h]
  rfl

theorem attempt_fail {e : DartError} (h : listBody edit key x id (s.values id) = .fail e) :
    attempt (listBlock edit key x id) s = .error (.block e) := by
  simp only [attempt, execute_listBlock, h]
  rfl

/-- A body that writes the document has read it before. -/
theorem commitMutations_write {m : Mutation} {ms : List Mutation}
    (hkey : m.key = id) :
    ((looked id s).writeMutations (m :: ms)).commitMutations = .ok (m :: ms) := by
  have hany : ((m :: ms).any fun m => m.key = id) = true :=
    List.any_eq_true.mpr ⟨m, List.mem_cons_self, by simpa using hkey⟩
  show (if [(id, _)].all (fun p => (m :: ms).any fun m => m.key = p.1) then _ else _) = _
  rw [List.all_cons, hany]
  rfl

theorem attempt_set (h : listBody edit key x id (s.values id) =
    .set id [(key, .value (.list [x]))] .done) :
    ∃ s', attempt (listBlock edit key x id) s = .ok s' ∧
      s'.values = setDoc s.values id (docOf [(key, .list [x])]) := by
  let ms := setMutations id [(key, .value (.list [x]))]
    ((looked id s).preconditionForDocumentKey id)
  have hcommit : ((looked id s).writeMutations ms).commitMutations = .ok ms :=
    commitMutations_write rfl
  refine ⟨commit s ms, ?_, ?_⟩
  · have hexec : (listBlock edit key x id).execute s {} = .ok ((looked id s).writeMutations ms) := by
      rw [execute_listBlock, h]
      rfl
    simp only [attempt, hexec, hcommit]
  · have hkey : ∀ m ∈ ms, m.key = id := fun m hm => key_of_mem_setMutations hm
    exact values_commit (List.cons_ne_nil _ _) hkey (applyAll_setMutations id key _ _ _)

/-- The document that was read exists, so that it can be updated. -/
theorem preconditionForUpdate_looked {d : Doc} (hd : s.values id = some d) :
    ∃ v, (looked id s).preconditionForUpdateWithDocumentKey id = .ok (.updateTime (some v)) := by
  obtain ⟨⟨v, d'⟩, he, -⟩ := Option.map_eq_some_iff.mp hd
  refine ⟨v, ?_⟩
  have hread : (looked id s).readVersion? id = some (some v) := by
    simp [looked, Transaction.readVersion?, he]
  simp only [Transaction.preconditionForUpdateWithDocumentKey, hread]

theorem attempt_update {d : Doc} {type : TransformType} (hd : s.values id = some d)
    (h : listBody edit key x id (s.values id) = .update id [(key, type.fieldData x)] .done) :
    ∃ s', attempt (listBlock edit key x id) s = .ok s' ∧
      s'.values = setDoc s.values id (putField d key (type.onField (field d key) x)) := by
  obtain ⟨v, hpre⟩ := preconditionForUpdate_looked hd
  let ms := updateMutations id [(key, type.fieldData x)] (.updateTime (some v))
  have hcommit : ((looked id s).writeMutations ms).commitMutations = .ok ms :=
    commitMutations_write rfl
  refine ⟨commit s ms, ?_, ?_⟩
  · have hexec : (listBlock edit key x id).execute s {} = .ok ((looked id s).writeMutations ms) := by
      rw [execute_listBlock, h]
      show Except.ok ((looked id s).updateData id _) = _
      simp only [Transaction.updateData, hpre]
      rfl
    simp only [attempt, hexec, hcommit]
  · have hkey : ∀ m ∈ ms, m.key = id := fun m hm => key_of_mem_updateMutations hm
    refine values_commit (List.cons_ne_nil _ _) hkey ?_
    rw [hd]
    exact applyAll_updateMutations type id key x _ d

/-- What the block writes is what the transaction writes. -/
theorem write_eq (edit : ListEdit) (present : Bool) :
    edit.write present = (fieldValue edit present).map TransformType.onField := by
  cases edit <;> cases present <;> rfl

/-- **One attempt.**  What is committed is what `listTransaction` makes of the documents. -/
theorem values_attempt {s' : Server} (h : attempt (listBlock edit key x id) s = .ok s') :
    listTransaction edit key x id s.values = .ok s'.values := by
  cases hd : s.values id with
  | none =>
    rw [listTransaction_absent edit key x hd]
    cases hc : edit.creates with
    | true =>
      have hbody : listBody edit key x id (s.values id) = .set id [(key, .value (.list [x]))] .done := by
        simp [hd, listBody, hc]
      obtain ⟨u, hu, hvalues⟩ := attempt_set hbody
      rw [Except.ok.inj (h.symm.trans hu), hvalues]
      rfl
    | false =>
      have hbody : listBody edit key x id (s.values id) = .done := by simp [hd, listBody, hc]
      exact nomatch h.symm.trans (attempt_done hbody)
  | some d =>
    cases hp : contains (field d key) x with
    | error e =>
      have hbody : listBody edit key x id (s.values id) = .fail e := by simp [hd, listBody, hp]
      exact nomatch h.symm.trans (attempt_fail hbody)
    | ok present =>
      cases ht : fieldValue edit present with
      | none =>
        have hbody : listBody edit key x id (s.values id) = .done := by simp [hd, listBody, hp, ht]
        exact nomatch h.symm.trans (attempt_done hbody)
      | some type =>
        have hbody : listBody edit key x id (s.values id) =
            .update id [(key, type.fieldData x)] .done := by
          simp [hd, listBody, hp, ht]
        obtain ⟨u, hu, hvalues⟩ := attempt_update hd hbody
        have hw := write_eq edit present
        rw [ht] at hw
        rw [Except.ok.inj (h.symm.trans hu), hvalues]
        simp only [listTransaction, hd, hp, ok_bind, hw]
        rfl

/-! ### Runs -/

/-- The call as one that Firestore serves. -/
def served (c : ListCall) : ListCall := { c with served := true }

theorem exec_served {c : ListCall} {s s' : Server} (h : attempt (callBlock c) s = .ok s') :
    (served c).exec s.values = (true, s'.values) := by
  rw [exec_eq]
  exact SerialHistory.atomically_ok (values_attempt h)

variable {ι : Type} [DecidableEq ι]

/-- The blocks of the calls. -/
def blocksOf (calls : ι → ListCall) (i : ι) : Block := callBlock (calls i)

omit [DecidableEq ι] in
theorem exec_of_serially (calls : ι → ListCall) (i : ι) (s : Server)
    (h : (serially (blocksOf calls) i s).1 = true) :
    (served (calls i)).exec s.values = (true, (serially (blocksOf calls) i s).2.values) := by
  cases hb : attempt (callBlock (calls i)) s with
  | ok s' =>
    have hs : serially (blocksOf calls) i s = (true, s') := SerialHistory.atomically_ok hb
    rw [hs]
    exact exec_served hb
  | error e =>
    have hs : serially (blocksOf calls) i s = (false, s) := SerialHistory.atomically_error hb
    rw [hs] at h
    cases h

/-- The documents after a run, and the answers of the calls that led to them. -/
theorem values_run {calls : ι → ListCall} {server : Server} {es : List (Event ι)} {t : State ι}
    (hrun : Machine.run (step (blocksOf calls)) (initial (blocksOf calls) server) es = some t) :
    t.server.values =
        SerialHistory.final ListCall.exec (t.commits.map fun i => served (calls i)) server.values ∧
      SerialHistory.answers ListCall.exec (t.commits.map fun i => served (calls i)) server.values =
        t.commits.map fun i => (served (calls i), true) := by
  have h := Machine.run_invariant serial_step es _ t (serial_initial _ server) hrun
  have hsim := SerialHistory.final_simulates (fun i => served (calls i)) VersionedStore.Store.values
    (exec_of_serially calls) t.commits server h.succeed
  refine ⟨?_, hsim.2⟩
  rw [hsim.1, ← h.server]

/-- **The atomic calls are enough.**  Any number of clients run list transactions, with their lookups,
commits and retries interleaved in any way: the documents are at the end what the committed calls
make of them when each is executed at once, in the order of the commits, and each of these answers
`true`. -/
theorem lists_refine (calls : ι → ListCall) (server : Server) (es : List (Event ι)) (t : State ι)
    (hrun : Machine.run (step (blocksOf calls)) (initial (blocksOf calls) server) es = some t) :
    t.server.values =
        SerialHistory.final ListCall.exec (t.commits.map fun i => served (calls i)) server.values ∧
      SerialHistory.answers ListCall.exec (t.commits.map fun i => served (calls i)) server.values =
        t.commits.map fun i => (served (calls i), true) :=
  values_run hrun

/-- A user without favourites who is invited by `u2`. -/
def oneUser : Server where
  entries := fun id =>
    if id = "u1" then
      some (1, docOf [("favorites", .list []), ("invitations", .list [some "u2"])])
    else none
  clock := 1
  stamp_le := by
    intro id n d h
    split at h
    · cases h
      exact Nat.le_refl 1
    · cases h

theorem values_oneUser (id : String) : oneUser.values id =
    if id = "u1" then some (docOf [("favorites", .list []), ("invitations", .list [some "u2"])])
    else none := by
  show VersionedStore.value (if id = "u1" then _ else _) = _
  split <;> rfl

theorem listsOrMissing_oneUser : ListsOrMissing oneUser.values := by
  intro key hkey id d s hd
  rw [values_oneUser] at hd
  split at hd
  · cases hd
    simp only [listFields, List.mem_cons, List.not_mem_nil, or_false] at hkey
    obtain h | h | h | h := hkey
    all_goals
      subst h
      intro hstr
      cases hstr
  · cases hd

/-- Two clients toggle a favourite at once; the second commit is refused and tried again. -/
def twoToggles : Bool → ListCall := fun _ => { id := "u1", op := .updateFavorites (some "B0009KF58I") }

def twoTogglesRun : List (Event Bool) :=
  [.call true, .call false, .call true, .call false, .commit false .accepted, .commit true .refused,
    .call true, .call true, .commit true .accepted]

theorem lists_refine_twoToggles :
    ∃ t, Machine.run (step (blocksOf twoToggles)) (initial (blocksOf twoToggles) oneUser)
        twoTogglesRun = some t ∧ t.commits = [false, true] ∧
      t.server.values = SerialHistory.final ListCall.exec
        [served (twoToggles false), served (twoToggles true)] oneUser.values := by
  obtain ⟨t, hrun, hcommits⟩ : ∃ t, Machine.run (step (blocksOf twoToggles))
      (initial (blocksOf twoToggles) oneUser) twoTogglesRun = some t ∧ t.commits = [false, true] :=
    ⟨_, rfl, rfl⟩
  have h := (lists_refine twoToggles oneUser twoTogglesRun t hrun).1
  rw [hcommits] at h
  exact ⟨t, hrun, hcommits, h⟩

/-! ### What the toggles of a run add up to -/

/-- How often the call took effect: once for every answer to its commits that was lost, and once
if it completed with success. -/
def effects (es : List (Event ι)) (t : State ι) (i : ι) : ℕ :=
  es.count (.commit i .lost) + (t.phase i).succeeded.toNat

theorem count_commits_eq {blocks : ι → Block} {server : Server} {es : List (Event ι)} {t : State ι}
    (hrun : Machine.run (step blocks) (initial blocks server) es = some t) (i : ι) :
    t.commits.count i = effects es t i := by
  have h := count_commits_run i es _ t hrun
  simpa [initial, Phase.succeeded, effects] using h

theorem countP_commits [Fintype ι] {blocks : ι → Block} {server : Server} {es : List (Event ι)}
    {t : State ι} (hrun : Machine.run (step blocks) (initial blocks server) es = some t)
    (p : ι → Prop) [DecidablePred p] :
    t.commits.countP p = ∑ i with p i, effects es t i := by
  rw [← Finset.sum_filter_count_eq_countP]
  have hall : ∀ i, t.commits.count i = effects es t i := count_commits_eq hrun
  rw [Finset.sum_congr rfl fun i _ => hall i]
  refine Finset.sum_subset (Finset.filter_subset_filter p (Finset.subset_univ _)) fun i hi hnot => ?_
  -- a call that never committed has had no effect
  have hmem : i ∉ t.commits := fun hc =>
    hnot (Finset.mem_filter.mpr ⟨List.mem_toFinset.mpr hc, (Finset.mem_filter.mp hi).2⟩)
  rw [← hall, List.count_eq_zero_of_not_mem hmem]

omit [DecidableEq ι] in
/-- The calls of a run that flip `x` in the list `key` of the document `id`. -/
theorem countP_flipsThere (calls : ι → ListCall) (is : List ι) (id key : String) (x : DString) :
    ((is.map fun i => (served (calls i), true)).countP (flipsThere id key x)) =
      is.countP fun i => (calls i).id = id ∧ (calls i).op.key = key ∧ (calls i).op.element = x := by
  rw [List.countP_map]
  refine List.countP_congr fun i _ => ?_
  simp [flipsThere, served]

theorem mem_items_run [Fintype ι] {calls : ι → ListCall} {server : Server} {es : List (Event ι)}
    {t : State ι} (hlists : ListsOrMissing server.values)
    (hrun : Machine.run (step (blocksOf calls)) (initial (blocksOf calls) server) es = some t)
    (id key : String) (x : DString) (hflip : ∀ op : ListOp, op.key = key → op.edit = .flip) :
    x ∈ items t.server.values id key ↔ (x ∈ items server.values id key ↔
      Even (∑ i with (calls i).id = id ∧ (calls i).op.key = key ∧ (calls i).op.element = x,
        effects es t i)) := by
  obtain ⟨hvalues, hanswers⟩ := values_run hrun
  rw [hvalues, flip_history id key x hflip _ _ hlists, hanswers, countP_flipsThere,
    countP_commits hrun]

/-- A sum over the calls of two groups. -/
theorem sum_elim {κ μ : Type} [Fintype κ] [Fintype μ] {own : κ → ListCall} {others : μ → ListCall}
    (p : ListCall → Prop) [DecidablePred p] (f : κ ⊕ μ → ℕ) :
    ∑ i with p (Sum.elim own others i), f i =
      ∑ k with p (own k), f (.inl k) + ∑ m with p (others m), f (.inr m) := by
  rw [Finset.sum_filter, Fintype.sum_sum_type, Finset.sum_filter, Finset.sum_filter]
  rfl

/-- **Every effect counts once.**  Any number of clients run list transactions at once, with retries
and lost answers: at the end a product is a favourite of `uid` if it was one and the
`updateFavorites` calls for it took effect an even number of times, or it was none and they took
effect an odd number of times; likewise the recommended products. -/
theorem toggles_add_up [Fintype ι] (calls : ι → ListCall) (server : Server) (es : List (Event ι))
    (t : State ι) (hlists : ListsOrMissing server.values)
    (hrun : Machine.run (step (blocksOf calls)) (initial (blocksOf calls) server) es = some t)
    (uid : String) (p : DString) :
    (p ∈ items t.server.values uid "favorites" ↔ (p ∈ items server.values uid "favorites" ↔
      Even (∑ i with (calls i).id = uid ∧ (calls i).op = .updateFavorites p, effects es t i))) ∧
    (p ∈ items t.server.values uid "recommended" ↔ (p ∈ items server.values uid "recommended" ↔
      Even (∑ i with (calls i).id = uid ∧ (calls i).op = .updateRecommended p,
        effects es t i))) := by
  constructor
  · have h := mem_items_run hlists hrun uid "favorites" p fun op => edit_favorites
    simp only [key_favorites] at h
    exact h
  · have h := mem_items_run hlists hrun uid "recommended" p fun op => edit_recommended
    simp only [key_recommended] at h
    exact h

/-- Two toggles at once leave no favourite behind. -/
theorem toggles_add_up_twoToggles :
    ∃ t, Machine.run (step (blocksOf twoToggles)) (initial (blocksOf twoToggles) oneUser)
        twoTogglesRun = some t ∧ some "B0009KF58I" ∉ items t.server.values "u1" "favorites" := by
  obtain ⟨t, hrun, hphase⟩ : ∃ t, Machine.run (step (blocksOf twoToggles))
      (initial (blocksOf twoToggles) oneUser) twoTogglesRun = some t ∧
      ∀ i, (t.phase i).succeeded = true := ⟨_, rfl, by decide⟩
  refine ⟨t, hrun, ?_⟩
  have h := (toggles_add_up twoToggles oneUser twoTogglesRun t listsOrMissing_oneUser hrun "u1"
    (some "B0009KF58I")).1
  simp only [effects, hphase] at h
  rw [h]
  decide

/-! ### Calls end -/

/-- The update block makes a lookup and at most one more call. -/
theorem within_listBlock (edit : ListEdit) (key : String) (x : DString) (id : String) :
    Within (listBlock edit key x id) 2 := by
  refine ⟨Nat.zero_lt_two, fun doc => ?_⟩
  have hwrite : ∀ b : Block, b = .done ∨ (∃ e, b = .fail e) ∨
      (∃ data, b = .set id data .done) ∨ (∃ data, b = .update id data .done) → Within b 1 := by
    intro b hb
    obtain h | ⟨e, h⟩ | ⟨data, h⟩ | ⟨data, h⟩ := hb
    · rw [h]; trivial
    · rw [h]; exact Nat.zero_lt_one
    · rw [h]; exact ⟨Nat.zero_lt_one, trivial⟩
    · rw [h]; exact ⟨Nat.zero_lt_one, trivial⟩
  refine hwrite _ ?_
  unfold listBody
  split
  · split
    · split
      · exact Or.inr (Or.inr (Or.inr ⟨_, rfl⟩))
      · exact Or.inl rfl
    · exact Or.inr (Or.inl ⟨_, rfl⟩)
  · split
    · exact Or.inr (Or.inr (Or.inl ⟨_, rfl⟩))
    · exact Or.inl rfl

/-- **Every call ends.**  Whatever the other clients and the server do, a list transaction takes at
most eighteen steps, and as long as it is not completed it can take one. -/
theorem calls_end (calls : ι → ListCall) (server : Server) (es : List (Event ι)) (t : State ι)
    (hrun : Machine.run (step (blocksOf calls)) (initial (blocksOf calls) server) es = some t)
    (i : ι) :
    es.countP (fun e => e.owner = i) ≤ 18 ∧
      ((∃ e, t.phase i = .completed e) ∨
        ∃ e t', Event.owner e = i ∧ step (blocksOf calls) t e = some t') := by
  have hb : Within (blocksOf calls i) 2 := within_listBlock _ _ _ _
  have hstart : StepsLeft 2 18 ((initial (blocksOf calls) server).phase i) := ⟨2, hb, le_refl _⟩
  exact ⟨stepsLeft_run hb es _ t 18 hstart hrun, exists_step _ t i⟩

/-- The second toggle takes six steps. -/
theorem calls_end_twoToggles :
    twoTogglesRun.countP (fun e => e.owner = true) = 6 ∧
      twoTogglesRun.countP (fun e => e.owner = true) ≤ 18 := by
  obtain ⟨t, hrun⟩ : ∃ t, Machine.run (step (blocksOf twoToggles))
      (initial (blocksOf twoToggles) oneUser) twoTogglesRun = some t := ⟨_, rfl⟩
  exact ⟨by decide, (calls_end twoToggles oneUser twoTogglesRun t hrun true).1⟩

/-! ### When a toggle fails -/

theorem writesRead_listBlock (edit : ListEdit) (key : String) (x : DString) (id : String) :
    WritesRead [] (listBlock edit key x id) := by
  intro doc
  have hid : id ∈ [id] := List.mem_cons_self
  cases doc with
  | none =>
    show WritesRead [id] (if edit.creates then _ else _)
    split
    · exact ⟨hid, trivial⟩
    · trivial
  | some data =>
    show WritesRead [id] (match contains (field data key) x with
      | .ok present => _
      | .error e => _)
    split
    · split
      · exact ⟨hid, trivial⟩
      · trivial
    · trivial

/-- The document is there and has the list. -/
def HasList (id key : String) (users : Collection) : Prop :=
  ∃ d xs, users id = some d ∧ field d key = .list xs

theorem hasList_setDoc {users : Collection} {id' : String} {d' : Doc} (h : HasList id key users)
    (hd' : id' = id → ∃ xs, field d' key = .list xs) : HasList id key (setDoc users id' d') := by
  obtain ⟨d, xs, hd, hf⟩ := h
  by_cases hid : id = id'
  · obtain ⟨ys, hys⟩ := hd' hid.symm
    exact ⟨d', ys, by rw [hid, setDoc_self], hys⟩
  · exact ⟨d, xs, by rw [setDoc_ne hid, hd], hf⟩

/-- No list transaction takes a list away. -/
theorem hasList_exec (c : ListCall) {users : Collection} (hkey : ListOrMissing users c.op.key)
    (h : HasList id key users) : HasList id key (c.exec users).2 := by
  rw [exec_eq]
  obtain ⟨-, hfin, -⟩ | ⟨-, -, ⟨habsent, hfin⟩ | ⟨d, xs, hd, hf, hfin⟩⟩ :=
    runTransaction_cases c.served c.op.edit c.op.element c.id hkey
  · rw [hfin]
    exact h
  · rw [hfin]
    cases c.op.edit.creates with
    | false => exact h
    | true =>
      refine hasList_setDoc h fun hid => ?_
      obtain ⟨d, xs, hd, -⟩ := h
      rw [← hid, habsent] at hd
      cases hd
  · rw [hfin]
    refine hasList_setDoc h fun hid => ?_
    by_cases hk : key = c.op.key
    · rw [hk]
      exact ⟨_, field_putField_self d _ _⟩
    · obtain ⟨d', ys, hd', hf'⟩ := h
      rw [← hid, hd] at hd'
      cases hd'
      exact ⟨ys, by rw [field_putField_ne hk, hf']⟩

/-- A toggle of a list that is there writes it. -/
theorem body_toggle (x : DString) {users : Collection} (h : HasList id key users) :
    ∃ type : TransformType, listBody .flip key x id (users id) =
      .update id [(key, type.fieldData x)] .done := by
  obtain ⟨d, xs, hd, hf⟩ := h
  by_cases hx : x ∈ xs
  · exact ⟨.arrayRemove, by simp [listBody, hd, hf, contains, hx, fieldValue]⟩
  · exact ⟨.arrayUnion, by simp [listBody, hd, hf, contains, hx, fieldValue]⟩

/-- Where the toggle of a list that is there may be. -/
theorem reached_toggle {tx : Transaction} {rest : Block} {I : Server → Prop}
    (hI : ∀ s, I s → HasList id key s.values)
    (h : Reached I (listBlock .flip key x id) tx rest) :
    (tx = {} ∧ rest = listBlock .flip key x id) ∨
      (∃ s type, I s ∧ tx = looked id s ∧
        rest = .update id [(key, TransformType.fieldData type x)] .done) ∨
      ∃ s m ms, m.key = id ∧ tx = (looked id s).writeMutations (m :: ms) ∧ rest = .done := by
  induction h with
  | start => exact Or.inl ⟨rfl, rfl⟩
  | @step s tx tx' rest rest' _ hIs hstep ih =>
    obtain ⟨htx, hrest⟩ | ⟨u, type, hIu, htx, hrest⟩ | ⟨u, m, ms, hm, htx, hrest⟩ := ih
    · subst htx hrest
      cases hstep
      obtain ⟨type, hbody⟩ := body_toggle x (hI s hIs)
      exact Or.inr (Or.inl ⟨s, type, hIs, rfl, hbody⟩)
    · subst htx hrest
      cases hstep
      obtain ⟨d, xs, hd, -⟩ := hI u hIu
      obtain ⟨v, hpre⟩ := preconditionForUpdate_looked hd
      have htx : (looked id u).updateData id [(key, type.fieldData x)] =
          (looked id u).writeMutations
            (updateMutations id [(key, type.fieldData x)] (.updateTime (some v))) := by
        simp only [Transaction.updateData, hpre]
      exact Or.inr (Or.inr ⟨u, _, _, rfl, htx, rfl⟩)
    · subst hrest
      cases hstep

theorem neverFails_toggle {I : Server → Prop} (hI : ∀ s, I s → HasList id key s.values) :
    NeverFails I (listBlock .flip key x id) where
  steps := by
    intro s tx rest e hs h herr
    obtain ⟨htx, hrest⟩ | ⟨u, type, -, htx, hrest⟩ | ⟨u, m, ms, hm, htx, hrest⟩ :=
      reached_toggle hI h
    · subst htx hrest
      exact nomatch herr
    · subst hrest
      exact nomatch herr
    · subst hrest
      exact nomatch herr
  commits := by
    intro tx e h herr
    obtain ⟨-, hrest⟩ | ⟨u, type, -, -, hrest⟩ | ⟨u, m, ms, hm, htx, -⟩ := reached_toggle hI h
    · exact nomatch hrest
    · exact nomatch hrest
    · rw [htx, commitMutations_write hm] at herr
      cases herr

/-- The store of list fields in which the document `id` has its list. -/
def Toggled (id key : String) (s : Server) : Prop :=
  ListsOrMissing s.values ∧ HasList id key s.values

theorem toggled_attempt {c : ListCall} {s s' : Server} (hs : Toggled id key s)
    (h : attempt (callBlock c) s = .ok s') : Toggled id key s' := by
  have hexec : s'.values = ((served c).exec s.values).2 := (congrArg Prod.snd (exec_served h)).symm
  rw [Toggled, hexec]
  exact ⟨listsOrMissing_exec _ hs.1, hasList_exec _ (hs.1 _ (key_mem_listFields _)) hs.2⟩

/-- **Only competition makes a toggle fail.**  A client toggles a product in a list that is there, gets
all its answers, and the server refuses commits only where a precondition does not hold.  Among any
other list transactions the toggle completes with an error only after six commits of the others. -/
theorem toggle_fails_only_if (calls : ι → ListCall) (server : Server) (es : List (Event ι))
    (t : State ι) (i : ι) (hflip : (calls i).op.edit = .flip) (hlists : ListsOrMissing server.values)
    (hlist : HasList (calls i).id (calls i).op.key server.values)
    (hheard : ∀ e ∈ es, e ≠ .lookupFails i ∧ e ≠ .commit i .lost)
    (hstale : Machine.AllSteps (step (blocksOf calls)) RefusesStale
      (initial (blocksOf calls) server) es)
    (hrun : Machine.run (step (blocksOf calls)) (initial (blocksOf calls) server) es = some t) :
    (∀ e, t.phase i ≠ .completed (some e)) ∨ 6 ≤ t.commits.countP fun j => j ≠ i := by
  have hblock : blocksOf calls i = listBlock .flip (calls i).op.key (calls i).op.element (calls i).id := by
    rw [blocksOf, callBlock, hflip]
  have hfails : NeverFails (Toggled (calls i).id (calls i).op.key) (blocksOf calls i) := by
    rw [hblock]
    exact neverFails_toggle fun s hs => hs.2
  by_cases hfail : ∃ e, t.phase i = .completed (some e)
  · obtain ⟨e, hfail⟩ := hfail
    exact Or.inr (six_of_failed (writesRead_listBlock _ _ _ _) hfails ⟨hlists, hlist⟩
      (fun j u u' hu h => toggled_attempt hu h) hheard hstale hrun hfail)
  · exact Or.inl fun e he => hfail ⟨e, he⟩

/-- One refusal is not enough to make the second toggle fail. -/
theorem toggle_fails_only_if_twoToggles :
    ∃ t, Machine.run (step (blocksOf twoToggles)) (initial (blocksOf twoToggles) oneUser)
        twoTogglesRun = some t ∧ twoTogglesRun.count (.commit true .refused) = 1 ∧
      ∀ e, t.phase true ≠ .completed (some e) := by
  obtain ⟨t, hrun, hcommits⟩ : ∃ t, Machine.run (step (blocksOf twoToggles))
      (initial (blocksOf twoToggles) oneUser) twoTogglesRun = some t ∧ t.commits = [false, true] :=
    ⟨_, rfl, rfl⟩
  have h := toggle_fails_only_if twoToggles oneUser twoTogglesRun t true rfl listsOrMissing_oneUser
    ⟨_, [], rfl, rfl⟩ (by decide) (by decide) hrun
  rw [hcommits] at h
  exact ⟨t, hrun, by decide, h.resolve_right (by decide)⟩

/-! ### Calls that have nothing to write -/

/-- The list already is as the call wants it. -/
def Settled (c : ListCall) (users : Collection) : Prop :=
  match c.op.edit with
  | .extend => c.op.element ∈ items users c.id c.op.key
  | .shrink => c.op.element ∉ items users c.id c.op.key
  | .flip => False

theorem mem_onList_ne (edit : ListEdit) (xs : List DString) {x y : DString} (h : x ≠ y) :
    x ∈ edit.onList xs y ↔ x ∈ xs := by
  cases edit with
  | extend => simp [ListEdit.onList, h]
  | shrink => simp [ListEdit.onList, h]
  | flip => exact ListSet.mem_toggle_ne h

/-- Calls of the same kind keep the list as it is wanted. -/
theorem settled_exec {c d : ListCall} {users : Collection} (hlists : ListsOrMissing users)
    (hsame : d.id = c.id → d.op.key = c.op.key → d.op.element = c.op.element →
      d.op.edit = c.op.edit) (h : Settled c users) : Settled c (d.exec users).2 := by
  have hitems := items_exec d (hlists _ (key_mem_listFields d.op)) c.id c.op.key
  unfold Settled at h ⊢
  rw [hitems]
  by_cases hcond : (d.exec users).1 = true ∧ c.id = d.id ∧ c.op.key = d.op.key
  · rw [if_pos hcond]
    by_cases hx : c.op.element = d.op.element
    · rw [hsame hcond.2.1.symm hcond.2.2.symm hx.symm, ← hx]
      cases he : c.op.edit with
      | extend => simp [ListEdit.onList]
      | shrink => simp [ListEdit.onList]
      | flip =>
        rw [he] at h
        exact h
    · cases he : c.op.edit with
      | extend =>
        rw [he] at h
        exact (mem_onList_ne d.op.edit _ hx).mpr h
      | shrink =>
        rw [he] at h
        exact fun hmem => h ((mem_onList_ne d.op.edit _ hx).mp hmem)
      | flip =>
        rw [he] at h
        exact h
  · rw [if_neg hcond]
    exact h

/-- The body of such a call writes nothing. -/
theorem body_settled {c : ListCall} {users : Collection} (hlists : ListsOrMissing users)
    (h : Settled c users) :
    listBody c.op.edit c.op.key c.op.element c.id (users c.id) = .done ∨
      ∃ e, listBody c.op.edit c.op.key c.op.element c.id (users c.id) = .fail e := by
  unfold Settled at h
  cases he : c.op.edit with
  | extend =>
    rw [he] at h
    obtain ⟨d, xs, hd, hf, hx⟩ := exists_list_of_mem h
    exact Or.inl (by simp [listBody, hd, hf, contains, hx, fieldValue])
  | shrink =>
    rw [he] at h
    cases hd : users c.id with
    | none => exact Or.inl rfl
    | some d =>
      cases hf : field d c.op.key with
      | null => exact Or.inr ⟨.noSuchMethod, by simp [listBody, hf, contains]⟩
      | str s => exact absurd hf (hlists _ (key_mem_listFields c.op) c.id d s hd)
      | list xs =>
        have hx : c.op.element ∉ xs := by
          have hx : c.op.element ∉ items users c.id c.op.key := h
          rwa [items_of_list hd hf] at hx
        exact Or.inl (by simp [listBody, hf, contains, hx, fieldValue])
  | flip =>
    rw [he] at h
    exact h.elim

/-- The state of a store of list fields in which the call has nothing to write. -/
def Idle (c : ListCall) (s : Server) : Prop := ListsOrMissing s.values ∧ Settled c s.values

theorem reached_idle {c : ListCall} {tx : Transaction} {rest : Block}
    (h : Reached (Idle c) (callBlock c) tx rest) :
    (tx = {} ∧ rest = callBlock c) ∨
      ∃ s, tx = looked c.id s ∧ (rest = .done ∨ ∃ e, rest = .fail e) := by
  induction h with
  | start => exact Or.inl ⟨rfl, rfl⟩
  | @step s tx tx' rest rest' _ hIs hstep ih =>
    obtain ⟨htx, hrest⟩ | ⟨u, htx, hrest⟩ := ih
    · subst htx hrest
      cases hstep
      exact Or.inr ⟨s, rfl, body_settled hIs.1 hIs.2⟩
    · obtain hrest | ⟨e, hrest⟩ := hrest
      · subst hrest
        exact nomatch hstep
      · subst hrest
        exact nomatch hstep

/-- **Nothing to write is no success.**  A client adds what is in the list, or removes what is not, and
every other call about this entry is of the same kind: the call never commits and never completes
with success, since the document it reads is not written. -/
theorem writesNothing_fails (calls : ι → ListCall) (server : Server) (es : List (Event ι))
    (t : State ι) (i : ι) (hlists : ListsOrMissing server.values)
    (hsettled : Settled (calls i) server.values)
    (hsame : ∀ j, (calls j).id = (calls i).id → (calls j).op.key = (calls i).op.key →
      (calls j).op.element = (calls i).op.element → (calls j).op.edit = (calls i).op.edit)
    (hrun : Machine.run (step (blocksOf calls)) (initial (blocksOf calls) server) es = some t) :
    i ∉ t.commits ∧ t.phase i ≠ .completed none := by
  refine futile_run (I := Idle (calls i)) (fun tx mutations h hcommit => ?_) ⟨hlists, hsettled⟩
    (fun j u u' hu h => ?_) hrun
  · obtain ⟨-, hrest⟩ | ⟨s, htx, -⟩ := reached_idle h
    · exact nomatch hrest
    · rw [htx] at hcommit
      cases hcommit
  · have hexec : u'.values = ((served (calls j)).exec u.values).2 :=
      (congrArg Prod.snd (exec_served h)).symm
    rw [Idle, hexec]
    exact ⟨listsOrMissing_exec _ hu.1, settled_exec hu.1 (hsame j) hu.2⟩

/-- Inviting a user who is invited already uses up all six attempts. -/
theorem writesNothing_fails_invited :
    let calls : Unit → ListCall := fun _ => { id := "u1", op := .sendInvitations (some "u2") 0 }
    ∃ t, Machine.run (step (blocksOf calls)) (initial (blocksOf calls) oneUser)
        [.call (), .cannotCommit (), .call (), .cannotCommit (), .call (), .cannotCommit (),
          .call (), .cannotCommit (), .call (), .cannotCommit (), .call (), .cannotCommit ()] =
        some t ∧ t.phase () = .completed (some (.failedAllRetries .readNotWritten)) ∧
      () ∉ t.commits := by
  intro calls
  obtain ⟨t, hrun, hphase⟩ : ∃ t, Machine.run (step (blocksOf calls))
      (initial (blocksOf calls) oneUser)
      [.call (), .cannotCommit (), .call (), .cannotCommit (), .call (), .cannotCommit (),
        .call (), .cannotCommit (), .call (), .cannotCommit (), .call (), .cannotCommit ()] =
      some t ∧ t.phase () = .completed (some (.failedAllRetries .readNotWritten)) := ⟨_, rfl, rfl⟩
  have hsettled : Settled (calls ()) oneUser.values := by
    show some "u2" ∈ items oneUser.values "u1" "invitations"
    decide
  exact ⟨t, hrun, hphase, (writesNothing_fails calls oneUser _ t () listsOrMissing_oneUser hsettled
    (fun _ _ _ _ => rfl) hrun).1⟩

end GiftGenie.ListTransactionRuns
