import GiftGenie.ListTransactionRuns
import Mathlib.Algebra.Order.BigOperators.Group.Finset

/-!
# The books of the contact lists

`sendInvitations` writes a contact into the invitations or the friends of a user, and
`updateInvitations` takes it out.  Both write only if there is something to change: an entry that is
there is not added again, and one that is not there is not removed.  So the effects of the two can be
counted against each other, whatever answers are lost.

* `contacts_balance`: over a run, entries written and entries taken out make up the difference.
* `at_most_once`: calls of one kind on one entry take effect once in all, and a call whose answer was
  lost is not repeated with success.
-/

set_option autoImplicit false

namespace GiftGenie.ContactBalance

open GiftGenie.Library GiftGenie.Firestore GiftGenie.ListTransactions GiftGenie.ListHistories
  GiftGenie.Mutations GiftGenie.Transactions GiftGenie.TransactionRuns GiftGenie.ListTransactionRuns

/-- The call is about the entry `x` in the list `key` of the document `id`. -/
def about (id key : String) (x : DString) (c : ListCall) : Prop :=
  c.id = id ∧ c.op.key = key ∧ c.op.element = x

instance (id key : String) (x : DString) : DecidablePred (about id key x) :=
  fun c => inferInstanceAs (Decidable (c.id = id ∧ c.op.key = key ∧ c.op.element = x))

/-- The call makes this edit of the entry. -/
def edits (edit : ListEdit) (id key : String) (x : DString) (c : ListCall) : Prop :=
  about id key x c ∧ c.op.edit = edit

instance (edit : ListEdit) (id key : String) (x : DString) : DecidablePred (edits edit id key x) :=
  fun c => inferInstanceAs (Decidable (about id key x c ∧ c.op.edit = edit))

/-- One if the entry is in the list. -/
def entry (id key : String) (x : DString) (users : Collection) : ℕ :=
  ((items users id key).any fun y => y = x).toNat

theorem entry_of_mem {id key : String} {x : DString} {users : Collection}
    (h : x ∈ items users id key) : entry id key x users = 1 := by
  rw [entry, List.any_eq_true.mpr ⟨x, h, decide_eq_true rfl⟩]
  rfl

theorem entry_of_not_mem {id key : String} {x : DString} {users : Collection}
    (h : x ∉ items users id key) : entry id key x users = 0 := by
  have hany : ((items users id key).any fun y => y = x) = false :=
    List.any_eq_false.mpr fun y hy hyx => h (of_decide_eq_true hyx ▸ hy)
  rw [entry, hany]
  rfl

theorem entry_eq_one {id key : String} {x : DString} {users : Collection} :
    entry id key x users = 1 ↔ x ∈ items users id key := by
  by_cases h : x ∈ items users id key
  · simp [entry_of_mem h, h]
  · simp [entry_of_not_mem h, h]

theorem entry_le_one (id key : String) (x : DString) (users : Collection) :
    entry id key x users ≤ 1 := Bool.toNat_le _

/-- No toggle addresses a contact list. -/
theorem edit_modeField {op : ListOp} {mode : ℤ} (h : op.key = modeField mode) :
    op.edit = .extend ∨ op.edit = .shrink := by
  cases op with
  | sendInvitations uid m => exact Or.inl rfl
  | updateInvitations uid m => exact Or.inr rfl
  | updateFavorites p => exact absurd h.symm (modeField_ne_favorites mode)
  | updateRecommended p => exact absurd h.symm (modeField_ne_recommended mode)

/-! ### One commit -/

/-- What is committed had something to change. -/
theorem not_settled_of_attempt {c : ListCall} {s s' : Server} (hlists : ListsOrMissing s.values)
    (h : attempt (callBlock c) s = .ok s') : ¬Settled c s.values := by
  intro hsettled
  obtain hdone | ⟨e, hfail⟩ := body_settled hlists hsettled
  · have herr : attempt (callBlock c) s = .error .readNotWritten := attempt_done hdone
    rw [h] at herr
    cases herr
  · have herr : attempt (callBlock c) s = .error (.block e) := attempt_fail hfail
    rw [h] at herr
    cases herr

/-- The elements after a commit. -/
theorem items_attempt {c : ListCall} {s s' : Server} (hlists : ListsOrMissing s.values)
    (h : attempt (callBlock c) s = .ok s') (id key : String) :
    items s'.values id key =
      if c.id = id ∧ c.op.key = key then c.op.edit.onList (items s.values id key) c.op.element
      else items s.values id key := by
  have hexec := exec_served h
  have hitems := items_exec (served c) (hlists _ (key_mem_listFields _)) id key
  rw [hexec] at hitems
  rw [hitems]
  by_cases hthere : c.id = id ∧ c.op.key = key
  · rw [if_pos hthere, if_pos ⟨rfl, hthere.1.symm, hthere.2.symm⟩]
    rfl
  · rw [if_neg hthere, if_neg fun hcond => hthere ⟨hcond.2.1.symm, hcond.2.2.symm⟩]

/-- A commit about something else leaves the entry alone. -/
theorem entry_frame {c : ListCall} {s s' : Server} (hlists : ListsOrMissing s.values)
    (h : attempt (callBlock c) s = .ok s') {id key : String} {x : DString}
    (hnot : ¬about id key x c) : entry id key x s'.values = entry id key x s.values := by
  have hmem : x ∈ items s'.values id key ↔ x ∈ items s.values id key := by
    rw [items_attempt hlists h]
    by_cases hthere : c.id = id ∧ c.op.key = key
    · have hx : x ≠ c.op.element := fun hx => hnot ⟨hthere.1, hthere.2, hx.symm⟩
      rw [if_pos hthere]
      exact mem_onList_ne _ _ hx
    · rw [if_neg hthere]
  by_cases hx : x ∈ items s.values id key
  · rw [entry_of_mem hx, entry_of_mem (hmem.mpr hx)]
  · rw [entry_of_not_mem hx, entry_of_not_mem fun hx' => hx (hmem.mp hx')]

/-- A commit that adds the entry finds it missing and leaves it there. -/
theorem entry_extend {c : ListCall} {s s' : Server} (hlists : ListsOrMissing s.values)
    (h : attempt (callBlock c) s = .ok s') {id key : String} {x : DString}
    (hc : edits .extend id key x c) :
    entry id key x s.values = 0 ∧ entry id key x s'.values = 1 := by
  obtain ⟨⟨hid, hkey, hx⟩, hedit⟩ := hc
  have hbefore : x ∉ items s.values id key := by
    have hnot := not_settled_of_attempt hlists h
    rw [Settled, hedit, hid, hkey, hx] at hnot
    exact hnot
  have hafter : x ∈ items s'.values id key := by
    rw [items_attempt hlists h, if_pos ⟨hid, hkey⟩, hedit, hx]
    simp [ListEdit.onList]
  exact ⟨entry_of_not_mem hbefore, entry_of_mem hafter⟩

/-- A commit that removes the entry finds it there and leaves it missing. -/
theorem entry_shrink {c : ListCall} {s s' : Server} (hlists : ListsOrMissing s.values)
    (h : attempt (callBlock c) s = .ok s') {id key : String} {x : DString}
    (hc : edits .shrink id key x c) :
    entry id key x s.values = 1 ∧ entry id key x s'.values = 0 := by
  obtain ⟨⟨hid, hkey, hx⟩, hedit⟩ := hc
  have hbefore : x ∈ items s.values id key := by
    have hnot := not_settled_of_attempt hlists h
    rw [Settled, hedit, hid, hkey, hx] at hnot
    exact not_not.mp hnot
  have hafter : x ∉ items s'.values id key := by
    rw [items_attempt hlists h, if_pos ⟨hid, hkey⟩, hedit, hx]
    simp [ListEdit.onList]
  exact ⟨entry_of_mem hbefore, entry_of_not_mem hafter⟩

/-- What one commit moves. -/
theorem entry_attempt {c : ListCall} {s s' : Server} (hlists : ListsOrMissing s.values)
    (h : attempt (callBlock c) s = .ok s') (id : String) (mode : ℤ) (x : DString) :
    entry id (modeField mode) x s.values + (decide (edits .extend id (modeField mode) x c)).toNat =
      entry id (modeField mode) x s'.values +
        (decide (edits .shrink id (modeField mode) x c)).toNat := by
  by_cases habout : about id (modeField mode) x c
  · obtain hedit | hedit := edit_modeField habout.2.1
    · obtain ⟨hbefore, hafter⟩ := entry_extend hlists h ⟨habout, hedit⟩
      simp [hbefore, hafter, edits, habout, hedit]
    · obtain ⟨hbefore, hafter⟩ := entry_shrink hlists h ⟨habout, hedit⟩
      simp [hbefore, hafter, edits, habout, hedit]
  · simp [entry_frame hlists h habout, edits, habout]

/-! ### Runs -/

variable {ι : Type} [DecidableEq ι]

omit [DecidableEq ι] in
theorem attempt_of_serially {blocks : ι → Block} {i : ι} {s : Server}
    (h : (serially blocks i s).1 = true) :
    attempt (blocks i) s = .ok (serially blocks i s).2 := by
  cases hb : attempt (blocks i) s with
  | ok s' => rw [serially, SerialHistory.atomically_ok hb]
  | error e =>
    rw [serially, SerialHistory.atomically_error hb] at h
    cases h

omit [DecidableEq ι] in
theorem listsOrMissing_serially (calls : ι → ListCall) (i : ι) {s : Server}
    (hlists : ListsOrMissing s.values) :
    ListsOrMissing (serially (blocksOf calls) i s).2.values := by
  cases hb : attempt (callBlock (calls i)) s with
  | ok s' =>
    have hs : serially (blocksOf calls) i s = (true, s') := SerialHistory.atomically_ok hb
    have hvalues : s'.values = ((served (calls i)).exec s.values).2 :=
      (congrArg Prod.snd (exec_served hb)).symm
    rw [hs, hvalues]
    exact listsOrMissing_exec _ hlists
  | error e =>
    have hs : serially (blocksOf calls) i s = (false, s) := SerialHistory.atomically_error hb
    rw [hs]
    exact hlists

theorem balance [Fintype ι] {calls : ι → ListCall} {server : Server} {es : List (Event ι)}
    {t : State ι} (hlists : ListsOrMissing server.values)
    (hrun : Machine.run (step (blocksOf calls)) (initial (blocksOf calls) server) es = some t)
    (uid : String) (mode : ℤ) (x : DString) :
    entry uid (modeField mode) x server.values +
        ∑ i with edits .extend uid (modeField mode) x (calls i), effects es t i =
      entry uid (modeField mode) x t.server.values +
        ∑ i with edits .shrink uid (modeField mode) x (calls i), effects es t i := by
  have hserial := Machine.run_invariant serial_step es _ t (serial_initial _ server) hrun
  have hmoves : ∀ (i : ι) (s : Server), ListsOrMissing s.values →
      (serially (blocksOf calls) i s).1 = true →
      entry uid (modeField mode) x s.values +
          (decide (edits .extend uid (modeField mode) x (calls i))).toNat =
        entry uid (modeField mode) x (serially (blocksOf calls) i s).2.values +
          (decide (edits .shrink uid (modeField mode) x (calls i))).toNat :=
    fun i s hs hi => entry_attempt hs (attempt_of_serially hi) uid mode x
  have hbalance := SerialHistory.final_balance (I := fun s => ListsOrMissing s.values)
    (fun s => entry uid (modeField mode) x s.values) _ _
    (fun i s hs => listsOrMissing_serially calls i hs) hmoves t.commits server hlists
    hserial.succeed
  rw [← hserial.server] at hbalance
  rw [← countP_commits hrun, ← countP_commits hrun]
  exact hbalance

/-- **The books balance.**  Any number of clients run list transactions at once, with retries and lost
answers: an entry of a contact list that was there at the start, or was written by an effect of
`sendInvitations`, is there at the end or was taken out by an effect of `updateInvitations`, and each
effect is counted once. -/
theorem contacts_balance [Fintype ι] (calls : ι → ListCall) (server : Server) (es : List (Event ι))
    (t : State ι) (hlists : ListsOrMissing server.values)
    (hrun : Machine.run (step (blocksOf calls)) (initial (blocksOf calls) server) es = some t)
    (uid : String) (mode : ℤ) (x : DString) :
    entry uid (modeField mode) x server.values +
        ∑ i with edits .extend uid (modeField mode) x (calls i), effects es t i =
      entry uid (modeField mode) x t.server.values +
        ∑ i with edits .shrink uid (modeField mode) x (calls i), effects es t i :=
  balance hlists hrun uid mode x

/-- The invitation of `u2` is taken out by one client and written again by another, which had to
repeat its commit. -/
def takenAndSent : Bool → ListCall
  | false => { id := "u1", op := .updateInvitations (some "u2") 0 }
  | true => { id := "u1", op := .sendInvitations (some "u2") 0 }

def takenAndSentRun : List (Event Bool) :=
  [.call false, .call false, .commit false .lost, .call true, .call true, .commit true .refused,
    .call true, .call true, .commit true .accepted, .call false, .call false,
    .commit false .accepted]

theorem contacts_balance_takenAndSent :
    ∃ t, Machine.run (step (blocksOf takenAndSent)) (initial (blocksOf takenAndSent) oneUser)
        takenAndSentRun = some t ∧ some "u2" ∉ items t.server.values "u1" "invitations" := by
  obtain ⟨t, hrun, hphase⟩ : ∃ t, Machine.run (step (blocksOf takenAndSent))
      (initial (blocksOf takenAndSent) oneUser) takenAndSentRun = some t ∧
      ∀ i, (t.phase i).succeeded = true := ⟨_, rfl, by decide⟩
  refine ⟨t, hrun, ?_⟩
  have h := contacts_balance takenAndSent oneUser takenAndSentRun t listsOrMissing_oneUser hrun "u1" 0
    (some "u2")
  have hstart : entry "u1" (modeField 0) (some "u2") oneUser.values = 1 := by decide
  have hsent : ∑ i with edits .extend "u1" (modeField 0) (some "u2") (takenAndSent i),
      effects takenAndSentRun t i = 1 := by
    simp only [effects, hphase]
    decide
  have htaken : ∑ i with edits .shrink "u1" (modeField 0) (some "u2") (takenAndSent i),
      effects takenAndSentRun t i = 2 := by
    simp only [effects, hphase]
    decide
  intro hmem
  have hend : entry "u1" (modeField 0) (some "u2") t.server.values = 1 := entry_of_mem hmem
  omega

/-! ### Calls of one kind -/

theorem settled_extend {c : ListCall} {users : Collection} (h : c.op.edit = .extend) :
    Settled c users ↔ entry c.id c.op.key c.op.element users = 1 := by
  rw [Settled, h]
  exact entry_eq_one.symm

theorem settled_shrink {c : ListCall} {users : Collection} (h : c.op.edit = .shrink) :
    Settled c users ↔ entry c.id c.op.key c.op.element users = 0 := by
  rw [Settled, h]
  show c.op.element ∉ items users c.id c.op.key ↔ _
  rw [← entry_eq_one]
  have hle := entry_le_one c.id c.op.key c.op.element users
  omega

theorem exists_mode {op : ListOp} (h : op.edit ≠ .flip) : ∃ mode, op.key = modeField mode := by
  cases op with
  | sendInvitations uid mode => exact ⟨mode, rfl⟩
  | updateInvitations uid mode => exact ⟨mode, rfl⟩
  | updateFavorites p => exact absurd rfl h
  | updateRecommended p => exact absurd rfl h

omit [DecidableEq ι] in
/-- Where all calls on the entry make one edit, none makes another. -/
theorem sum_edits [Fintype ι] {calls : ι → ListCall} {edit edit' : ListEdit} {id key : String}
    {x : DString} (hsame : ∀ j, about id key x (calls j) → (calls j).op.edit = edit)
    (f : ι → ℕ) :
    ∑ j with edits edit' id key x (calls j), f j =
      if edit' = edit then ∑ j with about id key x (calls j), f j else 0 := by
  by_cases he : edit' = edit
  · subst he
    rw [if_pos rfl]
    refine Finset.sum_congr (Finset.filter_congr fun j _ => ?_) fun _ _ => rfl
    exact ⟨fun h => h.1, fun h => ⟨h, hsame j h⟩⟩
  · rw [if_neg he]
    refine Finset.sum_eq_zero fun j hj => absurd ?_ he
    obtain ⟨habout, hedit⟩ := (Finset.mem_filter.mp hj).2
    exact hedit.symm.trans (hsame j habout)

theorem effects_le_sum [Fintype ι] (calls : ι → ListCall) (es : List (Event ι)) (t : State ι) (i : ι) :
    effects es t i ≤
      ∑ j with about (calls i).id (calls i).op.key (calls i).op.element (calls j), effects es t j :=
  Finset.single_le_sum (f := effects es t) (fun _ _ => Nat.zero_le _)
    (Finset.mem_filter.mpr ⟨Finset.mem_univ i, rfl, rfl, rfl⟩)

/-- The effects of calls of one kind, and what they leave. -/
theorem sum_effects [Fintype ι] {calls : ι → ListCall} {server : Server} {es : List (Event ι)}
    {t : State ι} {i : ι} (hlists : ListsOrMissing server.values) (hedit : (calls i).op.edit ≠ .flip)
    (hsame : ∀ j, about (calls i).id (calls i).op.key (calls i).op.element (calls j) →
      (calls j).op.edit = (calls i).op.edit)
    (hrun : Machine.run (step (blocksOf calls)) (initial (blocksOf calls) server) es = some t) :
    ∑ j with about (calls i).id (calls i).op.key (calls i).op.element (calls j), effects es t j ≤ 1 ∧
      (Settled (calls i) t.server.values ↔ Settled (calls i) server.values ∨
        ∑ j with about (calls i).id (calls i).op.key (calls i).op.element (calls j),
          effects es t j = 1) := by
  obtain ⟨mode, hkey⟩ := exists_mode hedit
  have hbalance := balance hlists hrun (calls i).id mode (calls i).op.element
  rw [← hkey, sum_edits hsame, sum_edits hsame] at hbalance
  have hstart := entry_le_one (calls i).id (calls i).op.key (calls i).op.element server.values
  have hend := entry_le_one (calls i).id (calls i).op.key (calls i).op.element t.server.values
  cases he : (calls i).op.edit with
  | extend =>
    rw [settled_extend he, settled_extend he]
    simp only [he, if_true, if_neg (show ListEdit.shrink ≠ .extend by decide)] at hbalance
    omega
  | shrink =>
    rw [settled_shrink he, settled_shrink he]
    simp only [he, if_true, if_neg (show ListEdit.extend ≠ .shrink by decide)] at hbalance
    omega
  | flip => exact absurd he hedit

/-- **At most once, and then an error.**  All calls on an entry of a contact list make the same edit,
adding it or taking it out: together they take effect at most once, the entry ends as they want it
exactly if it was so or one of them took effect, and a call that has lost the answer to its commit
never completes with success although the entry is as it wants it. -/
theorem at_most_once [Fintype ι] (calls : ι → ListCall) (server : Server) (es : List (Event ι))
    (t : State ι) (i : ι) (hlists : ListsOrMissing server.values)
    (hedit : (calls i).op.edit ≠ .flip)
    (hsame : ∀ j, about (calls i).id (calls i).op.key (calls i).op.element (calls j) →
      (calls j).op.edit = (calls i).op.edit)
    (hrun : Machine.run (step (blocksOf calls)) (initial (blocksOf calls) server) es = some t) :
    ∑ j with about (calls i).id (calls i).op.key (calls i).op.element (calls j), effects es t j ≤ 1 ∧
      (Settled (calls i) t.server.values ↔ Settled (calls i) server.values ∨
        ∑ j with about (calls i).id (calls i).op.key (calls i).op.element (calls j),
          effects es t j = 1) ∧
      (.commit i .lost ∈ es → t.phase i ≠ .completed none ∧ Settled (calls i) t.server.values) := by
  obtain ⟨hsum, hsettled⟩ := sum_effects hlists hedit hsame hrun
  refine ⟨hsum, hsettled, fun hlost => ?_⟩
  have hown := effects_le_sum calls es t i
  have hcount : 0 < es.count (.commit i .lost) := List.count_pos_iff.mpr hlost
  have hone : es.count (.commit i .lost) + (t.phase i).succeeded.toNat = effects es t i := rfl
  constructor
  · intro hphase
    -- the lost effect and the success would be two
    rw [hphase, show (Phase.completed none).succeeded.toNat = 1 from rfl] at hone
    omega
  · refine hsettled.mpr (Or.inr ?_)
    omega

/-- The invitation is in the list, and the client that sent it gives up. -/
theorem at_most_once_sent :
    let calls : Unit → ListCall := fun _ => { id := "u1", op := .sendInvitations (some "u7") 0 }
    ∃ t, Machine.run (step (blocksOf calls)) (initial (blocksOf calls) oneUser)
        [.call (), .call (), .commit () .lost, .call (), .cannotCommit ()] = some t ∧
      t.phase () ≠ .completed none ∧ some "u7" ∈ items t.server.values "u1" "invitations" := by
  intro calls
  obtain ⟨t, hrun⟩ : ∃ t, Machine.run (step (blocksOf calls)) (initial (blocksOf calls) oneUser)
      [.call (), .call (), .commit () .lost, .call (), .cannotCommit ()] = some t := ⟨_, rfl⟩
  have h := at_most_once calls oneUser _ t () listsOrMissing_oneUser (by decide)
    (fun _ _ => rfl) hrun
  exact ⟨t, hrun, h.2.2 (by decide)⟩

end GiftGenie.ContactBalance
