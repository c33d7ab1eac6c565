import GiftGenie.Contacts
import GiftGenie.Library.Machine

/-!
# Friends lists over whole runs

Any number of users send invitations, accept, decline and delete.  An action only starts its
transactions; Firestore commits the started ones later, one at a time and in any order, or gives
them up.  All users are identified by one id.

Every transaction of an Accept or a Delete addresses the document of the user who tapped, and none
addresses the document of the other side.  So a friends list records the decisions of its owner
alone (`friends_one_sided`): `x` is a friend of `u` exactly if the last transaction committed on
that entry, one that `u` started, added it.
-/

set_option autoImplicit false

namespace GiftGenie.Friendship

open GiftGenie.Library GiftGenie.Firestore GiftGenie.ListTransactions GiftGenie.ListHistories
open GiftGenie.Contacts

/-- The store, the started transactions, and those that have committed, the latest first. -/
structure Network where
  users : Collection
  pending : List ListCall
  committed : List ListCall

def Network.start (users : Collection) : Network := ⟨users, [], []⟩

inductive Action where
  | send (sender target : String)
  | accept (user inviter : String)
  | decline (user inviter : String)
  | delete (user friend : String)
  | commit (i : ℕ) (served : Bool)
  deriving DecidableEq, Repr

/-- Commit one transaction; it is recorded if it answers `true`. -/
def Network.commit (s : Network) (c : ListCall) (pending : List ListCall) : Network where
  users := (c.exec s.users).2
  pending := pending
  committed := if (c.exec s.users).1 then c :: s.committed else s.committed

/-- What an action starts. -/
def started : Action → List ListCall
  | .send sender target => [{ id := target, op := .sendInvitations (some sender) 0 }]
  | .accept user inviter => acceptReq (some inviter) user
  | .decline user inviter => declineReq (some inviter) user
  | .delete user friend => Contacts.delete (some friend) user
  | .commit _ _ => []

def step (s : Network) : Action → Option Network
  | .commit i served =>
      match s.pending[i]? with
      | some c => some (s.commit { c with served := served } (s.pending.eraseIdx i))
      | none => none
  | a => some { s with pending := s.pending ++ started a }

/-- What a step does: start transactions, or commit a pending one. -/
theorem step_cases {s s' : Network} {a : Action} (h : step s a = some s') :
    s' = { s with pending := s.pending ++ started a } ∨
      ∃ i served c, s.pending[i]? = some c ∧
        s' = s.commit { c with served := served } (s.pending.eraseIdx i) := by
  cases a with
  | send sender target => exact Or.inl (Option.some.inj h).symm
  | accept user inviter => exact Or.inl (Option.some.inj h).symm
  | decline user inviter => exact Or.inl (Option.some.inj h).symm
  | delete user friend => exact Or.inl (Option.some.inj h).symm
  | commit i served =>
    rw [step] at h
    cases hc : s.pending[i]? with
    | none =>
      rw [hc] at h
      cases h
    | some c =>
      rw [hc] at h
      exact Or.inr ⟨i, served, c, hc, (Option.some.inj h).symm⟩

/-- `x` is in the friends list of `u`. -/
def IsFriend (s : Network) (u x : String) : Prop := some x ∈ items s.users u "friends"

/-- The call writes the entry `x` of the friends list of `u`. -/
def editsFriend (u x : String) (c : ListCall) : Bool :=
  decide (c.id = u ∧ c.op.key = "friends" ∧ c.op.element = some x)

/-- The last committed transaction on the entry `x` of the friends list of `u` added it. -/
def LastAdded (committed : List ListCall) (u x : String) : Prop :=
  ∃ c, committed.find? (editsFriend u x) = some c ∧ c.op.edit = .extend

theorem lastAdded_cons_self {c : ListCall} {u x : String} (h : editsFriend u x c = true)
    (committed : List ListCall) : LastAdded (c :: committed) u x ↔ c.op.edit = .extend := by
  simp [LastAdded, h]

theorem lastAdded_cons_other {c : ListCall} {u x : String} (h : editsFriend u x c = false)
    (committed : List ListCall) : LastAdded (c :: committed) u x ↔ LastAdded committed u x := by
  simp only [LastAdded, List.find?_cons, h]

/-! ### One commit -/

/-- A call on a contact list extends or shrinks it. -/
theorem edit_friends {op : ListOp} (h : op.key = "friends") :
    op.edit = .extend ∨ op.edit = .shrink := by
  cases op with
  | sendInvitations uid mode => exact Or.inl rfl
  | updateInvitations uid mode => exact Or.inr rfl
  | updateFavorites productId => simp [ListOp.key] at h
  | updateRecommended productId => simp [ListOp.key] at h

/-- What the friends lists record about the committed transactions. -/
structure Recorded (s : Network) : Prop where
  lists : ListsOrMissing s.users
  friends : ∀ u x, IsFriend s u x ↔ LastAdded s.committed u x

theorem recorded_commit {s : Network} (h : Recorded s) (c : ListCall) (pending : List ListCall) :
    Recorded (s.commit c pending) := by
  refine ⟨listsOrMissing_exec c h.lists, fun u x => ?_⟩
  have hold := h.friends u x
  rw [IsFriend] at hold
  rw [IsFriend, Network.commit, items_exec c (h.lists _ (key_mem_listFields c.op))]
  cases hans : (c.exec s.users).1 with
  | false => simpa using hold
  | true =>
    show _ ↔ LastAdded (c :: s.committed) u x
    by_cases hlist : u = c.id ∧ "friends" = c.op.key
    · -- the call edits the friends list of `u`
      obtain ⟨hid, hkey⟩ := hlist
      rw [if_pos ⟨rfl, hid, hkey⟩]
      by_cases hx : c.op.element = some x
      · have hedits : editsFriend u x c = true := by simp [editsFriend, hid, ← hkey, hx]
        rw [lastAdded_cons_self hedits, hx]
        rcases edit_friends hkey.symm with he | he
        · simp [he, ListEdit.onList]
        · simp [he, ListEdit.onList]
      · have hedits : editsFriend u x c = false := by simp [editsFriend, hx]
        have hx' : some x ≠ c.op.element := fun e => hx e.symm
        rw [lastAdded_cons_other hedits, ← hold]
        rcases edit_friends hkey.symm with he | he
        · simp [he, ListEdit.onList, hx']
        · simp [he, ListEdit.onList, hx']
    · have hedits : editsFriend u x c = false := by
        simp only [editsFriend, decide_eq_false_iff_not]
        exact fun hc => hlist ⟨hc.1.symm, hc.2.1.symm⟩
      rw [lastAdded_cons_other hedits, if_neg fun hc => hlist hc.2]
      exact hold

theorem recorded_step (s : Network) (a : Action) (s' : Network) (h : Recorded s)
    (hstep : step s a = some s') : Recorded s' := by
  rcases step_cases hstep with rfl | ⟨i, served, c, -, rfl⟩
  · exact ⟨h.lists, h.friends⟩
  · exact recorded_commit h _ _

/-! ### Runs -/

theorem recorded_start {users : Collection} (hlists : ListsOrMissing users)
    (hempty : ∀ u, items users u "friends" = []) : Recorded (Network.start users) where
  lists := hlists
  friends := fun u x => by simp [IsFriend, Network.start, LastAdded, hempty u]

/-- The friends lists of a run from empty friends lists. -/
theorem recorded_run {users : Collection} (hlists : ListsOrMissing users)
    (hempty : ∀ u, items users u "friends" = []) {acts : List Action} {s : Network}
    (hrun : Machine.run step (Network.start users) acts = some s) : Recorded s :=
  Machine.run_invariant recorded_step acts _ s (recorded_start hlists hempty) hrun

/-! ### Who started a transaction -/

/-- A transaction on a friends list was started by its owner: by an Accept if it adds, by a Delete
if it removes. -/
def OwnAction (acts : List Action) (c : ListCall) : Prop :=
  c.op.key = "friends" →
    (∃ x, Action.accept c.id x ∈ acts ∧ c.op = .sendInvitations (some x) 1) ∨
      ∃ x, Action.delete c.id x ∈ acts ∧ c.op = .updateInvitations (some x) 1

def Owned (acts : List Action) (s : Network) : Prop :=
  ∀ c ∈ s.pending ++ s.committed, OwnAction acts c

theorem ownAction_started {acts : List Action} {a : Action} (ha : a ∈ acts) :
    ∀ c ∈ started a, OwnAction acts c := by
  intro c hc hkey
  cases a with
  | send sender target =>
    rw [List.mem_singleton.mp hc] at hkey
    simp [ListOp.key, modeField] at hkey
  | accept user inviter =>
    rcases List.mem_cons.mp hc with rfl | hc
    · exact Or.inl ⟨inviter, ha, rfl⟩
    · rw [List.mem_singleton.mp hc] at hkey
      simp [ListOp.key, modeField] at hkey
  | decline user inviter =>
    rw [List.mem_singleton.mp hc] at hkey
    simp [ListOp.key, modeField] at hkey
  | delete user friend =>
    rw [List.mem_singleton.mp hc]
    exact Or.inr ⟨friend, ha, rfl⟩
  | commit i served => cases hc

theorem owned_step {acts : List Action} (s : Network) (a : Action) (s' : Network)
    (h : Owned acts s) (ha : a ∈ acts) (hstep : step s a = some s') : Owned acts s' := by
  rcases step_cases hstep with rfl | ⟨i, served, c, hc, rfl⟩
  · intro d hd
    rw [List.append_assoc, List.mem_append, List.mem_append] at hd
    rcases hd with hd | hd | hd
    · exact h d (List.mem_append_left _ hd)
    · exact ownAction_started ha d hd
    · exact h d (List.mem_append_right _ hd)
  · intro d hd
    have hpend : ∀ e ∈ s.pending.eraseIdx i, OwnAction acts e :=
      fun e he => h e (List.mem_append_left _ (List.mem_of_mem_eraseIdx he))
    have hcomm : ∀ e ∈ s.committed, OwnAction acts e :=
      fun e he => h e (List.mem_append_right _ he)
    have hown : OwnAction acts { c with served := served } :=
      h c (List.mem_append_left _ (List.mem_of_getElem? hc))
    rcases List.mem_append.mp hd with hd | hd
    · exact hpend d hd
    · simp only [Network.commit] at hd
      split at hd
      · rcases List.mem_cons.mp hd with rfl | hd
        · exact hown
        · exact hcomm d hd
      · exact hcomm d hd

theorem owned_run {users : Collection} {acts : List Action} {s : Network}
    (hrun : Machine.run step (Network.start users) acts = some s) : Owned acts s :=
  Machine.run_guarded owned_step acts _ s (fun c hc => by simp [Network.start] at hc)
    (Machine.allSteps_of_forall _ fun _ he _ => he) hrun

/-- **Friends lists are one-sided.**  In every state of every run, `x` is in the friends of `u` if
and only if the last transaction committed on that entry added it; such a transaction was started
by `u` itself, with Accept or Delete; and `u` and `x` agree about their friendship if and only if
their own last transactions do. -/
theorem friends_one_sided (users : Collection) (hlists : ListsOrMissing users)
    (hempty : ∀ u, items users u "friends" = []) (acts : List Action) (s : Network)
    (hrun : Machine.run step (Network.start users) acts = some s) (u x : String) :
    (IsFriend s u x ↔ LastAdded s.committed u x) ∧ (∀ c ∈ s.committed, OwnAction acts c) ∧
      ((IsFriend s u x ↔ IsFriend s x u) ↔
        (LastAdded s.committed u x ↔ LastAdded s.committed x u)) := by
  have hrec := recorded_run hlists hempty hrun
  have hown := owned_run hrun
  exact ⟨hrec.friends u x, fun c hc => hown c (List.mem_append_right _ hc),
    iff_congr (hrec.friends u x) (hrec.friends x u)⟩

/-- Two users with empty contact lists. -/
def twoUsers : Collection :=
  setDoc (setDoc (fun _ => none) "ann" (docOf [("friends", .list []), ("invitations", .list [])]))
    "bob" (docOf [("friends", .list []), ("invitations", .list [])])

/-- Ann invites Bob, Bob accepts, and everything commits. -/
def acceptedInvitation : List Action :=
  [.send "ann" "bob", .commit 0 true, .accept "bob" "ann", .commit 0 true, .commit 0 true]

/-- Nothing is pending, and Ann is a friend of Bob while Bob is none of Ann. -/
theorem friends_not_mutual :
    ¬∀ s, Machine.run step (Network.start twoUsers) acceptedInvitation = some s →
      s.pending = [] → (IsFriend s "bob" "ann" ↔ IsFriend s "ann" "bob") := by
  intro h
  have hmutual := h _ rfl rfl
  exact absurd (hmutual.mp (by unfold IsFriend; decide)) (by unfold IsFriend; decide)

theorem listsOrMissing_twoUsers : ListsOrMissing twoUsers := by
  intro key hkey
  simp only [listFields, List.mem_cons, List.not_mem_nil, or_false] at hkey
  have hnone : ListOrMissing (fun _ => none) key := fun id d s hd => by cases hd
  refine listOrMissing_setDoc (listOrMissing_setDoc hnone ?_) ?_
  · rcases hkey with rfl | rfl | rfl | rfl <;> intro s <;> simp [field, docOf, List.lookup_cons]
  · rcases hkey with rfl | rfl | rfl | rfl <;> intro s <;> simp [field, docOf, List.lookup_cons]

theorem friends_twoUsers (u : String) : items twoUsers u "friends" = [] := by
  by_cases hb : u = "bob"
  · rw [hb]
    rfl
  · by_cases ha : u = "ann"
    · rw [ha]
      rfl
    · rw [twoUsers, items_setDoc_ne hb, items_setDoc_ne ha, items_of_absent rfl]

/-- Bob has accepted Ann, and Ann has decided nothing about Bob. -/
theorem friends_one_sided_accepted :
    ∃ s, Machine.run step (Network.start twoUsers) acceptedInvitation = some s ∧
      ¬(IsFriend s "bob" "ann" ↔ IsFriend s "ann" "bob") := by
  refine ⟨_, rfl, fun hmutual => ?_⟩
  have hlast := (friends_one_sided twoUsers listsOrMissing_twoUsers friends_twoUsers
    acceptedInvitation _ rfl "bob" "ann").2.2.mp hmutual
  obtain ⟨c, hc, -⟩ := hlast.mp ⟨_, rfl, rfl⟩
  cases hc

end GiftGenie.Friendship
