import GiftGenie.ContactClients

/-!
# What the contact lists tell about the invitations

The runs are those of `ContactClients`: any users, stale pages, transactions that commit in any order
or are given up.  The lists are traced back to the committed transactions.

* `x` is in the invitations of `u` only if an invitation of `x` was the last transaction committed
  on that entry (`LastInvited`).
* `x` is in the friends of `u` only if an Accept of `x` by `u` has committed; and what `u` can
  accept was read, at some time, from its invitations.  So there is no friendship without an
  invitation (`friend_was_invited`).
-/

set_option autoImplicit false

namespace GiftGenie.ContactRuns

open GiftGenie.Library GiftGenie.Firestore GiftGenie.ListTransactions GiftGenie.ListHistories
open GiftGenie.Contacts GiftGenie.ContactClients
open GiftGenie.Friendship (Network)

/-- The transaction of an invitation from `x` to `u`. -/
def Invites (x : DString) (u : String) (c : ListCall) : Prop :=
  c.id = u ∧ c.op = .sendInvitations x 0

/-- The first transaction of an Accept. -/
def Adds (x : DString) (u : String) (c : ListCall) : Prop :=
  c.id = u ∧ c.op = .sendInvitations x 1

/-- The second transaction of an Accept, and the one of a Decline. -/
def Dismisses (x : DString) (u : String) (c : ListCall) : Prop :=
  c.id = u ∧ c.op = .updateInvitations x 0

/-- An invitation from `x` to `u` has committed. -/
def Invited (committed : List ListCall) (x : DString) (u : String) : Prop :=
  ∃ c ∈ committed, Invites x u c

/-- An invitation from `x` to `u` has committed, and no removal of it since.  The latest transaction
comes first. -/
def LastInvited (committed : List ListCall) (x : DString) (u : String) : Prop :=
  ∃ newer c older, committed = newer ++ c :: older ∧ Invites x u c ∧ ∀ d ∈ newer, ¬Dismisses x u d

/-- The four transactions that the contact pages start. -/
inductive ContactOp : ListOp → Prop where
  | invite (x : DString) : ContactOp (.sendInvitations x 0)
  | add (x : DString) : ContactOp (.sendInvitations x 1)
  | dismiss (x : DString) : ContactOp (.updateInvitations x 0)
  | remove (x : DString) : ContactOp (.updateInvitations x 1)

theorem lastInvited_cons_self {x : DString} {u : String} {c : ListCall} (h : Invites x u c)
    (committed : List ListCall) : LastInvited (c :: committed) x u :=
  ⟨[], c, committed, rfl, h, fun _ hd => absurd hd List.not_mem_nil⟩

theorem LastInvited.cons {x : DString} {u : String} {committed : List ListCall}
    (h : LastInvited committed x u) {d : ListCall} (hd : ¬Dismisses x u d) :
    LastInvited (d :: committed) x u := by
  obtain ⟨newer, c, older, rfl, hc, hnewer⟩ := h
  exact ⟨d :: newer, c, older, rfl, hc, List.forall_mem_cons.mpr ⟨hd, hnewer⟩⟩

theorem LastInvited.invited {x : DString} {u : String} {committed : List ListCall}
    (h : LastInvited committed x u) : Invited committed x u := by
  obtain ⟨newer, c, older, rfl, hc, -⟩ := h
  exact ⟨c, List.mem_append_right _ List.mem_cons_self, hc⟩

theorem contactOp_of_begun {rows : List (String × Friend)} {calls : List ListCall}
    (h : Begun rows calls) : ∀ c ∈ calls, ContactOp c.op := by
  cases h with
  | none => exact fun c hc => absurd hc List.not_mem_nil
  | send x u => exact List.forall_mem_singleton.mpr (.invite _)
  | accept hrow =>
    exact List.forall_mem_cons.mpr ⟨.add _, List.forall_mem_singleton.mpr (.dismiss _)⟩
  | decline hrow => exact List.forall_mem_singleton.mpr (.dismiss _)
  | delete u x => exact List.forall_mem_singleton.mpr (.remove _)

/-! ### One transaction -/

variable {users : Collection} {c : ListCall} {x : DString} {u : String}

theorem invitations_ne_friends : "invitations" ≠ modeField 1 := by decide

theorem friends_ne_invitations : "friends" ≠ modeField 0 := by decide

theorem key_of_contactOp {op : ListOp} (h : ContactOp op) : ∃ mode, op.key = modeField mode := by
  cases h with
  | invite x => exact ⟨0, rfl⟩
  | add x => exact ⟨1, rfl⟩
  | dismiss x => exact ⟨0, rfl⟩
  | remove x => exact ⟨1, rfl⟩

theorem nodup_onList {op : ListOp} (h : ContactOp op) {xs : List DString} (hxs : xs.Nodup)
    (x : DString) : (op.edit.onList xs x).Nodup := by
  cases h with
  | invite y => exact ListSet.nodup_union hxs x
  | add y => exact ListSet.nodup_union hxs x
  | dismiss y => exact ListSet.nodup_without hxs x
  | remove y => exact ListSet.nodup_without hxs x

/-- Who is among the invitations after a transaction: who was invited by it, and who was there
before and has not been dismissed by it. -/
theorem mem_invitations_exec (hkey : ListOrMissing users c.op.key) (hop : ContactOp c.op)
    (hx : x ∈ items (c.exec users).2 u "invitations") :
    ((c.exec users).1 = true ∧ Invites x u c) ∨
      (x ∈ items users u "invitations" ∧ ((c.exec users).1 = true → ¬Dismisses x u c)) := by
  rw [items_exec c hkey] at hx
  by_cases hcond : (c.exec users).1 = true ∧ u = c.id ∧ "invitations" = c.op.key
  · rw [if_pos hcond] at hx
    obtain ⟨hans, hid, hinv⟩ := hcond
    generalize hop' : c.op = op at hop hx hinv
    cases hop with
    | invite y =>
      rcases ListSet.mem_union.mp hx with hx | rfl
      · exact Or.inr ⟨hx, fun _ hd => nomatch hop'.symm.trans hd.2⟩
      · exact Or.inl ⟨hans, hid.symm, hop'⟩
    | add y => exact absurd hinv invitations_ne_friends
    | dismiss y =>
      obtain ⟨hx, hxy⟩ := ListSet.mem_without.mp hx
      refine Or.inr ⟨hx, fun _ hd => hxy ?_⟩
      have hy := hop'.symm.trans hd.2
      simp only [ListOp.updateInvitations.injEq, and_true] at hy
      exact hy.symm
    | remove y => exact absurd hinv invitations_ne_friends
  · rw [if_neg hcond] at hx
    refine Or.inr ⟨hx, fun hans hd => hcond ⟨hans, hd.1.symm, ?_⟩⟩
    rw [hd.2]
    rfl

/-- Who is among the friends after a transaction was there before or was added by it. -/
theorem mem_friends_exec (hkey : ListOrMissing users c.op.key) (hop : ContactOp c.op)
    (hx : x ∈ items (c.exec users).2 u "friends") :
    x ∈ items users u "friends" ∨ ((c.exec users).1 = true ∧ Adds x u c) := by
  rw [items_exec c hkey] at hx
  by_cases hcond : (c.exec users).1 = true ∧ u = c.id ∧ "friends" = c.op.key
  · rw [if_pos hcond] at hx
    obtain ⟨hans, hid, hfriends⟩ := hcond
    generalize hop' : c.op = op at hop hx hfriends
    cases hop with
    | invite y => exact absurd hfriends friends_ne_invitations
    | add y =>
      rcases ListSet.mem_union.mp hx with hx | rfl
      · exact Or.inl hx
      · exact Or.inr ⟨hans, hid.symm, hop'⟩
    | dismiss y => exact absurd hfriends friends_ne_invitations
    | remove y => exact Or.inl (ListSet.mem_without.mp hx).1
  · rw [if_neg hcond] at hx
    exact Or.inl hx

/-! ### The network -/

variable {n : Network} {pending : List ListCall}

/-- What the store records about the transactions. -/
structure Traced (n : Network) : Prop where
  lists : ∀ mode, ListOrMissing n.users (modeField mode)
  calls : ∀ c ∈ n.pending, ContactOp c.op
  nodup : ∀ u mode, (items n.users u (modeField mode)).Nodup
  invitations : ∀ u x, x ∈ items n.users u "invitations" → LastInvited n.committed x u
  friends : ∀ u x, x ∈ items n.users u "friends" → ∃ c ∈ n.committed, Adds x u c

theorem Traced.key (h : Traced n) {op : ListOp} (hop : ContactOp op) :
    ListOrMissing n.users op.key := by
  obtain ⟨mode, hmode⟩ := key_of_contactOp hop
  rw [hmode]
  exact h.lists mode

theorem committed_of_true (h : (c.exec n.users).1 = true) :
    (n.commit c pending).committed = c :: n.committed := if_pos h

theorem committed_of_false (h : (c.exec n.users).1 = false) :
    (n.commit c pending).committed = n.committed := by
  rw [Network.commit, h]
  rfl

/-- Nothing that has committed is forgotten. -/
theorem committed_mono {d : ListCall} (hd : d ∈ n.committed) :
    d ∈ (n.commit c pending).committed := by
  cases hans : (c.exec n.users).1 with
  | false => rwa [committed_of_false hans]
  | true =>
    rw [committed_of_true hans]
    exact List.mem_cons_of_mem c hd

theorem traced_commit (h : Traced n) (hop : ContactOp c.op)
    (hpending : ∀ d ∈ pending, ContactOp d.op) : Traced (n.commit c pending) where
  lists := fun mode => listOrMissing_exec c (h.key hop) (h.lists mode)
  calls := hpending
  nodup := by
    intro u mode
    show (items (c.exec n.users).2 u (modeField mode)).Nodup
    rw [items_exec c (h.key hop)]
    split
    · exact nodup_onList hop (h.nodup u mode) _
    · exact h.nodup u mode
  invitations := by
    intro u x hx
    obtain ⟨hans, hinvites⟩ | ⟨hold, hkept⟩ := mem_invitations_exec (h.key hop) hop hx
    · rw [committed_of_true hans]
      exact lastInvited_cons_self hinvites n.committed
    · have hlast := h.invitations u x hold
      cases hans : (c.exec n.users).1 with
      | false => rwa [committed_of_false hans]
      | true =>
        rw [committed_of_true hans]
        exact hlast.cons (hkept hans)
  friends := by
    intro u x hx
    obtain hold | ⟨hans, hadds⟩ := mem_friends_exec (h.key hop) hop hx
    · obtain ⟨d, hd, hadds⟩ := h.friends u x hold
      exact ⟨d, committed_mono hd, hadds⟩
    · rw [committed_of_true hans]
      exact ⟨c, List.mem_cons_self, hadds⟩

theorem traced_step {m : MissingRead} (s : Clients) (e : Event) (s' : Clients) (h : Traced s.net)
    (hstep : step m s e = some s') : Traced s'.net := by
  obtain ⟨calls, hbegun, hnet⟩ | ⟨i, served, c, -, hc, hnet⟩ := net_step hstep
  · rw [hnet]
    refine ⟨h.lists, fun d hd => ?_, h.nodup, h.invitations, h.friends⟩
    exact (List.mem_append.mp hd).elim (h.calls d) (contactOp_of_begun hbegun d)
  · rw [hnet]
    have hop : ContactOp c.op := h.calls c (List.mem_of_getElem? hc)
    exact traced_commit h hop fun d hd => h.calls d (List.mem_of_mem_eraseIdx hd)

/-- Every contact list is empty or missing. -/
def EmptyLists (users : Collection) : Prop :=
  ∀ mode id d, users id = some d →
    field d (modeField mode) = .null ∨ field d (modeField mode) = .list []

theorem items_of_empty (h : EmptyLists users) (mode : ℤ) (u : String) :
    items users u (modeField mode) = [] := by
  by_contra hne
  obtain ⟨x, hx⟩ := List.exists_mem_of_ne_nil _ hne
  obtain ⟨d, xs, hd, hf, hmem⟩ := exists_list_of_mem hx
  rcases h mode u d hd with hnull | hnil
  · exact nomatch hf.symm.trans hnull
  · rw [Value.list.inj (hf.symm.trans hnil)] at hmem
    exact absurd hmem List.not_mem_nil

theorem traced_start (h : EmptyLists users) : Traced (Network.start users) where
  lists := by
    intro mode id d s hd hs
    rcases h mode id d hd with hf | hf
    · exact nomatch hs.symm.trans hf
    · exact nomatch hs.symm.trans hf
  calls := fun c hc => absurd hc List.not_mem_nil
  nodup := by
    intro u mode
    show (items users u (modeField mode)).Nodup
    rw [items_of_empty h mode u]
    exact List.nodup_nil
  invitations := by
    intro u x hx
    rw [show items (Network.start users).users u "invitations" = [] from items_of_empty h 0 u] at hx
    exact absurd hx List.not_mem_nil
  friends := by
    intro u x hx
    rw [show items (Network.start users).users u "friends" = [] from items_of_empty h 1 u] at hx
    exact absurd hx List.not_mem_nil

/-! ### Friends were invited -/

/-- A document names itself in `userIndex`, or nobody. -/
def OwnIndex (users : Collection) : Prop :=
  ∀ id d, users id = some d → field d "userIndex" = .null ∨ field d "userIndex" = .str id

theorem ownIndex_exec (h : OwnIndex users) (hkey : ListOrMissing users c.op.key)
    (hop : ContactOp c.op) : OwnIndex (c.exec users).2 := by
  have hne : "userIndex" ≠ c.op.key := by
    obtain ⟨mode, hmode⟩ := key_of_contactOp hop
    rw [hmode]
    rcases modeField_mem mode with hm | hm <;> simp [hm]
  refine forall_docs_exec c hkey h (fun _ _ => ?_) fun d xs ys hd hf => ?_
  · rw [field_docOf_single, if_neg hne]
    exact Or.inl rfl
  · rw [field_putField_ne hne]
    exact h c.id d hd

/-- A contact shows the id it was loaded by, or none. -/
theorem id_of_readFriend {m : MissingRead} (h : OwnIndex users) {id : DString} {row : Friend}
    (hrow : readFriend m (getDocument users id) = .ok row) {x : String}
    (hx : row.userInex = some x) : id = some x := by
  obtain ⟨d, hd, hf⟩ := userIndex_of_readFriend hrow hx
  obtain ⟨path, rfl, hpath⟩ := Option.bind_eq_some_iff.mp hd
  rcases h path d hpath with hnull | hown
  · exact nomatch hf.symm.trans hnull
  · exact congrArg some (Value.str.inj (hown.symm.trans hf))

/-- The only tap that adds a friend is an Accept, of a row that was shown. -/
theorem accept_of_adds {rows : List (String × Friend)} {calls : List ListCall}
    (h : Begun rows calls) (hc : c ∈ calls) (hadds : Adds x u c) :
    calls = acceptReq x u ∧ ∃ row, (u, row) ∈ rows ∧ row.userInex = x := by
  obtain ⟨hid, hop⟩ := hadds
  cases h with
  | none => exact absurd hc List.not_mem_nil
  | send y v =>
    rw [List.mem_singleton.mp hc] at hop
    simp at hop
  | @accept v row hrow =>
    rcases List.mem_cons.mp hc with rfl | hc
    · simp only [ListOp.sendInvitations.injEq, and_true] at hop
      have hv : v = u := hid
      subst hv hop
      exact ⟨rfl, row, hrow, rfl⟩
    · rw [List.mem_singleton.mp hc] at hop
      exact nomatch hop
  | decline hrow =>
    rw [List.mem_singleton.mp hc] at hop
    exact nomatch hop
  | delete v y =>
    rw [List.mem_singleton.mp hc] at hop
    exact nomatch hop

theorem Invited.mono {committed committed' : List ListCall} (h : Invited committed x u)
    (hsub : ∀ c ∈ committed, c ∈ committed') : Invited committed' x u := by
  obtain ⟨c, hc, hinvites⟩ := h
  exact ⟨c, hsub c hc, hinvites⟩

/-- A transaction of the next state was one before: a commit moves it, and marks whether it was
served. -/
theorem mem_commit {i : ℕ} {served : Bool} (hc : n.pending[i]? = some c) {d : ListCall}
    (hd : d ∈ (n.commit { c with served := served } (n.pending.eraseIdx i)).pending ++
      (n.commit { c with served := served } (n.pending.eraseIdx i)).committed) :
    ∃ d' ∈ n.pending ++ n.committed, d'.id = d.id ∧ d'.op = d.op := by
  have hcommitted : ∀ d ∈ n.committed,
      ∃ d' ∈ n.pending ++ n.committed, d'.id = d.id ∧ d'.op = d.op :=
    fun d hd => ⟨d, List.mem_append_right _ hd, rfl, rfl⟩
  rcases List.mem_append.mp hd with hd | hd
  · exact ⟨d, List.mem_append_left _ (List.mem_of_mem_eraseIdx hd), rfl, rfl⟩
  · simp only [Network.commit] at hd
    split at hd
    · rcases List.mem_cons.mp hd with rfl | hd
      · exact ⟨c, List.mem_append_left _ (List.mem_of_getElem? hc), rfl, rfl⟩
      · exact hcommitted d hd
    · exact hcommitted d hd

/-- Whatever a page has read of `x` for `u`, and whatever adds `x` to the friends of `u`, follows an
invitation. -/
structure FromInvitations (s : Clients) : Prop where
  index : OwnIndex s.net.users
  loaded : Loaded (fun u id => ∀ x, id = some x → Invited s.net.committed (some x) u)
    (fun u row => ∀ x, row.userInex = some x → Invited s.net.committed (some x) u) s
  adds : ∀ c ∈ s.net.pending ++ s.net.committed, ∀ x u, Adds (some x) u c →
    Invited s.net.committed (some x) u

theorem committed_step {m : MissingRead} {s s' : Clients} {e : Event} (hstep : step m s e = some s')
    {d : ListCall} (hd : d ∈ s.net.committed) : d ∈ s'.net.committed := by
  obtain ⟨calls, -, hnet⟩ | ⟨i, served, c, -, -, hnet⟩ := net_step hstep
  · rw [hnet]
    exact hd
  · rw [hnet]
    exact committed_mono hd

theorem fromInvitations_step {m : MissingRead} (s : Clients) (e : Event) (s' : Clients)
    (htraced : Traced s.net) (h : FromInvitations s) (hstep : step m s e = some s') :
    FromInvitations s' := by
  have hmono : ∀ {x u}, Invited s.net.committed x u → Invited s'.net.committed x u :=
    fun hinvited => hinvited.mono fun _ => committed_step hstep
  have hopen : ∀ u id, id ∈ items s.net.users u "invitations" → ∀ x, id = some x →
      Invited s.net.committed (some x) u := by
    rintro u _ hid x rfl
    exact (htraced.invitations u _ hid).invited
  have hread : ∀ u id row, (∀ x, id = some x → Invited s.net.committed (some x) u) →
      readFriend m (getDocument s.net.users id) = .ok row →
      ∀ x, row.userInex = some x → Invited s.net.committed (some x) u :=
    fun u id row hid hrow x hx => hid x (id_of_readFriend h.index hrow hx)
  have hloaded := loaded_step h.loaded hopen hread hstep
  have hloaded' := hloaded.mono (fun u id hid x hx => hmono (hid x hx))
    (fun u row hrow x hx => hmono (hrow x hx))
  obtain ⟨calls, hbegun, hnet⟩ | ⟨i, served, c, -, hc, hnet⟩ := net_step hstep
  · refine ⟨by rw [hnet]; exact h.index, hloaded', fun d hd x u hadds => ?_⟩
    rw [hnet, List.append_assoc, List.mem_append, List.mem_append] at hd
    rcases hd with hd | hd | hd
    · exact hmono (h.adds d (List.mem_append_left _ hd) x u hadds)
    · -- an Accept: its row was read from an invitation
      obtain ⟨-, row, hrow, hx⟩ := accept_of_adds hbegun hd hadds
      exact hmono (h.loaded.rows u row hrow x hx)
    · exact hmono (h.adds d (List.mem_append_right _ hd) x u hadds)
  · have hop : ContactOp c.op := htraced.calls c (List.mem_of_getElem? hc)
    refine ⟨?_, hloaded', fun d hd x u hadds => ?_⟩
    · rw [hnet]
      exact ownIndex_exec h.index (htraced.key hop) hop
    · rw [hnet] at hd
      obtain ⟨d', hd', hid, hop'⟩ := mem_commit hc hd
      exact hmono (h.adds d' hd' x u ⟨hid.trans hadds.1, hop'.trans hadds.2⟩)

theorem fromInvitations_start (h : OwnIndex users) : FromInvitations (Clients.start users) where
  index := h
  loaded := loaded_start users
  adds := fun _ hc => absurd hc List.not_mem_nil

/-! ### Runs -/

theorem traced_run {m : MissingRead} {events : List Event} {s : Clients} (hempty : EmptyLists users)
    (hrun : Machine.run (step m) (Clients.start users) events = some s) : Traced s.net :=
  Machine.run_invariant traced_step events _ s (traced_start hempty) hrun

theorem fromInvitations_run {m : MissingRead} {events : List Event} {s : Clients}
    (hindex : OwnIndex users) (hempty : EmptyLists users)
    (hrun : Machine.run (step m) (Clients.start users) events = some s) : FromInvitations s := by
  have hstep : ∀ s e s', Traced s.net ∧ FromInvitations s → step m s e = some s' →
      Traced s'.net ∧ FromInvitations s' :=
    fun s e s' h hstep => ⟨traced_step s e s' h.1 hstep, fromInvitations_step s e s' h.1 h.2 hstep⟩
  have hstart : Traced (Clients.start users).net ∧ FromInvitations (Clients.start users) :=
    ⟨traced_start hempty, fromInvitations_start hindex⟩
  exact (Machine.run_invariant hstep events _ s hstart hrun).2

theorem FromInvitations.invited {s : Clients} (h : FromInvitations s) (htraced : Traced s.net)
    {u x : String} (hx : some x ∈ items s.net.users u "friends") :
    Invited s.net.committed (some x) u := by
  obtain ⟨c, hc, hadds⟩ := htraced.friends u (some x) hx
  exact h.adds c (List.mem_append_right _ hc) x u hadds

/-- **No friendship without an invitation.**  Every document names itself in `userIndex`, and all
contact lists are empty at first.  Then in every state of every run `x` is in the friends of `u`
only if an invitation from `x` to `u` has committed in the run. -/
theorem friend_was_invited (m : MissingRead) (users : Collection)
    (hindex : ∀ id d, users id = some d → field d "userIndex" = .str id) (hempty : EmptyLists users)
    (events : List Event) (s : Clients)
    (hrun : Machine.run (step m) (Clients.start users) events = some s) (u x : String)
    (hx : some x ∈ items s.net.users u "friends") : Invited s.net.committed (some x) u := by
  have hfrom := fromInvitations_run (fun id d hd => Or.inr (hindex id d hd)) hempty hrun
  exact hfrom.invited (traced_run hempty hrun) hx

/-- The document of a user without contacts. -/
def contactDoc (id : String) : Doc :=
  docOf [("userIndex", .str id), ("friends", .list []), ("invitations", .list [])]

/-- Ann and Bob, without contacts. -/
def annAndBob : Collection :=
  setDoc (setDoc (fun _ => none) "ann" (contactDoc "ann")) "bob" (contactDoc "bob")

theorem annAndBob_cases {id : String} {d : Doc} (h : annAndBob id = some d) : d = contactDoc id := by
  by_cases hbob : id = "bob"
  · rw [hbob, annAndBob, setDoc_self] at h
    rw [hbob, Option.some.inj h]
  · by_cases hann : id = "ann"
    · rw [annAndBob, setDoc_ne hbob, hann, setDoc_self] at h
      rw [hann, Option.some.inj h]
    · rw [annAndBob, setDoc_ne hbob, setDoc_ne hann] at h
      exact nomatch h

theorem emptyLists_annAndBob : EmptyLists annAndBob := by
  intro mode id d hd
  rw [annAndBob_cases hd]
  rcases modeField_mem mode with hm | hm
  · rw [hm]
    exact Or.inr rfl
  · rw [hm]
    exact Or.inr rfl

/-- Ann invites Bob, who loads the invitation and accepts it. -/
def invitedAndAccepted : List Event :=
  [.send "ann" "bob", .commit 0 true, .getInvitations "bob", .loadNext 0, .loadNext 0, .accept 0,
    .commit 0 true, .commit 0 true]

theorem friend_was_invited_accepted :
    ∃ s, Machine.run (step .throws) (Clients.start annAndBob) invitedAndAccepted = some s ∧
      some "ann" ∈ items s.net.users "bob" "friends" ∧
      Invited s.net.committed (some "ann") "bob" := by
  refine ⟨_, rfl, by decide, ?_⟩
  exact friend_was_invited .throws annAndBob (fun id d hd => by rw [annAndBob_cases hd]; rfl)
    emptyLists_annAndBob invitedAndAccepted _ rfl "bob" "ann" (by decide)

end GiftGenie.ContactRuns
