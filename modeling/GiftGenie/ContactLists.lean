import GiftGenie.ContactRuns
import GiftGenie.ListContracts

/-!
# The shape of the contact lists

Neither list of a user repeats an id, in any run.  The two lists may have an id in common, and a user
may be in its own lists: no transaction looks at the other list or at the owner, and the search page
offers everybody.

What holds instead, where all transactions commit: at rest an id is in both lists only if its owner
was invited again after the Accept removed the first request (`InvitedAgain`), and a user is in its
own lists only if it invited itself.
-/

set_option autoImplicit false

namespace GiftGenie.ContactLists

open GiftGenie.Library GiftGenie.Firestore GiftGenie.ListTransactions GiftGenie.ListHistories
open GiftGenie.Contacts GiftGenie.ContactClients GiftGenie.ContactRuns
open GiftGenie.Friendship (Network)

/-- No list of `u` repeats an id, they share none, and `u` is in neither. -/
structure WellFormed (users : Collection) (u : String) : Prop where
  friends : (items users u "friends").Nodup
  invitations : (items users u "invitations").Nodup
  apart : ∀ x ∈ items users u "friends", x ∉ items users u "invitations"
  notFriend : some u ∉ items users u "friends"
  notInvited : some u ∉ items users u "invitations"

/-- An invitation from `x` to `u` has committed after a removal of an earlier one. -/
def InvitedAgain (committed : List ListCall) (x : DString) (u : String) : Prop :=
  ∃ newer c older, committed = newer ++ c :: older ∧ Invites x u c ∧ ∃ d ∈ older, Dismisses x u d

/-- Firestore gives nothing up. -/
def Served : Event → Prop
  | .commit _ served => served = true
  | _ => True

theorem invitedAgain_of_last {committed : List ListCall} {x : DString} {u : String}
    (h : LastInvited committed x u) {d : ListCall} (hd : d ∈ committed)
    (hdismisses : Dismisses x u d) : InvitedAgain committed x u := by
  obtain ⟨newer, c, older, rfl, hc, hnewer⟩ := h
  refine ⟨newer, c, older, rfl, hc, d, ?_, hdismisses⟩
  rcases List.mem_append.mp hd with hd | hd
  · exact absurd hdismisses (hnewer d hd)
  · rcases List.mem_cons.mp hd with rfl | hd
    · exact nomatch hc.2.symm.trans hdismisses.2
    · exact hd

/-! ### Documents -/

variable {users : Collection} {c : ListCall} {x : DString} {u : String}

/-- Every document can take and lose invitations. -/
def HaveInvitations (users : Collection) : Prop :=
  ∀ id d, users id = some d → ∃ xs, field d "invitations" = .list xs

theorem exists_doc_exec (hkey : ListOrMissing users c.op.key) (hu : users u ≠ none) :
    (c.exec users).2 u ≠ none := by
  have hcontract := ListContracts.contract_exec c hkey
  by_cases hid : u = c.id
  · obtain ⟨d, hd⟩ := Option.ne_none_iff_exists'.mp hu
    rw [hid] at hd
    obtain ⟨d', hd', -⟩ := hcontract.otherFields d hd
    rw [hid, hd']
    exact Option.some_ne_none d'
  · rw [hcontract.otherDocuments u hid]
    exact hu

/-- An Accept commits on a document that is there, so only invitations create documents. -/
theorem haveInvitations_exec (h : HaveInvitations users) (hkey : ListOrMissing users c.op.key)
    (hop : ContactOp c.op) (hadds : ∀ x u, Adds x u c → users u ≠ none) :
    HaveInvitations (c.exec users).2 := by
  refine forall_docs_exec c hkey h (fun habsent hcreates => ?_) fun d xs ys hd hf => ?_
  · generalize hop' : c.op = op at hop hcreates
    cases hop with
    | invite y => exact ⟨[y], rfl⟩
    | add y => exact absurd habsent (hadds y c.id ⟨rfl, hop'⟩)
    | dismiss y => exact nomatch hcreates
    | remove y => exact nomatch hcreates
  · by_cases hinv : "invitations" = c.op.key
    · rw [← hinv, field_putField_self]
      exact ⟨ys, rfl⟩
    · rw [field_putField_ne hinv]
      exact h c.id d hd

/-- A removal from the invitations never fails. -/
theorem dismisses_succeeds (h : HaveInvitations users) (hkey : ListOrMissing users c.op.key)
    (hdismisses : Dismisses x u c) (hserved : c.served = true) : (c.exec users).1 = true := by
  by_contra hans
  rw [Bool.not_eq_true] at hans
  rcases (ListContracts.contract_exec c hkey).fails.mp hans with hno | ⟨d, hd, hnull⟩
  · rw [hserved] at hno
    exact nomatch hno
  · obtain ⟨xs, hxs⟩ := h c.id d hd
    rw [hdismisses.2] at hnull
    exact nomatch hxs.symm.trans hnull

/-! ### Accepts remove what they add -/

/-- The documents that pages and transactions rely on are there, and whatever adds a friend goes
with the removal of the request. -/
structure Paired (s : Clients) : Prop where
  docs : HaveInvitations s.net.users
  loaded : Loaded (fun u _ => s.net.users u ≠ none) (fun u _ => s.net.users u ≠ none) s
  present : ∀ c ∈ s.net.pending, ∀ x u, Adds x u c → s.net.users u ≠ none
  dismissed : ∀ c ∈ s.net.pending ++ s.net.committed, ∀ x u, Adds x u c →
    ∃ d ∈ s.net.pending ++ s.net.committed, Dismisses x u d

/-- A removal that was started stays pending or commits. -/
theorem dismisses_commit {n : Network} {i : ℕ} (h : HaveInvitations n.users)
    (hkey : ListOrMissing n.users c.op.key) (hc : n.pending[i]? = some c) {d : ListCall}
    (hd : d ∈ n.pending ++ n.committed) (hdismisses : Dismisses x u d) :
    ∃ d' ∈ (n.commit { c with served := true } (n.pending.eraseIdx i)).pending ++
      (n.commit { c with served := true } (n.pending.eraseIdx i)).committed, Dismisses x u d' := by
  rcases List.mem_append.mp hd with hd | hd
  · obtain ⟨j, hj⟩ := List.mem_iff_getElem?.mp hd
    by_cases hij : j = i
    · -- it is the one that commits
      have hcd : c = d := by
        rw [hij, hc] at hj
        exact Option.some.inj hj
      have hcc : Dismisses x u { c with served := true } := hcd ▸ hdismisses
      have hans : (ListCall.exec { c with served := true } n.users).1 = true :=
        dismisses_succeeds h hkey hcc rfl
      refine ⟨_, List.mem_append_right _ ?_, hcc⟩
      rw [committed_of_true hans]
      exact List.mem_cons_self
    · exact ⟨d, List.mem_append_left _ (List.mem_eraseIdx_iff_getElem?.mpr ⟨j, hij, hj⟩),
        hdismisses⟩
  · exact ⟨d, List.mem_append_right _ (committed_mono hd), hdismisses⟩

/-- The calls that begin keep what the pages rely on: an Accept adds where a row was read, and starts
the removal with the addition. -/
theorem paired_begun {s s' : Clients} (h : Paired s) {calls : List ListCall}
    (hbegun : Begun s.rows calls)
    (hloaded : Loaded (fun u _ => s.net.users u ≠ none) (fun u _ => s.net.users u ≠ none) s')
    (hnet : s'.net = { s.net with pending := s.net.pending ++ calls }) : Paired s' := by
  have hold : ∀ x u, (∃ d ∈ s.net.pending ++ s.net.committed, Dismisses x u d) →
      ∃ d ∈ s'.net.pending ++ s'.net.committed, Dismisses x u d := by
    intro x u hd
    obtain ⟨d, hd, hdismisses⟩ := hd
    refine ⟨d, ?_, hdismisses⟩
    rw [hnet, List.append_assoc, List.mem_append, List.mem_append]
    exact (List.mem_append.mp hd).imp_right Or.inr
  refine ⟨?_, ?_, ?_, ?_⟩
  · rw [hnet]
    exact h.docs
  · rw [hnet]
    exact hloaded
  · intro d hd x u hadds
    rw [hnet] at hd ⊢
    rcases List.mem_append.mp hd with hd | hd
    · exact h.present d hd x u hadds
    · obtain ⟨-, row, hrow, -⟩ := accept_of_adds hbegun hd hadds
      exact h.loaded.rows u row hrow
  · intro d hd x u hadds
    rw [hnet, List.append_assoc, List.mem_append, List.mem_append] at hd
    rcases hd with hd | hd | hd
    · exact hold x u (h.dismissed d (List.mem_append_left _ hd) x u hadds)
    · -- the Accept that starts it starts the removal too
      obtain ⟨rfl, -⟩ := accept_of_adds hbegun hd hadds
      refine ⟨⟨u, .updateInvitations x 0, true⟩, ?_, rfl, rfl⟩
      rw [hnet]
      have hcall : (⟨u, .updateInvitations x 0, true⟩ : ListCall) ∈ acceptReq x u :=
        List.mem_cons_of_mem _ List.mem_cons_self
      exact List.mem_append_left _ (List.mem_append_right _ hcall)
    · exact hold x u (h.dismissed d (List.mem_append_right _ hd) x u hadds)

/-- A commit takes no document away, and no removal. -/
theorem paired_commit {s s' : Clients} (htraced : Traced s.net) (h : Paired s) {i : ℕ}
    (hc : s.net.pending[i]? = some c)
    (hloaded : Loaded (fun u _ => s.net.users u ≠ none) (fun u _ => s.net.users u ≠ none) s')
    (hnet : s'.net = s.net.commit { c with served := true } (s.net.pending.eraseIdx i)) :
    Paired s' := by
  have hcp : c ∈ s.net.pending := List.mem_of_getElem? hc
  have hop : ContactOp c.op := htraced.calls c hcp
  have hkey := htraced.key hop
  have hdoc : ∀ u, s.net.users u ≠ none → s'.net.users u ≠ none := by
    intro u hu
    rw [hnet]
    exact exists_doc_exec hkey hu
  refine ⟨?_, hloaded.mono (fun u _ => hdoc u) (fun u _ => hdoc u), ?_, ?_⟩
  · rw [hnet]
    exact haveInvitations_exec h.docs hkey hop (h.present c hcp)
  · intro d hd x u hadds
    rw [hnet] at hd
    exact hdoc u (h.present d (List.mem_of_mem_eraseIdx hd) x u hadds)
  · intro d hd x u hadds
    rw [hnet] at hd ⊢
    obtain ⟨d', hd', hid, hop'⟩ := mem_commit hc hd
    obtain ⟨r, hr, hdismisses⟩ := h.dismissed d' hd' x u ⟨hid.trans hadds.1, hop'.trans hadds.2⟩
    exact dismisses_commit h.docs hkey hc hr hdismisses

theorem paired_step {m : MissingRead} (s : Clients) (e : Event) (s' : Clients)
    (htraced : Traced s.net) (h : Paired s) (hserved : Served e) (hstep : step m s e = some s') :
    Paired s' := by
  have hopen : ∀ u id, id ∈ items s.net.users u "invitations" → s.net.users u ≠ none := by
    intro u id hid
    obtain ⟨d, -, hd, -⟩ := exists_list_of_mem hid
    rw [hd]
    exact Option.some_ne_none d
  have hloaded := loaded_step h.loaded hopen (fun _ _ _ hu _ => hu) hstep
  obtain ⟨calls, hbegun, hnet⟩ | ⟨i, served, c, he, hc, hnet⟩ := net_step hstep
  · exact paired_begun h hbegun hloaded hnet
  · have hs : served = true := by
      rw [he] at hserved
      exact hserved
    subst hs
    exact paired_commit htraced h hc hloaded hnet

/-! ### Runs -/

theorem paired_start (h : HaveInvitations users) : Paired (Clients.start users) where
  docs := h
  loaded := loaded_start users
  present := fun _ hc => absurd hc List.not_mem_nil
  dismissed := fun _ hc => absurd hc List.not_mem_nil

theorem paired_run {m : MissingRead} {events : List Event} {s : Clients} (hempty : EmptyLists users)
    (hdocs : HaveInvitations users) (hserved : ∀ e ∈ events, Served e)
    (hrun : Machine.run (step m) (Clients.start users) events = some s) : Paired s := by
  have hstep : ∀ s e s', Traced s.net ∧ Paired s → Served e → step m s e = some s' →
      Traced s'.net ∧ Paired s' :=
    fun s e s' h he hstep => ⟨traced_step s e s' h.1 hstep, paired_step s e s' h.1 h.2 he hstep⟩
  have hstart : Traced (Clients.start users).net ∧ Paired (Clients.start users) :=
    ⟨traced_start hempty, paired_start hdocs⟩
  have hall : Machine.AllSteps (step m) (fun _ e => Served e) (Clients.start users) events :=
    Machine.allSteps_of_forall _ fun e he _ => hserved e he
  exact (Machine.run_guarded hstep events _ s hstart hall hrun).2

/-- **The shape of the contact lists.**  Every document starts with two empty contact lists, and
Firestore gives no transaction up.  Whenever none is pending: neither list of `u` repeats an id; an
id is in both only if its owner was invited again after a removal of the request; and `u` is among
its invitations, or among its friends where every document names itself in `userIndex`, only if it
invited itself. -/
theorem contact_lists (m : MissingRead) (users : Collection)
    (hstart : ∀ u d, users u = some d →
      field d "friends" = .list [] ∧ field d "invitations" = .list [])
    (events : List Event) (hserved : ∀ e ∈ events, Served e) (s : Clients)
    (hrun : Machine.run (step m) (Clients.start users) events = some s) (hrest : s.net.pending = [])
    (u : String) :
    (items s.net.users u "friends").Nodup ∧ (items s.net.users u "invitations").Nodup ∧
      (∀ x ∈ items s.net.users u "friends", x ∈ items s.net.users u "invitations" →
        InvitedAgain s.net.committed x u) ∧
      (some u ∈ items s.net.users u "invitations" → Invited s.net.committed (some u) u) ∧
      ((∀ id d, users id = some d → field d "userIndex" = .str id) →
        some u ∈ items s.net.users u "friends" → Invited s.net.committed (some u) u) := by
  have hempty : EmptyLists users := by
    intro mode id d hd
    rcases modeField_mem mode with hm | hm
    · rw [hm]
      exact Or.inr (hstart id d hd).2
    · rw [hm]
      exact Or.inr (hstart id d hd).1
  have htraced := traced_run hempty hrun
  have hpaired := paired_run hempty (fun id d hd => ⟨[], (hstart id d hd).2⟩) hserved hrun
  refine ⟨htraced.nodup u 1, htraced.nodup u 0, fun x hfriend hinvited => ?_, fun hself => ?_,
    fun hindex hself => ?_⟩
  · -- the Accept that added `x` has removed the request, since nothing is pending
    obtain ⟨c, hc, hadds⟩ := htraced.friends u x hfriend
    obtain ⟨d, hd, hdismisses⟩ := hpaired.dismissed c (List.mem_append_right _ hc) x u hadds
    rw [hrest, List.nil_append] at hd
    exact invitedAgain_of_last (htraced.invitations u x hinvited) hd hdismisses
  · exact (htraced.invitations u (some u) hself).invited
  · have hfrom := fromInvitations_run (fun id d hd => Or.inr (hindex id d hd)) hempty hrun
    exact hfrom.invited htraced hself

/-- Ann invites herself; and Ann invites Bob again after he has accepted her. -/
theorem not_wellFormed :
    (¬∀ s, Machine.run (step .throws) (Clients.start annAndBob) [.send "ann" "ann", .commit 0 true] =
        some s → s.net.pending = [] → WellFormed s.net.users "ann") ∧
      ¬∀ s, Machine.run (step .throws) (Clients.start annAndBob)
          (invitedAndAccepted ++ [.send "ann" "bob", .commit 0 true]) = some s →
        s.net.pending = [] → WellFormed s.net.users "bob" := by
  refine ⟨fun h => ?_, fun h => ?_⟩
  · exact (h _ rfl rfl).notInvited (by decide)
  · exact (h _ rfl rfl).apart (some "ann") (by decide) (by decide)

/-- Bob has Ann in both lists, and she has invited him again. -/
theorem contact_lists_invitedAgain :
    ∃ s, Machine.run (step .throws) (Clients.start annAndBob)
        (invitedAndAccepted ++ [.send "ann" "bob", .commit 0 true]) = some s ∧
      some "ann" ∈ items s.net.users "bob" "friends" ∧
      InvitedAgain s.net.committed (some "ann") "bob" := by
  refine ⟨_, rfl, by decide, ?_⟩
  have hserved : ∀ e ∈ invitedAndAccepted ++ [.send "ann" "bob", .commit 0 true], Served e := by
    simp [invitedAndAccepted, Served]
  exact (contact_lists .throws annAndBob (fun u d hd => by rw [annAndBob_cases hd]; exact ⟨rfl, rfl⟩)
    (invitedAndAccepted ++ [.send "ann" "bob", .commit 0 true]) hserved _ rfl rfl "bob").2.2.1
    (some "ann") (by decide) (by decide)

end GiftGenie.ContactLists
