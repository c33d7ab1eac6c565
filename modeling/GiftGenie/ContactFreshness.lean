import GiftGenie.ContactFetches

/-!
# What the contact page shows while nobody writes

`getFriends` and `getInvitations` read one document after the other, while others may write.  A
fetch whose reads were all answered with the same store shows what it would have read at once
(`getContacts_of_whole`).  So from a moment on at which every fetch under way has read only the
present store, and as long as nobody writes, each list is either as it was or exactly what is stored
(`unwritten_shows_stored`), however many fetches there are and in whatever order they are answered.
-/

set_option autoImplicit false

namespace GiftGenie.ContactPage

open GiftGenie.Library GiftGenie.Firestore GiftGenie.Contacts

variable {m : MissingRead} {uid : String} {users : Collection}

/-! ### One fetch -/

theorem readFriend_of_carries {ds : Option Doc} {row : Friend} (h : Carries m ds row) :
    readFriend m ds = .ok row := by
  obtain ⟨v, hv, hava⟩ := bind_eq_ok.mp h.avatarUrl
  obtain ⟨v', hv', hname⟩ := bind_eq_ok.mp h.name
  obtain ⟨w, hw, hemail⟩ := bind_eq_ok.mp h.email
  obtain ⟨w', hw', hindex⟩ := bind_eq_ok.mp h.userInex
  simp only [readFriend, hv, hv', hw, hw', hava, hname, hemail, hindex, ok_bind]
  rfl

/-- Rows that were read one by one from the same store are those that a loop over the ids reads. -/
theorem mapM_readFriend : ∀ {ls : List DString} {rows : List Friend}, rows.length = ls.length →
    (∀ (k : ℕ) id row, ls[k]? = some id → rows[k]? = some row →
      Carries m (getDocument users id) row) →
    (ls.mapM fun id => readFriend m (getDocument users id)) = .ok rows := by
  intro ls
  induction ls with
  | nil =>
    intro rows hlen _
    rw [List.length_eq_zero_iff.mp hlen]
    rfl
  | cons id ls ih =>
    intro rows hlen hrows
    cases rows with
    | nil => exact nomatch hlen
    | cons row rows =>
      have hrow : readFriend m (getDocument users id) = .ok row :=
        readFriend_of_carries (hrows 0 id row rfl rfl)
      have hrest := ih (Nat.succ.inj hlen) fun k id' row' hid' hrow' => hrows (k + 1) id' row' hid' hrow'
      rw [List.mapM_cons, hrow, ok_bind, hrest]
      rfl

/-- **A fetch of one store.**  What it shows is what `getFriends` or `getInvitations` reads at once. -/
theorem getContacts_of_whole {kind : Kind} {stores : List Collection} {rows : List Friend}
    (h : Whole m uid kind stores rows) (hall : ∀ st ∈ stores, st = users) :
    getContacts kind.key m users uid = .ok rows := by
  obtain ⟨first, rest, ls, hstores, hlist, hrows⟩ := h
  rw [hstores] at hall
  have hfirst : first = users := hall first List.mem_cons_self
  obtain ⟨v, hv, hls⟩ := bind_eq_ok.mp (hfirst ▸ hlist)
  have hcarries : ∀ (k : ℕ) id row, ls[k]? = some id → rows[k]? = some row →
      Carries m (getDocument users id) row := by
    intro k id row hid hrow
    have hk : k < rest.length := by
      rw [hrows.length_stores]
      exact (List.getElem?_eq_some_iff.mp hid).1
    have hst : rest[k]? = some users := by
      rw [List.getElem?_eq_getElem hk, hall rest[k] (List.mem_cons_of_mem first (List.getElem_mem hk))]
    exact hrows.carries k id users row hid hst hrow
  simp only [getContacts, hv, hls, ok_bind]
  exact mapM_readFriend hrows.length_rows hcarries

/-! ### Runs -/

/-- The fetch has read nothing but this store. -/
def Fresh (users : Collection) (f : Fetch) : Prop := ∀ st ∈ f.stores, st = users

/-- Somebody writes. -/
def Event.writes : Event → Bool
  | .write _ => true
  | _ => false

theorem stores_loop (f : Fetch) (rest : List DString) {f' : Fetch}
    (h : f.loop rest = .awaits f') : f'.stores = f.stores := by
  cases rest with
  | nil => exact nomatch h
  | cons id rest =>
    cases h
    rfl

/-- A read is answered with the present store. -/
theorem stores_answer {f f' : Fetch} (h : f.answer m uid users = .awaits f') :
    f'.stores = f.stores ++ [users] := by
  cases hread : f.read with
  | list =>
    rw [answer_list hread] at h
    split at h
    · exact stores_loop _ _ h
    · cases h
  | document id rest =>
    rw [answer_document hread] at h
    split at h
    · exact stores_loop _ _ h
    · cases h

/-- The page as it is while nobody writes: every fetch is of the present store, and each list is what
it was or what is stored. -/
structure Unwritten (m : MissingRead) (uid : String) (s₀ s : ContactPageState) : Prop where
  users : s.users = s₀.users
  sound : Sound m uid s
  fresh : ∀ f ∈ s.fetches, Fresh s₀.users f
  shown : ∀ kind, s.shown kind = s₀.shown kind ∨
    getContacts kind.key m s₀.users uid = .ok (s.shown kind)

/-- A step that leaves both lists alone. -/
theorem Unwritten.keep {s₀ s s' : ContactPageState} (h : Unwritten m uid s₀ s) (husers : s'.users = s.users)
    (hsame : Unchanged s s') (hsound : Sound m uid s')
    (hfresh : ∀ f ∈ s'.fetches, Fresh s₀.users f) : Unwritten m uid s₀ s' where
  users := husers.trans h.users
  sound := hsound
  fresh := hfresh
  shown := fun kind => by
    rw [hsame kind]
    exact h.shown kind

theorem fresh_append {f : Fetch} (h : Fresh users f) : ∀ st ∈ f.stores ++ [users], st = users := by
  intro st hst
  rcases List.mem_append.mp hst with hst | hst
  · exact h st hst
  · exact List.mem_singleton.mp hst

theorem unwritten_answer {s₀ s : ContactPageState} (h : Unwritten m uid s₀ s) {i : ℕ} {f : Fetch}
    (hf : s.fetches[i]? = some f) :
    Unwritten m uid s₀ (s.settle i f.kind (f.answer m uid s.users)) := by
  have hsound := sound_answer (h.sound f (List.mem_of_getElem? hf)) s.users
  have hfresh : ∀ st ∈ f.stores ++ [s.users], st = s₀.users := by
    rw [h.users]
    exact fresh_append (h.fresh f (List.mem_of_getElem? hf))
  have hsettled := sound_settle h.sound (i := i) hsound
  cases hans : f.answer m uid s.users with
  | throws =>
    rw [hans] at hsettled
    exact h.keep rfl (unchanged_of_lists rfl rfl) hsettled
      fun f' hf' => h.fresh f' (List.mem_of_mem_eraseIdx hf')
  | awaits f' =>
    rw [hans] at hsettled
    refine h.keep rfl (unchanged_of_lists rfl rfl) hsettled fun g hg => ?_
    rcases List.mem_or_eq_of_mem_set hg with hg | hg
    · exact h.fresh g hg
    · rw [hg]
      intro st hst
      rw [stores_answer hans] at hst
      exact hfresh st hst
  | shows rows =>
    rw [hans] at hsettled hsound
    refine ⟨?_, hsettled, fun g hg => ?_, fun kind => ?_⟩
    · rw [ContactPageState.settle, ContactPageState.setState_users]
      exact h.users
    · rw [ContactPageState.settle, ContactPageState.setState_fetches] at hg
      exact h.fresh g (List.mem_of_mem_eraseIdx hg)
    · rw [ContactPageState.settle, ContactPageState.setState_shown]
      by_cases hkind : kind = f.kind
      · rw [if_pos hkind, hkind]
        exact Or.inr (getContacts_of_whole hsound hfresh)
      · rw [if_neg hkind]
        have hsame : Unchanged s (s.drop i) := unchanged_of_lists rfl rfl
        rw [hsame kind]
        exact h.shown kind

theorem unwritten_step {s₀ s : ContactPageState} {e : Event} {s' : ContactPageState}
    (hunwritten : e.writes = false) (h : Unwritten m uid s₀ s) (hstep : step m uid s e = some s') :
    Unwritten m uid s₀ s' := by
  have hsound := sound_step s e s' h.sound hstep
  cases e with
  | build =>
    obtain ⟨-, hs'⟩ := Option.ite_none_right_eq_some.mp hstep
    rw [← Option.some.inj hs'] at hsound ⊢
    refine h.keep rfl (unchanged_of_lists rfl rfl) hsound fun f hf => ?_
    rcases List.mem_append.mp hf with hf | hf
    · exact h.fresh f hf
    · -- a new fetch has read nothing
      obtain hf | hf := List.mem_pair.mp hf
      · rw [hf]
        exact nofun
      · rw [hf]
        exact nofun
  | answer i =>
    obtain ⟨f, hf, hs'⟩ := Option.map_eq_some_iff.mp hstep
    rw [← hs']
    exact unwritten_answer h hf
  | fail i =>
    obtain ⟨f, -, hs'⟩ := Option.map_eq_some_iff.mp hstep
    rw [← hs'] at hsound ⊢
    exact h.keep rfl (unchanged_of_lists rfl rfl) hsound
      fun f hf => h.fresh f (List.mem_of_mem_eraseIdx hf)
  | write users => exact nomatch hunwritten
  | rebuild =>
    cases hstep
    exact h.keep rfl (unchanged_of_lists rfl rfl) hsound h.fresh

/-- **What is stored is shown.**  After any run of the page, from a state in which every fetch
under way has read only the present store, and in any further run in which nobody writes: each list
of the page is as it was, or exactly what reading all contacts at once gives. -/
theorem unwritten_shows_stored (m : MissingRead) (uid : String) (users : Collection)
    (before after : List Event) (s t : ContactPageState)
    (hbefore : Machine.run (step m uid) (ContactPageState.start users) before = some s)
    (hfresh : ∀ f ∈ s.fetches, Fresh s.users f) (hunwritten : ∀ e ∈ after, Event.writes e = false)
    (hafter : Machine.run (step m uid) s after = some t) (kind : Kind) :
    t.shown kind = s.shown kind ∨ getContacts kind.key m s.users uid = .ok (t.shown kind) := by
  have hstart : Sound m uid (ContactPageState.start users) := fun f hf => absurd hf List.not_mem_nil
  have hsound : Sound m uid s := Machine.run_invariant sound_step before _ s hstart hbefore
  have hguard : Machine.AllSteps (step m uid) (fun _ e => Event.writes e = false) s after :=
    Machine.allSteps_of_forall s fun e he _ => hunwritten e he
  have h : Unwritten m uid s t := Machine.run_guarded
    (fun s' e s'' h hw hs => unwritten_step hw h hs) after s t
    ⟨rfl, hsound, hfresh, fun kind => Or.inl rfl⟩ hguard hafter
  exact h.shown kind

/-- The friend is written while the page is open, and the next build shows him. -/
theorem unwritten_shows_stored_bob :
    ∃ s t, Machine.run (step .givesNull "ann") (ContactPageState.start fun _ => none)
        [.write annAndBob] = some s ∧
      Machine.run (step .givesNull "ann") s [.build, .answer 0, .answer 0] = some t ∧
      getContacts "friends" .givesNull annAndBob "ann" = .ok (t.shown .friends) := by
  refine ⟨_, _, rfl, rfl, ?_⟩
  have h := unwritten_shows_stored .givesNull "ann" (fun _ => none) [.write annAndBob]
    [.build, .answer 0, .answer 0] _ _ rfl nofun (by decide) rfl .friends
  exact h.resolve_left (by decide)

end GiftGenie.ContactPage
