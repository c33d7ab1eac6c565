import GiftGenie.ContactFetches

/-!
# Whether the contact page comes to rest

A build starts two fetches, and a fetch that gets through its reads schedules a build.  While the
store stays as it is, what a fetch will come to is known at every moment: `Fetch.succeeds` reads the
rest of it at once.  So if one of the two fetches succeeds, a page with a build or a successful
fetch under way goes on for ever; and otherwise every step is progress to the end, which `effort`
measures.

`comes_to_rest_iff` puts the two together.
-/

set_option autoImplicit false

namespace GiftGenie.ContactPage

open GiftGenie.Library GiftGenie.Firestore GiftGenie.Contacts

/-- A step that is neither an action of a user nor a write. -/
def Internal (_ : ContactPageState) : Event → Prop
  | .build => True
  | .answer _ => True
  | .fail _ => True
  | .write _ => False
  | .rebuild => False

/-- No fetch and no build is pending. -/
def AtRest (s : ContactPageState) : Prop := s.fetches = [] ∧ s.building = false

/-- There is no infinite run, and a run that cannot go on has come to rest. -/
structure ComesToRest (m : MissingRead) (uid : String) (s : ContactPageState) : Prop where
  finite : ¬Machine.InfiniteRun (step m uid) Internal s
  rests : ∀ events t, Machine.run (step m uid) s events = some t →
    (∀ e, Internal t e → step m uid t e = none) → AtRest t

/-- Whether the fetch would get through its reads, if all were answered with this store. -/
def Fetch.succeeds (m : MissingRead) (uid : String) (users : Collection) (f : Fetch) : Bool :=
  match f.read with
  | .list => (getContacts f.kind.key m users uid).isOk
  | .document id rest => ((id :: rest).mapM fun id => readFriend m (getDocument users id)).isOk

/-- Neither fetch succeeds; or no build is scheduled, and no fetch under way succeeds. -/
def Quiet (m : MissingRead) (uid : String) (s : ContactPageState) : Prop :=
  (∀ kind, (Fetch.start kind).succeeds m uid s.users = false) ∨
    s.building = false ∧ ∀ f ∈ s.fetches, f.succeeds m uid s.users = false

/-! ### One read -/

variable {m : MissingRead} {uid : String} {users : Collection} {f : Fetch}

/-- What a read leads to, in a fetch that succeeds or not. -/
def Outcome.Follows (m : MissingRead) (uid : String) (users : Collection) (success : Bool) :
    Outcome → Prop
  | .throws => success = false
  | .shows _ => success = true
  | .awaits f => f.succeeds m uid users = success

theorem follows_loop (f : Fetch) (rest : List DString) :
    (f.loop rest).Follows m uid users
      (rest.mapM fun id => readFriend m (getDocument users id)).isOk := by
  cases rest with
  | nil => rfl
  | cons id rest => rfl

/-- Reading one document more does not change whether the others can be read. -/
theorem isOk_mapM_cons {id : DString} {rest : List DString} {row : Friend}
    (h : readFriend m (getDocument users id) = .ok row) :
    ((id :: rest).mapM fun id => readFriend m (getDocument users id)).isOk =
      (rest.mapM fun id => readFriend m (getDocument users id)).isOk := by
  rw [List.mapM_cons, h, ok_bind]
  cases rest.mapM fun id => readFriend m (getDocument users id) with
  | error e => rfl
  | ok rows => rfl

variable (m uid users) in
theorem follows_answer (f : Fetch) :
    (f.answer m uid users).Follows m uid users (f.succeeds m uid users) := by
  cases hread : f.read with
  | list =>
    have hcontacts : getContacts f.kind.key m users uid =
        (readKey m (users uid) f.kind.key >>= asList) >>= fun ls =>
          ls.mapM fun id => readFriend m (getDocument users id) := (bind_assoc _ _ _).symm
    rw [answer_list hread, Fetch.succeeds, hread]
    dsimp only
    rw [hcontacts]
    cases readKey m (users uid) f.kind.key >>= asList with
    | error e => rfl
    | ok ls => exact follows_loop { f with ls := ls, stores := f.stores ++ [users] } ls
  | document id rest =>
    rw [answer_document hread, Fetch.succeeds, hread]
    dsimp only
    cases hrow : readFriend m (getDocument users id) with
    | error e =>
      rw [List.mapM_cons, hrow]
      rfl
    | ok row =>
      rw [isOk_mapM_cons hrow]
      exact follows_loop
        { f with tempList := f.tempList ++ [row], stores := f.stores ++ [users] } rest

variable (m uid users) in
theorem left_pos (f : Fetch) : 0 < f.left m uid users := by
  unfold Fetch.left
  split
  · split <;> omega
  · omega

/-! ### Going on for ever -/

variable {s s' : ContactPageState}

/-- One of the fetches succeeds, and a build or a fetch that succeeds is pending. -/
def Busy (m : MissingRead) (uid : String) (s : ContactPageState) : Prop :=
  (∃ kind, (Fetch.start kind).succeeds m uid s.users = true) ∧
    (s.building = true ∨ ∃ f ∈ s.fetches, f.succeeds m uid s.users = true)

theorem not_quiet_iff : ¬Quiet m uid s ↔ Busy m uid s := by
  simp only [Quiet, Busy, not_or, not_and_or, not_forall, Bool.not_eq_false, exists_prop]

/-- A busy page has a step after which it is busy. -/
theorem busy_progress (h : Busy m uid s) :
    ∃ e s', Internal s e ∧ step m uid s e = some s' ∧ Busy m uid s' := by
  obtain ⟨⟨kind, hkind⟩, hpending⟩ := h
  cases hbuilding : s.building with
  | true =>
    have hstarted : Fetch.start kind ∈
        s.fetches ++ [Fetch.start .friends, Fetch.start .invitations] := by
      cases kind <;> simp
    exact ⟨.build, _, trivial, if_pos hbuilding, ⟨kind, hkind⟩, Or.inr ⟨_, hstarted, hkind⟩⟩
  | false =>
    obtain ⟨f, hf, hsucceeds⟩ : ∃ f ∈ s.fetches, f.succeeds m uid s.users = true := by
      simpa [hbuilding] using hpending
    obtain ⟨i, hi⟩ := List.mem_iff_getElem?.mp hf
    have hfollows := follows_answer m uid s.users f
    have hstep : step m uid s (.answer i) = some (s.settle i f.kind (f.answer m uid s.users)) := by
      show s.fetches[i]?.map _ = _
      rw [hi]
      rfl
    refine ⟨.answer i, _, trivial, hstep, ?_⟩
    cases hans : f.answer m uid s.users with
    | throws =>
      rw [hans, hsucceeds] at hfollows
      cases hfollows
    | awaits f' =>
      rw [hans, hsucceeds] at hfollows
      have hlt : i < s.fetches.length := (List.getElem?_eq_some_iff.mp hi).1
      exact ⟨⟨kind, hkind⟩, Or.inr ⟨f', List.mem_set hlt f', hfollows⟩⟩
    | shows rows =>
      refine ⟨⟨kind, ?_⟩, Or.inl (ContactPageState.setState_building _ _ _)⟩
      rw [ContactPageState.settle, ContactPageState.setState_users]
      exact hkind

theorem infiniteRun_of_busy (h : Busy m uid s) : Machine.InfiniteRun (step m uid) Internal s :=
  Machine.infiniteRun_of_progress (I := Busy m uid) (fun _ => busy_progress) h

/-! ### Coming to rest -/

/-- The steps of a build that has no success: the build and the reads of its two fetches. -/
def buildEffort (m : MissingRead) (uid : String) (users : Collection) : ℕ :=
  (Fetch.start .friends).left m uid users + (Fetch.start .invitations).left m uid users + 1

/-- The steps of a fetch, with those of the build it schedules if it succeeds. -/
def Fetch.effort (m : MissingRead) (uid : String) (users : Collection) (f : Fetch) : ℕ :=
  f.left m uid users + if f.succeeds m uid users then buildEffort m uid users else 0

/-- The steps that are left to a page in which nothing more succeeds than what is under way. -/
def effort (m : MissingRead) (uid : String) (s : ContactPageState) : ℕ :=
  (s.fetches.map (Fetch.effort m uid s.users)).sum +
    if s.building then buildEffort m uid s.users else 0

variable (m uid users) in
theorem effort_pos (f : Fetch) : 0 < f.effort m uid users := by
  have hleft := left_pos m uid users f
  unfold Fetch.effort
  omega

/-- One fetch is put aside. -/
theorem sum_of_getElem? {fetches : List Fetch} {i : ℕ} {f : Fetch} (h : fetches[i]? = some f)
    (weight : Fetch → ℕ) :
    (fetches.map weight).sum = weight f + ((fetches.eraseIdx i).map weight).sum := by
  have hperm := (ListSet.perm_cons_eraseIdx h).map weight
  rw [hperm.sum_eq, List.map_cons, List.sum_cons]

variable (m uid) in
theorem effort_drop {i : ℕ} {f : Fetch} (h : s.fetches[i]? = some f) :
    effort m uid s = f.effort m uid s.users + effort m uid (s.drop i) := by
  rw [effort, sum_of_getElem? h]
  exact Nat.add_assoc _ _ _

variable (m uid) in
theorem effort_set {i : ℕ} {f : Fetch} (h : s.fetches[i]? = some f) (f' : Fetch) :
    effort m uid { s with fetches := s.fetches.set i f' } + f.effort m uid s.users =
      effort m uid s + f'.effort m uid s.users := by
  have hlt : i < s.fetches.length := (List.getElem?_eq_some_iff.mp h).1
  have hset : (s.fetches.set i f')[i]? = some f' := List.getElem?_set_self hlt
  rw [effort, effort, sum_of_getElem? h, sum_of_getElem? hset, List.eraseIdx_set_eq]
  dsimp only
  omega

theorem quiet_drop (h : Quiet m uid s) (i : ℕ) : Quiet m uid (s.drop i) :=
  h.imp_right fun hrest => ⟨hrest.1, fun f hf => hrest.2 f (List.mem_of_mem_eraseIdx hf)⟩

/-- A build is scheduled only where both of its fetches fail. -/
theorem quiet_build (h : Quiet m uid s) (hbuilding : s.building = true) :
    ∀ kind, (Fetch.start kind).succeeds m uid s.users = false := by
  rcases h with hkinds | ⟨hno, -⟩
  · exact hkinds
  · rw [hbuilding] at hno
    cases hno

/-- A fetch of a quiet page shows its rows only where both fetches of the next build fail. -/
theorem quiet_fetch (h : Quiet m uid s) {f : Fetch} (hf : f ∈ s.fetches)
    (hsuccess : f.succeeds m uid s.users = true) :
    ∀ kind, (Fetch.start kind).succeeds m uid s.users = false := by
  rcases h with hkinds | ⟨-, hrest⟩
  · exact hkinds
  · have hno := hrest f hf
    rw [hsuccess] at hno
    cases hno

variable (m uid s) in
/-- Showing rows schedules one build at most. -/
theorem effort_setState_le (rows : List Friend) (kind : Kind) :
    effort m uid (s.setState rows kind) ≤ effort m uid s + buildEffort m uid s.users := by
  unfold effort
  rw [ContactPageState.setState_fetches, ContactPageState.setState_users,
    ContactPageState.setState_building, if_pos rfl]
  omega

theorem quiet_answer (h : Quiet m uid s) {i : ℕ} {f : Fetch} (hf : s.fetches[i]? = some f) :
    Quiet m uid (s.settle i f.kind (f.answer m uid s.users)) ∧
      effort m uid (s.settle i f.kind (f.answer m uid s.users)) < effort m uid s := by
  have hfollows := follows_answer m uid s.users f
  have hpos := effort_pos m uid s.users f
  have hdrop := effort_drop m uid hf
  cases hans : f.answer m uid s.users with
  | throws =>
    refine ⟨quiet_drop h i, ?_⟩
    show effort m uid (s.drop i) < effort m uid s
    omega
  | awaits f' =>
    rw [hans] at hfollows
    have hsame : f'.succeeds m uid s.users = f.succeeds m uid s.users := hfollows
    have hless := left_lt hans s.users
    refine ⟨h.imp_right fun hrest => ⟨hrest.1, fun g hg => ?_⟩, ?_⟩
    · rcases List.mem_or_eq_of_mem_set hg with hg | rfl
      · exact hrest.2 g hg
      · exact hsame.trans (hrest.2 f (List.mem_of_getElem? hf))
    · have hset := effort_set m uid hf f'
      have heffort : f'.effort m uid s.users < f.effort m uid s.users := by
        unfold Fetch.effort
        rw [hsame]
        omega
      show effort m uid { s with fetches := s.fetches.set i f' } < effort m uid s
      omega
  | shows rows =>
    rw [hans] at hfollows
    have hsuccess : f.succeeds m uid s.users = true := hfollows
    have hkinds := quiet_fetch h (List.mem_of_getElem? hf) hsuccess
    refine ⟨Or.inl fun kind => ?_, ?_⟩
    · rw [ContactPageState.settle, ContactPageState.setState_users]
      exact hkinds kind
    · -- the fetch has paid for the build it schedules
      have hleft := left_pos m uid s.users f
      have heffort : f.effort m uid s.users = f.left m uid s.users + buildEffort m uid s.users := by
        rw [Fetch.effort, hsuccess, if_pos rfl]
      have hshown : effort m uid ((s.drop i).setState rows f.kind) ≤
          effort m uid (s.drop i) + buildEffort m uid s.users :=
        effort_setState_le m uid (s.drop i) rows f.kind
      show effort m uid ((s.drop i).setState rows f.kind) < effort m uid s
      omega

/-- Every step of a quiet page is progress. -/
theorem quiet_step (s : ContactPageState) (e : Event) (s' : ContactPageState) (h : Quiet m uid s)
    (hinternal : Internal s e) (hstep : step m uid s e = some s') :
    Quiet m uid s' ∧ effort m uid s' < effort m uid s := by
  cases e with
  | build =>
    obtain ⟨hbuilding, hs'⟩ := Option.ite_none_right_eq_some.mp hstep
    have hkinds := quiet_build h hbuilding
    rw [← Option.some.inj hs']
    refine ⟨Or.inl hkinds, ?_⟩
    have hfetch : ∀ kind, (Fetch.start kind).effort m uid s.users =
        (Fetch.start kind).left m uid s.users := by
      intro kind
      rw [Fetch.effort, hkinds kind]
      rfl
    unfold effort
    rw [hbuilding, if_pos rfl]
    simp only [List.map_append, List.map_cons, List.map_nil, List.sum_append, List.sum_cons,
      List.sum_nil, hfetch, buildEffort, Bool.false_eq_true, if_false]
    omega
  | answer i =>
    obtain ⟨f, hf, rfl⟩ := Option.map_eq_some_iff.mp hstep
    exact quiet_answer h hf
  | fail i =>
    obtain ⟨f, hf, rfl⟩ := Option.map_eq_some_iff.mp hstep
    have hpos := effort_pos m uid s.users f
    have hdrop := effort_drop m uid hf
    exact ⟨quiet_drop h i, by omega⟩
  | write users => exact absurd hinternal id
  | rebuild => exact absurd hinternal id

/-- A page with something pending can go on. -/
theorem atRest_of_stuck (h : ∀ e, Internal s e → step m uid s e = none) : AtRest s := by
  constructor
  · cases hfetches : s.fetches with
    | nil => rfl
    | cons f rest =>
      have hnone : s.fetches[0]?.map _ = none := h (.answer 0) trivial
      rw [hfetches] at hnone
      cases hnone
  · cases hbuilding : s.building with
    | false => rfl
    | true =>
      have hnone : (if s.building then some _ else none) = none := h .build trivial
      rw [hbuilding, if_pos rfl] at hnone
      cases hnone

/-- **When the contact page comes to rest.**  From a state of the mounted page there is no infinite
run, and every run that cannot go on has nothing pending, if and only if neither `getFriends` nor
`getInvitations` succeeds on the store, or no build and no fetch that succeeds is pending. -/
theorem comes_to_rest_iff (m : MissingRead) (uid : String) (s : ContactPageState) :
    ComesToRest m uid s ↔ Quiet m uid s := by
  constructor
  · intro hrest
    by_contra hquiet
    exact hrest.finite (infiniteRun_of_busy (not_quiet_iff.mp hquiet))
  · intro hquiet
    exact ⟨Machine.not_infiniteRun (effort m uid) quiet_step hquiet,
      fun _ _ _ hstuck => atRest_of_stuck hstuck⟩

/-- Ann has no friends and no invitations. -/
def noContacts : Collection :=
  setDoc (fun _ => none) "ann" (docOf [("friends", .list []), ("invitations", .list [])])

/-- Both fetches show their empty lists, and every time a build follows. -/
theorem not_comes_to_rest : ¬ComesToRest .throws "ann" (ContactPageState.start noContacts) := by
  intro hrest
  have hsucceeds : (Fetch.start .friends).succeeds .throws "ann" noContacts = true := by decide
  exact hrest.finite (infiniteRun_of_busy ⟨⟨.friends, hsucceeds⟩, Or.inl rfl⟩)

end GiftGenie.ContactPage
