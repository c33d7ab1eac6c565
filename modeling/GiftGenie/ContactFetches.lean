import GiftGenie.ContactPage
import GiftGenie.Library.Termination

/-!
# Loading contacts is all or nothing

A fetch keeps its rows to itself until it has them all.  So whatever the other fetches do and
however the store changes, a step either leaves the two lists alone, or ends a fetch and replaces its
list by as many rows as the ids it read first, each with the fields its document had when it was
read (`fetches_all_or_nothing`).

Every read leaves fewer of them (`left_lt`), so a fetch whose reads are answered ends (`reads_end`).
-/

set_option autoImplicit false

namespace GiftGenie.ContactPage

open GiftGenie.Library GiftGenie.Firestore GiftGenie.Contacts

/-- The row has the four fields of the document. -/
structure Carries (m : MissingRead) (ds : Option Doc) (row : Friend) : Prop where
  avatarUrl : (readKey m ds "avatar" >>= asString) = .ok row.avatarUrl
  name : (readKey m ds "name" >>= asString) = .ok row.name
  email : (readKey m ds "email" >>= asString) = .ok row.email
  userInex : (readKey m ds "userIndex" >>= asString) = .ok row.userInex

/-- One row for each id, in this order, from its document in the store with which it was read. -/
structure RowsOf (m : MissingRead) (ls : List DString) (stores : List Collection)
    (rows : List Friend) : Prop where
  length_stores : stores.length = ls.length
  length_rows : rows.length = ls.length
  carries : ∀ (k : ℕ) id users row, ls[k]? = some id → stores[k]? = some users →
    rows[k]? = some row → Carries m (getDocument users id) row

/-- The rows of a whole fetch, whose reads were answered with `stores`: the list of ids is the one
in the first of them. -/
def Whole (m : MissingRead) (uid : String) (kind : Kind) (stores : List Collection)
    (rows : List Friend) : Prop :=
  ∃ users stores' ls, stores = users :: stores' ∧
    (readKey m (users uid) kind.key >>= asList) = .ok ls ∧ RowsOf m ls stores' rows

def Unchanged (s s' : ContactPageState) : Prop := ∀ kind, s'.shown kind = s.shown kind

/-- A fetch whose read is answered goes on, or ends with an error, and then both lists stay; or it
ends with all its rows.  A fetch whose read fails ends, too.  No other step changes a list. -/
def AllOrNothing (m : MissingRead) (uid : String) (s : ContactPageState) : Event → Prop
  | .answer i => ∀ f s', s.fetches[i]? = some f → step m uid s (.answer i) = some s' →
      match f.answer m uid s.users with
      | .awaits f' => s'.fetches = s.fetches.set i f' ∧ Unchanged s s'
      | .throws => s'.fetches = s.fetches.eraseIdx i ∧ Unchanged s s'
      | .shows rows => s'.fetches = s.fetches.eraseIdx i ∧ s'.shown f.kind = rows ∧
          Whole m uid f.kind (f.stores ++ [s.users]) rows ∧
          ∀ kind, kind ≠ f.kind → s'.shown kind = s.shown kind
  | .fail i => ∀ s', step m uid s (.fail i) = some s' →
      s'.fetches = s.fetches.eraseIdx i ∧ Unchanged s s'
  | e => ∀ s', step m uid s e = some s' → Unchanged s s'

/-! ### The rows so far -/

variable {m : MissingRead} {uid : String} {users : Collection} {f : Fetch}

theorem carries_readFriend {ds : Option Doc} {row : Friend} (h : readFriend m ds = .ok row) :
    Carries m ds row := by
  unfold readFriend at h
  obtain ⟨v, hv, h⟩ := bind_eq_ok.mp h
  obtain ⟨ava, hava, h⟩ := bind_eq_ok.mp h
  obtain ⟨v', hv', h⟩ := bind_eq_ok.mp h
  obtain ⟨name, hname, h⟩ := bind_eq_ok.mp h
  obtain ⟨w, hw, h⟩ := bind_eq_ok.mp h
  obtain ⟨email, hemail, h⟩ := bind_eq_ok.mp h
  obtain ⟨w', hw', h⟩ := bind_eq_ok.mp h
  obtain ⟨userIndex, hindex, h⟩ := bind_eq_ok.mp h
  rw [← Except.ok.inj h]
  exact ⟨bind_eq_ok.mpr ⟨v, hv, hava⟩, bind_eq_ok.mpr ⟨v', hv', hname⟩,
    bind_eq_ok.mpr ⟨w, hw, hemail⟩, bind_eq_ok.mpr ⟨w', hw', hindex⟩⟩

theorem rowsOf_nil : RowsOf m [] [] [] where
  length_stores := rfl
  length_rows := rfl
  carries := fun k id users row hid => absurd hid (by simp)

/-- One more document is read. -/
theorem RowsOf.snoc {ls : List DString} {stores : List Collection} {rows : List Friend}
    (h : RowsOf m ls stores rows) {id : DString} {row : Friend}
    (hrow : readFriend m (getDocument users id) = .ok row) :
    RowsOf m (ls ++ [id]) (stores ++ [users]) (rows ++ [row]) := by
  have hstores := h.length_stores
  have hrows := h.length_rows
  refine ⟨?_, ?_, fun k id' users' row' hid' husers' hrow' => ?_⟩
  · rw [List.length_append, List.length_append, hstores]
    rfl
  · rw [List.length_append, List.length_append, hrows]
    rfl
  · by_cases hk : k < ls.length
    · rw [List.getElem?_append_left hk] at hid'
      rw [List.getElem?_append_left (by omega)] at husers'
      rw [List.getElem?_append_left (by omega)] at hrow'
      exact h.carries k id' users' row' hid' husers' hrow'
    · have hlt : k < (ls ++ [id]).length := (List.getElem?_eq_some_iff.mp hid').1
      rw [List.length_append, List.length_singleton] at hlt
      obtain rfl : k = ls.length := by omega
      rw [List.getElem?_concat_length] at hid'
      rw [← hstores, List.getElem?_concat_length] at husers'
      rw [← hrows, List.getElem?_concat_length] at hrow'
      rw [← Option.some.inj hid', ← Option.some.inj husers', ← Option.some.inj hrow']
      exact carries_readFriend hrow

/-- What a fetch holds is what it has read: nothing at first, and then the list of ids in the first
store, with the rows of those ids that it no longer awaits. -/
def Fetch.Sound (m : MissingRead) (uid : String) (f : Fetch) : Prop :=
  match f.read with
  | .list => f.stores = [] ∧ f.tempList = []
  | .document id rest => ∃ users stores done, f.stores = users :: stores ∧
      (readKey m (users uid) f.kind.key >>= asList) = .ok f.ls ∧ f.ls = done ++ id :: rest ∧
      RowsOf m done stores f.tempList

/-- A read that does not throw leaves a sound fetch or shows a whole list. -/
def Outcome.Sound (m : MissingRead) (uid : String) (kind : Kind) (stores : List Collection) :
    Outcome → Prop
  | .throws => True
  | .awaits f => f.Sound m uid
  | .shows rows => Whole m uid kind stores rows

theorem sound_loop {stores : List Collection} {done rest : List DString}
    (hstores : f.stores = users :: stores)
    (hlist : (readKey m (users uid) f.kind.key >>= asList) = .ok f.ls)
    (hls : f.ls = done ++ rest) (hrows : RowsOf m done stores f.tempList) :
    (f.loop rest).Sound m uid f.kind f.stores := by
  cases rest with
  | nil =>
    rw [List.append_nil] at hls
    exact ⟨users, stores, f.ls, hstores, hlist, hls ▸ hrows⟩
  | cons id rest => exact ⟨users, stores, done, hstores, hlist, hls, hrows⟩

/-- What a read of a sound fetch leads to. -/
theorem sound_answer (h : f.Sound m uid) (users : Collection) :
    (f.answer m uid users).Sound m uid f.kind (f.stores ++ [users]) := by
  unfold Fetch.Sound at h
  cases hread : f.read with
  | list =>
    rw [hread] at h
    obtain ⟨hstores, htemp⟩ := h
    rw [answer_list hread]
    cases hlist : readKey m (users uid) f.kind.key >>= asList with
    | error e => trivial
    | ok ls =>
      have hrows : RowsOf m [] [] f.tempList := htemp ▸ rowsOf_nil
      have hfirst : f.stores ++ [users] = [users] := by
        rw [hstores]
        rfl
      exact sound_loop (f := { f with ls := ls, stores := f.stores ++ [users] }) hfirst hlist rfl
        hrows
  | document id rest =>
    rw [hread] at h
    obtain ⟨first, stores, done, hstores, hlist, hls, hrows⟩ := h
    rw [answer_document hread]
    cases hrow : readFriend m (getDocument users id) with
    | error e => trivial
    | ok row =>
      have hmore : f.stores ++ [users] = first :: (stores ++ [users]) := by
        rw [hstores]
        rfl
      have hls' : f.ls = (done ++ [id]) ++ rest := by
        rw [hls, List.append_assoc]
        rfl
      exact sound_loop
        (f := { f with tempList := f.tempList ++ [row], stores := f.stores ++ [users] }) hmore hlist
        hls' (hrows.snoc hrow)

/-! ### One step -/

/-- All fetches under way are sound. -/
def Sound (m : MissingRead) (uid : String) (s : ContactPageState) : Prop :=
  ∀ f ∈ s.fetches, f.Sound m uid

theorem sound_settle {s : ContactPageState} (h : Sound m uid s) {i : ℕ} {kind : Kind}
    {stores : List Collection} {o : Outcome} (ho : o.Sound m uid kind stores) :
    Sound m uid (s.settle i kind o) := by
  cases o with
  | throws => exact fun f hf => h f (List.mem_of_mem_eraseIdx hf)
  | awaits f' =>
    intro f hf
    rcases List.mem_or_eq_of_mem_set hf with hf | rfl
    · exact h f hf
    · exact ho
  | shows rows =>
    intro f hf
    rw [ContactPageState.settle, ContactPageState.setState_fetches] at hf
    exact h f (List.mem_of_mem_eraseIdx hf)

theorem sound_step (s : ContactPageState) (e : Event) (s' : ContactPageState) (h : Sound m uid s)
    (hstep : step m uid s e = some s') : Sound m uid s' := by
  cases e with
  | build =>
    obtain ⟨-, hs'⟩ := Option.ite_none_right_eq_some.mp hstep
    rw [← Option.some.inj hs']
    intro f hf
    rcases List.mem_append.mp hf with hf | hf
    · exact h f hf
    · rcases List.mem_pair.mp hf with rfl | rfl
      · exact ⟨rfl, rfl⟩
      · exact ⟨rfl, rfl⟩
  | answer i =>
    obtain ⟨f, hf, rfl⟩ := Option.map_eq_some_iff.mp hstep
    exact sound_settle h (sound_answer (h f (List.mem_of_getElem? hf)) s.users)
  | fail i =>
    obtain ⟨f, -, rfl⟩ := Option.map_eq_some_iff.mp hstep
    exact fun f hf => h f (List.mem_of_mem_eraseIdx hf)
  | write users =>
    cases hstep
    exact h
  | rebuild =>
    cases hstep
    exact h

theorem unchanged_of_lists {s s' : ContactPageState} (hfriends : s'.friends = s.friends)
    (hnotif : s'.notif = s.notif) : Unchanged s s' := by
  intro kind
  cases kind with
  | friends => exact hfriends
  | invitations => exact hnotif

theorem allOrNothing_step {s : ContactPageState} (h : Sound m uid s) (e : Event) :
    AllOrNothing m uid s e := by
  cases e with
  | build =>
    intro s' hstep
    obtain ⟨-, hs'⟩ := Option.ite_none_right_eq_some.mp hstep
    rw [← Option.some.inj hs']
    exact unchanged_of_lists rfl rfl
  | answer i =>
    intro f s' hf hstep
    have hs' : s.settle i f.kind (f.answer m uid s.users) = s' := by
      have hmap : (s.fetches[i]?.map fun f => s.settle i f.kind (f.answer m uid s.users)) =
          some s' := hstep
      rw [hf] at hmap
      exact Option.some.inj hmap
    have hsound := sound_answer (h f (List.mem_of_getElem? hf)) s.users
    subst hs'
    cases hans : f.answer m uid s.users with
    | throws => exact ⟨rfl, unchanged_of_lists rfl rfl⟩
    | awaits f' => exact ⟨rfl, unchanged_of_lists rfl rfl⟩
    | shows rows =>
      rw [hans] at hsound
      refine ⟨ContactPageState.setState_fetches _ _ _, ?_, hsound, fun kind hkind => ?_⟩
      · rw [ContactPageState.settle, ContactPageState.setState_shown, if_pos rfl]
      · rw [ContactPageState.settle, ContactPageState.setState_shown, if_neg hkind]
        have hsame : Unchanged s (s.drop i) := unchanged_of_lists rfl rfl
        exact hsame kind
  | fail i =>
    intro s' hstep
    obtain ⟨f, -, rfl⟩ := Option.map_eq_some_iff.mp hstep
    exact ⟨rfl, unchanged_of_lists rfl rfl⟩
  | write users =>
    intro s' hstep
    cases hstep
    exact unchanged_of_lists rfl rfl
  | rebuild =>
    intro s' hstep
    cases hstep
    exact unchanged_of_lists rfl rfl

/-! ### Runs -/

/-- **All or nothing.**  In every run of a mounted page, whatever is written to the store and however
the reads are ordered, a fetch either shows the rows of all the ids it read first, each as its
document was when it was read, or leaves its list alone. -/
theorem fetches_all_or_nothing (m : MissingRead) (uid : String) (users : Collection)
    (events : List Event) :
    Machine.AllSteps (step m uid) (AllOrNothing m uid) (ContactPageState.start users) events := by
  have hstart : Sound m uid (ContactPageState.start users) :=
    fun f hf => absurd hf List.not_mem_nil
  exact Machine.allSteps_of_invariant (fun s e h => allOrNothing_step h e) sound_step events _ hstart

/-- `ann` has the friend `bob`. -/
def annAndBob : Collection := fun id =>
  if id = "ann" then some (docOf [("friends", .list [some "bob"])])
  else if id = "bob" then
    some (docOf [("avatar", .str "bob.jpg"), ("name", .str "Bob"), ("email", .str "bob@x.org"),
      ("userIndex", .str "bob")])
  else none

/-- Between the two reads of the friends the other fetch throws, as there is no list for it. -/
example : (Machine.run (step .givesNull "ann") (ContactPageState.start annAndBob)
    [.build, .answer 0, .answer 1, .answer 0]).map
      (fun s => (s.friends.map Friend.name, s.notif.length, s.fetches.length)) =
    some ([some "Bob"], 0, 0) := by decide +kernel

/-! ### A fetch ends -/

/-- How many reads are left, if all were answered with this store. -/
def Fetch.left (m : MissingRead) (uid : String) (users : Collection) (f : Fetch) : ℕ :=
  match f.read with
  | .list =>
      match readKey m (users uid) f.kind.key >>= asList with
      | .ok ls => ls.length + 1
      | .error _ => 1
  | .document _ rest => rest.length + 1

/-- A fetch on its own: its reads are answered one after the other, each with some store. -/
def Fetch.next (m : MissingRead) (uid : String) (f : Fetch) (users : Collection) : Option Fetch :=
  match f.answer m uid users with
  | .awaits f' => some f'
  | _ => none

theorem awaits_of_next {f f' : Fetch} (h : f.next m uid users = some f') :
    f.answer m uid users = .awaits f' := by
  unfold Fetch.next at h
  split at h
  · rename_i hans
    rw [hans, Option.some.inj h]
  · cases h

variable (m uid) in
theorem left_loop {f f' : Fetch} {rest : List DString} (h : f.loop rest = .awaits f')
    (users : Collection) : f'.left m uid users = rest.length := by
  cases rest with
  | nil => exact nomatch h
  | cons id rest =>
    cases h
    rfl

/-- After a read it is known how many are left, and they are fewer. -/
theorem left_answer {f f' : Fetch} (h : f.answer m uid users = .awaits f') :
    ∃ n, n < f.left m uid users ∧ ∀ users', f'.left m uid users' = n := by
  cases hread : f.read with
  | list =>
    rw [answer_list hread] at h
    cases hlist : readKey m (users uid) f.kind.key >>= asList with
    | error e =>
      rw [hlist] at h
      cases h
    | ok ls =>
      rw [hlist] at h
      refine ⟨ls.length, ?_, left_loop m uid h⟩
      rw [Fetch.left, hread]
      dsimp only
      rw [hlist]
      exact Nat.lt_succ_self _
  | document id rest =>
    rw [answer_document hread] at h
    cases hrow : readFriend m (getDocument users id) with
    | error e =>
      rw [hrow] at h
      cases h
    | ok row =>
      rw [hrow] at h
      refine ⟨rest.length, ?_, left_loop m uid h⟩
      rw [Fetch.left, hread]
      exact Nat.lt_succ_self _

/-- Every read that is answered leaves fewer of them, whatever is written before the next. -/
theorem left_lt {f f' : Fetch} (h : f.answer m uid users = .awaits f') (users' : Collection) :
    f'.left m uid users' < f.left m uid users := by
  obtain ⟨n, hn, hleft⟩ := left_answer h
  rw [hleft users']
  exact hn

/-- **A fetch ends.**  However the store changes between its reads, a fetch does not go on for ever. -/
theorem reads_end (m : MissingRead) (uid : String) (f : Fetch) :
    ¬Machine.InfiniteRun (Fetch.next m uid) (fun _ _ => True) f := by
  intro hrun
  obtain ⟨users, f', hnext, hrest⟩ := hrun.tail
  -- from the first answer on, the number of reads that are left is the same for all stores
  let Known : Fetch → Prop := fun f => ∃ n, ∀ users, f.left m uid users = n
  have hstep : ∀ f users' f', Known f → True → f.next m uid users' = some f' →
      Known f' ∧ f'.left m uid users < f.left m uid users := by
    intro f users' f' hknown _ hnext
    obtain ⟨n, hn⟩ := hknown
    obtain ⟨n', hlt, hn'⟩ := left_answer (awaits_of_next hnext)
    rw [hn users', ← hn users, ← hn' users] at hlt
    exact ⟨⟨n', hn'⟩, hlt⟩
  obtain ⟨n, -, hn⟩ := left_answer (awaits_of_next hnext)
  exact Machine.not_infiniteRun (Fetch.left m uid users) hstep ⟨n, hn⟩ hrest

end GiftGenie.ContactPage
