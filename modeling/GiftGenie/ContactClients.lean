import GiftGenie.Friendship

/-!
# Contact pages that are open while others write

`Contacts` reads a store that does not change between two reads.  Here every read of `getInvitations`
is a step of its own: the id list first, then the document of one contact after the other, and only
then the rows are shown.  Transactions of any user may commit in between.  A row stays usable for
good, since its dialog keeps the index it was opened with; so Accept and Decline may act on a list
that is long out of date.

`net_step` and `loaded_step` say what a step can do: to the store and its transactions, and to what
the pages have read.
-/

set_option autoImplicit false

namespace GiftGenie.ContactClients

open GiftGenie.Library GiftGenie.Firestore GiftGenie.ListTransactions GiftGenie.ListHistories
open GiftGenie.Contacts
open GiftGenie.Friendship (Network)

/-- A call of `getInvitations` under way: the ids it still has to read, and the contacts so far. -/
structure Load where
  user : String
  ids : List DString
  temp : List Friend

/-- The store with its transactions, the loads under way, and every row shown so far with the user
it was shown to. -/
structure Clients where
  net : Network
  loads : List Load
  rows : List (String × Friend)

def Clients.start (users : Collection) : Clients := ⟨Network.start users, [], []⟩

/-- What the users do, and what Firestore does: `loadNext k` answers the next read of a load,
`commit` commits a transaction or gives it up.  Accept and Decline name a row, Delete any index a
row can have. -/
inductive Event where
  | send (sender target : String)
  | getInvitations (user : String)
  | loadNext (k : ℕ)
  | accept (r : ℕ)
  | decline (r : ℕ)
  | delete (user : String) (userIndex : DString)
  | commit (i : ℕ) (served : Bool)

/-- Start transactions. -/
def Clients.begin (s : Clients) (calls : List ListCall) : Clients :=
  { s with net := { s.net with pending := s.net.pending ++ calls } }

/-- The first read of `getInvitations`; if it throws, nothing is loaded. -/
def Clients.getInvitations (m : MissingRead) (s : Clients) (user : String) : Clients :=
  match readKey m (s.net.users user) "invitations" >>= asList with
  | .ok ls => { s with loads := s.loads ++ [⟨user, ls, []⟩] }
  | .error _ => s

/-- The loop of `getInvitations` goes on with the next contact, or ends and shows the rows. -/
def Clients.loadNext (m : MissingRead) (s : Clients) (k : ℕ) (l : Load) : Clients :=
  match l.ids with
  | [] =>
      { s with
        loads := s.loads.eraseIdx k
        rows := s.rows ++ l.temp.map fun row => (l.user, row) }
  | id :: ids =>
      match readFriend m (getDocument s.net.users id) with
      | .ok row => { s with loads := s.loads.set k ⟨l.user, ids, l.temp ++ [row]⟩ }
      | .error _ => { s with loads := s.loads.eraseIdx k }

def step (m : MissingRead) (s : Clients) : Event → Option Clients
  | .send sender target => some (s.begin [{ id := target, op := .sendInvitations (some sender) 0 }])
  | .getInvitations user => some (s.getInvitations m user)
  | .loadNext k => s.loads[k]?.map (s.loadNext m k)
  | .accept r => s.rows[r]?.map fun row => s.begin (acceptReq row.2.userInex row.1)
  | .decline r => s.rows[r]?.map fun row => s.begin (declineReq row.2.userInex row.1)
  | .delete user userIndex => some (s.begin (Contacts.delete userIndex user))
  | .commit i served =>
      s.net.pending[i]?.map fun c =>
        { s with net := s.net.commit { c with served := served } (s.net.pending.eraseIdx i) }

/-! ### The transactions of a step -/

/-- The calls that one tap starts, given the rows it can use. -/
inductive Begun (rows : List (String × Friend)) : List ListCall → Prop where
  | none : Begun rows []
  | send (x u : String) : Begun rows [{ id := u, op := .sendInvitations (some x) 0 }]
  | accept {u : String} {row : Friend} (h : (u, row) ∈ rows) : Begun rows (acceptReq row.userInex u)
  | decline {u : String} {row : Friend} (h : (u, row) ∈ rows) :
      Begun rows (declineReq row.userInex u)
  | delete (u : String) (x : DString) : Begun rows (Contacts.delete x u)

variable {m : MissingRead} {s s' : Clients} {e : Event}

theorem net_getInvitations (m : MissingRead) (s : Clients) (user : String) :
    (s.getInvitations m user).net = s.net := by
  rw [Clients.getInvitations]
  split <;> rfl

theorem net_loadNext (m : MissingRead) (s : Clients) (k : ℕ) (l : Load) :
    (s.loadNext m k l).net = s.net := by
  unfold Clients.loadNext
  split
  · rfl
  · split <;> rfl

/-- A step starts transactions, or commits a pending one. -/
theorem net_step (h : step m s e = some s') :
    (∃ calls, Begun s.rows calls ∧
        s'.net = { s.net with pending := s.net.pending ++ calls }) ∨
      ∃ i served c, e = .commit i served ∧ s.net.pending[i]? = some c ∧
        s'.net = s.net.commit { c with served := served } (s.net.pending.eraseIdx i) := by
  have hsame : s'.net = s.net → ∃ calls, Begun s.rows calls ∧
      s'.net = { s.net with pending := s.net.pending ++ calls } :=
    fun hnet => ⟨[], .none, by rw [hnet, List.append_nil]⟩
  cases e with
  | send sender target =>
    rw [← Option.some.inj h]
    exact Or.inl ⟨_, .send sender target, rfl⟩
  | getInvitations user =>
    rw [← Option.some.inj h] at hsame ⊢
    exact Or.inl (hsame (net_getInvitations m s user))
  | loadNext k =>
    obtain ⟨l, -, rfl⟩ := Option.map_eq_some_iff.mp h
    exact Or.inl (hsame (net_loadNext m s k l))
  | accept r =>
    obtain ⟨row, hrow, rfl⟩ := Option.map_eq_some_iff.mp h
    exact Or.inl ⟨_, .accept (List.mem_of_getElem? hrow), rfl⟩
  | decline r =>
    obtain ⟨row, hrow, rfl⟩ := Option.map_eq_some_iff.mp h
    exact Or.inl ⟨_, .decline (List.mem_of_getElem? hrow), rfl⟩
  | delete user userIndex =>
    rw [← Option.some.inj h]
    exact Or.inl ⟨_, .delete user userIndex, rfl⟩
  | commit i served =>
    obtain ⟨c, hc, rfl⟩ := Option.map_eq_some_iff.mp h
    exact Or.inr ⟨i, served, c, rfl, hc, rfl⟩

/-! ### What the pages have read -/

/-- What the loads and rows of a user hold: ids with the property `P`, contacts with `Q`. -/
structure Loaded (P : String → DString → Prop) (Q : String → Friend → Prop) (s : Clients) :
    Prop where
  ids : ∀ l ∈ s.loads, ∀ id ∈ l.ids, P l.user id
  temp : ∀ l ∈ s.loads, ∀ row ∈ l.temp, Q l.user row
  rows : ∀ u row, (u, row) ∈ s.rows → Q u row

variable {P P' : String → DString → Prop} {Q Q' : String → Friend → Prop}

theorem Loaded.mono (h : Loaded P Q s) (hP : ∀ u id, P u id → P' u id)
    (hQ : ∀ u row, Q u row → Q' u row) : Loaded P' Q' s where
  ids := fun l hl id hid => hP _ _ (h.ids l hl id hid)
  temp := fun l hl row hrow => hQ _ _ (h.temp l hl row hrow)
  rows := fun u row hrow => hQ _ _ (h.rows u row hrow)

/-- At first nothing has been read. -/
theorem loaded_start (users : Collection) : Loaded P Q (Clients.start users) where
  ids := fun _ hl => absurd hl List.not_mem_nil
  temp := fun _ hl => absurd hl List.not_mem_nil
  rows := fun _ _ hrow => absurd hrow List.not_mem_nil

/-- Loads are opened with the ids of the stored list. -/
theorem loaded_getInvitations (h : Loaded P Q s)
    (hopen : ∀ u id, id ∈ items s.net.users u "invitations" → P u id) (user : String) :
    Loaded P Q (s.getInvitations m user) := by
  unfold Clients.getInvitations
  split
  · rename_i ls hread
    have hls : ∀ id ∈ ls, P user id := by
      intro id hid
      apply hopen
      rw [items_of_read hread]
      exact hid
    refine ⟨fun l hl => ?_, fun l hl => ?_, h.rows⟩
    · rcases List.mem_append.mp hl with hl | hl
      · exact h.ids l hl
      · rw [List.mem_singleton.mp hl]
        exact hls
    · rcases List.mem_append.mp hl with hl | hl
      · exact h.temp l hl
      · rw [List.mem_singleton.mp hl]
        exact fun row hrow => absurd hrow List.not_mem_nil
  · exact h

/-- A load reads the document of its next id, and shows its rows at the end. -/
theorem loaded_loadNext (h : Loaded P Q s)
    (hread : ∀ u id row, P u id → readFriend m (getDocument s.net.users id) = .ok row → Q u row)
    {k : ℕ} {l : Load} (hl : l ∈ s.loads) : Loaded P Q (s.loadNext m k l) := by
  have herase : Loaded P Q { s with loads := s.loads.eraseIdx k } :=
    ⟨fun l hl => h.ids l (List.mem_of_mem_eraseIdx hl),
      fun l hl => h.temp l (List.mem_of_mem_eraseIdx hl), h.rows⟩
  unfold Clients.loadNext
  split
  · -- the rows are shown
    refine ⟨herase.ids, herase.temp, fun u row hrow => ?_⟩
    rcases List.mem_append.mp hrow with hrow | hrow
    · exact h.rows u row hrow
    · obtain ⟨row', hrow', heq⟩ := List.mem_map.mp hrow
      obtain ⟨rfl, rfl⟩ := Prod.mk.inj heq
      exact h.temp l hl row' hrow'
  · rename_i id ids hids
    split
    · rename_i row hrow
      have hid : P l.user id := h.ids l hl id (hids ▸ List.mem_cons_self)
      refine ⟨fun l' hl' => ?_, fun l' hl' => ?_, h.rows⟩
      · rcases List.mem_or_eq_of_mem_set hl' with hl' | rfl
        · exact h.ids l' hl'
        · exact fun id' hid' => h.ids l hl id' (hids ▸ List.mem_cons_of_mem id hid')
      · rcases List.mem_or_eq_of_mem_set hl' with hl' | rfl
        · exact h.temp l' hl'
        · intro row' hrow'
          rcases List.mem_append.mp hrow' with hrow' | hrow'
          · exact h.temp l hl row' hrow'
          · rw [List.mem_singleton.mp hrow']
            exact hread l.user id row hid hrow
    · exact herase

/-- What holds of the ids in the stored lists, and passes from an id to the contact read for it,
holds of everything the pages have read. -/
theorem loaded_step (h : Loaded P Q s)
    (hopen : ∀ u id, id ∈ items s.net.users u "invitations" → P u id)
    (hread : ∀ u id row, P u id → readFriend m (getDocument s.net.users id) = .ok row → Q u row)
    (hstep : step m s e = some s') : Loaded P Q s' := by
  have hsame : Loaded P Q s → ∀ net, Loaded P Q { s with net := net } :=
    fun h _ => ⟨h.ids, h.temp, h.rows⟩
  cases e with
  | send sender target =>
    rw [← Option.some.inj hstep]
    exact hsame h _
  | getInvitations user =>
    rw [← Option.some.inj hstep]
    exact loaded_getInvitations h hopen user
  | loadNext k =>
    obtain ⟨l, hl, rfl⟩ := Option.map_eq_some_iff.mp hstep
    exact loaded_loadNext h hread (List.mem_of_getElem? hl)
  | accept r =>
    obtain ⟨row, -, rfl⟩ := Option.map_eq_some_iff.mp hstep
    exact hsame h _
  | decline r =>
    obtain ⟨row, -, rfl⟩ := Option.map_eq_some_iff.mp hstep
    exact hsame h _
  | delete user userIndex =>
    rw [← Option.some.inj hstep]
    exact hsame h _
  | commit i served =>
    obtain ⟨c, -, rfl⟩ := Option.map_eq_some_iff.mp hstep
    exact hsame h _

end GiftGenie.ContactClients
