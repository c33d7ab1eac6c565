import GiftGenie.Contacts
import GiftGenie.Library.Machine

/-!
# The contact page, one read at a time

`build` starts one `getFriends` and one `getInvitations`.  Each reads the list of ids of the
signed-in user and then one document after the other, and only then shows its rows with `setState`,
which schedules a build.  A read that throws ends its fetch.  Any number of fetches can be under way, and
their reads are answered in any order, each with the store as it is at that moment.

`Fetch.answer` is one read, and `step` the page; the two lemmas at the end unfold the read.
-/

set_option autoImplicit false

namespace GiftGenie.ContactPage

open GiftGenie.Library GiftGenie.Firestore GiftGenie.Contacts

/-- `getFriends` or `getInvitations`. -/
inductive Kind where
  | friends
  | invitations
  deriving DecidableEq, Repr

/-- The field with the list of ids. -/
def Kind.key : Kind → String
  | .friends => "friends"
  | .invitations => "invitations"

/-- The read a fetch awaits: the list of ids, or the document of one id, with those after it. -/
inductive Read where
  | list
  | document (id : DString) (rest : List DString)

/-- A fetch under way.  `stores` is recorded: the stores with which its reads were answered. -/
structure Fetch where
  kind : Kind
  read : Read
  ls : List DString
  tempList : List Friend
  stores : List Collection

/-- A fetch at its first read. -/
def Fetch.start (kind : Kind) : Fetch where
  kind := kind
  read := .list
  ls := []
  tempList := []
  stores := []

/-- How a fetch goes on after a read: it throws, awaits another read, or has all its rows. -/
inductive Outcome where
  | throws
  | awaits (f : Fetch)
  | shows (rows : List Friend)

/-- The head of the loop. -/
def Fetch.loop (f : Fetch) : List DString → Outcome
  | [] => .shows f.tempList
  | id :: rest => .awaits { f with read := .document id rest }

/-- The awaited read is answered with the store. -/
def Fetch.answer (m : MissingRead) (uid : String) (users : Collection) (f : Fetch) : Outcome :=
  let f := { f with stores := f.stores ++ [users] }
  match f.read with
  | .list =>
      match readKey m (users uid) f.kind.key >>= asList with
      | .ok ls => { f with ls := ls }.loop ls
      | .error _ => .throws
  | .document id rest =>
      match readFriend m (getDocument users id) with
      | .ok temp => { f with tempList := f.tempList ++ [temp] }.loop rest
      | .error _ => .throws

/-- The store and the page; `building` where a build is scheduled. -/
structure ContactPageState where
  users : Collection
  friends : List Friend
  notif : List Friend
  fetches : List Fetch
  building : Bool

/-- The page as it is mounted. -/
def ContactPageState.start (users : Collection) : ContactPageState where
  users := users
  friends := []
  notif := []
  fetches := []
  building := true

inductive Event where
  | build
  | answer (i : ℕ)
  | fail (i : ℕ)
  | write (users : Collection)
  | rebuild

namespace ContactPageState

variable (s : ContactPageState)

def shown : Kind → List Friend
  | .friends => s.friends
  | .invitations => s.notif

/-- `setState`, with the rows of a fetch. -/
def setState (rows : List Friend) : Kind → ContactPageState
  | .friends => { s with friends := rows, building := true }
  | .invitations => { s with notif := rows, building := true }

/-- The fetch `i` ends. -/
def drop (i : ℕ) : ContactPageState := { s with fetches := s.fetches.eraseIdx i }

def settle (i : ℕ) (kind : Kind) : Outcome → ContactPageState
  | .throws => s.drop i
  | .awaits f => { s with fetches := s.fetches.set i f }
  | .shows rows => (s.drop i).setState rows kind

@[simp] theorem setState_fetches (rows : List Friend) (kind : Kind) :
    (s.setState rows kind).fetches = s.fetches := by
  cases kind <;> rfl

@[simp] theorem setState_users (rows : List Friend) (kind : Kind) :
    (s.setState rows kind).users = s.users := by
  cases kind <;> rfl

@[simp] theorem setState_building (rows : List Friend) (kind : Kind) :
    (s.setState rows kind).building = true := by
  cases kind <;> rfl

theorem setState_shown (rows : List Friend) (kind kind' : Kind) :
    (s.setState rows kind).shown kind' = if kind' = kind then rows else s.shown kind' := by
  cases kind <;> cases kind' <;> rfl

end ContactPageState

/-- One step of the page of the user `uid`.  A read may fail at any moment, other clients may write,
and the framework may ask for a build. -/
def step (m : MissingRead) (uid : String) (s : ContactPageState) : Event → Option ContactPageState
  | .build =>
      if s.building then
        some { s with
          building := false
          fetches := s.fetches ++ [Fetch.start .friends, Fetch.start .invitations] }
      else none
  | .answer i => s.fetches[i]?.map fun f => s.settle i f.kind (f.answer m uid s.users)
  | .fail i => s.fetches[i]?.map fun _ => s.drop i
  | .write users => some { s with users := users }
  | .rebuild => some { s with building := true }

/-! ### One read -/

variable {m : MissingRead} {uid : String} {users : Collection} {f f' : Fetch} {rows : List Friend}

theorem answer_list (h : f.read = .list) :
    f.answer m uid users =
      match readKey m (users uid) f.kind.key >>= asList with
      | .ok ls => { f with ls := ls, stores := f.stores ++ [users] }.loop ls
      | .error _ => .throws := by
  unfold Fetch.answer
  dsimp only
  rw [h]

theorem answer_document {id : DString} {rest : List DString} (h : f.read = .document id rest) :
    f.answer m uid users =
      match readFriend m (getDocument users id) with
      | .ok temp =>
          { f with tempList := f.tempList ++ [temp], stores := f.stores ++ [users] }.loop rest
      | .error _ => .throws := by
  unfold Fetch.answer
  dsimp only
  rw [h]

end GiftGenie.ContactPage
