import GiftGenie.Contacts
import GiftGenie.Library.Machine

/-!
# The dialog of the search page

Search opens a dialog that shows the searched e-mail, and starts `getUser`, which writes what it
finds into the one field `target` of the page.  Add invites `target` unless that is `"NOT FOUND"`.
Nothing keeps the dialogs and the lookups together: a lookup may answer late, after another one, or
not at all, and before the first answer `target` is `null`.

A run starts on a fresh page and is over fixed collections.  `add_invites_iff` says when Add invites
in every state the user registered for the e-mail its dialog shows.
-/

set_option autoImplicit false

namespace GiftGenie.SearchDialog

open GiftGenie.Library GiftGenie.Firestore GiftGenie.Contacts

/-- A `getUser` under way: at its first lookup, or at its second with the index it found. -/
inductive Lookup where
  | userIndex (text : String)
  | name (text index : String)
  deriving DecidableEq, Repr

/-- A call `sendInvitations(uid, target, 0)`, and what the dialog showed. -/
structure Invited where
  shown : String
  target : DString
  deriving DecidableEq, Repr

/-- The page with its dialogs, the topmost first.  `lastDone` is the text whose lookup was the last
to write `target`; the page does not keep it. -/
structure SearchState where
  page : SearchPage := {}
  dialogs : List String := []
  lookups : List Lookup := []
  sent : List Invited := []
  lastDone : Option String := none
  deriving DecidableEq, Repr

inductive Event where
  | edit (text : String)
  | search
  | answer (i : ℕ)
  | fail (i : ℕ)
  | cancel
  | add
  deriving DecidableEq, Repr

/-! ### The lookups -/

/-- The first lookup of `getUser`. -/
def lookIndex (m : MissingRead) (userEmails : Collection) (text : String) :
    Except DartError DString :=
  readKey m (userEmails text) "userIndex" >>= asString

/-- The second one. -/
def lookName (m : MissingRead) (users : Collection) (index : String) : Except DartError DString :=
  readKey m (users index) "name" >>= asString

/-- What `setState` writes after both lookups, and after the first has given `null`. -/
def found (page : SearchPage) (index : String) (ttName : DString) : SearchPage :=
  { page with target := some index, tName := ttName }

def notFound (page : SearchPage) : SearchPage :=
  { page with target := some "NOT FOUND", tName := some "NOT FOUND" }

/-- `getUser` is its two lookups, one after the other. -/
theorem getUser_lookups (m : MissingRead) (userEmails users : Collection) {page : SearchPage}
    {text : String} (htext : page.searchText = some text) :
    getUser m userEmails users page = (do
      match ← lookIndex m userEmails text with
      | some index => return found page index (← lookName m users index)
      | none => return notFound page) := by
  obtain ⟨searchText, target, tName⟩ := page
  obtain rfl : searchText = some text := htext
  show (readKey m (userEmails text) "userIndex" >>= fun v => asString v >>= _) =
    lookIndex m userEmails text >>= _
  rw [lookIndex, bind_assoc]
  refine bind_congr fun v => bind_congr fun userIndex => ?_
  cases userIndex with
  | none => rfl
  | some index =>
    show _ = (lookName m users index >>= _)
    rw [lookName, bind_assoc]
    rfl

/-- The index registered for an e-mail. -/
def registeredIndex (userEmails : Collection) (email : String) : DString :=
  (userEmails email).bind fun d =>
    match field d "userIndex" with
    | .str index => some index
    | _ => none

theorem registeredIndex_of_lookIndex {m : MissingRead} {userEmails : Collection} {text : String}
    {index : DString} (h : lookIndex m userEmails text = .ok index) :
    registeredIndex userEmails text = index := by
  obtain ⟨v, hv, hindex⟩ := bind_eq_ok.mp h
  cases v with
  | null =>
    obtain rfl := Except.ok.inj hindex
    rw [registeredIndex]
    cases hd : userEmails text with
    | none => rfl
    | some d =>
      rw [hd, readKey_some] at hv
      rw [Option.bind_some, Except.ok.inj hv]
  | str s =>
    obtain rfl := Except.ok.inj hindex
    obtain ⟨d, hd, hf⟩ := field_of_read hv nofun
    rw [registeredIndex, hd, Option.bind_some, hf]
  | list xs => exact nomatch hindex

/-! ### The steps -/

variable (m : MissingRead) (userEmails users : Collection)

/-- The `i`-th lookup is answered.  One that throws ends its `getUser`. -/
def answerLookup (s : SearchState) (i : ℕ) : Lookup → SearchState
  | .userIndex text =>
      match lookIndex m userEmails text with
      | .ok (some index) => { s with lookups := s.lookups.set i (.name text index) }
      | .ok none =>
          { s with lookups := s.lookups.eraseIdx i, page := notFound s.page, lastDone := some text }
      | .error _ => { s with lookups := s.lookups.eraseIdx i }
  | .name text index =>
      match lookName m users index with
      | .ok ttName =>
          { s with
            lookups := s.lookups.eraseIdx i
            page := found s.page index ttName
            lastDone := some text }
      | .error _ => { s with lookups := s.lookups.eraseIdx i }

/-- One event of the page. -/
def step (s : SearchState) : Event → Option SearchState
  | .edit text => some { s with page := { s.page with searchText := some text } }
  | .search =>
      -- `new Text(null)` is refused, and `_searchText` is never `null`
      s.page.searchText.map fun text =>
        { s with dialogs := text :: s.dialogs, lookups := s.lookups ++ [.userIndex text] }
  | .answer i => s.lookups[i]?.map (answerLookup m userEmails users s i)
  | .fail i => s.lookups[i]?.map fun _ => { s with lookups := s.lookups.eraseIdx i }
  | .cancel =>
      match s.dialogs with
      | [] => none
      | _ :: rest => some { s with dialogs := rest }
  | .add =>
      match s.dialogs with
      | [] => none
      | shown :: rest =>
          if s.page.target ≠ some "NOT FOUND" then
            some { s with dialogs := rest, sent := ⟨shown, s.page.target⟩ :: s.sent }
          else some s

variable {m : MissingRead} {userEmails users : Collection} {s s' : SearchState}

theorem cancel_cases (h : step m userEmails users s .cancel = some s') :
    ∃ rest, s' = { s with dialogs := rest } := by
  rw [step] at h
  cases hd : s.dialogs with
  | nil => rw [hd] at h; exact nomatch h
  | cons shown rest =>
    rw [hd] at h
    exact ⟨rest, (Option.some.inj h).symm⟩

/-- Add sends `target` from the dialog on top, or does nothing. -/
theorem add_cases (h : step m userEmails users s .add = some s') :
    ∃ shown rest, s.dialogs = shown :: rest ∧
      (s.page.target ≠ some "NOT FOUND" ∧
          s' = { s with dialogs := rest, sent := ⟨shown, s.page.target⟩ :: s.sent } ∨
        s.page.target = some "NOT FOUND" ∧ s' = s) := by
  rw [step] at h
  cases hd : s.dialogs with
  | nil => rw [hd] at h; exact nomatch h
  | cons shown rest =>
    rw [hd] at h
    refine ⟨shown, rest, rfl, ?_⟩
    by_cases ht : s.page.target = some "NOT FOUND"
    · exact Or.inr ⟨ht, Option.some.inj (h.symm.trans (if_neg (not_not.mpr ht)))⟩
    · exact Or.inl ⟨ht, Option.some.inj (h.symm.trans (if_pos ht))⟩

/-- What Add sends is what `pressAdd` starts. -/
theorem add_sends (h : step m userEmails users s .add = some s') (uid autoId : String) :
    ∃ calls, s'.sent = calls ++ s.sent ∧ pressAdd uid autoId s.page =
      calls.map fun c => { id := c.target.getD autoId, op := .sendInvitations (some uid) 0 } := by
  obtain ⟨shown, rest, -, ⟨ht, rfl⟩ | ⟨ht, rfl⟩⟩ := add_cases h
  · exact ⟨[⟨shown, s.page.target⟩], rfl, if_pos ht⟩
  · exact ⟨[], rfl, if_neg (not_not.mpr ht)⟩

/-- Only Add sends invitations. -/
theorem sent_step {e : Event} (he : e ≠ .add) (hstep : step m userEmails users s e = some s') :
    s'.sent = s.sent := by
  cases e with
  | edit text =>
    obtain rfl := Option.some.inj hstep
    rfl
  | search =>
    obtain ⟨text, -, rfl⟩ := Option.map_eq_some_iff.mp hstep
    rfl
  | answer i =>
    obtain ⟨lookup, -, rfl⟩ := Option.map_eq_some_iff.mp hstep
    cases lookup with
    | userIndex text => rw [answerLookup]; split <;> rfl
    | name text index => rw [answerLookup]; split <;> rfl
  | fail i =>
    obtain ⟨_, -, rfl⟩ := Option.map_eq_some_iff.mp hstep
    rfl
  | cancel =>
    obtain ⟨rest, rfl⟩ := cancel_cases hstep
    rfl
  | add => exact absurd rfl he

/-- A search that nothing interrupts does what `getUser` does. -/
theorem getUser_uninterrupted {i : ℕ} {text : String} {page : SearchPage}
    (hi : s.lookups[i]? = some (.userIndex text)) (htext : s.page.searchText = some text)
    (hpage : getUser m userEmails users s.page = .ok page) :
    ∃ answers s', (answers = [.answer i] ∨ answers = [.answer i, .answer i]) ∧
      Machine.run (step m userEmails users) s answers = some s' ∧ s'.page = page ∧
      s'.lookups = s.lookups.eraseIdx i := by
  rw [getUser_lookups m userEmails users htext] at hpage
  obtain ⟨found, hindex, hpage⟩ := bind_eq_ok.mp hpage
  have hfirst : step m userEmails users s (.answer i) =
      some (answerLookup m userEmails users s i (.userIndex text)) := by
    rw [step, hi, Option.map_some]
  rw [answerLookup, hindex] at hfirst
  cases found with
  | none =>
    refine ⟨_, _, Or.inl rfl, Machine.run_cons.mpr ⟨_, hfirst, rfl⟩, ?_, rfl⟩
    exact Except.ok.inj hpage
  | some index =>
    obtain ⟨ttName, hname, hpage⟩ := bind_eq_ok.mp hpage
    -- the second lookup has taken the place of the first
    have hnext : (s.lookups.set i (.name text index))[i]? = some (.name text index) :=
      List.getElem?_set_self (List.getElem?_eq_some_iff.mp hi).1
    have hsecond : step m userEmails users
        { s with lookups := s.lookups.set i (.name text index) } (.answer i) =
        some (answerLookup m userEmails users
          { s with lookups := s.lookups.set i (.name text index) } i (.name text index)) := by
      rw [step, hnext, Option.map_some]
    rw [answerLookup, hname] at hsecond
    refine ⟨_, _, Or.inr rfl,
      Machine.run_cons.mpr ⟨_, hfirst, Machine.run_cons.mpr ⟨_, hsecond, rfl⟩⟩, ?_, ?_⟩
    · exact Except.ok.inj hpage
    · exact List.eraseIdx_set_eq

/-! ### What `target` holds -/

/-- The `target` that a finished search for `text` leaves. -/
def searchResult (userEmails : Collection) (text : String) : String :=
  (registeredIndex userEmails text).getD "NOT FOUND"

/-- The indices in flight are registered ones, and `target` is the result of the last lookup that
finished. -/
structure Linked (userEmails : Collection) (s : SearchState) : Prop where
  lookups : ∀ text index, .name text index ∈ s.lookups →
    registeredIndex userEmails text = some index
  target : s.page.target = s.lastDone.map (searchResult userEmails)

/-- Lookups that end without writing. -/
theorem Linked.erase (h : Linked userEmails s) (i : ℕ) :
    Linked userEmails { s with lookups := s.lookups.eraseIdx i } where
  lookups text index hmem := h.lookups text index (List.mem_of_mem_eraseIdx hmem)
  target := h.target

theorem linked_answerLookup (h : Linked userEmails s) {i : ℕ} {lookup : Lookup}
    (hi : s.lookups[i]? = some lookup) :
    Linked userEmails (answerLookup m userEmails users s i lookup) := by
  cases lookup with
  | userIndex text =>
    rw [answerLookup]
    cases hread : lookIndex m userEmails text with
    | error e => exact h.erase i
    | ok found =>
      have hreg := registeredIndex_of_lookIndex hread
      cases found with
      | none =>
        refine ⟨(h.erase i).lookups, ?_⟩
        show some "NOT FOUND" = some (searchResult userEmails text)
        rw [searchResult, hreg, Option.getD_none]
      | some index =>
        refine ⟨fun text' index' hmem => ?_, h.target⟩
        rcases List.mem_or_eq_of_mem_set hmem with hmem | heq
        · exact h.lookups text' index' hmem
        · obtain ⟨rfl, rfl⟩ := Lookup.name.inj heq
          exact hreg
  | name text index =>
    rw [answerLookup]
    cases hread : lookName m users index with
    | error e => exact h.erase i
    | ok ttName =>
      refine ⟨(h.erase i).lookups, ?_⟩
      have hreg := h.lookups text index (List.mem_of_getElem? hi)
      show some index = some (searchResult userEmails text)
      rw [searchResult, hreg, Option.getD_some]

theorem linked_step (e : Event) (h : Linked userEmails s)
    (hstep : step m userEmails users s e = some s') : Linked userEmails s' := by
  cases e with
  | edit text =>
    obtain rfl := Option.some.inj hstep
    exact ⟨h.lookups, h.target⟩
  | search =>
    obtain ⟨text, -, rfl⟩ := Option.map_eq_some_iff.mp hstep
    refine ⟨fun text' index hmem => ?_, h.target⟩
    rcases List.mem_append.mp hmem with hmem | hmem
    · exact h.lookups text' index hmem
    · exact nomatch List.mem_singleton.mp hmem
  | answer i =>
    obtain ⟨lookup, hi, rfl⟩ := Option.map_eq_some_iff.mp hstep
    exact linked_answerLookup h hi
  | fail i =>
    obtain ⟨_, -, rfl⟩ := Option.map_eq_some_iff.mp hstep
    exact h.erase i
  | cancel =>
    obtain ⟨rest, rfl⟩ := cancel_cases hstep
    exact ⟨h.lookups, h.target⟩
  | add =>
    obtain ⟨shown, rest, -, ⟨-, rfl⟩ | ⟨-, rfl⟩⟩ := add_cases hstep
    · exact ⟨h.lookups, h.target⟩
    · exact h

/-! ### When Add invites the user it shows -/

/-- Every invitation went to the user registered for the e-mail that the dialog showed. -/
def InvitesShown (userEmails : Collection) (s : SearchState) : Prop :=
  ∀ c ∈ s.sent, registeredIndex userEmails c.shown = c.target ∧ c.target ≠ none

/-- When Add is tapped, a search has finished, and the last to finish found nobody or the user of
the e-mail shown. -/
def AddsShown (userEmails : Collection) (s : SearchState) : Event → Prop
  | .add => ∀ shown ∈ s.dialogs.head?, ∃ text, s.lastDone = some text ∧
      (searchResult userEmails text = "NOT FOUND" ∨
        registeredIndex userEmails shown = some (searchResult userEmails text))
  | _ => True

theorem invitesShown_add (h : Linked userEmails s) (hs : InvitesShown userEmails s)
    (hstep : step m userEmails users s .add = some s') :
    InvitesShown userEmails s' ↔ AddsShown userEmails s .add := by
  obtain ⟨shown, rest, hd, ⟨ht, rfl⟩ | ⟨ht, rfl⟩⟩ := add_cases hstep
  · have hsent : InvitesShown userEmails
        { s with dialogs := rest, sent := ⟨shown, s.page.target⟩ :: s.sent } ↔
          registeredIndex userEmails shown = s.page.target ∧ s.page.target ≠ none :=
      List.forall_mem_cons.trans (and_iff_left hs)
    rw [hsent, AddsShown, hd, List.head?_cons]
    simp only [Option.mem_some_iff, forall_eq']
    rw [h.target] at ht ⊢
    cases hlast : s.lastDone with
    | none =>
      refine iff_of_false (fun hnull => hnull.2 rfl) ?_
      rintro ⟨text, htext, -⟩
      exact nomatch htext
    | some text =>
      rw [hlast] at ht
      have hfound : searchResult userEmails text ≠ "NOT FOUND" := fun heq => ht (congrArg some heq)
      constructor
      · intro hshown
        exact ⟨text, rfl, Or.inr hshown.1⟩
      · rintro ⟨text', htext, hor⟩
        obtain rfl := Option.some.inj htext
        exact ⟨hor.resolve_left hfound, fun hnull => nomatch hnull⟩
  · refine iff_of_true hs fun shown' _ => ?_
    obtain ⟨text, htext, hfound⟩ := Option.map_eq_some_iff.mp (h.target.symm.trans ht)
    exact ⟨text, htext, Or.inl hfound⟩

/-- **Add, exactly.**  Along every run from a fresh page, every invitation goes to the user
registered for the e-mail its dialog shows if and only if, whenever Add is tapped, a search has
finished and the last to finish found nobody or that user. -/
theorem add_invites_iff (m : MissingRead) (userEmails users : Collection) (events : List Event)
    (s : SearchState) (hrun : Machine.run (step m userEmails users) {} events = some s) :
    Machine.AllStates (step m userEmails users) (InvitesShown userEmails) {} events ↔
      Machine.AllSteps (step m userEmails users) (AddsShown userEmails) {} events := by
  have hinit : Linked userEmails {} := ⟨fun _ _ h => (List.not_mem_nil h).elim, rfl⟩
  have hgood : ∀ s e s', Linked userEmails s → InvitesShown userEmails s →
      step m userEmails users s e = some s' →
      (InvitesShown userEmails s' ↔ AddsShown userEmails s e) := by
    intro s e s' hlinked hs hstep
    by_cases he : e = .add
    · obtain rfl := he
      exact invitesShown_add hlinked hs hstep
    · rw [InvitesShown, sent_step he hstep]
      refine iff_of_true hs ?_
      cases e with
      | add => exact absurd rfl he
      | _ => trivial
  exact Machine.allStates_iff_allSteps (fun s e s' h hstep => linked_step e h hstep) hgood
    events _ s hinit (fun c hc => nomatch hc) hrun

/-- Ann and Bob are registered. -/
def annAndBob : Collection := fun email =>
  if email = "ann@x.io" then some (docOf [("userIndex", .str "12")])
  else if email = "bob@x.io" then some (docOf [("userIndex", .str "34")])
  else none

/-- Ann is found, and the dialog for Bob is answered before his lookup is: Ann is invited. -/
theorem add_invites_stale :
    ¬∀ events s, Machine.run (step .givesNull annAndBob fun _ => none) {} events = some s →
      InvitesShown annAndBob s := by
  intro h
  have hbob := h [.edit "ann@x.io", .search, .answer 0, .answer 0, .cancel, .edit "bob@x.io",
    .search, .add] _ rfl ⟨"bob@x.io", some "12"⟩ List.mem_cons_self
  exact absurd hbob.1 (by decide)

/-- Ann is found, and then invited. -/
theorem add_invites_iff_ann :
    Machine.AllStates (step .givesNull annAndBob fun _ => none) (InvitesShown annAndBob) {}
      [.edit "ann@x.io", .search, .answer 0, .answer 0, .add] := by
  refine (add_invites_iff .givesNull annAndBob (fun _ => none) _ _ rfl).mpr
    ⟨trivial, fun s₁ h₁ => ⟨trivial, fun s₂ h₂ => ⟨trivial, fun s₃ h₃ => ⟨trivial, fun s₄ h₄ =>
      ⟨fun shown hshown => ?_, fun _ _ => trivial⟩⟩⟩⟩⟩
  obtain rfl := Option.some.inj h₁
  obtain rfl := Option.some.inj h₂
  obtain rfl := Option.some.inj h₃
  obtain rfl := Option.some.inj h₄
  obtain rfl : "ann@x.io" = shown := Option.some.inj hshown
  exact ⟨"ann@x.io", rfl, Or.inr (by decide)⟩

end GiftGenie.SearchDialog
