import GiftGenie.Contacts
import GiftGenie.SignUp

/-!
# Delivering an invitation to a registered user

`InvitationDelivered` follows one invitation through the four places that handle the id of a user:
the search page finds the id of the invited user under the e-mail, Add writes the invitation to the
document of that id, the session of the invited user reads the document named by its auth uid, and
Accept writes there what the contact page then shows.

The chain breaks at its second link.  The search finds the id that the sign-up wrote, and the
document of that id exists, but it has no list `invitations`, so the transaction throws
(`invitation_refused`).  No invitation between registered users is ever delivered.
-/

set_option autoImplicit false

namespace GiftGenie.InvitationDelivery

open GiftGenie.Library GiftGenie.Firestore GiftGenie.ListTransactions GiftGenie.ListHistories
open GiftGenie.SignUp GiftGenie.Contacts

/-- The entry shows the name and the e-mail that `a` registered. -/
def EntryFor (a : Registration) (f : Friend) : Prop :=
  f.name = some a.userName ∧ f.email = some a.email

/-- `a` looks `b` up by e-mail and presses Add: the transaction answers `true`, the next
`getInvitations` of `b` has an entry for `a`, and after `b` accepts that entry the next `getFriends`
of `b` has one. -/
def InvitationDelivered (m : MissingRead) (autoId : String) (w : World) (a b : Registration) : Prop :=
  ∃ page call, getUser m w.userEmails w.users { searchText := some b.email } = .ok page ∧
    pressAdd a.uid autoId page = [call] ∧ (call.exec w.users).1 = true ∧
    ∃ notif f, getInvitations m (call.exec w.users).2 b.uid = .ok notif ∧ f ∈ notif ∧
      EntryFor a f ∧
      ∃ friends g, getFriends m (SerialHistory.final ListCall.exec (acceptReq f.userInex b.uid)
          (call.exec w.users).2) b.uid = .ok friends ∧ g ∈ friends ∧ EntryFor a g

/-- What the sign-ups have written so far: every registered user has a directory entry for its own
id, and the document of every registered id is one that a sign-up wrote. -/
structure Written (hashCode : String → ℤ) (w : World) : Prop where
  entry : ∀ r ∈ w.registered, w.userEmails r.email = some (emailEntry (userIndex hashCode r))
  document : ∀ r ∈ w.registered, ∃ username password email,
    w.users (userIndex hashCode r) =
      some (userDoc username password email (userIndex hashCode r) {})

theorem written_signUp (hashCode : String → ℤ) (w : World) (r : Registration)
    (h : Written hashCode w) : Written hashCode (signUp hashCode w r) := by
  by_cases hnew : r.email ∈ w.registered.map Registration.email
  · rw [signUp, if_pos hnew]
    exact h
  · rw [signUp_new hashCode hnew]
    refine ⟨fun s hs => ?_, fun s hs => ?_⟩
    · rcases List.mem_append.mp hs with hs | hs
      · have hne : s.email ≠ r.email := fun he => hnew (he ▸ List.mem_map_of_mem hs)
        show setDoc _ r.email _ s.email = _
        rw [setDoc_ne hne]
        exact h.entry s hs
      · rw [List.mem_singleton.mp hs]
        exact setDoc_self _ _ _
    · show ∃ username password email, setDoc _ (userIndex hashCode r) _ (userIndex hashCode s) = _
      by_cases hid : userIndex hashCode s = userIndex hashCode r
      · rw [hid, setDoc_self]
        exact ⟨_, _, _, rfl⟩
      · rw [setDoc_ne hid]
        rcases List.mem_append.mp hs with hs | hs
        · exact h.document s hs
        · exact absurd (by rw [List.mem_singleton.mp hs]) hid

theorem written_signUps (hashCode : String → ℤ) (rs : List Registration) :
    Written hashCode (signUps hashCode rs) := by
  induction rs using List.reverseRecOn with
  | nil => exact ⟨fun r hr => absurd hr (by simp [signUps, World.empty]),
      fun r hr => absurd hr (by simp [signUps, World.empty])⟩
  | append_singleton rs r ih =>
    rw [signUps_append]
    exact written_signUp hashCode _ r ih

/-- The search for a registered e-mail finds the id of the sign-up. -/
theorem getUser_registered {m : MissingRead} {hashCode : String → ℤ} {w : World}
    (h : Written hashCode w) {b : Registration} (hb : b ∈ w.registered) {page : SearchPage}
    (hpage : getUser m w.userEmails w.users { searchText := some b.email } = .ok page) :
    page.target = some (userIndex hashCode b) := by
  obtain ⟨username, password, email, hdoc⟩ := h.document b hb
  have hfound : getUser m w.userEmails w.users { searchText := some b.email } =
      .ok ⟨some b.email, some (userIndex hashCode b), some username⟩ := by
    simp only [getUser, h.entry b hb, readKey_some, field_emailEntry, ok_bind, asString, hdoc,
      field_userDoc_name]
    rfl
  rw [hfound] at hpage
  cases hpage
  rfl

/-- **The document of a sign-up refuses invitations**: Add answers `false` and changes nothing. -/
theorem invitation_refused {m : MissingRead} {hashCode : String → ℤ} {w : World}
    (h : Written hashCode w) {b : Registration} (hb : b ∈ w.registered) {page : SearchPage}
    (hpage : getUser m w.userEmails w.users { searchText := some b.email } = .ok page)
    (uid autoId : String) :
    (sendInvitation uid autoId page).exec w.users = (false, w.users) := by
  obtain ⟨username, password, email, hdoc⟩ := h.document b hb
  rw [sendInvitation, getUser_registered h hb hpage]
  exact exec_missing _ hdoc (field_userDoc_list username password email _ (key_mem_listFields _))

theorem not_delivered_of_written {m : MissingRead} {autoId : String} {hashCode : String → ℤ}
    {w : World} (h : Written hashCode w) (a : Registration) {b : Registration}
    (hb : b ∈ w.registered) : ¬InvitationDelivered m autoId w a b := by
  intro hdel
  obtain ⟨page, call, hpage, hadd, htrue, -⟩ := hdel
  have hcall : call = sendInvitation a.uid autoId page := by
    rw [pressAdd] at hadd
    split at hadd
    · exact (List.singleton_inj.mp hadd).symm
    · cases hadd
  rw [hcall, invitation_refused h hb hpage] at htrue
  cases htrue

/-- **No invitation is delivered**, whatever the sign-ups, the uids and the hash function, and
whoever invites a registered user. -/
theorem not_invitationDelivered (m : MissingRead) (autoId : String) (hashCode : String → ℤ)
    (rs : List Registration) (a b : Registration) (hb : b ∈ (signUps hashCode rs).registered) :
    ¬InvitationDelivered m autoId (signUps hashCode rs) a b :=
  not_delivered_of_written (written_signUps hashCode rs) a hb

theorem not_invitationDelivered_pair :
    ¬InvitationDelivered .givesNull "auto" (signUps (fun _ => 7)
        [⟨"uid1", "ann", "a@x.io", "secret1"⟩, ⟨"uid2", "bob", "b@x.io", "secret2"⟩])
      ⟨"uid1", "ann", "a@x.io", "secret1"⟩ ⟨"uid2", "bob", "b@x.io", "secret2"⟩ :=
  not_invitationDelivered .givesNull "auto" (fun _ => 7)
    [⟨"uid1", "ann", "a@x.io", "secret1"⟩, ⟨"uid2", "bob", "b@x.io", "secret2"⟩]
    ⟨"uid1", "ann", "a@x.io", "secret1"⟩ ⟨"uid2", "bob", "b@x.io", "secret2"⟩ (by decide)

/-- Two users whose ids do not even collide. -/
theorem invitation_lost :
    ¬InvitationDelivered .throws "auto" (signUps (fun s => s.length)
        [⟨"uid1", "ann", "a@x.io", "secret1"⟩, ⟨"uid2", "bo", "b@x.io", "secret2"⟩])
      ⟨"uid1", "ann", "a@x.io", "secret1"⟩ ⟨"uid2", "bo", "b@x.io", "secret2"⟩ :=
  not_delivered_of_written (written_signUps (fun s => s.length) _) _ (by decide)

/-- The document a sign-up would have to write for the chain to hold: under the auth uid, with the
id spelt as it is read and both contact lists. -/
def usableDoc (r : Registration) : Doc :=
  docOf [("name", .str r.userName), ("email", .str r.email), ("userIndex", .str r.uid),
    ("friends", .list []), ("invitations", .list [])]

example :
    InvitationDelivered .throws "auto"
      { registered := []
        userEmails := setDoc (fun _ => none) "b@x.io" (emailEntry "uid2")
        users := setDoc (setDoc (fun _ => none) "uid1"
            (usableDoc ⟨"uid1", "ann", "a@x.io", "secret1"⟩))
          "uid2" (usableDoc ⟨"uid2", "bo", "b@x.io", "secret2"⟩) }
      ⟨"uid1", "ann", "a@x.io", "secret1"⟩ ⟨"uid2", "bo", "b@x.io", "secret2"⟩ :=
  ⟨⟨some "b@x.io", some "uid2", some "bo"⟩, _, rfl, rfl, rfl,
    _, ⟨none, some "ann", some "a@x.io", some "uid1"⟩, rfl, List.mem_cons_self, ⟨rfl, rfl⟩,
    _, ⟨none, some "ann", some "a@x.io", some "uid1"⟩, rfl, List.mem_cons_self, ⟨rfl, rfl⟩⟩

end GiftGenie.InvitationDelivery
