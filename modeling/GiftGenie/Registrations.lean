import GiftGenie.SignUp

/-!
# Registrations with failures

An account can be created on two pages.  `SignUpModule` writes the two records after it and shows a
dialog if something throws; its writes are not awaited, so one that fails later is lost without a
word.  `RegisterPage` writes nothing and catches nothing.

A `Submission` is one registration with the outcome of everything that can fail on the way.
`recorded_iff` says exactly after which sequences of submissions every account has its records or
was reported.
-/

set_option autoImplicit false

namespace GiftGenie.Registrations

open GiftGenie.Firestore GiftGenie.SignUp

inductive Page where
  | signUpModule
  | registerPage
  deriving DecidableEq, Repr

/-- How `signUpWithEmail` ends: the Auth service refuses, the account is created, or it is created
and a later step throws. -/
inductive AuthOutcome where
  | refused
  | created
  | throwsAfter
  deriving DecidableEq, Repr

/-- How a write that is not awaited ends: it is done, it fails later, or the call throws at once. -/
inductive WriteOutcome where
  | done
  | lost
  | throws
  deriving DecidableEq, Repr

structure Submission where
  page : Page
  form : Registration
  auth : AuthOutcome
  entry : WriteOutcome
  record : WriteOutcome
  deriving DecidableEq, Repr

/-- The accounts and the collections, and the e-mails of the accounts whose registration was reported
as failed. -/
structure Registry where
  world : World
  reported : List String

def Registry.empty : Registry := ⟨World.empty, []⟩

/-- `_showDialog` on the page that has just created the account. -/
def Registry.showDialog (s : Registry) (email : String) : Registry :=
  { s with reported := s.reported ++ [email] }

/-- `_userLogUp`: the `try` around the two writes catches what they throw at once. -/
def Registry.userLogUp (s : Registry) (username password email index : String)
    (entry record : WriteOutcome) : Registry :=
  let writeRecord (s : Registry) : Registry :=
    match record with
    | .throws => s.showDialog email
    | .lost => s
    | .done => { s with world := { s.world with
        users := setDoc s.world.users index (userDoc username password email index {}) } }
  match entry with
  | .throws => s.showDialog email
  | .lost => writeRecord s
  | .done => writeRecord { s with world := { s.world with
      userEmails := setDoc s.world.userEmails email (emailEntry index) } }

/-- Submit the form of one of the pages.  An e-mail that has an account is refused; then nothing is
created, and what `SignUpModule` shows is about the new attempt. -/
def submit (hashCode : String → ℤ) (s : Registry) (a : Submission) : Registry :=
  if a.auth = .refused ∨ a.form.email ∈ s.world.registered.map Registration.email then s
  else
    let s := { s with world := { s.world with registered := s.world.registered ++ [a.form] } }
    match a.page, a.auth with
    | .registerPage, _ => s
    | .signUpModule, .created =>
        s.userLogUp a.form.userName a.form.password a.form.email (userIndex hashCode a.form)
          a.entry a.record
    | .signUpModule, _ => s.showDialog a.form.email

def submissions (hashCode : String → ℤ) (as : List Submission) : Registry :=
  as.foldl (submit hashCode) Registry.empty

/-- The account was reported, or its directory entry names a document. -/
def Recorded (s : Registry) (r : Registration) : Prop :=
  r.email ∈ s.reported ∨ ∃ entry index doc, s.world.userEmails r.email = some entry ∧
    field entry "userIndex" = .str index ∧ s.world.users index = some doc

/-- The submissions that the Auth service accepts. -/
def accepted (as : List Submission) : List Submission :=
  as.foldl (fun acc a =>
    if a.auth = .refused ∨ a.form.email ∈ acc.map (·.form.email) then acc else acc ++ [a]) []

/-- The page gets to `_userLogUp`. -/
def Submission.LogsUp (a : Submission) : Prop := a.page = .signUpModule ∧ a.auth = .created

/-- Something throws where `SignUpModule` catches it. -/
def Submission.Reports (a : Submission) : Prop :=
  a.page = .signUpModule ∧ (a.auth = .throwsAfter ∨ a.entry = .throws ∨ a.record = .throws)

def Submission.WritesEntry (a : Submission) : Prop := a.LogsUp ∧ a.entry = .done

def Submission.WritesRecord (a : Submission) : Prop :=
  a.LogsUp ∧ a.entry ≠ .throws ∧ a.record = .done

instance (a : Submission) : Decidable a.LogsUp := inferInstanceAs (Decidable (_ ∧ _))

instance (a : Submission) : Decidable a.Reports := inferInstanceAs (Decidable (_ ∧ _))

instance (a : Submission) : Decidable a.WritesEntry := inferInstanceAs (Decidable (_ ∧ _))

instance (a : Submission) : Decidable a.WritesRecord := inferInstanceAs (Decidable (_ ∧ _))

/-- The call is refused, or it returns to `SignUpModule` and both writes succeed. -/
def Submission.Succeeds (a : Submission) : Prop :=
  a.auth = .refused ∨ (a.LogsUp ∧ a.entry = .done ∧ a.record = .done)

instance (a : Submission) : Decidable a.Succeeds := inferInstanceAs (Decidable (_ ∨ _))

/-! ### One submission -/

/-- The second write is not made if the first one throws. -/
theorem world_userLogUp (s : Registry) (username password email index : String)
    (entry record : WriteOutcome) :
    (s.userLogUp username password email index entry record).world =
      { s.world with
        userEmails := if entry = .done then setDoc s.world.userEmails email (emailEntry index)
          else s.world.userEmails
        users := if entry ≠ .throws ∧ record = .done
          then setDoc s.world.users index (userDoc username password email index {})
          else s.world.users } := by
  cases entry <;> cases record <;> rfl

theorem submit_refused (hashCode : String → ℤ) {s : Registry} {a : Submission}
    (h : a.auth = .refused ∨ a.form.email ∈ s.world.registered.map Registration.email) :
    submit hashCode s a = s := if_pos h

/-- What a submission that creates an account does to the accounts, the two collections and the
reports. -/
theorem submit_accepted (hashCode : String → ℤ) {s : Registry} {a : Submission}
    (h : ¬(a.auth = .refused ∨ a.form.email ∈ s.world.registered.map Registration.email)) :
    submit hashCode s a =
      { world :=
          { registered := s.world.registered ++ [a.form]
            userEmails := if a.WritesEntry
              then setDoc s.world.userEmails a.form.email (emailEntry (userIndex hashCode a.form))
              else s.world.userEmails
            users := if a.WritesRecord
              then setDoc s.world.users (userIndex hashCode a.form)
                (userDoc a.form.userName a.form.password a.form.email (userIndex hashCode a.form) {})
              else s.world.users }
        reported := if a.Reports then s.reported ++ [a.form.email] else s.reported } := by
  rw [submit, if_neg h]
  obtain ⟨page, form, auth, entry, record⟩ := a
  cases page with
  | registerPage => simp [Submission.WritesEntry, Submission.WritesRecord, Submission.LogsUp,
      Submission.Reports]
  | signUpModule =>
    cases auth with
    | refused => exact absurd (Or.inl rfl) h
    | throwsAfter => simp [Submission.WritesEntry, Submission.WritesRecord, Submission.LogsUp,
        Submission.Reports, Registry.showDialog]
    | created =>
      cases entry <;> cases record <;> simp [Submission.WritesEntry, Submission.WritesRecord,
        Submission.LogsUp, Submission.Reports, Registry.userLogUp, Registry.showDialog]

/-- With all outcomes good, `SignUpModule` does what `signUp` does. -/
theorem world_submit (hashCode : String → ℤ) (s : Registry) {a : Submission} (h : a.LogsUp)
    (hentry : a.entry = .done) (hrecord : a.record = .done) :
    (submit hashCode s a).world = signUp hashCode s.world a.form := by
  have hcreated : a.auth ≠ .refused := by
    rw [h.2]
    decide
  by_cases hin : a.form.email ∈ s.world.registered.map Registration.email
  · rw [submit_refused hashCode (Or.inr hin), signUp, if_pos hin]
  · rw [submit_accepted hashCode (not_or.mpr ⟨hcreated, hin⟩), signUp_new hashCode hin]
    simp [Submission.WritesEntry, Submission.WritesRecord, h, hentry, hrecord]

/-- The reports do not matter to what is created and written. -/
theorem world_submit_congr (hashCode : String → ℤ) (s s' : Registry) (h : s.world = s'.world)
    (a : Submission) : (submit hashCode s a).world = (submit hashCode s' a).world := by
  by_cases hrefused : a.auth = .refused ∨ a.form.email ∈ s.world.registered.map Registration.email
  · rw [submit_refused hashCode hrefused, submit_refused hashCode (h ▸ hrefused), h]
  · rw [submit_accepted hashCode hrefused, submit_accepted hashCode (h ▸ hrefused), h]

/-! ### What the accepted submissions leave -/

/-- The registry after the accepted submissions `as`: each account has the report and the records
that its own submission wrote, and a document exists where one of them wrote it. -/
structure Follows (hashCode : String → ℤ) (as : List Submission) (s : Registry) : Prop where
  registered : s.world.registered = as.map (·.form)
  emails : (as.map (·.form.email)).Nodup
  reported : ∀ a ∈ as, a.form.email ∈ s.reported ↔ a.Reports
  reportedOnly : ∀ email ∈ s.reported, email ∈ as.map (·.form.email)
  entry : ∀ a ∈ as, s.world.userEmails a.form.email =
    if a.WritesEntry then some (emailEntry (userIndex hashCode a.form)) else none
  entryOnly : ∀ email, email ∉ as.map (·.form.email) → s.world.userEmails email = none
  users : ∀ index, s.world.users index ≠ none ↔
    ∃ b ∈ as, b.WritesRecord ∧ userIndex hashCode b.form = index

variable {hashCode : String → ℤ} {as : List Submission} {s : Registry} {a : Submission}

theorem Follows.registered_email (h : Follows hashCode as s) :
    s.world.registered.map Registration.email = as.map (·.form.email) := by
  rw [h.registered, List.map_map]
  rfl

theorem ne_of_mem_emails {email : String} (hnew : email ∉ as.map (·.form.email)) (ha : a ∈ as) :
    a.form.email ≠ email := by
  rintro rfl
  exact hnew (List.mem_map_of_mem ha)

/-- A submission that creates an account leaves the reports and entries of the others alone. -/
theorem follows_accepted (h : Follows hashCode as s)
    (hnew : ¬(a.auth = .refused ∨ a.form.email ∈ as.map (·.form.email))) :
    Follows hashCode (as ++ [a]) (submit hashCode s a) := by
  have hemail : a.form.email ∉ as.map (·.form.email) := fun hin => hnew (Or.inr hin)
  rw [submit_accepted hashCode (h.registered_email ▸ hnew)]
  refine ⟨?registered, ?emails, ?reported, ?reportedOnly, ?entry, ?entryOnly, ?users⟩
  case registered =>
    rw [List.map_append, h.registered]
    rfl
  case emails =>
    rw [List.map_append, List.map_singleton, ← List.concat_eq_append, List.nodup_concat]
    exact ⟨hemail, h.emails⟩
  case reported =>
    intro b hb
    rcases List.mem_append.mp hb with hb | hb
    · have hne := ne_of_mem_emails hemail hb
      by_cases hr : a.Reports
      · simp [hr, hne, h.reported b hb]
      · simp [hr, h.reported b hb]
    · rw [List.mem_singleton.mp hb]
      have hold : a.form.email ∉ s.reported := fun hin => hemail (h.reportedOnly _ hin)
      by_cases hr : a.Reports
      · simp [hr]
      · simp [hr, hold]
  case reportedOnly =>
    intro email hin
    rw [List.map_append, List.mem_append]
    by_cases hr : a.Reports
    · simp only [hr, if_true] at hin
      exact (List.mem_append.mp hin).imp (h.reportedOnly email) id
    · simp only [hr, if_false] at hin
      exact Or.inl (h.reportedOnly email hin)
  case entry =>
    intro b hb
    rcases List.mem_append.mp hb with hb | hb
    · have hne := ne_of_mem_emails hemail hb
      by_cases he : a.WritesEntry
      · simp [he, setDoc_ne hne, h.entry b hb]
      · simp [he, h.entry b hb]
    · rw [List.mem_singleton.mp hb]
      by_cases he : a.WritesEntry
      · simp [he]
      · simp [he, h.entryOnly _ hemail]
  case entryOnly =>
    intro email hin
    rw [List.map_append, List.mem_append, not_or, List.map_singleton, List.mem_singleton] at hin
    by_cases he : a.WritesEntry
    · simp [he, setDoc_ne hin.2, h.entryOnly _ hin.1]
    · simp [he, h.entryOnly _ hin.1]
  case users =>
    intro index
    have hsplit : (∃ b ∈ as ++ [a], b.WritesRecord ∧ userIndex hashCode b.form = index) ↔
        (∃ b ∈ as, b.WritesRecord ∧ userIndex hashCode b.form = index) ∨
          (a.WritesRecord ∧ userIndex hashCode a.form = index) := by
      simp only [List.mem_append, List.mem_singleton, or_and_right, exists_or, exists_eq_left]
    rw [hsplit, ← h.users index]
    by_cases hw : a.WritesRecord
    · by_cases hi : index = userIndex hashCode a.form
      · simp [hw, hi]
      · have hi' : userIndex hashCode a.form ≠ index := fun e => hi e.symm
        simp [hw, setDoc_ne hi, hi']
    · simp [hw]

theorem accepted_append (as : List Submission) (a : Submission) :
    accepted (as ++ [a]) =
      if a.auth = .refused ∨ a.form.email ∈ (accepted as).map (·.form.email) then accepted as
      else accepted as ++ [a] := by
  rw [accepted, List.foldl_append]
  rfl

theorem submissions_append (hashCode : String → ℤ) (as : List Submission) (a : Submission) :
    submissions hashCode (as ++ [a]) = submit hashCode (submissions hashCode as) a := by
  rw [submissions, List.foldl_append]
  rfl

/-- Submissions that succeed leave what the sign-ups of the accounts leave. -/
theorem world_submissions (hashCode : String → ℤ) (as : List Submission)
    (h : ∀ a ∈ as, a.Succeeds) :
    (submissions hashCode as).world = signUps hashCode (submissions hashCode as).world.registered := by
  induction as using List.reverseRecOn with
  | nil => rfl
  | append_singleton as a ih =>
    have has := ih fun b hb => h b (List.mem_append_left [a] hb)
    rw [submissions_append]
    rcases h a List.mem_concat_self with hrefused | ⟨hlogsUp, hentry, hrecord⟩
    · rw [submit_refused hashCode (Or.inl hrefused)]
      exact has
    · rw [world_submit hashCode _ hlogsUp hentry hrecord]
      exact signUps_register hashCode has

theorem follows_empty : Follows hashCode [] Registry.empty where
  registered := rfl
  emails := List.nodup_nil
  reported := fun _ ha => absurd ha List.not_mem_nil
  reportedOnly := fun _ hin => absurd hin List.not_mem_nil
  entry := fun _ ha => absurd ha List.not_mem_nil
  entryOnly := fun _ _ => rfl
  users := by
    intro index
    refine iff_of_false (fun hne => hne rfl) ?_
    rintro ⟨b, hb, -⟩
    exact absurd hb List.not_mem_nil

theorem follows_submissions (hashCode : String → ℤ) (as : List Submission) :
    Follows hashCode (accepted as) (submissions hashCode as) := by
  induction as using List.reverseRecOn with
  | nil => exact follows_empty
  | append_singleton as a ih =>
    rw [accepted_append, submissions_append]
    by_cases h : a.auth = .refused ∨ a.form.email ∈ (accepted as).map (·.form.email)
    · rw [if_pos h, submit_refused hashCode (ih.registered_email ▸ h)]
      exact ih
    · rw [if_neg h]
      exact follows_accepted ih h

/-! ### Which accounts are recorded -/

theorem recorded_account (h : Follows hashCode as s) (ha : a ∈ as) :
    Recorded s a.form ↔ a.Reports ∨ (a.WritesEntry ∧
      ∃ b ∈ as, b.WritesRecord ∧ userIndex hashCode b.form = userIndex hashCode a.form) := by
  rw [Recorded, h.reported a ha, h.entry a ha, ← h.users]
  refine or_congr_right ?_
  by_cases he : a.WritesEntry
  · simp only [he, if_true, Option.some.injEq, true_and]
    constructor
    · rintro ⟨entry, index, doc, rfl, hindex, hdoc⟩
      rw [Value.str.inj hindex, hdoc]
      exact Option.some_ne_none doc
    · intro hdoc
      obtain ⟨doc, hdoc⟩ := Option.ne_none_iff_exists'.mp hdoc
      exact ⟨_, _, doc, rfl, rfl, hdoc⟩
  · simp [he]

/-- **Which sequences of registrations leave every account with its records.**  Whatever fails: every
account is reported as failed or has an entry that names a document, if and only if every accepted
submission throws where `SignUpModule` catches it, or is made there with its entry written, while it
or another accepted submission with the same index writes the document. -/
theorem recorded_iff (hashCode : String → ℤ) (as : List Submission) :
    (∀ r ∈ (submissions hashCode as).world.registered, Recorded (submissions hashCode as) r) ↔
      ∀ a ∈ accepted as, a.Reports ∨ (a.WritesEntry ∧
        ∃ b ∈ accepted as, b.WritesRecord ∧
          userIndex hashCode b.form = userIndex hashCode a.form) := by
  have hfollows := follows_submissions hashCode as
  rw [hfollows.registered, List.forall_mem_map]
  exact forall₂_congr fun a ha => recorded_account hfollows ha

/-- Ann registers on `RegisterPage`, and nothing fails. -/
theorem not_recorded :
    ¬∀ r ∈ (submissions (fun s => s.length)
        [⟨.registerPage, ⟨"uid1", "ann", "a@x.io", "secret1"⟩, .created, .done, .done⟩]).world.registered,
      Recorded (submissions (fun s => s.length)
        [⟨.registerPage, ⟨"uid1", "ann", "a@x.io", "secret1"⟩, .created, .done, .done⟩]) r := by
  intro h
  rcases h ⟨"uid1", "ann", "a@x.io", "secret1"⟩ (by decide) with hreported | ⟨entry, _, _, hentry, -⟩
  · exact absurd hreported (by decide)
  · exact nomatch hentry

end GiftGenie.Registrations
