import GiftGenie.EmailValidators
import GiftGenie.Registrations

/-!
# The sign-up pages while their calls are under way

A tap on the button saves the texts and calls `signUpWithEmail`; when the account is there,
`SignUpModule` writes the two records.  It writes them from what is saved by then, so a second tap
before the first answer decides what is written for the first account, too.  An account counts from
the answer of its call on; the outcomes of calls and writes are those of a `Submission`.

* `pages_sound`: whatever overlaps and fails, only texts that passed the validators together get
  anywhere.
* `alone_refines`: as long as no tap is accepted while a call is under way, the page does what
  `submit` does at once.
-/

set_option autoImplicit false

namespace GiftGenie.SignUpPages

open GiftGenie.Library GiftGenie.Firestore GiftGenie.SignUp GiftGenie.SignUpForms
  GiftGenie.EmailValidators
open GiftGenie.Registrations (AuthOutcome WriteOutcome Submission Registry submit submissions
  submit_refused world_submit_congr world_submissions world_userLogUp)

/-- `pending` are the texts with which the calls under way were submitted. -/
structure SignUpPage where
  form : FormState := {}
  pending : List Texts := []
  world : World := World.empty
  dialogs : ℕ := 0

inductive Event where
  | edit (field : Field) (text : String)
  | tap
  /-- A call returns or throws.  The uid is that of the account, if one was created, and the writes are
  those that `SignUpModule` makes if the call returns. -/
  | answer (i : ℕ) (uid : String) (auth : AuthOutcome) (entry record : WriteOutcome)

/-- What is entered in the form for an account. -/
def registration (texts : Texts) (uid : String) : Registration where
  uid := uid
  userName := texts.userName
  email := texts.email
  password := texts.password1

variable (hashCode : String → ℤ) (page : Page)

namespace SignUpPage

variable (s : SignUpPage)

def showDialog : SignUpPage := { s with dialogs := s.dialogs + 1 }

/-- The Auth service creates an account, unless the e-mail has one. -/
def register (texts : Texts) (uid : String) : Option SignUpPage :=
  if texts.email ∈ s.world.registered.map Registration.email then none
  else some { s with world := { s.world with
    registered := s.world.registered ++ [registration texts uid] } }

/-- `_userLogUp` with what is saved; while nothing is saved, `_userName + _email` throws. -/
def userLogUp (entry record : WriteOutcome) : SignUpPage :=
  match s.form.saved.userName, s.form.saved.email, s.form.saved.password1 with
  | some userName, some email, some password =>
      let index := (hashCode (userName ++ email)).repr
      let r := Registry.userLogUp ⟨s.world, []⟩ userName password email index entry record
      { s with world := r.world, dialogs := s.dialogs + r.reported.length }
  | _, _, _ => s.showDialog

/-- The handler after `signUpWithEmail` has returned. -/
def returned (entry record : WriteOutcome) : SignUpPage :=
  match page with
  | .registerPage => s
  | .signUpModule => s.userLogUp hashCode entry record

/-- The handler after `signUpWithEmail` has thrown, which `RegisterPage` does not catch. -/
def thrown : SignUpPage :=
  match page with
  | .registerPage => s
  | .signUpModule => s.showDialog

end SignUpPage

def step (s : SignUpPage) : Event → Option SignUpPage
  | .edit field text => some { s with form := { s.form with texts := s.form.texts.set text field } }
  | .tap =>
      if validate page s.form then
        some { s with form := SignUpForms.tap page s.form, pending := s.pending ++ [s.form.texts] }
      else some s
  | .answer i uid auth entry record =>
      s.pending[i]?.bind fun texts =>
        let s := { s with pending := s.pending.eraseIdx i }
        match auth with
        | .refused => some (s.thrown page)
        | .created => (s.register texts uid).map (·.returned hashCode page entry record)
        | .throwsAfter => (s.register texts uid).map (·.thrown page)

/-! ### The login form -/

/-- The validator of the password in `SignInModule`. -/
def validateSignInPassword (value : String) : DString :=
  if value.isEmpty ∨ length value < 6 then some "Password'length must longer than 6!" else none

/-- LOGIN calls `signInWithEmail`. -/
def LogsIn (email password : String) : Prop :=
  validateSignInEmail email = none ∧ validateSignInPassword password = none

/-! ### What passes the validators -/

variable {hashCode page} {s : SignUpPage}

theorem validatePassword_eq_none (page : Page) (value : String) :
    validatePassword page value = none ↔
      match page with
      | .signUpModule => value ≠ "" ∧ 6 ≤ length value
      | .registerPage => value ≠ "" := by
  cases page with
  | signUpModule =>
    simp only [validatePassword, ite_eq_right_iff, reduceCtorEq, imp_false, not_or, not_lt,
      String.isEmpty_iff, ne_eq]
  | registerPage =>
    simp only [validatePassword, ite_eq_right_iff, reduceCtorEq, imp_false, String.isEmpty_iff, ne_eq]

/-- The texts passed the validators of the e-mail and of the password. -/
structure Valid (page : Page) (email password : String) : Prop where
  address : ContainsAddress email.toList
  nonempty : password ≠ ""
  long : page = .signUpModule → 6 ≤ length password

theorem valid_of_passes {texts : Texts} (h : Passes page texts) :
    Valid page texts.email texts.password1 := by
  have hpassword := (validatePassword_eq_none page texts.password1).mp h.2
  have hemail := (accepts_iff_containsAddress .signUpModule texts.email).mp h.1
  cases page with
  | signUpModule => exact ⟨hemail, hpassword.1, fun _ => hpassword.2⟩
  | registerPage => exact ⟨hemail, hpassword, nofun⟩

/-- LOGIN takes the credentials of an account if the password has six characters. -/
theorem logsIn_iff {email password : String} (h : Valid page email password) :
    LogsIn email password ↔ 6 ≤ length password := by
  have hemail : validateSignInEmail email = none :=
    (accepts_iff_containsAddress .signInModule email).mpr h.address
  have hpassword : validateSignInPassword password = none ↔ password ≠ "" ∧ 6 ≤ length password :=
    validatePassword_eq_none .signUpModule password
  rw [LogsIn, hpassword]
  exact ⟨fun hin => hin.2.2, fun hlong => ⟨hemail, h.nonempty, hlong⟩⟩

theorem passes_of_validate {f : FormState} (h : validate page f = true) : Passes page f.texts := by
  rw [validate, Bool.and_eq_true, Bool.and_eq_true, Option.isNone_iff_eq_none,
    Option.isNone_iff_eq_none] at h
  exact h.1

/-! ### Everything that gets anywhere -/

/-- Every account was asked for with credentials that passed, every directory entry is for an e-mail
with an address in it, and every document holds a name, an e-mail and a password of which the last
two passed together. -/
structure Written (hashCode : String → ℤ) (page : Page) (w : World) : Prop where
  registered : ∀ r ∈ w.registered, Valid page r.email r.password
  userEmails : ∀ email, w.userEmails email ≠ none → ContainsAddress email.toList
  users : ∀ index doc, w.users index = some doc → ∃ userName email password,
    Valid page email password ∧ index = (hashCode (userName ++ email)).repr ∧
      doc = userDoc userName password email index {}

structure Sound (hashCode : String → ℤ) (page : Page) (s : SignUpPage) : Prop where
  saved : s.form.saved = {} ∨ ∃ texts, s.form.saved = save texts ∧ Passes page texts
  pending : ∀ texts ∈ s.pending, Passes page texts
  written : Written hashCode page s.world

theorem written_register {w : World} (h : Written hashCode page w) {texts : Texts}
    (htexts : Passes page texts) (uid : String) :
    Written hashCode page { w with registered := w.registered ++ [registration texts uid] } where
  registered := by
    intro r hr
    rcases List.mem_append.mp hr with hr | hr
    · exact h.registered r hr
    · rw [List.mem_singleton.mp hr]
      exact valid_of_passes htexts
  userEmails := h.userEmails
  users := h.users

theorem written_entry {w : World} (h : Written hashCode page w) {email : String}
    (hemail : ContainsAddress email.toList) (index : String) :
    Written hashCode page
      { w with userEmails := setDoc w.userEmails email (emailEntry index) } where
  registered := h.registered
  userEmails := by
    intro email' hentry
    by_cases heq : email' = email
    · rw [heq]
      exact hemail
    · exact h.userEmails email' fun hnone => hentry ((setDoc_ne heq).trans hnone)
  users := h.users

theorem written_record {w : World} (h : Written hashCode page w) {userName email password : String}
    (hvalid : Valid page email password) {index : String}
    (hindex : index = (hashCode (userName ++ email)).repr) :
    Written hashCode page
      { w with users := setDoc w.users index (userDoc userName password email index {}) } where
  registered := h.registered
  userEmails := h.userEmails
  users := by
    intro index' doc hdoc
    by_cases heq : index' = index
    · refine ⟨userName, email, password, hvalid, heq.trans hindex, ?_⟩
      subst heq
      exact (Option.some.inj ((setDoc_self _ _ _).symm.trans hdoc)).symm
    · exact h.users index' doc ((setDoc_ne heq).symm.trans hdoc)

/-- What is saved is written, as far as the writes succeed. -/
theorem world_userLogUp_save {texts : Texts} (hsaved : s.form.saved = save texts)
    (entry record : WriteOutcome) :
    (s.userLogUp hashCode entry record).world =
      (Registry.userLogUp ⟨s.world, []⟩ texts.userName texts.password1 texts.email
        (hashCode (texts.userName ++ texts.email)).repr entry record).world := by
  rw [SignUpPage.userLogUp, hsaved]
  rfl

theorem written_userLogUp (h : Sound hashCode page s) (entry record : WriteOutcome) :
    Written hashCode page (s.userLogUp hashCode entry record).world := by
  obtain hempty | ⟨texts, hsaved, hpasses⟩ := h.saved
  · -- nothing is saved, and the texts to hash are `null`
    rw [SignUpPage.userLogUp, hempty]
    exact h.written
  · have hvalid := valid_of_passes hpasses
    rw [world_userLogUp_save hsaved, world_userLogUp]
    by_cases hentry : entry = .done <;> by_cases hrecord : entry ≠ .throws ∧ record = .done
    · rw [if_pos hentry, if_pos hrecord]
      exact written_record (written_entry h.written hvalid.address _) hvalid rfl
    · rw [if_pos hentry, if_neg hrecord]
      exact written_entry h.written hvalid.address _
    · rw [if_neg hentry, if_pos hrecord]
      exact written_record h.written hvalid rfl
    · rw [if_neg hentry, if_neg hrecord]
      exact h.written

/-- `s'` differs from `s` in the collections and the dialogs at most. -/
def SameForm (s s' : SignUpPage) : Prop := s'.form = s.form ∧ s'.pending = s.pending

theorem sameForm_userLogUp (entry record : WriteOutcome) :
    SameForm s (s.userLogUp hashCode entry record) := by
  rw [SignUpPage.userLogUp]
  split <;> exact ⟨rfl, rfl⟩

theorem sameForm_returned (entry record : WriteOutcome) :
    SameForm s (s.returned hashCode page entry record) := by
  cases page with
  | registerPage => exact ⟨rfl, rfl⟩
  | signUpModule => exact sameForm_userLogUp entry record

theorem sameForm_thrown : SameForm s (s.thrown page) := by
  cases page <;> exact ⟨rfl, rfl⟩

theorem world_thrown : (s.thrown page).world = s.world := by
  cases page <;> rfl

theorem Sound.of_sameForm {s' : SignUpPage} (h : Sound hashCode page s) (hsame : SameForm s s')
    (hwritten : Written hashCode page s'.world) : Sound hashCode page s' where
  saved := by
    rw [hsame.1]
    exact h.saved
  pending := by
    rw [hsame.2]
    exact h.pending
  written := hwritten

theorem sound_returned (h : Sound hashCode page s) (entry record : WriteOutcome) :
    Sound hashCode page (s.returned hashCode page entry record) := by
  refine h.of_sameForm (sameForm_returned entry record) ?_
  cases page with
  | registerPage => exact h.written
  | signUpModule => exact written_userLogUp h entry record

theorem sound_thrown (h : Sound hashCode page s) : Sound hashCode page (s.thrown page) := by
  refine h.of_sameForm sameForm_thrown ?_
  rw [world_thrown]
  exact h.written

theorem register_eq_some {texts : Texts} {uid : String} {s' : SignUpPage} :
    s.register texts uid = some s' ↔
      texts.email ∉ s.world.registered.map Registration.email ∧
        { s with world := { s.world with
          registered := s.world.registered ++ [registration texts uid] } } = s' := by
  rw [SignUpPage.register, Option.ite_none_left_eq_some, Option.some.injEq]

theorem sound_register (h : Sound hashCode page s) {texts : Texts} (htexts : Passes page texts)
    {uid : String} {s' : SignUpPage} (hregister : s.register texts uid = some s') :
    Sound hashCode page s' := by
  obtain ⟨-, rfl⟩ := register_eq_some.mp hregister
  exact ⟨h.saved, h.pending, written_register h.written htexts uid⟩

theorem sound_drop (h : Sound hashCode page s) (i : ℕ) :
    Sound hashCode page { s with pending := s.pending.eraseIdx i } :=
  ⟨h.saved, fun texts htexts => h.pending texts (List.mem_of_mem_eraseIdx htexts), h.written⟩

theorem saved_tap (h : validate page s.form = true) :
    (SignUpForms.tap page s.form).saved = save s.form.texts := by
  rw [SignUpForms.tap, if_pos h]

theorem sound_step (s : SignUpPage) (e : Event) (s' : SignUpPage) (h : Sound hashCode page s)
    (hstep : step hashCode page s e = some s') : Sound hashCode page s' := by
  cases e with
  | edit field text =>
    cases hstep
    exact ⟨h.saved, h.pending, h.written⟩
  | tap =>
    rw [step] at hstep
    split at hstep
    · rename_i hvalid
      cases hstep
      have hpasses := passes_of_validate hvalid
      refine ⟨Or.inr ⟨_, saved_tap hvalid, hpasses⟩, fun texts htexts => ?_, h.written⟩
      rcases List.mem_append.mp htexts with htexts | htexts
      · exact h.pending texts htexts
      · rw [List.mem_singleton.mp htexts]
        exact hpasses
    · cases hstep
      exact h
  | answer i uid auth entry record =>
    obtain ⟨texts, hi, hstep⟩ := Option.bind_eq_some_iff.mp hstep
    have htexts : Passes page texts := h.pending texts (List.mem_of_getElem? hi)
    have hdrop := sound_drop h i
    cases auth with
    | refused =>
      cases hstep
      exact sound_thrown hdrop
    | created =>
      obtain ⟨s₁, hregister, rfl⟩ := Option.map_eq_some_iff.mp hstep
      exact sound_returned (sound_register hdrop htexts hregister) entry record
    | throwsAfter =>
      obtain ⟨s₁, hregister, rfl⟩ := Option.map_eq_some_iff.mp hstep
      exact sound_thrown (sound_register hdrop htexts hregister)

theorem sound_start : Sound hashCode page {} where
  saved := Or.inl rfl
  pending := nofun
  written := ⟨nofun, fun _ h => absurd rfl h, nofun⟩

/-- **Nothing unchecked gets anywhere.**  In every run of one of the pages, with any calls overlapping,
throwing before or after they have created an account, and with any writes failing: every account was asked for with an e-mail that has an address in it and a password that passed its
check; every entry of the directory is for such an e-mail; every document holds a name, an e-mail and
a password of which the last two passed together, under the index that the first two make; and LOGIN
takes the credentials of an account if and only if the password has six characters. -/
theorem pages_sound (hashCode : String → ℤ) (page : Page) (events : List Event) (s : SignUpPage)
    (hrun : Machine.run (step hashCode page) {} events = some s) :
    Written hashCode page s.world ∧
      ∀ r ∈ s.world.registered, (LogsIn r.email r.password ↔ 6 ≤ length r.password) := by
  have h : Sound hashCode page s := Machine.run_invariant sound_step events _ s sound_start hrun
  exact ⟨h.written, fun r hr => logsIn_iff (h.written.registered r hr)⟩

/-- Ann signs up. -/
def annSignsUp : List Event :=
  [.edit .userName "ann", .edit .email "a@x.io", .edit .password1 "secret1",
    .edit .password2 "secret1", .tap, .answer 0 "uid1" .created .done .done]

theorem run_annSignsUp :
    ∃ s, Machine.run (step (fun text => text.length) .signUpModule) {} annSignsUp = some s ∧
      s.world.registered = [⟨"uid1", "ann", "a@x.io", "secret1"⟩] := by
  have hrun : (Machine.run (step (fun text => text.length) .signUpModule) {} annSignsUp).map
      (fun s => s.world.registered) = some [⟨"uid1", "ann", "a@x.io", "secret1"⟩] := by
    decide +kernel
  exact Option.map_eq_some_iff.mp hrun

theorem pages_sound_ann :
    ∃ s, Machine.run (step (fun text => text.length) .signUpModule) {} annSignsUp = some s ∧
      LogsIn "a@x.io" "secret1" := by
  obtain ⟨s, hrun, hregistered⟩ := run_annSignsUp
  have h := (pages_sound (fun text => text.length) .signUpModule annSignsUp s hrun).2
  rw [hregistered] at h
  exact ⟨s, hrun, (h _ List.mem_cons_self).mpr (by decide)⟩

/-! ### One call at a time -/

/-- No tap is accepted while a call is under way. -/
def Alone (page : Page) (s : SignUpPage) : Event → Prop
  | .tap => validate page s.form = true → s.pending = []
  | _ => True

instance (page : Page) (s : SignUpPage) : ∀ e, Decidable (Alone page s e)
  | .tap => inferInstanceAs (Decidable (validate page s.form = true → s.pending = []))
  | .edit _ _ => isTrue trivial
  | .answer _ _ _ _ _ => isTrue trivial

/-- The submission that an answer to a call of `SignUpModule` completes. -/
def completed (s : SignUpPage) : Event → List Submission
  | .answer i uid auth entry record =>
      (s.pending[i]?.map fun texts =>
        ⟨.signUpModule, registration texts uid, auth, entry, record⟩).toList
  | _ => []

/-- `submit` on what is created and written. -/
def submitWorld (hashCode : String → ℤ) (w : World) (a : Submission) : Option World :=
  some (submit hashCode ⟨w, []⟩ a).world

theorem run_submitWorld (as : List Submission) :
    ∀ r : Registry, Machine.run (submitWorld hashCode) r.world as =
      some (as.foldl (submit hashCode) r).world := by
  induction as with
  | nil => intro r; rfl
  | cons a as ih =>
    intro r
    have hfirst : submitWorld hashCode r.world a = some (submit hashCode r a).world :=
      congrArg some (world_submit_congr hashCode ⟨r.world, []⟩ r rfl a)
    rw [Machine.run, hfirst]
    exact ih _

/-- The texts of the call under way are those that are saved. -/
def InTurn (s : SignUpPage) : Prop :=
  s.pending = [] ∨ ∃ texts, s.pending = [texts] ∧ s.form.saved = save texts

/-- The only call there can be is the first one. -/
theorem InTurn.answer (h : InTurn s) {i : ℕ} {texts : Texts} (hi : s.pending[i]? = some texts) :
    s.pending.eraseIdx i = [] ∧ s.form.saved = save texts := by
  obtain hnone | ⟨texts', hone, hsaved⟩ := h
  · rw [hnone] at hi
    cases hi
  · rw [hone] at hi ⊢
    cases i with
    | zero =>
      cases hi
      exact ⟨rfl, hsaved⟩
    | succ i => cases hi

/-- The submission of a call that has created an account. -/
theorem submit_register {texts : Texts} {uid : String} {s' : SignUpPage}
    (hregister : s.register texts uid = some s') {auth : AuthOutcome} (hauth : auth ≠ .refused)
    (entry record : WriteOutcome) :
    submit hashCode ⟨s.world, []⟩ ⟨.signUpModule, registration texts uid, auth, entry, record⟩ =
      match auth with
      | .created => Registry.userLogUp ⟨s'.world, []⟩ texts.userName texts.password1 texts.email
          (hashCode (texts.userName ++ texts.email)).repr entry record
      | _ => Registry.showDialog ⟨s'.world, []⟩ texts.email := by
  obtain ⟨hnew, rfl⟩ := register_eq_some.mp hregister
  have haccepted : ¬(auth = .refused ∨
      texts.email ∈ s.world.registered.map Registration.email) := not_or.mpr ⟨hauth, hnew⟩
  refine (if_neg haccepted).trans ?_
  cases auth <;> rfl

/-- The answer to the only call makes the submission complete. -/
theorem world_returned {texts : Texts} {uid : String} {s' : SignUpPage}
    (hregister : s.register texts uid = some s') (hsaved : s.form.saved = save texts)
    (entry record : WriteOutcome) :
    (s'.returned hashCode .signUpModule entry record).world =
      (submit hashCode ⟨s.world, []⟩
        ⟨.signUpModule, registration texts uid, .created, entry, record⟩).world := by
  rw [submit_register hregister (by decide)]
  have hsaved' : s'.form.saved = save texts := by
    rw [← (register_eq_some.mp hregister).2]
    exact hsaved
  exact world_userLogUp_save hsaved' entry record

theorem world_throwsAfter {texts : Texts} {uid : String} {s' : SignUpPage}
    (hregister : s.register texts uid = some s') (entry record : WriteOutcome) :
    (s'.thrown .signUpModule).world =
      (submit hashCode ⟨s.world, []⟩
        ⟨.signUpModule, registration texts uid, .throwsAfter, entry, record⟩).world := by
  rw [submit_register hregister (by decide)]
  rfl

theorem run_completed {i : ℕ} {texts : Texts} (hi : s.pending[i]? = some texts) (uid : String)
    (auth : AuthOutcome) (entry record : WriteOutcome) :
    Machine.run (submitWorld hashCode) s.world (completed s (.answer i uid auth entry record)) =
      some (submit hashCode ⟨s.world, []⟩
        ⟨.signUpModule, registration texts uid, auth, entry, record⟩).world := by
  rw [completed, hi]
  rfl

theorem inTurn_step (s : SignUpPage) (e : Event) (s' : SignUpPage) (h : InTurn s)
    (halone : Alone .signUpModule s e) (hstep : step hashCode .signUpModule s e = some s') :
    InTurn s' ∧
      Machine.run (submitWorld hashCode) s.world (completed s e) = some s'.world := by
  cases e with
  | edit field text =>
    cases hstep
    exact ⟨h, rfl⟩
  | tap =>
    rw [step] at hstep
    split at hstep
    · rename_i hvalid
      cases hstep
      refine ⟨Or.inr ⟨s.form.texts, ?_, saved_tap hvalid⟩, rfl⟩
      show s.pending ++ [s.form.texts] = _
      rw [halone hvalid]
      rfl
    · cases hstep
      exact ⟨h, rfl⟩
  | answer i uid auth entry record =>
    obtain ⟨texts, hi, hstep⟩ := Option.bind_eq_some_iff.mp hstep
    obtain ⟨hdone, hsaved⟩ := h.answer hi
    rw [run_completed hi]
    cases auth with
    | refused =>
      cases hstep
      rw [submit_refused hashCode (Or.inl rfl)]
      exact ⟨Or.inl hdone, rfl⟩
    | created =>
      obtain ⟨s₁, hregister, rfl⟩ := Option.map_eq_some_iff.mp hstep
      refine ⟨Or.inl ?_, congrArg some (world_returned hregister hsaved entry record).symm⟩
      obtain ⟨-, rfl⟩ := register_eq_some.mp hregister
      rw [(sameForm_returned entry record).2]
      exact hdone
    | throwsAfter =>
      obtain ⟨s₁, hregister, rfl⟩ := Option.map_eq_some_iff.mp hstep
      refine ⟨Or.inl ?_, congrArg some (world_throwsAfter hregister entry record).symm⟩
      obtain ⟨-, rfl⟩ := register_eq_some.mp hregister
      rw [sameForm_thrown.2]
      exact hdone

variable (hashCode) in
/-- The submissions of a run of `SignUpModule`, in the order in which their calls were answered. -/
def submitted (events : List Event) : List Submission :=
  Machine.observe (step hashCode .signUpModule) completed {} events

/-- **One sign-up at a time is one sign-up at once.**  In every run of `SignUpModule` in which no tap is
accepted while a call is under way, the accounts and the two collections are what its submissions,
each made at once and coming to the same, leave, whatever fails; and if all calls that are not refused
return and their writes succeed, they are what the sign-ups of the accounts leave. -/
theorem alone_refines (hashCode : String → ℤ) (events : List Event) (s : SignUpPage)
    (halone : Machine.AllSteps (step hashCode .signUpModule) (Alone .signUpModule) {} events)
    (hrun : Machine.run (step hashCode .signUpModule) {} events = some s) :
    s.world = (submissions hashCode (submitted hashCode events)).world ∧
      ((∀ a ∈ submitted hashCode events, a.Succeeds) →
        s.world = signUps hashCode s.world.registered) := by
  have hobserve := Machine.run_observe_guarded (f := SignUpPage.world) inTurn_step events {} s
    (Or.inl rfl) halone hrun
  have hworld : s.world = (submissions hashCode (submitted hashCode events)).world :=
    (Option.some.inj ((run_submitWorld _ Registry.empty).symm.trans hobserve)).symm
  refine ⟨hworld, fun hsucceed => ?_⟩
  rw [hworld]
  exact world_submissions hashCode _ hsucceed

theorem alone_refines_ann :
    ∃ s, Machine.run (step (fun text => text.length) .signUpModule) {} annSignsUp = some s ∧
      s.world = signUps (fun text => text.length) [⟨"uid1", "ann", "a@x.io", "secret1"⟩] := by
  obtain ⟨s, hrun, hregistered⟩ := run_annSignsUp
  have h := (alone_refines (fun text => text.length) annSignsUp s (by decide +kernel) hrun).2
    (by decide +kernel)
  rw [hregistered] at h
  exact ⟨s, hrun, h⟩

/-- Another e-mail is submitted before the first call is answered, and the Auth service refuses it. -/
def overlapping : List Event :=
  [.edit .userName "ann", .edit .email "a@x.io", .edit .password1 "secret1",
    .edit .password2 "secret1", .tap, .edit .email "b@x.io", .tap,
    .answer 0 "uid1" .created .done .done, .answer 0 "" .refused .done .done]

/-- The account of Ann is there, and the records are those of the e-mail that was refused. -/
theorem overlapping_not_refines :
    ¬∀ s, Machine.run (step (fun text => text.length) .signUpModule) {} overlapping = some s →
      s.world = signUps (fun text => text.length) s.world.registered := by
  intro h
  have hrun : (Machine.run (step (fun text => text.length) .signUpModule) {} overlapping).map
      (fun s => (s.world.registered, s.world.userEmails "a@x.io" |>.isSome)) =
      some ([⟨"uid1", "ann", "a@x.io", "secret1"⟩], false) := by
    decide +kernel
  obtain ⟨s, hs, hseen⟩ := Option.map_eq_some_iff.mp hrun
  obtain ⟨hregistered, hentry⟩ := Prod.mk.inj hseen
  rw [h s hs, hregistered] at hentry
  exact absurd hentry (by decide)

end GiftGenie.SignUpPages
