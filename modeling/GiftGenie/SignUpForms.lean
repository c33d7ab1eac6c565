import GiftGenie.EmailPattern
import GiftGenie.Firestore
import GiftGenie.Library.Machine

/-!
# The sign-up forms

`SignUpModule` and `RegisterPage` have the same four fields and the same button, and differ in the
validator of the password.  A tap on the button runs all validators on the texts of the fields, and
if none complains it saves the texts and calls `signUpWithEmail` with what it has saved.

The validator of the confirmation compares the two passwords that were *saved*, not those in the
fields.  So the first tap accepts any confirmation, and after a mismatch was saved no tap is accepted
any more; `accepts_iff` says that the forms do what they should exactly as long as nothing mismatched
is submitted.
-/

set_option autoImplicit false

namespace GiftGenie.SignUpForms

open GiftGenie.Library GiftGenie.Firestore GiftGenie.EmailPattern

inductive Page where
  | signUpModule
  | registerPage
  deriving DecidableEq, Repr

/-- The texts of the four fields. -/
structure Texts where
  userName : String := ""
  email : String := ""
  password1 : String := ""
  password2 : String := ""
  deriving DecidableEq, Repr

/-- The variables that the fields are saved to. -/
structure Saved where
  userName : DString := none
  email : DString := none
  password1 : DString := none
  password2 : DString := none
  deriving DecidableEq, Repr

/-- `calls` are the arguments of the calls of `signUpWithEmail`. -/
structure FormState where
  texts : Texts := {}
  saved : Saved := {}
  calls : List (DString × DString) := []
  deriving DecidableEq, Repr

inductive Field where
  | userName
  | email
  | password1
  | password2
  deriving DecidableEq, Repr

inductive Event where
  | edit (field : Field) (text : String)
  | tap
  deriving DecidableEq, Repr

def Texts.set (texts : Texts) (text : String) : Field → Texts
  | .userName => { texts with userName := text }
  | .email => { texts with email := text }
  | .password1 => { texts with password1 := text }
  | .password2 => { texts with password2 := text }

/-! ### The validators -/

/-- `value.length`, which counts UTF-16 code units. -/
def length (value : String) : ℕ :=
  (value.toList.map fun c => if c.toNat < 65536 then 1 else 2).sum

def validateEmail (value : String) : DString :=
  if hasMatch emailReg value then none else some "Invalid E-mail address!"

def validatePassword : Page → String → DString
  | .signUpModule, value =>
      if value.isEmpty ∨ length value < 6 then some "Password'length must longer than 6!" else none
  | .registerPage, value => if value.isEmpty then some "Please enter your password!" else none

/-- The validator of the confirmation does not look at its text. -/
def validateConfirmation (saved : Saved) (_ : String) : DString :=
  if saved.password1 ≠ saved.password2 then some "Password doesn't match!" else none

/-- `_formKey.currentState.validate()`.  No validator of the user name complains. -/
def validate (page : Page) (s : FormState) : Bool :=
  (validateEmail s.texts.email).isNone && (validatePassword page s.texts.password1).isNone &&
    (validateConfirmation s.saved s.texts.password2).isNone

/-- `_formKey.currentState.save()`. -/
def save (texts : Texts) : Saved where
  userName := some texts.userName
  email := some texts.email
  password1 := some texts.password1
  password2 := some texts.password2

/-- The handler of the button, up to the answer of `signUpWithEmail`. -/
def tap (page : Page) (s : FormState) : FormState :=
  if validate page s then
    let saved := save s.texts
    { s with saved := saved, calls := s.calls ++ [(saved.email, saved.password1)] }
  else s

def step (page : Page) (s : FormState) : Event → Option FormState
  | .edit field text => some { s with texts := s.texts.set text field }
  | .tap => some (tap page s)

/-! ### What the button should do -/

/-- The e-mail and the password pass their checks. -/
def Passes (page : Page) (texts : Texts) : Prop :=
  validateEmail texts.email = none ∧ validatePassword page texts.password1 = none

instance (page : Page) (texts : Texts) : Decidable (Passes page texts) :=
  inferInstanceAs (Decidable (_ ∧ _))

/-- A tap calls `signUpWithEmail` if the texts pass their checks and the two passwords are the same,
with the texts, and otherwise not. -/
def Accepts (page : Page) (s : FormState) : Event → Prop
  | .tap => (tap page s).calls = s.calls ++
      if Passes page s.texts ∧ s.texts.password2 = s.texts.password1
      then [(some s.texts.email, some s.texts.password1)] else []
  | .edit _ _ => True

/-- What is submitted with an e-mail and a password that pass is confirmed. -/
def Confirmed (page : Page) (s : FormState) : Event → Prop
  | .tap => Passes page s.texts → s.texts.password2 = s.texts.password1
  | .edit _ _ => True

/-! ### One tap -/

variable {page : Page} {s : FormState}

theorem validate_iff (hsaved : s.saved.password1 = s.saved.password2) :
    validate page s = true ↔ Passes page s.texts := by
  have hconfirmation : validateConfirmation s.saved s.texts.password2 = none :=
    if_neg (not_not.mpr hsaved)
  rw [validate, hconfirmation, Option.isNone_none, Bool.and_true, Bool.and_eq_true,
    Option.isNone_iff_eq_none, Option.isNone_iff_eq_none, Passes]

/-- A tap with two saved passwords that match calls if and only if the texts pass. -/
theorem calls_tap (hsaved : s.saved.password1 = s.saved.password2) :
    (tap page s).calls = s.calls ++
      if Passes page s.texts then [(some s.texts.email, some s.texts.password1)] else [] := by
  by_cases hpasses : Passes page s.texts
  · rw [tap, if_pos ((validate_iff hsaved).mpr hpasses), if_pos hpasses]
    rfl
  · rw [tap, if_neg (mt (validate_iff hsaved).mp hpasses), if_neg hpasses, List.append_nil]

theorem accepts_iff_confirmed (hsaved : s.saved.password1 = s.saved.password2) (e : Event) :
    Accepts page s e ↔ Confirmed page s e := by
  cases e with
  | edit field text => exact Iff.rfl
  | tap =>
    rw [Accepts, Confirmed, calls_tap hsaved, List.append_cancel_left_eq]
    by_cases hpasses : Passes page s.texts
    · by_cases hmatch : s.texts.password2 = s.texts.password1
      · simp [hpasses, hmatch]
      · simp [hpasses, hmatch]
    · simp [hpasses]

/-- What is saved matches as long as everything submitted is confirmed. -/
theorem saved_step (s : FormState) (e : Event) (s' : FormState)
    (hsaved : s.saved.password1 = s.saved.password2) (hconfirmed : Confirmed page s e)
    (hstep : step page s e = some s') : s'.saved.password1 = s'.saved.password2 := by
  cases e with
  | edit field text =>
    obtain rfl := Option.some.inj hstep
    exact hsaved
  | tap =>
    obtain rfl := Option.some.inj hstep
    by_cases hpasses : Passes page s.texts
    · rw [tap, if_pos ((validate_iff hsaved).mpr hpasses)]
      exact congrArg some (hconfirmed hpasses).symm
    · rw [tap, if_neg (mt (validate_iff hsaved).mp hpasses)]
      exact hsaved

/-- **When the forms accept matching passwords.**  On both pages and for every sequence of edits and
taps: each tap calls `signUpWithEmail` if and only if the current texts pass and match, and with
these texts, if and only if at each tap whose e-mail and password pass the confirmation is the
password. -/
theorem accepts_iff (page : Page) (events : List Event) :
    Machine.AllSteps (step page) (Accepts page) {} events ↔
      Machine.AllSteps (step page) (Confirmed page) {} events :=
  Machine.allSteps_iff (fun _ e hsaved => accepts_iff_confirmed hsaved e) saved_step events {} rfl

/-- The e-mail and the password are filled in and submitted, and then they are confirmed. -/
def confirmedLater : List Event :=
  [.edit .email "a@x.io", .edit .password1 "secret1", .tap, .edit .password2 "secret1", .tap]

/-- The first tap asks for an account, though nothing is confirmed. -/
theorem not_accepts :
    ¬∀ page events, Machine.AllSteps (step page) (Accepts page) {} events := by
  intro h
  have hfirst := (((h .signUpModule confirmedLater).2 _ rfl).2 _ rfl).1
  exact absurd hfirst (by unfold Accepts; decide +kernel)

/-- The second tap is refused, though everything matches: what the first one saved does not. -/
example : (Machine.run (step .registerPage) {} confirmedLater).map (·.calls) =
    some [(some "a@x.io", some "secret1")] := by decide +kernel

end GiftGenie.SignUpForms
