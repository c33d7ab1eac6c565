import GiftGenie.SignUpForms

/-!
# The e-mail validators

The three forms that ask for an e-mail check it with `hasMatch`, which looks for the pattern anywhere
in the text.  So they accept every text that has an address *in* it (`accepts_iff_containsAddress`),
and it takes little to have one: a character of an atom, `@`, a label, a dot and a word character.
They tell addresses from other texts exactly where nothing but an address contains that much
(`exactly_addresses_iff`).
-/

set_option autoImplicit false

namespace GiftGenie.EmailValidators

open GiftGenie.Library GiftGenie.Firestore GiftGenie.EmailPattern

/-- The forms with an e-mail field. -/
inductive Form where
  | signInModule
  | signUpModule
  | registerPage
  deriving DecidableEq, Repr

/-- The validator of `SignInModule`, which has a text of its own for an empty field. -/
def validateSignInEmail (value : String) : DString :=
  if value.isEmpty then some "Email can not be empty!"
  else if hasMatch emailReg value then none else some "Invalid E-mail address!"

def validateEmail : Form → String → DString
  | .signInModule => validateSignInEmail
  | .signUpModule => SignUpForms.validateEmail
  | .registerPage => SignUpForms.validateEmail

/-- Somewhere in the text, a character of an atom, `@`, a label, a dot and a word character. -/
def ContainsAddress (value : List Char) : Prop :=
  ∃ c l d, IsAtomChar c ∧ DomainLabel l ∧ IsWord d ∧ c :: '@' :: (l ++ ['.', d]) <:+: value

/-! ### What an address has in it -/

theorem localPart_last {atoms : List (List Char)} (hne : atoms ≠ [])
    (hatoms : ∀ a ∈ atoms, LocalAtom a) :
    ∃ u c, IsAtomChar c ∧ ['.'].intercalate atoms = u ++ [c] := by
  obtain ⟨rest, a, rfl⟩ := (List.eq_nil_or_concat' atoms).resolve_left hne
  have ha : LocalAtom a := hatoms a (List.mem_append_right rest List.mem_cons_self)
  obtain ⟨v, c, rfl⟩ := (List.eq_nil_or_concat' a).resolve_left ha.nonempty
  refine ⟨(rest.map (· ++ ['.'])).flatten ++ v, c, ?_, ?_⟩
  · exact ha.chars c (List.mem_append_right v List.mem_cons_self)
  · rw [JoinedWords.intercalate_concat, List.append_assoc]

theorem domainPart_first {labels : List (List Char)} (hlen : 2 ≤ labels.length)
    (hlabels : ∀ l ∈ labels, DomainLabel l) :
    ∃ l d v, DomainLabel l ∧ IsWord d ∧ ['.'].intercalate labels = l ++ '.' :: d :: v := by
  match labels, hlen with
  | l :: m :: rest, _ =>
    have hl : DomainLabel l := hlabels l List.mem_cons_self
    have hm : DomainLabel m := hlabels m (List.mem_cons_of_mem l List.mem_cons_self)
    obtain ⟨d, hhead, hd⟩ := hm.starts
    obtain ⟨m', rfl⟩ := List.head?_eq_some_iff.mp hhead
    refine ⟨l, d, m' ++ (rest.map (['.'] ++ ·)).flatten, hl, hd, ?_⟩
    rw [List.intercalate_cons_cons, JoinedWords.intercalate_cons, List.append_assoc]
    rfl

/-- One character, one label and one more character are an address. -/
theorem isAddress_least {c d : Char} {l : List Char} (hc : IsAtomChar c) (hl : DomainLabel l)
    (hd : IsWord d) : IsAddress (c :: '@' :: (l ++ ['.', d])) := by
  have hatom : LocalAtom [c] := ⟨List.cons_ne_nil c [], List.forall_mem_singleton.mpr hc⟩
  have hlabel : DomainLabel [d] :=
    ⟨⟨d, rfl, hd⟩, ⟨d, rfl, hd⟩, List.forall_mem_singleton.mpr (Or.inl hd)⟩
  refine ⟨[[c]], [l, [d]], List.cons_ne_nil _ _, le_refl 2, List.forall_mem_singleton.mpr hatom,
    List.forall_mem_cons.mpr ⟨hl, List.forall_mem_singleton.mpr hlabel⟩, ?_⟩
  rw [List.intercalate_singleton, List.intercalate_cons_cons, List.intercalate_singleton,
    List.append_assoc]
  rfl

theorem IsAddress.containsAddress {w : List Char} (h : IsAddress w) : ContainsAddress w := by
  obtain ⟨atoms, labels, hne, hlen, hatoms, hlabels, rfl⟩ := h
  obtain ⟨u, c, hc, hlocal⟩ := localPart_last hne hatoms
  obtain ⟨l, d, v, hl, hd, hdomain⟩ := domainPart_first hlen hlabels
  refine ⟨c, l, d, hc, hl, hd, u, v, ?_⟩
  rw [hlocal, hdomain]
  simp only [List.append_assoc, List.cons_append, List.nil_append]

/-- A text has an address in it if and only if it has one of the least ones in it. -/
theorem containsAddress_iff (value : List Char) :
    (∃ w, IsAddress w ∧ w <:+: value) ↔ ContainsAddress value := by
  constructor
  · intro h
    obtain ⟨w, hw, hinfix⟩ := h
    obtain ⟨c, l, d, hc, hl, hd, hleast⟩ := IsAddress.containsAddress hw
    exact ⟨c, l, d, hc, hl, hd, hleast.trans hinfix⟩
  · intro h
    obtain ⟨c, l, d, hc, hl, hd, hinfix⟩ := h
    exact ⟨_, isAddress_least hc hl hd, hinfix⟩

/-! ### What the validators accept -/

theorem hasMatch_emailReg (value : String) :
    hasMatch emailReg value = true ↔ ContainsAddress value.toList := by
  rw [hasMatch_iff, ← containsAddress_iff]
  simp only [mem_emailReg]

/-- A validator that complains where the pattern does not match. -/
theorem complaint_eq_none (matched : Bool) (text : String) :
    (if matched = true then none else some text : DString) = none ↔ matched = true := by
  cases matched with
  | true => exact iff_of_true rfl rfl
  | false => exact iff_of_false (Option.some_ne_none text) Bool.false_ne_true

/-- An empty text has no address in it, so the first check of `SignInModule` only changes the text of
the complaint. -/
theorem validateSignInEmail_eq_none (value : String) :
    validateSignInEmail value = none ↔ hasMatch emailReg value = true := by
  by_cases hempty : value.isEmpty = true
  · obtain rfl : value = "" := String.isEmpty_iff.mp hempty
    decide +kernel
  · rw [validateSignInEmail, if_neg hempty]
    exact complaint_eq_none _ _

theorem accepts_iff_containsAddress (form : Form) (value : String) :
    validateEmail form value = none ↔ ContainsAddress value.toList := by
  rw [← hasMatch_emailReg]
  cases form with
  | signInModule => exact validateSignInEmail_eq_none value
  | signUpModule => exact complaint_eq_none _ _
  | registerPage => exact complaint_eq_none _ _

/-- **When the validators accept exactly the addresses.**  In each form, the text is accepted if and
only if it is an address, if and only if it is one or has nowhere a character of an atom, `@`, a
label, a dot and a word character in it. -/
theorem exactly_addresses_iff (form : Form) (value : String) :
    (validateEmail form value = none ↔ IsAddress value.toList) ↔
      IsAddress value.toList ∨ ¬ContainsAddress value.toList := by
  rw [accepts_iff_containsAddress]
  constructor
  · intro h
    by_cases haddress : IsAddress value.toList
    · exact Or.inl haddress
    · exact Or.inr (mt h.mp haddress)
  · intro h
    refine ⟨fun hcontains => ?_, IsAddress.containsAddress⟩
    exact h.resolve_right (not_not.mpr hcontains)

/-- No form has such a validator: each accepts an address with something written before it. -/
theorem not_exactly_addresses :
    ¬∃ form, ∀ value, validateEmail form value = none ↔ IsAddress value.toList := by
  intro hform
  obtain ⟨form, h⟩ := hform
  have haccepted : validateEmail form "to a@x.io" = none := by
    cases form with
    | signInModule => decide +kernel
    | signUpModule => decide +kernel
    | registerPage => decide +kernel
  have hno : ¬IsAddress "to a@x.io".toList := by decide +kernel
  exact hno ((h "to a@x.io").mp haccepted)

end GiftGenie.EmailValidators
