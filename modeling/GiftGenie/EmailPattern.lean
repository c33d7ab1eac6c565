import GiftGenie.Library.JoinedWords
import Mathlib.Computability.RegularExpressions

/-!
# The pattern of the e-mail validators

The sign-in and the two sign-up forms check an e-mail with one regular expression.  `hasMatch` finds
it anywhere in the text: `hasMatch_iff` says that some part of the text is in its language.

`IsAddress` is what the expression describes, as a grammar: atoms joined by dots, `@`, labels joined
by dots.  `mem_emailReg` says that the language of the expression is this grammar, so that a text
which *is* an address and a text which `hasMatch` accepts differ by the search alone.
-/

set_option autoImplicit false

namespace GiftGenie.EmailPattern

open GiftGenie.Library

/-- `\w`. -/
def word : List Char :=
  "ABCDEFGHIJKLMNOPQRSTUVWXYZabcdefghijklmnopqrstuvwxyz0123456789_".toList

/-- A character class. -/
def oneOf (cs : List Char) : RegularExpression Char := cs.foldr (fun c P => .char c + P) 0

/-- `P+`. -/
def oneOrMore (P : RegularExpression Char) : RegularExpression Char := P * P.star

/-- `P?`. -/
def optional (P : RegularExpression Char) : RegularExpression Char := 1 + P

/-- What the part before the `@` consists of, without the dots. -/
def atom : RegularExpression Char :=
  oneOrMore (oneOf (word ++ "!#$%&'*+/=?^_`\x7b|\x7d~-".toList))

/-- What the part after the `@` consists of, without the dots. -/
def label : RegularExpression Char :=
  oneOf word * optional ((oneOf (word ++ ['-'])).star * oneOf word)

/-- `emailReg`, group by group. -/
def emailReg : RegularExpression Char :=
  atom * (.char '.' * atom).star * .char '@' * oneOrMore (label * .char '.') * label

/-- `reg.hasMatch(value)`: try every part of the text. -/
def hasMatch (reg : RegularExpression Char) (value : String) : Bool :=
  value.toList.tails.any fun rest => rest.inits.any reg.rmatch

theorem hasMatch_iff (reg : RegularExpression Char) (value : String) :
    hasMatch reg value = true ↔ ∃ w ∈ reg.matches', w <:+: value.toList := by
  simp only [hasMatch, List.any_eq_true, List.mem_tails, List.mem_inits,
    RegularExpression.rmatch_iff_matches']
  constructor
  · intro h
    obtain ⟨rest, hrest, w, hw, hmatch⟩ := h
    exact ⟨w, hmatch, hw.isInfix.trans hrest.isInfix⟩
  · intro h
    obtain ⟨w, hmatch, before, after, hvalue⟩ := h
    refine ⟨w ++ after, ⟨before, ?_⟩, w, List.prefix_append w after, hmatch⟩
    rw [← List.append_assoc]
    exact hvalue

/-! ### Addresses -/

/-- An ASCII letter, a digit or `_`. -/
def IsWord (c : Char) : Prop := c.isAlphanum = true ∨ c = '_'

instance (c : Char) : Decidable (IsWord c) := inferInstanceAs (Decidable (_ ∨ _))

/-- What stands between the dots before the `@`. -/
def IsAtomChar (c : Char) : Prop := IsWord c ∨ c ∈ "!#$%&'*+/=?^`\x7b|\x7d~-".toList

instance (c : Char) : Decidable (IsAtomChar c) := inferInstanceAs (Decidable (_ ∨ _))

/-- One or more of the characters of an atom. -/
structure LocalAtom (w : List Char) : Prop where
  nonempty : w ≠ []
  chars : ∀ c ∈ w, IsAtomChar c

/-- A label starts and ends with a word character and has only these and hyphens inside. -/
structure DomainLabel (w : List Char) : Prop where
  starts : ∃ c ∈ w.head?, IsWord c
  ends : ∃ c ∈ w.getLast?, IsWord c
  inside : ∀ c ∈ w, IsWord c ∨ c = '-'

/-- `local@domain`: one or more atoms and two or more labels, each joined by single dots. -/
def IsAddress (w : List Char) : Prop :=
  ∃ atoms labels : List (List Char), atoms ≠ [] ∧ 2 ≤ labels.length ∧
    (∀ a ∈ atoms, LocalAtom a) ∧ (∀ l ∈ labels, DomainLabel l) ∧
      w = ['.'].intercalate atoms ++ '@' :: ['.'].intercalate labels

/-! ### The character classes -/

theorem mem_word_of_lt : ∀ n < 128, (Char.ofNat n ∈ word ↔ IsWord (Char.ofNat n)) := by
  decide +kernel

theorem lt_of_mem_word {c : Char} (h : c ∈ word) : c.toNat < 128 := by
  have hall : word.all (fun d => d.toNat < 128) = true := by decide +kernel
  exact of_decide_eq_true (List.all_eq_true.mp hall c h)

theorem lt_of_isWord {c : Char} (h : IsWord c) : c.toNat < 128 := by
  rcases h with h | rfl
  · -- an upper-case letter, a lower-case letter or a digit
    change ((decide (_ ∧ _) || (decide _ && decide _)) || (decide _ && decide _)) = true at h
    simp only [Bool.or_eq_true, Bool.and_eq_true, decide_eq_true_eq, UInt32.le_iff_toNat_le,
      ge_iff_le] at h
    have hZ : 'Z'.val.toNat = 90 := rfl
    have hz : 'z'.val.toNat = 122 := rfl
    have h9 : '9'.val.toNat = 57 := rfl
    show c.val.toNat < 128
    omega
  · decide

/-- The characters of `\w` are the word characters. -/
theorem mem_word {c : Char} : c ∈ word ↔ IsWord c := by
  have hbelow : c.toNat < 128 → (c ∈ word ↔ IsWord c) := by
    intro h
    have hn := mem_word_of_lt c.toNat h
    rwa [Char.ofNat_toNat] at hn
  exact ⟨fun h => (hbelow (lt_of_mem_word h)).mp h, fun h => (hbelow (lt_of_isWord h)).mpr h⟩

theorem mem_atomChars {c : Char} :
    c ∈ word ++ "!#$%&'*+/=?^_`\x7b|\x7d~-".toList ↔ IsAtomChar c := by
  have hto : "!#$%&'*+/=?^_`\x7b|\x7d~-".toList.all (fun d => IsAtomChar d) = true := by
    decide +kernel
  have hfrom : "!#$%&'*+/=?^`\x7b|\x7d~-".toList.all
      (fun d => d ∈ "!#$%&'*+/=?^_`\x7b|\x7d~-".toList) = true := by
    decide +kernel
  rw [List.mem_append, mem_word]
  constructor
  · intro h
    rcases h with hword | hother
    · exact Or.inl hword
    · exact of_decide_eq_true (List.all_eq_true.mp hto c hother)
  · exact Or.imp_right fun hother => of_decide_eq_true (List.all_eq_true.mp hfrom c hother)

theorem mem_labelChars {c : Char} : c ∈ word ++ ['-'] ↔ IsWord c ∨ c = '-' := by
  rw [List.mem_append, mem_word, List.mem_singleton]

/-! ### Classes and repetitions -/

theorem mem_oneOf {cs w : List Char} : w ∈ (oneOf cs).matches' ↔ ∃ c ∈ cs, w = [c] := by
  induction cs with
  | nil => simp [oneOf]
  | cons c cs ih =>
    show w ∈ (RegularExpression.char c + oneOf cs).matches' ↔ _
    rw [RegularExpression.matches'_add, Language.mem_add, ih, RegularExpression.matches'_char,
      List.exists_mem_cons_iff]
    rfl

theorem mem_star_oneOf {cs w : List Char} :
    w ∈ (oneOf cs).star.matches' ↔ ∀ c ∈ w, c ∈ cs := by
  rw [RegularExpression.matches'_star, Language.mem_kstar]
  constructor
  · intro h c hc
    obtain ⟨ws, rfl, hws⟩ := h
    obtain ⟨u, hu, hcu⟩ := List.mem_flatten.mp hc
    obtain ⟨d, hd, rfl⟩ := mem_oneOf.mp (hws u hu)
    rwa [List.mem_singleton.mp hcu]
  · intro h
    refine ⟨w.map fun c => [c], (List.flatMap_singleton' w).symm, fun u hu => ?_⟩
    obtain ⟨c, hc, rfl⟩ := List.mem_map.mp hu
    exact mem_oneOf.mpr ⟨c, h c hc, rfl⟩

theorem mem_oneOrMore_oneOf {cs w : List Char} :
    w ∈ (oneOrMore (oneOf cs)).matches' ↔ w ≠ [] ∧ ∀ c ∈ w, c ∈ cs := by
  rw [oneOrMore, RegularExpression.matches'_mul, Language.mem_mul]
  constructor
  · intro h
    obtain ⟨u, hu, v, hv, rfl⟩ := h
    obtain ⟨c, hc, rfl⟩ := mem_oneOf.mp hu
    exact ⟨List.cons_ne_nil c v, List.forall_mem_cons.mpr ⟨hc, mem_star_oneOf.mp hv⟩⟩
  · intro h
    obtain ⟨hne, hw⟩ := h
    obtain ⟨c, v, rfl⟩ := List.exists_cons_of_ne_nil hne
    obtain ⟨hc, hv⟩ := List.forall_mem_cons.mp hw
    exact ⟨[c], mem_oneOf.mpr ⟨c, hc, rfl⟩, v, mem_star_oneOf.mpr hv, rfl⟩

theorem mem_optional {P : RegularExpression Char} {w : List Char} :
    w ∈ (optional P).matches' ↔ w = [] ∨ w ∈ P.matches' := by
  rw [optional, RegularExpression.matches'_add, Language.mem_add]
  exact Iff.rfl

/-! ### The groups of the expression -/

theorem mem_atom {w : List Char} : w ∈ atom.matches' ↔ LocalAtom w := by
  rw [atom, mem_oneOrMore_oneOf]
  simp only [mem_atomChars]
  exact ⟨fun h => ⟨h.1, h.2⟩, fun h => ⟨h.nonempty, h.chars⟩⟩

theorem mem_label {w : List Char} : w ∈ label.matches' ↔ DomainLabel w := by
  rw [label, RegularExpression.matches'_mul, Language.mem_mul]
  simp only [mem_optional, mem_oneOf, RegularExpression.matches'_mul, Language.mem_mul,
    mem_star_oneOf, mem_labelChars, mem_word]
  constructor
  · intro h
    obtain ⟨_, ⟨c, hc, rfl⟩, _, rfl | ⟨inner, hinner, _, ⟨d, hd, rfl⟩, rfl⟩, rfl⟩ := h
    · exact ⟨⟨c, rfl, hc⟩, ⟨c, rfl, hc⟩, List.forall_mem_singleton.mpr (Or.inl hc)⟩
    · refine ⟨⟨c, rfl, hc⟩, ⟨d, ?_, hd⟩, ?_⟩
      · rw [← List.append_assoc, List.getLast?_concat]
        rfl
      · have hrest : ∀ b ∈ inner ++ [d], IsWord b ∨ b = '-' :=
          List.forall_mem_append.mpr ⟨hinner, List.forall_mem_singleton.mpr (Or.inl hd)⟩
        exact List.forall_mem_cons.mpr ⟨Or.inl hc, hrest⟩
  · intro h
    obtain ⟨⟨c, hhead, hc⟩, ⟨d, hlast, hd⟩, hinside⟩ := h
    obtain ⟨rest, rfl⟩ := List.head?_eq_some_iff.mp hhead
    refine ⟨[c], ⟨c, hc, rfl⟩, rest, ?_, rfl⟩
    rcases List.eq_nil_or_concat' rest with rfl | ⟨inner, e, rfl⟩
    · exact Or.inl rfl
    · have hde : e = d := by
        rw [← List.cons_append, List.getLast?_concat] at hlast
        exact Option.some.inj hlast
      subst hde
      refine Or.inr ⟨inner, fun b hb => hinside b ?_, [e], ⟨e, hd, rfl⟩, rfl⟩
      exact List.mem_cons_of_mem c (List.mem_append_left [e] hb)

theorem mem_localPart {w : List Char} :
    w ∈ (atom * (RegularExpression.char '.' * atom).star).matches' ↔
      ∃ atoms : List (List Char), atoms ≠ [] ∧ (∀ a ∈ atoms, LocalAtom a) ∧
        w = ['.'].intercalate atoms := by
  simp only [← mem_atom]
  exact JoinedWords.mem_mul_kstar_iff

theorem mem_domainPart {w : List Char} :
    w ∈ (oneOrMore (label * RegularExpression.char '.') * label).matches' ↔
      ∃ labels : List (List Char), 2 ≤ labels.length ∧ (∀ l ∈ labels, DomainLabel l) ∧
        w = ['.'].intercalate labels := by
  simp only [← mem_label]
  exact JoinedWords.mem_mul_kstar_mul_iff

theorem matches_emailReg :
    emailReg.matches' = (atom * (RegularExpression.char '.' * atom).star).matches' *
      (({['@']} : Language Char) *
        (oneOrMore (label * RegularExpression.char '.') * label).matches') := by
  simp only [emailReg, RegularExpression.matches'_mul, RegularExpression.matches'_char, mul_assoc]

/-- **The language of the expression is the grammar.** -/
theorem mem_emailReg {w : List Char} : w ∈ emailReg.matches' ↔ IsAddress w := by
  rw [matches_emailReg, Language.mem_mul]
  simp only [JoinedWords.mem_singleton_mul, mem_localPart, mem_domainPart]
  constructor
  · intro h
    obtain ⟨_, ⟨atoms, hne, hatoms, rfl⟩, _, ⟨_, ⟨labels, hlen, hlabels, rfl⟩, rfl⟩, rfl⟩ := h
    exact ⟨atoms, labels, hne, hlen, hatoms, hlabels, rfl⟩
  · intro h
    obtain ⟨atoms, labels, hne, hlen, hatoms, hlabels, rfl⟩ := h
    exact ⟨_, ⟨atoms, hne, hatoms, rfl⟩, _, ⟨_, ⟨labels, hlen, hlabels, rfl⟩, rfl⟩, rfl⟩

instance (w : List Char) : Decidable (IsAddress w) :=
  decidable_of_iff (emailReg.rmatch w = true)
    ((RegularExpression.rmatch_iff_matches' emailReg w).trans mem_emailReg)

example : IsAddress "a.b@x-y.io".toList := by decide +kernel

end GiftGenie.EmailPattern
