import GiftGenie.ListHistories
import Mathlib.Data.List.Induction
import Mathlib.Data.List.Nodup

/-!
# Signing up

The sign-up button creates an account in the Auth service and then writes two records: the
directory entry `UserEmails[email]`, which holds the id of the user, and the document
`Users[id]`.  The id is the hash code of the user name followed by the e-mail.

`recordsIntact_iff` says exactly when every registered user keeps both records: when the ids of the
sign-ups are pairwise different.
-/

set_option autoImplicit false

namespace GiftGenie.SignUp

open GiftGenie.Firestore

/-- What one sign-up enters in the form, and the uid its account gets. -/
structure Registration where
  uid : String
  userName : String
  email : String
  password : String
  deriving DecidableEq, Repr

/-- The accounts of the Auth service and the two collections. -/
structure World where
  registered : List Registration
  userEmails : Collection
  users : Collection

def World.empty : World where
  registered := []
  userEmails := fun _ => none
  users := fun _ => none

/-- The optional arguments of `_userLogUp`, `null` unless given. -/
structure LogUpOptions where
  phone : DString := none
  location : DString := none
  bday : DString := none
  friends : Option (List DString) := none
  outGifts : Option (List DString) := none
  inGifts : Option (List DString) := none
  favorites : Option (List DString) := none
  recommended : Option (List DString) := none

def ofString : DString → Value
  | none => .null
  | some s => .str s

def ofList : Option (List DString) → Value
  | none => .null
  | some xs => .list xs

/-- The entry that `_userLogUp` writes to `UserEmails`. -/
def emailEntry (index : String) : Doc := docOf [("userIndex", .str index)]

/-- The document that `_userLogUp` writes to `Users`. -/
def userDoc (username password email index : String) (opts : LogUpOptions) : Doc :=
  docOf [("name", .str username), ("password", .str password), ("email", .str email),
    ("phone", ofString opts.phone), ("location", ofString opts.location),
    ("bday", ofString opts.bday), ("friends", ofList opts.friends),
    ("outGifts", ofList opts.outGifts), ("inGifts", ofList opts.inGifts),
    -- the source passes `friends` here, and spells the last key `useIndex`
    ("favorites", ofList opts.friends), ("recommended", ofList opts.recommended),
    ("useIndex", .str index)]

/-- Both writes of `_userLogUp`, succeeding. -/
def userLogUp (username password email index : String) (opts : LogUpOptions) (w : World) : World :=
  { w with
    userEmails := setDoc w.userEmails email (emailEntry index)
    users := setDoc w.users index (userDoc username password email index opts) }

/-- The id of a user: `(userName + email).hashCode.toString()`. -/
def userIndex (hashCode : String → ℤ) (r : Registration) : String :=
  (hashCode (r.userName ++ r.email)).repr

/-- The sign-up button.  The Auth service refuses an e-mail that has an account; the handler then
shows its dialog and writes nothing. -/
def signUp (hashCode : String → ℤ) (w : World) (r : Registration) : World :=
  if r.email ∈ w.registered.map Registration.email then w
  else userLogUp r.userName r.password r.email (userIndex hashCode r) {}
    { w with registered := w.registered ++ [r] }

/-- A sequence of sign-ups, from empty collections. -/
def signUps (hashCode : String → ℤ) (rs : List Registration) : World :=
  rs.foldl (signUp hashCode) World.empty

/-- The directory entry of `r` names a document with its name and e-mail. -/
def RecordIntact (w : World) (r : Registration) : Prop :=
  ∃ entry index doc, w.userEmails r.email = some entry ∧ field entry "userIndex" = .str index ∧
    w.users index = some doc ∧ field doc "name" = .str r.userName ∧ field doc "email" = .str r.email

def RecordsIntact (w : World) : Prop := ∀ r ∈ w.registered, RecordIntact w r

@[simp] theorem field_emailEntry (index : String) :
    field (emailEntry index) "userIndex" = .str index := rfl

@[simp] theorem field_userDoc_name (username password email index : String) (opts : LogUpOptions) :
    field (userDoc username password email index opts) "name" = .str username := rfl

@[simp] theorem field_userDoc_email (username password email index : String) (opts : LogUpOptions) :
    field (userDoc username password email index opts) "email" = .str email := rfl

/-- The document of a sign-up has none of the lists. -/
theorem field_userDoc_list (username password email index : String) {key : String}
    (h : key ∈ ListHistories.listFields) :
    field (userDoc username password email index {}) key = .null := by
  simp only [ListHistories.listFields, List.mem_cons, List.not_mem_nil, or_false] at h
  rcases h with rfl | rfl | rfl | rfl <;> rfl

theorem signUp_new (hashCode : String → ℤ) {w : World} {r : Registration}
    (h : r.email ∉ w.registered.map Registration.email) :
    signUp hashCode w r = ⟨w.registered ++ [r],
      setDoc w.userEmails r.email (emailEntry (userIndex hashCode r)),
      setDoc w.users (userIndex hashCode r)
        (userDoc r.userName r.password r.email (userIndex hashCode r) {})⟩ :=
  if_neg h

theorem signUps_append (hashCode : String → ℤ) (rs : List Registration) (r : Registration) :
    signUps hashCode (rs ++ [r]) = signUp hashCode (signUps hashCode rs) r := by
  rw [signUps, List.foldl_append]
  rfl

/-- One account more, with its records. -/
theorem signUps_register (hashCode : String → ℤ) {w : World} {r : Registration}
    (h : w = signUps hashCode w.registered) :
    signUp hashCode w r = signUps hashCode (signUp hashCode w r).registered := by
  by_cases hnew : r.email ∈ w.registered.map Registration.email
  · rw [signUp, if_pos hnew]
    exact h
  · have hregistered : (signUp hashCode w r).registered = w.registered ++ [r] := by
      rw [signUp_new hashCode hnew]
    rw [hregistered, signUps_append, ← h]

/-! ### Ids -/

theorem natRepr_injective {m n : ℕ} (h : m.repr = n.repr) : m = n := by
  have hdigits := congrArg (fun s => Nat.ofDigitChars 10 s.toList 0) h
  simpa using hdigits

/-- A text of digits does not begin with a minus sign. -/
theorem natRepr_ne_minus (n : ℕ) (s : String) : n.repr ≠ "-" ++ s := by
  intro h
  have hmem : '-' ∈ Nat.toDigits 10 n := by
    rw [← Nat.toList_repr, h, String.toList_append]
    exact List.mem_append_left _ (by decide)
  exact absurd (Nat.isDigit_of_mem_toDigits (by decide) (by decide) hmem) (by decide)

/-- The text of a hash code determines it. -/
theorem intRepr_injective {a b : ℤ} (h : a.repr = b.repr) : a = b := by
  cases a with
  | ofNat m =>
    cases b with
    | ofNat n => exact congrArg Int.ofNat (natRepr_injective h)
    | negSucc n => exact absurd h (natRepr_ne_minus m _)
  | negSucc m =>
    cases b with
    | ofNat n => exact absurd h.symm (natRepr_ne_minus n _)
    | negSucc n =>
      have hdigits : "-" ++ (m + 1).repr = "-" ++ (n + 1).repr := h
      rw [String.append_right_inj] at hdigits
      rw [Nat.succ.inj (natRepr_injective hdigits)]

theorem userIndex_inj (hashCode : String → ℤ) (r r' : Registration) :
    userIndex hashCode r = userIndex hashCode r' ↔
      hashCode (r.userName ++ r.email) = hashCode (r'.userName ++ r'.email) :=
  ⟨intRepr_injective, congrArg Int.repr⟩

/-! ### Who is registered, and under which id -/

/-- With different e-mails no sign-up is refused. -/
theorem registered_signUps (hashCode : String → ℤ) (rs : List Registration) :
    (rs.map Registration.email).Nodup → (signUps hashCode rs).registered = rs := by
  induction rs using List.reverseRecOn with
  | nil => intro _; rfl
  | append_singleton rs r ih =>
    intro hnd
    rw [List.map_append, List.map_singleton, ← List.concat_eq_append, List.nodup_concat] at hnd
    have hreg := ih hnd.2
    rw [signUps_append, signUp_new hashCode (by rw [hreg]; exact hnd.1), hreg]

/-- The sign-up of `r` leaves an earlier record alone unless it has the same id. -/
theorem recordIntact_signUp (hashCode : String → ℤ) {w : World} {r r' : Registration}
    (hnew : r.email ∉ w.registered.map Registration.email) (hr' : r' ∈ w.registered)
    (hentry : w.userEmails r'.email = some (emailEntry (userIndex hashCode r'))) :
    RecordIntact (signUp hashCode w r) r' ↔
      RecordIntact w r' ∧ userIndex hashCode r' ≠ userIndex hashCode r := by
  have hne : r'.email ≠ r.email := fun h => hnew (h ▸ List.mem_map_of_mem hr')
  rw [signUp_new hashCode hnew]
  simp only [RecordIntact, setDoc_ne hne, hentry, Option.some.injEq, exists_and_left,
    exists_eq_left', field_emailEntry, Value.str.injEq]
  by_cases hid : userIndex hashCode r' = userIndex hashCode r
  · -- the document now is the one of `r`, whose e-mail is another
    simp [hid, Ne.symm hne]
  · simp [setDoc_ne hid, hid]

theorem recordIntact_signUp_self (hashCode : String → ℤ) {w : World} {r : Registration}
    (hnew : r.email ∉ w.registered.map Registration.email) :
    RecordIntact (signUp hashCode w r) r := by
  rw [signUp_new hashCode hnew]
  exact ⟨_, _, _, setDoc_self _ _ _, field_emailEntry _, setDoc_self _ _ _,
    field_userDoc_name _ _ _ _ _, field_userDoc_email _ _ _ _ _⟩

/-- Every registered e-mail has its directory entry. -/
theorem userEmails_signUps (hashCode : String → ℤ) (rs : List Registration) :
    (rs.map Registration.email).Nodup → ∀ r ∈ rs,
      (signUps hashCode rs).userEmails r.email = some (emailEntry (userIndex hashCode r)) := by
  induction rs using List.reverseRecOn with
  | nil => intro _ r hr; cases hr
  | append_singleton rs s ih =>
    intro hnd r hr
    rw [List.map_append, List.map_singleton, ← List.concat_eq_append, List.nodup_concat] at hnd
    have hreg := registered_signUps hashCode rs hnd.2
    rw [signUps_append, signUp_new hashCode (by rw [hreg]; exact hnd.1)]
    rcases List.mem_append.mp hr with hr | hr
    · have hne : r.email ≠ s.email := fun h => hnd.1 (h ▸ List.mem_map_of_mem hr)
      show setDoc _ s.email _ r.email = _
      rw [setDoc_ne hne]
      exact ih hnd.2 r hr
    · rw [List.mem_singleton.mp hr]
      exact setDoc_self _ _ _

/-- **When registrations keep their records.**  After sign-ups with pairwise different e-mails,
every directory entry names a document with the name and the e-mail registered, if and only if the
hash codes of name followed by e-mail are pairwise different. -/
theorem recordsIntact_iff (hashCode : String → ℤ) (rs : List Registration)
    (hemails : (rs.map Registration.email).Nodup) :
    RecordsIntact (signUps hashCode rs) ↔
      (rs.map fun r => hashCode (r.userName ++ r.email)).Nodup := by
  induction rs using List.reverseRecOn with
  | nil => simp [RecordsIntact, signUps, World.empty]
  | append_singleton rs r ih =>
    have hnd := hemails
    rw [List.map_append, List.map_singleton, ← List.concat_eq_append, List.nodup_concat] at hnd
    have hreg := registered_signUps hashCode rs hnd.2
    have hnew : r.email ∉ (signUps hashCode rs).registered.map Registration.email := by
      rw [hreg]
      exact hnd.1
    have hold : ∀ r' ∈ rs, RecordIntact (signUps hashCode (rs ++ [r])) r' ↔
        RecordIntact (signUps hashCode rs) r' ∧
          userIndex hashCode r' ≠ userIndex hashCode r := by
      intro r' hr'
      rw [signUps_append]
      exact recordIntact_signUp hashCode hnew (by rw [hreg]; exact hr')
        (userEmails_signUps hashCode rs hnd.2 r' hr')
    have hself : RecordIntact (signUps hashCode (rs ++ [r])) r := by
      rw [signUps_append]
      exact recordIntact_signUp_self hashCode hnew
    have hstep : RecordsIntact (signUps hashCode (rs ++ [r])) ↔
        RecordsIntact (signUps hashCode rs) ∧
          ∀ r' ∈ rs, userIndex hashCode r' ≠ userIndex hashCode r := by
      rw [RecordsIntact, registered_signUps hashCode _ hemails, RecordsIntact, hreg]
      refine ⟨fun h => ⟨fun r' hr' => ?_, fun r' hr' => ?_⟩, fun h r' hr' => ?_⟩
      · exact ((hold r' hr').mp (h r' (List.mem_append_left [r] hr'))).1
      · exact ((hold r' hr').mp (h r' (List.mem_append_left [r] hr'))).2
      · rcases List.mem_append.mp hr' with hr' | hr'
        · exact (hold r' hr').mpr ⟨h.1 r' hr', h.2 r' hr'⟩
        · rw [List.mem_singleton.mp hr']
          exact hself
    rw [hstep, ih hnd.2, List.map_append, List.map_singleton, ← List.concat_eq_append,
      List.nodup_concat, and_comm]
    simp only [ne_eq, userIndex_inj, List.mem_map, not_exists, not_and]

/-- Two users whose names and e-mails differ but run together to the same text. -/
theorem recordsIntact_fails :
    ¬RecordsIntact (signUps (fun s => s.length)
      [⟨"uid1", "ab", "c@x.io", "secret1"⟩, ⟨"uid2", "a", "bc@x.io", "secret2"⟩]) := by
  intro h
  obtain ⟨entry, index, doc, hentry, hindex, hdoc, hname, -⟩ :=
    h ⟨"uid1", "ab", "c@x.io", "secret1"⟩ (by decide)
  have hentry' : entry = emailEntry "8" := (Option.some.inj hentry).symm
  subst hentry'
  have hindex' : index = "8" := (Value.str.inj hindex).symm
  subst hindex'
  have hdoc' : doc = userDoc "a" "secret2" "bc@x.io" "8" {} := (Option.some.inj hdoc).symm
  subst hdoc'
  exact absurd hname (by decide)

/-- Two sign-ups that keep their records. -/
theorem recordsIntact_iff_distinct :
    RecordsIntact (signUps (fun s => s.length)
      [⟨"uid1", "ann", "a@x.io", "secret1"⟩, ⟨"uid2", "bo", "b@x.io", "secret2"⟩]) :=
  (recordsIntact_iff (fun s => s.length)
    [⟨"uid1", "ann", "a@x.io", "secret1"⟩, ⟨"uid2", "bo", "b@x.io", "secret2"⟩]
    (by decide)).mpr (by decide)

end GiftGenie.SignUp
