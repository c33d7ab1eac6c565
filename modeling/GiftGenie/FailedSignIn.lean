import GiftGenie.Session

/-!
# Sign-ins that fail

A sign-in fails where the provider throws, the e-mail account is not verified, one of the two lists
cannot be read, or the account has neither a name nor an e-mail.  Here one of the three sign-ins runs
from an arbitrary session, with nothing else going on, until it has ended without getting through.

`left_of_failed` lists what it can leave in the session record: what was there; the account of the
attempt in `state.user`; with `isLoading` cleared, too; or no account.  So a failed sign-in leaves
the record as it was only where these are what the record held (`sameFields_iff`).
-/

set_option autoImplicit false

namespace GiftGenie.Session

open GiftGenie.Library GiftGenie.Firestore StateWidgetState

inductive SignIn where
  | google
  | twitter
  | email
  deriving DecidableEq, Repr

def SignIn.event : SignIn → Event
  | .google => .signInWithGoogle
  | .twitter => .signInWithTwitter
  | .email => .signInWithEmail

def SignIn.provider : SignIn → LogType
  | .google => .google
  | .twitter => .twitter
  | .email => .email

/-- How many calls the operation awaits when all goes well.  Google is asked for an account only if
none is kept. -/
def SignIn.awaits (s : StateWidgetState) : SignIn → ℕ
  | .google => if s.googleAccount = none then 4 else 3
  | .twitter => 1
  | .email => 3

/-- Call the operation, and answer the calls it awaits. -/
def attempt (m : MissingRead) (op : SignIn) (answers : List Answer) (s : StateWidgetState) :
    Option StateWidgetState :=
  Machine.run (step m) s (op.event :: answers.map (.resume s.tasks.length))

/-- The account that the provider returned. -/
def answeredUser : List Answer → Option FirebaseUser
  | [] => none
  | .user u :: _ => some u
  | _ :: answers => answeredUser answers

def StateModel.account (st : StateModel) : Option FirebaseUser := st.user.map SignedIn.account

/-- The operation has ended in `t` and has not got through, whatever session there was before.  With
Google and with an e-mail the reads of the profile would be under way if it had; `signInWithTwitter`
starts none, and gets through unless it got no account or one from which no `User` can be made. -/
structure Failed (m : MissingRead) (op : SignIn) (answers : List Answer) (s t : StateWidgetState) :
    Prop where
  awaits : answers.length ≤ op.awaits s
  run : attempt m op answers s = some t
  ended : t.tasks = s.tasks
  unnamed : op = .twitter → ∀ u, answeredUser answers = some u → ¬u.Named

/-- The same fields; who signed the account in is not one of them. -/
structure SameFields (st st' : StateModel) : Prop where
  isLoading : st'.isLoading = st.isLoading
  isSignedIn : st'.isSignedIn = st.isSignedIn
  type : st'.type = st.type
  user : st'.account = st.account
  uuser : st'.uuser = st.uuser
  favorites : st'.favorites = st.favorites
  recommended : st'.recommended = st.recommended

/-- What the operation writes on its way is what the record holds. -/
def Harmless (op : SignIn) (answers : List Answer) (st : StateModel) : Prop :=
  ∀ u, answeredUser answers = some u →
    if op = .email ∧ u.isEmailVerified = false then st.user = none
    else st.account = some u ∧ (Answer.throws ∉ answers → st.isLoading = false)

/-! ### What a failed sign-in leaves -/

/-- The records that a failed sign-in can leave. -/
inductive Left (op : SignIn) (answers : List Answer) (st : StateModel) : StateModel → Prop where
  | nobody (h : answeredUser answers = none) : Left op answers st st
  | unverified {u : FirebaseUser} (hu : answeredUser answers = some u) (hop : op = .email)
      (hv : u.isEmailVerified = false) : Left op answers st { st with user := none }
  | unread {u : FirebaseUser} (hu : answeredUser answers = some u)
      (hv : op = .email → u.isEmailVerified = true) (h : Answer.throws ∈ answers) :
      Left op answers st { st with user := some ⟨u, op.provider⟩ }
  | unnamed {u : FirebaseUser} (hu : answeredUser answers = some u)
      (hv : op = .email → u.isEmailVerified = true) (h : Answer.throws ∉ answers) :
      Left op answers st { st with isLoading := false, user := some ⟨u, op.provider⟩ }

variable {m : MissingRead} {s r : StateWidgetState} {task : Task} {answers : List Answer}

/-- A suspended operation that has ended got an answer. -/
theorem answer_last
    (hrun : Machine.run (step m) (s.await (some task))
      (answers.map (.resume s.tasks.length)) = some r) (hend : r.tasks = s.tasks) :
    ∃ a rest s', answers = a :: rest ∧ resume m s task a = some s' ∧
      Machine.run (step m) s' (rest.map (.resume s.tasks.length)) = some r := by
  cases answers with
  | nil =>
    have hr : s.await (some task) = r := Option.some.inj hrun
    rw [← hr] at hend
    have hlen : (s.tasks ++ [task]).length = s.tasks.length := congrArg List.length hend
    rw [List.length_append, List.length_singleton] at hlen
    omega
  | cons a rest =>
    obtain ⟨s', hstep, hrest⟩ := Machine.run_cons.mp hrun
    rw [step_resume_last] at hstep
    exact ⟨a, rest, s', rfl, hstep, hrest⟩

/-- An operation that has ended takes no more answers. -/
theorem answer_none {n : ℕ} (hn : n = s.tasks.length)
    (hrun : Machine.run (step m) s (answers.map (.resume n)) = some r) : answers = [] ∧ r = s := by
  cases answers with
  | nil => exact ⟨rfl, (Option.some.inj hrun).symm⟩
  | cons a rest =>
    obtain ⟨s', hstep, -⟩ := Machine.run_cons.mp hrun
    have hnone : s.tasks[n]? = none := List.getElem?_eq_none (by omega)
    rw [step, hnone] at hstep
    exact nomatch hstep

/-- The second read throws, or the name of the account does. -/
theorem second_read_fails {t : LogType} {u : FirebaseUser} {favorites : Loaded (List DString)}
    {uid : String} (hlen : answers.length ≤ 1)
    (hrun : Machine.run (step m) (s.await (some (.getRecommended t u favorites uid)))
      (answers.map (.resume s.tasks.length)) = some r) (hend : r.tasks = s.tasks) :
    (Answer.throws ∈ answers ∧ r.state = s.state) ∨
      (Answer.throws ∉ answers ∧ ¬u.Named ∧ r.state = s.state.enter t u) := by
  obtain ⟨a, rest, s', rfl, hres, hlast⟩ := answer_last hrun hend
  cases a with
  | throws =>
    obtain rfl := Option.some.inj hres
    obtain ⟨-, rfl⟩ := answer_none rfl hlast
    exact Or.inl ⟨List.mem_cons_self, rfl⟩
  | documents users =>
    have hrest : rest = [] := by
      apply List.eq_nil_of_length_eq_zero
      simp only [List.length_cons] at hlen
      omega
    subst hrest
    have hr : s' = r := Option.some.inj hlast
    rw [hr] at hres
    have hfinish := Option.some.inj hres
    by_cases hu : u.Named
    · -- then the profile reads would be under way
      obtain ⟨name, hname⟩ := newUser_of_named hu
      rw [← hfinish, tasks_finish_of_named s t hname] at hend
      have hlength := congrArg List.length hend
      rw [List.length_append] at hlength
      simp only [List.length_cons, List.length_nil] at hlength
      omega
    · rw [finish_of_unnamed s t hu] at hfinish
      refine Or.inr ⟨by simp, hu, ?_⟩
      rw [← hfinish]
  | account account => exact nomatch hres
  | user u' => exact nomatch hres
  | done => exact nomatch hres

/-- The two list reads, from the first one on. -/
theorem reads_fail {t : LogType} {u : FirebaseUser} {uid : String} {user : SignedIn}
    (huser : s.state.user = some user) (hlen : answers.length ≤ 2)
    (hrun : Machine.run (step m) (s.await (some (.getFavorites t u uid)))
      (answers.map (.resume s.tasks.length)) = some r) (hend : r.tasks = s.tasks) :
    (Answer.throws ∈ answers ∧ r.state = s.state) ∨
      (Answer.throws ∉ answers ∧ ¬u.Named ∧ r.state = s.state.enter t u) := by
  obtain ⟨a, rest, s', rfl, hres, hnext⟩ := answer_last hrun hend
  cases a with
  | throws =>
    obtain rfl := Option.some.inj hres
    obtain ⟨-, rfl⟩ := answer_none rfl hnext
    exact Or.inl ⟨List.mem_cons_self, rfl⟩
  | documents users =>
    have hs' : s.await (some (.getRecommended t u ⟨some uid, Session.getFavorites users uid⟩
        user.account.uid)) = s' := by
      rw [← Option.some.inj hres, awaitRecommended, huser]
      rfl
    rw [← hs'] at hnext
    have hrest : rest.length ≤ 1 := by
      rw [List.length_cons] at hlen
      omega
    refine (second_read_fails hrest hnext hend).imp (And.imp_left (List.mem_cons_of_mem _)) ?_
    exact And.imp_left fun hno hmem => hno ((List.mem_cons.mp hmem).resolve_left Answer.noConfusion)
  | account account => exact nomatch hres
  | user u' => exact nomatch hres
  | done => exact nomatch hres

/-- The sign-ins that load the lists, from the assignment of `state.user` on. -/
theorem left_of_reads {op : SignIn} {u : FirebaseUser} {rest : List Answer}
    (hv : op = .email → u.isEmailVerified = true) (hlen : rest.length ≤ 2)
    (hrun : Machine.run (step m)
      ((s.setUser (some ⟨u, op.provider⟩)).awaitFavorites op.provider u)
      (rest.map (.resume s.tasks.length)) = some r) (hend : r.tasks = s.tasks) :
    Left op (.user u :: rest) s.state r.state := by
  have huser : (s.setUser (some ⟨u, op.provider⟩)).state.user = some ⟨u, op.provider⟩ := rfl
  obtain ⟨hthrows, hstate⟩ | ⟨hthrows, hu, hstate⟩ := reads_fail huser hlen hrun hend
  · rw [hstate]
    exact .unread rfl hv (List.mem_cons_of_mem _ hthrows)
  · rw [hstate, enter_of_not_named _ op.provider hu]
    exact .unnamed rfl hv fun h => (List.mem_cons.mp h).elim (fun h => nomatch h) hthrows

theorem left_of_email (hlen : answers.length ≤ 3)
    (hrun : Machine.run (step m) (s.await (some .handleSignInEmail))
      (answers.map (.resume s.tasks.length)) = some r) (hend : r.tasks = s.tasks) :
    Left .email answers s.state r.state := by
  obtain ⟨a, rest, s', rfl, hres, hnext⟩ := answer_last hrun hend
  rw [List.length_cons] at hlen
  cases a with
  | throws =>
    obtain rfl := Option.some.inj hres
    obtain ⟨rfl, rfl⟩ := answer_none rfl hnext
    exact .nobody rfl
  | user u =>
    cases hv : u.isEmailVerified with
    | true =>
      rw [resume_verified hv] at hres
      obtain rfl := Option.some.inj hres
      exact left_of_reads (fun _ => hv) (by omega) hnext hend
    | false =>
      rw [resume_unverified hv] at hres
      obtain rfl := Option.some.inj hres
      have htasks : s.tasks.length = ((s.setUser none).login u).tasks.length := by
        rw [tasks_login]
        rfl
      obtain ⟨rfl, rfl⟩ := answer_none htasks hnext
      rw [state_login]
      exact .unverified rfl rfl hv
  | account account => exact nomatch hres
  | documents users => exact nomatch hres
  | done => exact nomatch hres

/-- `signInWithGoogle` from `handleSignInGoogle` on. -/
theorem left_of_credential (hlen : answers.length ≤ 3)
    (hrun : Machine.run (step m) (s.await (some .handleSignInGoogle))
      (answers.map (.resume s.tasks.length)) = some r) (hend : r.tasks = s.tasks) :
    Left .google answers s.state r.state := by
  obtain ⟨a, rest, s', rfl, hres, hnext⟩ := answer_last hrun hend
  rw [List.length_cons] at hlen
  cases a with
  | throws =>
    obtain rfl := Option.some.inj hres
    obtain ⟨rfl, rfl⟩ := answer_none rfl hnext
    exact .nobody rfl
  | user u =>
    obtain rfl := Option.some.inj hres
    exact left_of_reads (fun h => nomatch h) (by omega) hnext hend
  | account account => exact nomatch hres
  | documents users => exact nomatch hres
  | done => exact nomatch hres

/-- The choice of a Google account comes before the account is known. -/
theorem Left.account {op : SignIn} {st st' : StateModel} (h : Left op answers st st')
    (googleAccount : Option GoogleSignInAccount) :
    Left op (.account googleAccount :: answers) st st' := by
  cases h with
  | nobody h => exact .nobody h
  | unverified hu hop hv => exact .unverified hu hop hv
  | unread hu hv h => exact .unread hu hv (List.mem_cons_of_mem _ h)
  | unnamed hu hv h =>
    exact .unnamed hu hv fun hmem => (List.mem_cons.mp hmem).elim (fun h => nomatch h) h

theorem left_of_google (hlen : answers.length ≤ SignIn.google.awaits s)
    (hrun : Machine.run (step m) s.signInWithGoogle (answers.map (.resume s.tasks.length)) = some r)
    (hend : r.tasks = s.tasks) : Left .google answers s.state r.state := by
  cases hg : s.googleAccount with
  | some account =>
    have hcall : s.signInWithGoogle = s.await (some .handleSignInGoogle) := by
      rw [StateWidgetState.signInWithGoogle, StateWidgetState.handleSignInGoogle, hg]
      rfl
    rw [hcall] at hrun
    simp only [SignIn.awaits, hg, reduceCtorEq, if_false] at hlen
    exact left_of_credential hlen hrun hend
  | none =>
    have hcall : s.signInWithGoogle = s.await (some .googleSignIn) := by
      rw [StateWidgetState.signInWithGoogle, hg]
    rw [hcall] at hrun
    simp only [SignIn.awaits, hg, if_true] at hlen
    obtain ⟨a, rest, s', rfl, hres, hnext⟩ := answer_last hrun hend
    rw [List.length_cons] at hlen
    cases a with
    | throws =>
      obtain rfl := Option.some.inj hres
      obtain ⟨rfl, rfl⟩ := answer_none rfl hnext
      exact .nobody rfl
    | account account =>
      obtain rfl := Option.some.inj hres
      cases account with
      | none =>
        -- no account was chosen, and `handleSignInGoogle` throws at once
        have htasks : s.tasks.length = (s.tasks ++ []).length := by rw [List.append_nil]
        obtain ⟨rfl, rfl⟩ := answer_none htasks hnext
        exact .nobody rfl
      | some account =>
        have hcredential : Machine.run (step m)
            (({ s with googleAccount := some account } : StateWidgetState).await
              (some .handleSignInGoogle)) (rest.map (.resume s.tasks.length)) = some r := hnext
        have hleft := left_of_credential (by omega) hcredential hend
        exact hleft.account (some account)
    | user u => cases hres
    | documents users => cases hres
    | done => cases hres

theorem left_of_twitter
    (hrun : Machine.run (step m) (s.await (some .handleSignInTwitter))
      (answers.map (.resume s.tasks.length)) = some r) (hend : r.tasks = s.tasks)
    (hno : ∀ u, answeredUser answers = some u → ¬u.Named) :
    Left .twitter answers s.state r.state := by
  obtain ⟨a, rest, s', rfl, hres, hnext⟩ := answer_last hrun hend
  cases a with
  | throws =>
    obtain rfl := Option.some.inj hres
    obtain ⟨rfl, rfl⟩ := answer_none rfl hnext
    exact .nobody rfl
  | user u =>
    obtain rfl := Option.some.inj hres
    obtain ⟨rfl, rfl⟩ := answer_none rfl hnext
    show Left .twitter _ s.state (s.state.enter .twitter u)
    rw [enter_of_not_named s.state .twitter (hno u rfl)]
    exact .unnamed rfl (fun h => nomatch h) (by simp)
  | account account => exact nomatch hres
  | documents users => exact nomatch hres
  | done => exact nomatch hres

theorem left_of_failed {op : SignIn} {t : StateWidgetState} (h : Failed m op answers s t) :
    Left op answers s.state t.state := by
  obtain ⟨s', hstep, hrun⟩ := Machine.run_cons.mp h.run
  cases op with
  | google =>
    obtain rfl := Option.some.inj hstep
    exact left_of_google h.awaits hrun h.ended
  | twitter =>
    obtain rfl := Option.some.inj hstep
    exact left_of_twitter hrun h.ended (h.unnamed rfl)
  | email =>
    obtain rfl := Option.some.inj hstep
    exact left_of_email h.awaits hrun h.ended

/-! ### When it leaves the record alone -/

theorem harmless_iff {op : SignIn} {st : StateModel} {u : FirebaseUser}
    (hu : answeredUser answers = some u) :
    Harmless op answers st ↔ if op = .email ∧ u.isEmailVerified = false then st.user = none
      else st.account = some u ∧ (Answer.throws ∉ answers → st.isLoading = false) := by
  simp only [Harmless, hu, Option.some.injEq, forall_eq']

/-- Assigning an account changes the record unless it is there already. -/
theorem sameFields_setUser {st : StateModel} {b : Bool} {user : Option SignedIn} :
    SameFields st { st with isLoading := b, user := user } ↔
      st.account = user.map SignedIn.account ∧ st.isLoading = b := by
  constructor
  · intro h
    exact ⟨h.user.symm, h.isLoading.symm⟩
  · rintro ⟨huser, hloading⟩
    exact ⟨hloading.symm, rfl, rfl, huser.symm, rfl, rfl, rfl⟩

theorem sameFields_iff {op : SignIn} {st st' : StateModel} (h : Left op answers st st') :
    SameFields st st' ↔ Harmless op answers st := by
  cases h with
  | nobody h =>
    refine iff_of_true ⟨rfl, rfl, rfl, rfl, rfl, rfl, rfl⟩ fun u hu => ?_
    exact nomatch h.symm.trans hu
  | unverified hu hop hv =>
    have hset : SameFields st { st with user := none } ↔
        st.account = none ∧ st.isLoading = st.isLoading := sameFields_setUser
    rw [harmless_iff hu, if_pos ⟨hop, hv⟩, hset, StateModel.account, Option.map_eq_none_iff]
    exact and_iff_left rfl
  | @unread u hu hv h =>
    have hset : SameFields st { st with user := some ⟨u, op.provider⟩ } ↔
        st.account = some u ∧ st.isLoading = st.isLoading := sameFields_setUser
    have hno : ¬(op = .email ∧ u.isEmailVerified = false) := fun hc => by simp [hv hc.1] at hc
    rw [harmless_iff hu, if_neg hno, hset, and_iff_left rfl]
    exact (and_iff_left fun hthrows => absurd h hthrows).symm
  | @unnamed u hu hv h =>
    have hset : SameFields st { st with isLoading := false, user := some ⟨u, op.provider⟩ } ↔
        st.account = some u ∧ st.isLoading = false := sameFields_setUser
    have hno : ¬(op = .email ∧ u.isEmailVerified = false) := fun hc => by simp [hv hc.1] at hc
    rw [harmless_iff hu, if_neg hno, hset, forall_prop_of_true h]

/-- **Failed sign-ins, exactly.**  From whatever session, a sign-in that ends without getting through
leaves every field of the record as it was if and only if it is `Harmless`: it got no account; or an
unverified one, where `state.user` was empty; or the one that was in `state.user`, where a read threw
or the session was not loading. -/
theorem failed_keeps_iff (m : MissingRead) (op : SignIn) (answers : List Answer)
    (s t : StateWidgetState) (h : Failed m op answers s t) :
    SameFields s.state t.state ↔ Harmless op answers s.state :=
  sameFields_iff (left_of_failed h)

/-- Ann is signed in. -/
def annSession : StateWidgetState where
  state := {
    isSignedIn := true
    type := .email
    user := some ⟨ann, .email⟩
    uuser := some { name := "ann" }
    favorites := some ⟨some "ann", []⟩
    recommended := some ⟨some "ann", []⟩ }

/-- Bob, who is not verified, logs in on the page below, and Ann's session has no account any
more. -/
theorem failed_clears :
    ¬∀ t, Failed .throws .email [.user bob] annSession t → SameFields annSession.state t.state := by
  intro h
  have hfailed : Failed .throws .email [.user bob] annSession
      { annSession with
        state := { annSession.state with user := none }
        pushes := [⟨bob, none⟩] } :=
    ⟨by decide, rfl, rfl, fun hop => nomatch hop⟩
  exact nomatch (h _ hfailed).user

/-- Google throws, and Ann's session stays. -/
theorem failed_keeps_iff_throws :
    SameFields annSession.state annSession.state :=
  (failed_keeps_iff .throws .google [.throws] annSession annSession
    ⟨by decide, rfl, rfl, fun hop => nomatch hop⟩).mpr fun u hu => nomatch hu

end GiftGenie.Session
