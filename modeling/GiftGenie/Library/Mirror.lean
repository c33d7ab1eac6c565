import GiftGenie.Library.ListSet
import Mathlib.Algebra.Group.Even
import Mathlib.Algebra.Group.Nat.Even
import Mathlib.Data.List.Duplicate

/-!
# A local copy of a stored list

A client keeps a copy of a list that is stored elsewhere.  Both are flipped, never assigned: the
store flips an element when a transaction commits, and the copy flips it later, when the answer
arrives.  `owed` lists the elements whose answer is still on its way.

`Tracks stored copy owed x` is what such a client keeps for the element `x`: the two lists agree on
`x` exactly when an even number of answers is owed.  It is kept by a commit (`tracks_commit`) and by
an answer (`tracks_settle`), and at rest it is agreement (`Tracks.mem_iff`).

The store deletes every occurrence of an element and the copy only the first one, so a commit must
not find its element repeated.

A client does not hold `owed` but the answers themselves, with what they are answers to: `owedBy`
reads it off them, and `tracks_accepted`, `tracks_refused` and `tracks_answered` are their rules.
-/

set_option autoImplicit false

namespace GiftGenie.Library.Mirror

open GiftGenie.Library.ListSet

variable {α : Type*} [DecidableEq α]

/-- What the stored list and its copy say about `x`, with the answers `owed` on their way. -/
structure Tracks (stored copy owed : List α) (x : α) : Prop where
  parity : x ∈ stored ↔ (x ∈ copy ↔ Even (owed.count x))
  settled : owed.count x = 0 → stored.count x = copy.count x
  single : owed.count x ≠ 0 → stored.count x ≤ 1 ∧ copy.count x ≤ 1

variable {stored copy owed : List α} {x : α}

theorem tracks_start (xs : List α) (x : α) : Tracks xs xs [] x where
  parity := by simp
  settled := fun _ => rfl
  single := fun h => absurd List.count_nil h

/-- At rest the copy has the elements of the stored list. -/
theorem Tracks.mem_iff (h : Tracks stored copy [] x) : x ∈ copy ↔ x ∈ stored := by
  have hp := h.parity
  simp only [List.count_nil, Even.zero, iff_true] at hp
  exact hp.symm

/-- Under way, the copy is the stored list with the flips that are still owed. -/
theorem Tracks.mem_copy_iff (h : Tracks stored copy owed x) :
    x ∈ copy ↔ (x ∈ stored ↔ Even (owed.countP fun y => y = x)) := by
  have hcount : owed.count x = owed.countP fun y => y = x := List.count_eq_countP
  rw [← hcount, h.parity]
  tauto

theorem Tracks.perm {owed' : List α} (h : Tracks stored copy owed x) (hperm : owed.Perm owed') :
    Tracks stored copy owed' x := by
  have hcount : owed.count x = owed'.count x := hperm.count_eq x
  exact ⟨hcount ▸ h.parity, hcount ▸ h.settled, hcount ▸ h.single⟩

/-- An element that is not repeated in the store is not repeated in the copy. -/
theorem Tracks.count_copy_le (h : Tracks stored copy owed x) (hx : ¬List.Duplicate x stored) :
    copy.count x ≤ 1 := by
  rw [List.duplicate_iff_two_le_count] at hx
  by_cases h0 : owed.count x = 0
  · rw [← h.settled h0]
    omega
  · exact (h.single h0).2

/-- A commit flips its element in the store, and its answer is owed from then on. -/
theorem tracks_commit (h : Tracks stored copy owed x) {a : α} (ha : ¬List.Duplicate a stored) :
    Tracks (toggle stored a) copy (a :: owed) x := by
  by_cases hx : x = a
  · subst hx
    refine ⟨?_, fun h0 => ?_, fun _ => ⟨count_toggle_self_le stored x, h.count_copy_le ha⟩⟩
    · rw [mem_toggle_self, List.count_cons_self, Nat.even_add_one, h.parity]
      tauto
    · rw [List.count_cons_self] at h0
      omega
  · have hne : a ≠ x := fun e => hx e.symm
    have hcount : (a :: owed).count x = owed.count x := List.count_cons_of_ne hne
    refine ⟨?_, ?_, ?_⟩
    · rw [mem_toggle_ne hx, hcount]
      exact h.parity
    · rw [count_toggle_ne hx, hcount]
      exact h.settled
    · rw [count_toggle_ne hx, hcount]
      exact h.single

/-- An answer flips its element in the copy. -/
theorem tracks_settle {a : α} (h : Tracks stored copy (a :: owed) x) :
    Tracks stored (toggleFirst copy a) owed x := by
  by_cases hx : x = a
  · subst hx
    have hsingle : stored.count x ≤ 1 ∧ copy.count x ≤ 1 := h.single (by simp)
    have hcopy : (toggleFirst copy x).count x ≤ 1 := count_toggleFirst_self_le hsingle.2
    have hparity : x ∈ stored ↔ (x ∈ toggleFirst copy x ↔ Even (owed.count x)) := by
      have hp := h.parity
      rw [List.count_cons_self, Nat.even_add_one] at hp
      rw [hp, mem_toggleFirst_self hsingle.2]
      tauto
    refine ⟨hparity, fun h0 => ?_, fun _ => ⟨hsingle.1, hcopy⟩⟩
    -- both counts are at most one, and the two lists agree on the element
    have hmem : 0 < stored.count x ↔ 0 < (toggleFirst copy x).count x := by
      rw [List.count_pos_iff, List.count_pos_iff, hparity, h0]
      simp
    omega
  · have hne : a ≠ x := fun e => hx e.symm
    have hcount : (a :: owed).count x = owed.count x := List.count_cons_of_ne hne
    refine ⟨?_, ?_, ?_⟩
    · rw [mem_toggleFirst_ne hx, ← hcount]
      exact h.parity
    · rw [count_toggleFirst_ne hx, ← hcount]
      exact h.settled
    · rw [count_toggleFirst_ne hx, ← hcount]
      exact h.single

/-! ### The answers on their way -/

variable {τ : Type*} (name : τ → α)

/-- The elements still to be flipped, read off the answers on their way: each comes with the flip
it answers, of the element `name`, and owes it if it is `true`. -/
def owedBy (answers : List (τ × Bool)) : List α := (answers.filter (·.2)).map fun c => name c.1

omit [DecidableEq α] in
theorem owedBy_cons (t : τ) (result : Bool) (answers : List (τ × Bool)) :
    owedBy name ((t, result) :: answers) =
      if result then name t :: owedBy name answers else owedBy name answers := by
  cases result <;> simp [owedBy]

omit [DecidableEq α] in
theorem owedBy_perm {answers answers' : List (τ × Bool)} (h : answers.Perm answers') :
    (owedBy name answers).Perm (owedBy name answers') :=
  (h.filter _).map _

variable {name} {answers : List (τ × Bool)}

/-- A commit sends its answer. -/
theorem tracks_accepted (h : Tracks stored copy (owedBy name answers) x) {t : τ}
    (ht : ¬List.Duplicate (name t) stored) :
    Tracks (toggle stored (name t)) copy (owedBy name (answers ++ [(t, true)])) x := by
  refine Tracks.perm ?_ (owedBy_perm name (List.perm_append_singleton (t, true) answers).symm)
  rw [owedBy_cons, if_pos rfl]
  exact tracks_commit h ht

/-- A flip that failed sends an answer that owes nothing. -/
theorem tracks_refused (h : Tracks stored copy (owedBy name answers) x) (t : τ) :
    Tracks stored copy (owedBy name (answers ++ [(t, false)])) x := by
  refine Tracks.perm ?_ (owedBy_perm name (List.perm_append_singleton (t, false) answers).symm)
  rw [owedBy_cons]
  exact h

/-- An answer arrives. -/
theorem tracks_answered (h : Tracks stored copy (owedBy name answers) x) {i : ℕ} {t : τ}
    {result : Bool} (hi : answers[i]? = some (t, result)) :
    Tracks stored (if result then toggleFirst copy (name t) else copy)
      (owedBy name (answers.eraseIdx i)) x := by
  have htracks := h.perm (owedBy_perm name (perm_cons_eraseIdx hi))
  rw [owedBy_cons] at htracks
  cases result with
  | false => exact htracks
  | true => exact tracks_settle htracks

end GiftGenie.Library.Mirror
