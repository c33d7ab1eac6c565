import Mathlib.Algebra.Group.Nat.Even
import Mathlib.Data.List.Basic
import Mathlib.Data.List.Count
import Mathlib.Data.List.Nodup
import Mathlib.Data.List.Perm.Basic

/-!
# Lists used as sets

Programs keep sets in lists and edit them with "append unless present" and "delete".  This file
fixes the edits that occur, and says of each one what the elements of the edited list are:

* `union`   inserts an element (`mem_union`),
* `without` removes it with every repetition (`mem_without`),
* `toggle`  flips it and leaves every other one alone (`mem_toggle_self`, `mem_toggle_ne`); after
  many toggles an element is what it was, flipped as often as it was toggled (`mem_foldl_toggle`).

A fourth edit, `toggleFirst`, deletes the first occurrence only.  It flips an element that occurs at
most once (`mem_toggleFirst_self`), and not one that is repeated.  `eraseIdx_eq_erase_iff` says when
a deletion by position deletes the first occurrence.

`union` and `without` respect reordering, and at different elements they commute up to reordering.
-/

set_option autoImplicit false

namespace GiftGenie.Library.ListSet

variable {α : Type*} [DecidableEq α]

/-- Append `a` unless it is already there. -/
def union (xs : List α) (a : α) : List α := if a ∈ xs then xs else xs ++ [a]

/-- Delete every occurrence of `a`. -/
def without (xs : List α) (a : α) : List α := xs.filter (fun x => x ≠ a)

/-- Delete `a` where it is present, append it where it is not. -/
def toggle (xs : List α) (a : α) : List α := if a ∈ xs then without xs a else union xs a

/-- The flip that deletes the first occurrence only. -/
def toggleFirst (xs : List α) (a : α) : List α := if a ∈ xs then xs.erase a else xs ++ [a]

/-! ### Membership -/

@[simp] theorem mem_union {xs : List α} {a x : α} : x ∈ union xs a ↔ x ∈ xs ∨ x = a := by
  by_cases ha : a ∈ xs
  · rw [union, if_pos ha]
    exact ⟨Or.inl, fun h => h.elim id (fun hx => hx ▸ ha)⟩
  · rw [union, if_neg ha, List.mem_append, List.mem_singleton]

@[simp] theorem mem_without {xs : List α} {a x : α} : x ∈ without xs a ↔ x ∈ xs ∧ x ≠ a := by
  simp [without]

/-- Deleting what is not there changes nothing. -/
theorem without_of_not_mem {xs : List α} {a : α} (ha : a ∉ xs) : without xs a = xs := by
  refine List.filter_eq_self.mpr fun x hx => ?_
  have hxa : x ≠ a := fun h => ha (h ▸ hx)
  simpa using hxa

/-- Deleting one element does what deleting another one does, which is there, only if they are the
same. -/
theorem without_eq_without {xs : List α} {a b : α} (hb : b ∈ xs) :
    without xs a = without xs b ↔ b = a := by
  constructor
  · intro h
    by_contra hba
    have hmem : b ∈ without xs b := h ▸ mem_without.mpr ⟨hb, hba⟩
    exact (mem_without.mp hmem).2 rfl
  · intro h
    rw [h]

/-- A toggle flips the membership of its own element. -/
@[simp] theorem mem_toggle_self {xs : List α} {a : α} : a ∈ toggle xs a ↔ a ∉ xs := by
  by_cases ha : a ∈ xs
  · rw [toggle, if_pos ha, mem_without]
    exact iff_of_false (fun h => h.2 rfl) (not_not_intro ha)
  · rw [toggle, if_neg ha, mem_union]
    exact iff_of_true (Or.inr rfl) ha

/-- A toggle leaves every other membership alone. -/
theorem mem_toggle_ne {xs : List α} {a x : α} (hx : x ≠ a) : x ∈ toggle xs a ↔ x ∈ xs := by
  by_cases ha : a ∈ xs
  · rw [toggle, if_pos ha, mem_without]
    exact and_iff_left hx
  · rw [toggle, if_neg ha, mem_union]
    exact or_iff_left hx

/-- A sequence of toggles flips an element once for each time it is toggled. -/
theorem mem_foldl_toggle [BEq α] [LawfulBEq α] (as xs : List α) (x : α) :
    x ∈ as.foldl toggle xs ↔ (x ∈ xs ↔ Even (as.count x)) := by
  induction as generalizing xs with
  | nil => simp
  | cons a as ih =>
    rw [List.foldl_cons, ih]
    by_cases hx : x = a
    · rw [hx, mem_toggle_self, List.count_cons_self, Nat.even_add_one]
      tauto
    · have hne : a ≠ x := fun h => hx h.symm
      rw [mem_toggle_ne hx, List.count_cons_of_ne hne]

/-! ### Repetitions -/

theorem nodup_union {xs : List α} (h : xs.Nodup) (a : α) : (union xs a).Nodup := by
  by_cases ha : a ∈ xs
  · rw [union, if_pos ha]
    exact h
  · rw [union, if_neg ha]
    rw [← List.concat_eq_append, List.nodup_concat]
    exact ⟨ha, h⟩

theorem nodup_without {xs : List α} (h : xs.Nodup) (a : α) : (without xs a).Nodup :=
  h.filter _

/-! ### The flip that deletes one occurrence -/

/-- Where `a` occurs at most once, deleting the first occurrence deletes them all. -/
theorem mem_toggleFirst_self {xs : List α} {a : α} (ha : xs.count a ≤ 1) :
    a ∈ toggleFirst xs a ↔ a ∉ xs := by
  by_cases hmem : a ∈ xs
  · rw [toggleFirst, if_pos hmem, ← List.count_pos_iff, List.count_erase_self]
    exact iff_of_false (by omega) (not_not_intro hmem)
  · simp [toggleFirst, hmem]

theorem mem_toggleFirst_ne {xs : List α} {a x : α} (hx : x ≠ a) :
    x ∈ toggleFirst xs a ↔ x ∈ xs := by
  by_cases hmem : a ∈ xs
  · rw [toggleFirst, if_pos hmem, List.mem_erase_of_ne hx]
  · simp [toggleFirst, hmem, hx]

theorem count_toggleFirst_self_le {xs : List α} {a : α} (ha : xs.count a ≤ 1) :
    (toggleFirst xs a).count a ≤ 1 := by
  by_cases hmem : a ∈ xs
  · rw [toggleFirst, if_pos hmem, List.count_erase_self]
    omega
  · have hzero : xs.count a = 0 := List.count_eq_zero_of_not_mem hmem
    rw [toggleFirst, if_neg hmem, List.count_append, List.count_singleton_self]
    omega

theorem count_toggleFirst_ne {xs : List α} {a x : α} (hx : x ≠ a) :
    (toggleFirst xs a).count x = xs.count x := by
  have hne : a ≠ x := fun e => hx e.symm
  by_cases hmem : a ∈ xs
  · rw [toggleFirst, if_pos hmem, List.count_erase_of_ne hx]
  · simp [toggleFirst, hmem, hne]

theorem nodup_toggleFirst {xs : List α} (h : xs.Nodup) (a : α) : (toggleFirst xs a).Nodup := by
  rw [toggleFirst]
  split
  · exact h.erase a
  · rename_i ha
    rw [← List.concat_eq_append, List.nodup_concat]
    exact ⟨ha, h⟩

theorem mem_toggleFirst {xs : List α} (h : xs.Nodup) {a x : α} :
    x ∈ toggleFirst xs a ↔ (x ∈ xs ↔ x ≠ a) := by
  by_cases hx : x = a
  · rw [hx, mem_toggleFirst_self (List.nodup_iff_count_le_one.mp h a)]
    simp
  · rw [mem_toggleFirst_ne hx]
    simp [hx]

theorem count_toggle_self_le (xs : List α) (a : α) : (toggle xs a).count a ≤ 1 := by
  by_cases hmem : a ∈ xs
  · have hzero : (without xs a).count a = 0 := List.count_eq_zero_of_not_mem (by simp)
    rw [toggle, if_pos hmem]
    omega
  · have hzero : xs.count a = 0 := List.count_eq_zero_of_not_mem hmem
    rw [toggle, if_neg hmem, union, if_neg hmem, List.count_append, List.count_singleton_self]
    omega

theorem count_toggle_ne {xs : List α} {a x : α} (hx : x ≠ a) :
    (toggle xs a).count x = xs.count x := by
  have hne : a ≠ x := fun e => hx e.symm
  by_cases hmem : a ∈ xs
  · rw [toggle, if_pos hmem, without, List.count_filter (by simpa using hx)]
  · simp [toggle, union, hmem, hne]

/-! ### Reordering -/

theorem union_perm {xs ys : List α} (h : xs.Perm ys) (a : α) : (union xs a).Perm (union ys a) := by
  by_cases ha : a ∈ xs
  · rw [union, union, if_pos ha, if_pos (h.mem_iff.mp ha)]
    exact h
  · rw [union, union, if_neg ha, if_neg (fun hy => ha (h.mem_iff.mpr hy))]
    exact h.append_right [a]

theorem without_perm {xs ys : List α} (h : xs.Perm ys) (a : α) :
    (without xs a).Perm (without ys a) :=
  h.filter _

/-- Give `a` the membership `b`. -/
def assign (b : Bool) (xs : List α) (a : α) : List α := if b then union xs a else without xs a

theorem assign_perm (b : Bool) {xs ys : List α} (h : xs.Perm ys) (a : α) :
    (assign b xs a).Perm (assign b ys a) := by
  cases b with
  | true => exact union_perm h a
  | false => exact without_perm h a

theorem mem_assign_ne (b : Bool) {xs : List α} {a x : α} (hx : x ≠ a) :
    x ∈ assign b xs a ↔ x ∈ xs := by
  cases b with
  | true => simp [assign, hx]
  | false => simp [assign, hx]

theorem union_union_perm (xs : List α) (a b : α) :
    (union (union xs a) b).Perm (union (union xs b) a) := by
  by_cases hab : a = b
  · rw [hab]
  by_cases ha : a ∈ xs <;> by_cases hb : b ∈ xs
  · simp [union, ha, hb]
  · simp [union, ha, hb]
  · simp [union, ha, hb]
  · have hba : b ≠ a := fun h => hab h.symm
    simp only [union, ha, hb, hab, hba, if_false, List.mem_append, List.mem_singleton, or_self,
      List.append_assoc]
    exact (List.Perm.swap b a []).append_left xs

theorem without_without (xs : List α) (a b : α) :
    without (without xs a) b = without (without xs b) a := by
  simp only [without, List.filter_filter]
  exact List.filter_congr (fun x _ => Bool.and_comm _ _)

/-- Appending one element and deleting another can be done in either order. -/
theorem without_union (xs : List α) {a b : α} (hab : a ≠ b) :
    without (union xs a) b = union (without xs b) a := by
  by_cases ha : a ∈ xs
  · rw [union, union, if_pos ha, if_pos (mem_without.mpr ⟨ha, hab⟩)]
  · rw [union, union, if_neg ha, if_neg (fun h => ha (mem_without.mp h).1)]
    simp [without, hab]

/-- Assignments at different elements commute up to reordering. -/
theorem assign_assign_perm (b c : Bool) (xs : List α) {x y : α} (hxy : x ≠ y) :
    (assign c (assign b xs x) y).Perm (assign b (assign c xs y) x) := by
  cases b with
  | true =>
    cases c with
    | true => exact union_union_perm xs x y
    | false => exact List.Perm.of_eq (without_union xs hxy)
  | false =>
    cases c with
    | true => exact List.Perm.of_eq (without_union xs hxy.symm).symm
    | false => exact List.Perm.of_eq (without_without xs x y)

/-! ### Deleting by position -/

omit [DecidableEq α] in
theorem perm_cons_eraseIdx {a : α} {xs : List α} {i : ℕ} (hi : xs[i]? = some a) :
    xs.Perm (a :: xs.eraseIdx i) := by
  obtain ⟨hlt, hget⟩ := List.getElem?_eq_some_iff.mp hi
  rw [← hget]
  exact (List.getElem_cons_eraseIdx_perm hlt).symm

omit [DecidableEq α] in
/-- Deleting one of several equal elements at the front is deleting the first of them. -/
theorem cons_eraseIdx_iff {a : α} {xs : List α} {i : ℕ} (hi : xs[i]? = some a) :
    a :: xs.eraseIdx i = xs ↔ ∀ k ≤ i, xs[k]? = some a := by
  induction xs generalizing i with
  | nil => simp at hi
  | cons b xs ih =>
    cases i with
    | zero =>
      have hb : b = a := by simpa using hi
      subst hb
      refine iff_of_true rfl fun k hk => ?_
      obtain rfl : k = 0 := by omega
      rfl
    | succ i =>
      rw [List.eraseIdx_cons_succ, List.cons.injEq]
      constructor
      · rintro ⟨rfl, hrest⟩ k hk
        cases k with
        | zero => rfl
        | succ k => exact (ih hi).mp hrest k (by omega)
      · intro h
        have hb : b = a := by simpa using h 0 (by omega)
        subst hb
        exact ⟨rfl, (ih hi).mpr fun k hk => h (k + 1) (by omega)⟩

/-- Deleting an element by its position is deleting it by its value exactly if no other element
stands between it and the first one that is equal to it. -/
theorem eraseIdx_eq_erase_iff {a : α} {xs : List α} {i : ℕ} (hi : xs[i]? = some a) :
    xs.eraseIdx i = xs.erase a ↔ ∀ j k, j ≤ k → k ≤ i → xs[j]? = some a → xs[k]? = some a := by
  induction xs generalizing i with
  | nil => simp at hi
  | cons b xs ih =>
    cases i with
    | zero =>
      have hb : b = a := by simpa using hi
      subst hb
      refine iff_of_true (by simp) fun j k _ hk _ => ?_
      obtain rfl : k = 0 := by omega
      rfl
    | succ i =>
      have hi' : xs[i]? = some a := hi
      rw [List.eraseIdx_cons_succ]
      by_cases hb : b = a
      · subst hb
        rw [List.erase_cons_head, cons_eraseIdx_iff hi']
        constructor
        · intro h j k _ hk _
          cases k with
          | zero => rfl
          | succ k => exact h k (by omega)
        · intro h k hk
          exact h 0 (k + 1) (by omega) (by omega) rfl
      · rw [List.erase_cons_tail (by simpa using hb), List.cons.injEq, and_iff_right rfl, ih hi']
        constructor
        · intro h j k hjk hk hj
          cases j with
          | zero => exact absurd (Option.some.inj hj) hb
          | succ j =>
            obtain ⟨k, rfl⟩ : ∃ k', k = k' + 1 := ⟨k - 1, by omega⟩
            exact h j k (by omega) (by omega) hj
        · intro h j k hjk hk hj
          exact h (j + 1) (k + 1) (by omega) (by omega) hj

end GiftGenie.Library.ListSet
