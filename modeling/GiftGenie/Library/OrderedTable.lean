import Mathlib.Data.List.Nodup
import Mathlib.Order.Lattice

/-!
# Ordered tables

A table of a key-value store: rows in the strict order of their keys, with the operations that such
a store has.  `put` and `delete` change one row, `get` reads one, `seek` finds the first row at or
after a key, and `scan` reads the rows that follow each other and satisfy a condition.

* `mem_put`, `mem_delete`, `get_eq_some`: the table as a finite map.
* `seek_cases`, `seek_of_mem`: what a seek finds.
* `scan_eq_filter`: where the keys of a kind are next to each other, a scan reads them all.
* `filter_put_last`, `filter_put_other`: what a new row does to the rows of a kind.
-/

set_option autoImplicit false

namespace GiftGenie.Library.OrderedTable

/-- Rows in the order of their keys. -/
structure Table (κ ν : Type*) [LinearOrder κ] where
  rows : List (κ × ν) := []
  sorted : rows.Pairwise fun r r' => r.1 < r'.1 := by exact List.Pairwise.nil

namespace Table

variable {κ ν : Type*} [LinearOrder κ] (t : Table κ ν)

def get (k : κ) : Option ν := (t.rows.find? fun r => r.1 = k).map Prod.snd

/-- The row goes to its place, where it replaces the row that has its key. -/
def put (k : κ) (v : ν) : Table κ ν where
  rows := t.rows.filter (fun r => r.1 < k) ++ (k, v) :: t.rows.filter (fun r => k < r.1)
  sorted := by
    have hbelow : ∀ r ∈ t.rows.filter (fun r => r.1 < k), r.1 < k := fun r hr => by
      simpa using (List.mem_filter.mp hr).2
    have habove : ∀ r ∈ t.rows.filter (fun r => k < r.1), k < r.1 := fun r hr => by
      simpa using (List.mem_filter.mp hr).2
    refine List.pairwise_append.mpr ⟨t.sorted.filter _,
      List.pairwise_cons.mpr ⟨habove, t.sorted.filter _⟩, fun r hr r' hr' => ?_⟩
    rcases List.mem_cons.mp hr' with h | h
    · subst h
      exact hbelow r hr
    · exact lt_trans (hbelow r hr) (habove r' h)

def delete (k : κ) : Table κ ν where
  rows := t.rows.filter fun r => r.1 ≠ k
  sorted := t.sorted.filter _

/-- The first row at or after the key. -/
def seek (k : κ) : Option (κ × ν) := t.rows.find? fun r => k ≤ r.1

/-- Seek past the keys that are `below`, and read on as long as they are `inside`. -/
def scan (below inside : κ → Bool) : List (κ × ν) :=
  (t.rows.dropWhile fun r => below r.1).takeWhile fun r => inside r.1

variable {t} {k : κ} {v : ν} {r : κ × ν}

/-! ### The table as a map -/

theorem mem_put : r ∈ (t.put k v).rows ↔ r = (k, v) ∨ r ∈ t.rows ∧ r.1 ≠ k := by
  simp only [put, List.mem_append, List.mem_cons, List.mem_filter, decide_eq_true_eq]
  constructor
  · rintro (⟨hr, hlt⟩ | hr | ⟨hr, hlt⟩)
    · exact Or.inr ⟨hr, ne_of_lt hlt⟩
    · exact Or.inl hr
    · exact Or.inr ⟨hr, ne_of_gt hlt⟩
  · rintro (hr | ⟨hr, hne⟩)
    · exact Or.inr (Or.inl hr)
    · rcases lt_or_gt_of_ne hne with hlt | hgt
      · exact Or.inl ⟨hr, hlt⟩
      · exact Or.inr (Or.inr ⟨hr, hgt⟩)

theorem mem_delete : r ∈ (t.delete k).rows ↔ r ∈ t.rows ∧ r.1 ≠ k := by
  simp only [delete, List.mem_filter, decide_eq_true_eq]

/-- The rows after several puts of one value. -/
theorem mem_foldl_put {α : Type*} (f : α → κ) (l : List α) :
    ∀ t : Table κ ν, r ∈ (l.foldl (fun t a => t.put (f a) v) t).rows ↔
      (∃ a ∈ l, r = (f a, v)) ∨ r ∈ t.rows ∧ ∀ a ∈ l, r.1 ≠ f a := by
  induction l with
  | nil => intro t; simp
  | cons a l ih =>
    intro t
    rw [List.foldl_cons, ih, mem_put]
    by_cases hl : ∃ a ∈ l, r = (f a, v)
    · obtain ⟨a', ha', hr⟩ := hl
      exact iff_of_true (Or.inl ⟨a', ha', hr⟩)
        (Or.inl ⟨a', List.mem_cons_of_mem a ha', hr⟩)
    · by_cases ha : r = (f a, v)
      · have hother : ∀ a' ∈ l, r.1 ≠ f a' := fun a' ha' hk =>
          hl ⟨a', ha', by rw [ha] at hk ⊢; rw [show f a = f a' from hk]⟩
        exact iff_of_true (Or.inr ⟨Or.inl ha, hother⟩)
          (Or.inl ⟨a, List.mem_cons_self, ha⟩)
      · simp only [hl, ha, false_or, List.mem_cons, exists_eq_or_imp, forall_eq_or_imp, and_assoc]

theorem mem_foldl_delete {α : Type*} (f : α → κ) (l : List α) :
    ∀ t : Table κ ν, r ∈ (l.foldl (fun t a => t.delete (f a)) t).rows ↔
      r ∈ t.rows ∧ ∀ a ∈ l, r.1 ≠ f a := by
  induction l with
  | nil => intro t; simp
  | cons a l ih =>
    intro t
    rw [List.foldl_cons, ih, mem_delete, and_assoc, List.forall_mem_cons]

theorem nodup_keys (t : Table κ ν) : (t.rows.map Prod.fst).Nodup :=
  (List.pairwise_map.mpr t.sorted).imp fun hlt => ne_of_lt hlt

/-- A key has one row. -/
theorem row_unique {r' : κ × ν} (h : r ∈ t.rows) (h' : r' ∈ t.rows) (hk : r.1 = r'.1) : r = r' :=
  List.inj_on_of_nodup_map t.nodup_keys h h' hk

theorem get_eq_some : t.get k = some v ↔ (k, v) ∈ t.rows := by
  constructor
  · intro h
    obtain ⟨r, hr, hv⟩ := Option.map_eq_some_iff.mp h
    have hk : r.1 = k := by simpa using List.find?_some hr
    rw [← hk, ← hv]
    exact List.mem_of_find?_eq_some hr
  · intro h
    have hsome : (t.rows.find? fun r => r.1 = k).isSome :=
      List.find?_isSome.mpr ⟨(k, v), h, decide_eq_true rfl⟩
    obtain ⟨r, hr⟩ := Option.isSome_iff_exists.mp hsome
    have hk : r.1 = k := by simpa using List.find?_some hr
    have hrow : r = (k, v) := row_unique (List.mem_of_find?_eq_some hr) h hk
    rw [get, hr, hrow]
    rfl

/-! ### Rows of a kind -/

/-- The rows before a key come before the others. -/
theorem filter_lt_append (t : Table κ ν) (k : κ) :
    t.rows.filter (fun r => r.1 < k) ++ t.rows.filter (fun r => ¬r.1 < k) = t.rows := by
  have hsplit : ∀ rows : List (κ × ν), (rows.Pairwise fun r r' => r.1 < r'.1) →
      rows.filter (fun r => r.1 < k) ++ rows.filter (fun r => ¬r.1 < k) = rows := by
    intro rows
    induction rows with
    | nil => intro _; rfl
    | cons r rows ih =>
      intro h
      obtain ⟨hr, hrows⟩ := List.pairwise_cons.mp h
      by_cases hlt : r.1 < k
      · simp only [List.filter_cons, hlt, decide_true, if_true, not_true_eq_false, decide_false,
          List.cons_append]
        exact congrArg _ (ih hrows)
      · -- a row at or after the key has no row before the key behind it
        have hnone : rows.filter (fun r => r.1 < k) = [] :=
          List.filter_eq_nil_iff.mpr fun r' hr' => by
            have hle : k ≤ r'.1 := le_trans (not_lt.mp hlt) (le_of_lt (hr r' hr'))
            simpa using hle
        have hall : rows.filter (fun r => ¬r.1 < k) = rows := by
          have hrest := ih hrows
          rwa [hnone, List.nil_append] at hrest
        simp only [List.filter_cons, hlt, decide_false, not_false_eq_true, decide_true, if_true]
        rw [hnone, hall]
        rfl
  exact hsplit t.rows t.sorted

/-- In a sorted list the first element of a kind is the least one. -/
theorem find?_of_least {α : Type*} {f : α → κ} {p : α → Bool} {a : α} :
    ∀ {l : List α}, (l.Pairwise fun b c => f b < f c) → a ∈ l → p a = true →
      (∀ b ∈ l, p b = true → f a ≤ f b) → l.find? p = some a := by
  intro l
  induction l with
  | nil => intro _ ha; cases ha
  | cons b l ih =>
    intro h ha hp hleast
    obtain ⟨hb, hl⟩ := List.pairwise_cons.mp h
    rcases List.mem_cons.mp ha with hab | ha
    · rw [← hab, List.find?_cons_of_pos hp]
    · have hnot : p b ≠ true := fun hpb =>
        not_lt_of_ge (hleast b List.mem_cons_self hpb) (hb a ha)
      rw [List.find?_cons_of_neg hnot]
      exact ih hl ha hp fun c hc => hleast c (List.mem_cons_of_mem b hc)

/-- A seek finds the least row that is not before the key. -/
theorem seek_cases (t : Table κ ν) (k : κ) :
    (t.seek k = none ∧ ∀ r ∈ t.rows, r.1 < k) ∨
      ∃ r ∈ t.rows, t.seek k = some r ∧ k ≤ r.1 ∧ ∀ r' ∈ t.rows, k ≤ r'.1 → r.1 ≤ r'.1 := by
  cases hs : t.seek k with
  | none =>
    refine Or.inl ⟨rfl, fun r hr => ?_⟩
    have hnot := List.find?_eq_none.mp hs r hr
    simpa using hnot
  | some r =>
    have hk : k ≤ r.1 := by simpa using List.find?_some hs
    refine Or.inr ⟨r, List.mem_of_find?_eq_some hs, rfl, hk, fun r' hr' hk' => ?_⟩
    obtain ⟨-, before, after, hrows, hbefore⟩ := List.find?_eq_some_iff_append.mp hs
    rw [hrows] at hr'
    rcases List.mem_append.mp hr' with h | h
    · have hnot := hbefore r' h
      simp only [hk', decide_true, Bool.not_true, Bool.false_eq_true] at hnot
    · rcases List.mem_cons.mp h with h | h
      · rw [h]
      · have hsorted := t.sorted
        rw [hrows] at hsorted
        have hafter := (List.pairwise_cons.mp (List.pairwise_append.mp hsorted).2.1).1
        exact le_of_lt (hafter r' h)

/-- A seek for the key of a row finds the row. -/
theorem seek_of_mem (h : r ∈ t.rows) : t.seek r.1 = some r :=
  find?_of_least (f := Prod.fst) t.sorted h (decide_eq_true (le_refl r.1))
    fun _ _ hle => of_decide_eq_true hle

variable {below inside : κ → Bool}

/-- **Scan.**  Where what is `below` comes first, and what is `inside` comes next, a scan reads exactly
what is inside. -/
theorem scan_eq_filter (t : Table κ ν) (hbelow : ∀ a b, a < b → below b = true → below a = true)
    (hinside : ∀ a, inside a = true → below a = false)
    (hnext : ∀ a b, a < b → below a = false → inside b = true → inside a = true) :
    t.scan below inside = t.rows.filter fun r => inside r.1 := by
  have hscan : ∀ rows : List (κ × ν), (rows.Pairwise fun r r' => r.1 < r'.1) →
      (rows.dropWhile fun r => below r.1).takeWhile (fun r => inside r.1) =
        rows.filter fun r => inside r.1 := by
    intro rows
    induction rows with
    | nil => intro _; rfl
    | cons r rows ih =>
      intro h
      obtain ⟨hr, hrows⟩ := List.pairwise_cons.mp h
      cases hb : below r.1 with
      | true =>
        have hout : inside r.1 = false := by
          refine Bool.eq_false_iff.mpr fun hin => ?_
          rw [hinside r.1 hin] at hb
          cases hb
        simp only [List.dropWhile_cons, hb, if_true, List.filter_cons, hout, Bool.false_eq_true,
          if_false]
        exact ih hrows
      | false =>
        have hstop : ∀ r' ∈ rows, below r'.1 = false := fun r' hr' => by
          refine Bool.eq_false_iff.mpr fun hb' => ?_
          rw [hbelow r.1 r'.1 (hr r' hr') hb'] at hb
          cases hb
        have hrest : (rows.dropWhile fun r => below r.1) = rows := by
          cases rows with
          | nil => rfl
          | cons r' rows =>
            rw [List.dropWhile_cons, hstop r' List.mem_cons_self]
            rfl
        cases hin : inside r.1 with
        | true =>
          have htail := ih hrows
          rw [hrest] at htail
          simp only [List.dropWhile_cons, hb, Bool.false_eq_true, if_false, List.takeWhile_cons, hin,
            List.filter_cons, if_true, htail]
        | false =>
          have hnone : rows.filter (fun r => inside r.1) = [] :=
            List.filter_eq_nil_iff.mpr fun r' hr' hin' => by
              rw [hnext r.1 r'.1 (hr r' hr') hb hin'] at hin
              cases hin
          simp only [List.dropWhile_cons, hb, Bool.false_eq_true, if_false, List.takeWhile_cons, hin,
            List.filter_cons, hnone]
  exact hscan t.rows t.sorted

variable {p : κ → Bool}

/-- A new row behind the rows of its kind. -/
theorem filter_put_last (hk : p k = true) (hlast : ∀ r ∈ t.rows, p r.1 = true → r.1 < k) :
    (t.put k v).rows.filter (fun r => p r.1) = t.rows.filter (fun r => p r.1) ++ [(k, v)] := by
  have hbefore : (t.rows.filter fun r => r.1 < k).filter (fun r => p r.1) =
      t.rows.filter fun r => p r.1 := by
    rw [List.filter_filter]
    refine List.filter_congr fun r hr => ?_
    cases hp : p r.1 with
    | true => simpa using hlast r hr hp
    | false => rfl
  have hafter : (t.rows.filter fun r => k < r.1).filter (fun r => p r.1) = [] :=
    List.filter_eq_nil_iff.mpr fun r hr hp => by
      obtain ⟨hmem, hlt⟩ := List.mem_filter.mp hr
      exact lt_asymm (of_decide_eq_true hlt) (hlast r hmem hp)
  rw [put, List.filter_append, List.filter_cons, if_pos hk, hbefore, hafter]

/-- A new row of another kind. -/
theorem filter_put_other (hk : p k = false) :
    (t.put k v).rows.filter (fun r => p r.1) = t.rows.filter fun r => p r.1 := by
  have hafter : (t.rows.filter fun r => k < r.1).filter (fun r => p r.1) =
      (t.rows.filter fun r => ¬r.1 < k).filter fun r => p r.1 := by
    rw [List.filter_filter, List.filter_filter]
    refine List.filter_congr fun r _ => ?_
    cases hp : p r.1 with
    | true =>
      have hne : r.1 ≠ k := fun heq => by
        rw [heq, hk] at hp
        cases hp
      have hiff : k < r.1 ↔ ¬r.1 < k :=
        ⟨lt_asymm, fun hnot => lt_of_le_of_ne (not_lt.mp hnot) (Ne.symm hne)⟩
      simpa using hiff
    | false => rfl
  rw [put, List.filter_append, List.filter_cons_of_neg (by rw [hk]; exact Bool.false_ne_true), hafter,
    ← List.filter_append]
  exact congrArg _ (t.filter_lt_append k)

theorem filter_delete (t : Table κ ν) (k : κ) (p : κ → Bool) :
    (t.delete k).rows.filter (fun r => p r.1) =
      (t.rows.filter fun r => p r.1).filter fun r => r.1 ≠ k := by
  rw [delete, List.filter_comm]

end Table

end GiftGenie.Library.OrderedTable
