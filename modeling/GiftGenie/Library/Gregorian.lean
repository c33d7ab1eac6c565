import Mathlib.Algebra.Group.Int.Defs
import Mathlib.Data.Int.Order.Basic
import Mathlib.Logic.Function.Iterate
import Mathlib.Tactic.Common

/-!
# The proleptic Gregorian calendar

A `Month` is a month of a year, and a `Date` a day of a month; both carry their bounds, so that
there is no thirtieth of February.  `Date.next` and `Date.prev` are the neighbouring days, and
`Date.addDays` and `Date.subDays` repeat them.

A shift by fewer days than two months have is read off the lengths of these months: it stays in the
month (`addDays_within`), ends in the next one (`addDays_across`) or goes past it (`addDays_past`);
and in the same way backwards.
-/

set_option autoImplicit false

namespace GiftGenie.Library.Gregorian

/-- The leap rule. -/
def Leap (year : ℤ) : Prop := (4 ∣ year ∧ ¬100 ∣ year) ∨ 400 ∣ year

instance (year : ℤ) : Decidable (Leap year) :=
  inferInstanceAs (Decidable ((4 ∣ year ∧ ¬100 ∣ year) ∨ 400 ∣ year))

structure Month where
  year : ℤ
  number : ℕ
  pos : 1 ≤ number
  le : number ≤ 12
  deriving DecidableEq

namespace Month

def days (m : Month) : ℕ :=
  if m.number = 2 then if Leap m.year then 29 else 28
  else if m.number = 4 ∨ m.number = 6 ∨ m.number = 9 ∨ m.number = 11 then 30
  else 31

def next (m : Month) : Month :=
  if h : m.number < 12 then ⟨m.year, m.number + 1, by omega, by omega⟩
  else ⟨m.year + 1, 1, by omega, by omega⟩

def prev (m : Month) : Month :=
  if h : 1 < m.number then ⟨m.year, m.number - 1, by omega, by have := m.le; omega⟩
  else ⟨m.year - 1, 12, by omega, by omega⟩

/-- The number of the month, counted from January of the year 0. -/
def index (m : Month) : ℤ := 12 * m.year + m.number - 1

variable (m : Month)

theorem next_number : m.next.number = if m.number < 12 then m.number + 1 else 1 := by
  unfold next
  split <;> rfl

theorem prev_number : m.prev.number = if 1 < m.number then m.number - 1 else 12 := by
  unfold prev
  split <;> rfl

theorem index_next : m.next.index = m.index + 1 := by
  have hle := m.le
  unfold next index
  split
  · push_cast
    omega
  · show 12 * (m.year + 1) + ((1 : ℕ) : ℤ) - 1 = 12 * m.year + m.number - 1 + 1
    omega

theorem index_prev : m.prev.index = m.index - 1 := by
  have hpos := m.pos
  unfold prev index
  split
  · show 12 * m.year + ((m.number - 1 : ℕ) : ℤ) - 1 = 12 * m.year + m.number - 1 - 1
    omega
  · show 12 * (m.year - 1) + ((12 : ℕ) : ℤ) - 1 = 12 * m.year + m.number - 1 - 1
    omega

theorem days_cases : 28 ≤ m.days ∧ m.days ≤ 31 ∧ (m.days < 30 ↔ m.number = 2) := by
  unfold days
  split
  · split <;> omega
  · split <;> omega

theorem days_eq_31 : m.days = 31 ↔ m.number ∈ [1, 3, 5, 7, 8, 10, 12] := by
  have hpos := m.pos
  have hle := m.le
  simp only [List.mem_cons, List.not_mem_nil, or_false]
  unfold days
  split
  · split <;> omega
  · split <;> omega

end Month

structure Date where
  month : Month
  day : ℕ
  pos : 1 ≤ day
  le : day ≤ month.days
  deriving DecidableEq

namespace Date

def next (d : Date) : Date :=
  if h : d.day < d.month.days then ⟨d.month, d.day + 1, by omega, h⟩
  else ⟨d.month.next, 1, by omega, by have := d.month.next.days_cases; omega⟩

def prev (d : Date) : Date :=
  if h : 1 < d.day then ⟨d.month, d.day - 1, by omega, by have := d.le; omega⟩
  else ⟨d.month.prev, d.month.prev.days, by have := d.month.prev.days_cases; omega, by omega⟩

/-- `n` days of 24 hours later. -/
def addDays (n : ℕ) (d : Date) : Date := next^[n] d

/-- `n` days of 24 hours earlier. -/
def subDays (n : ℕ) (d : Date) : Date := prev^[n] d

theorem addDays_add (m n : ℕ) (d : Date) : d.addDays (m + n) = (d.addDays m).addDays n := by
  show next^[m + n] d = next^[n] (next^[m] d)
  rw [Nat.add_comm, Function.iterate_add_apply]

theorem subDays_add (m n : ℕ) (d : Date) : d.subDays (m + n) = (d.subDays m).subDays n := by
  show prev^[m + n] d = prev^[n] (prev^[m] d)
  rw [Nat.add_comm, Function.iterate_add_apply]

variable {n : ℕ} {d : Date}

/-! ### Forwards -/

theorem addDays_within (h : d.day + n ≤ d.month.days) :
    (d.addDays n).month = d.month ∧ (d.addDays n).day = d.day + n := by
  induction n with
  | zero => exact ⟨rfl, rfl⟩
  | succ n ih =>
    obtain ⟨hmonth, hday⟩ := ih (by omega)
    have hlt : (d.addDays n).day < (d.addDays n).month.days := by
      rw [hmonth, hday]
      omega
    rw [addDays_add]
    show ((d.addDays n).next).month = d.month ∧ ((d.addDays n).next).day = d.day + (n + 1)
    rw [next, dif_pos hlt]
    exact ⟨hmonth, by show (d.addDays n).day + 1 = d.day + (n + 1); omega⟩

/-- The first day of the next month is reached after the rest of this one. -/
theorem addDays_first (h : d.day + n = d.month.days + 1) :
    (d.addDays n).month = d.month.next ∧ (d.addDays n).day = 1 := by
  have hle := d.le
  obtain ⟨k, rfl⟩ : ∃ k, n = k + 1 := ⟨n - 1, by omega⟩
  obtain ⟨hmonth, hday⟩ := addDays_within (n := k) (d := d) (by omega)
  have hlast : ¬(d.addDays k).day < (d.addDays k).month.days := by
    rw [hmonth, hday]
    omega
  rw [addDays_add]
  show ((d.addDays k).next).month = d.month.next ∧ ((d.addDays k).next).day = 1
  rw [next, dif_neg hlast]
  exact ⟨congrArg Month.next hmonth, rfl⟩

theorem addDays_across (h : d.month.days < d.day + n)
    (h' : d.day + n ≤ d.month.days + d.month.next.days) :
    (d.addDays n).month = d.month.next ∧ (d.addDays n).day = d.day + n - d.month.days := by
  have hle := d.le
  obtain ⟨k, j, rfl, hk⟩ : ∃ k j, n = k + j ∧ d.day + k = d.month.days + 1 :=
    ⟨d.month.days + 1 - d.day, n - (d.month.days + 1 - d.day), by omega, by omega⟩
  obtain ⟨hmonth, hday⟩ := addDays_first hk
  have hfits : (d.addDays k).day + j ≤ (d.addDays k).month.days := by
    rw [hmonth, hday]
    omega
  obtain ⟨hmonth', hday'⟩ := addDays_within hfits
  rw [addDays_add, hmonth', hday', hday]
  exact ⟨hmonth, by omega⟩

theorem addDays_past (h : d.month.days + d.month.next.days < d.day + n)
    (h' : d.day + n ≤ d.month.days + d.month.next.days + d.month.next.next.days) :
    (d.addDays n).month = d.month.next.next := by
  have hle := d.le
  obtain ⟨k, j, rfl, hk⟩ : ∃ k j, n = k + j ∧ d.day + k = d.month.days + 1 :=
    ⟨d.month.days + 1 - d.day, n - (d.month.days + 1 - d.day), by omega, by omega⟩
  obtain ⟨hmonth, hday⟩ := addDays_first hk
  have hacross := addDays_across (n := j) (d := d.addDays k) (by rw [hmonth, hday]; omega)
    (by rw [hmonth, hday]; omega)
  rw [addDays_add, hacross.1, hmonth]

/-! ### Backwards -/

theorem subDays_within (h : n < d.day) :
    (d.subDays n).month = d.month ∧ (d.subDays n).day = d.day - n := by
  induction n with
  | zero => exact ⟨rfl, rfl⟩
  | succ n ih =>
    obtain ⟨hmonth, hday⟩ := ih (by omega)
    have hlt : 1 < (d.subDays n).day := by omega
    rw [subDays_add]
    show ((d.subDays n).prev).month = d.month ∧ ((d.subDays n).prev).day = d.day - (n + 1)
    rw [prev, dif_pos hlt]
    exact ⟨hmonth, by show (d.subDays n).day - 1 = d.day - (n + 1); omega⟩

/-- The last day of the month before is reached after the days gone of this one. -/
theorem subDays_last :
    (d.subDays d.day).month = d.month.prev ∧ (d.subDays d.day).day = d.month.prev.days := by
  obtain ⟨k, hk⟩ : ∃ k, d.day = k + 1 := ⟨d.day - 1, by have := d.pos; omega⟩
  obtain ⟨hmonth, hday⟩ := subDays_within (n := k) (d := d) (by omega)
  have hfirst : ¬1 < (d.subDays k).day := by omega
  rw [hk, subDays_add]
  show ((d.subDays k).prev).month = d.month.prev ∧ ((d.subDays k).prev).day = d.month.prev.days
  rw [prev, dif_neg hfirst]
  exact ⟨congrArg Month.prev hmonth, congrArg (fun m => m.prev.days) hmonth⟩

theorem subDays_across (h : d.day ≤ n) (h' : n < d.day + d.month.prev.days) :
    (d.subDays n).month = d.month.prev ∧ (d.subDays n).day = d.day + d.month.prev.days - n := by
  obtain ⟨j, rfl⟩ : ∃ j, n = d.day + j := ⟨n - d.day, by omega⟩
  obtain ⟨hmonth, hday⟩ := subDays_last (d := d)
  obtain ⟨hmonth', hday'⟩ := subDays_within (n := j) (d := d.subDays d.day) (by omega)
  rw [subDays_add, hmonth', hday', hday]
  exact ⟨hmonth, by omega⟩

theorem subDays_past (h : d.day + d.month.prev.days ≤ n)
    (h' : n < d.day + d.month.prev.days + d.month.prev.prev.days) :
    (d.subDays n).month = d.month.prev.prev := by
  obtain ⟨j, rfl⟩ : ∃ j, n = d.day + j := ⟨n - d.day, by omega⟩
  obtain ⟨hmonth, hday⟩ := subDays_last (d := d)
  have hacross := subDays_across (n := j) (d := d.subDays d.day) (by omega)
    (by rw [hmonth, hday]; omega)
  rw [subDays_add, hacross.1, hmonth]

-- a shift is known by the lemmas above, and not by taking its steps
attribute [irreducible] addDays subDays

end Date

end GiftGenie.Library.Gregorian
