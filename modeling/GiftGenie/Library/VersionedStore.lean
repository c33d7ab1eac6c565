import Mathlib.Data.Nat.Notation
import Mathlib.Data.Option.Basic
import Mathlib.Logic.Function.Basic

/-!
# Stores with versions

An entry of a versioned store carries the time of its last write, its version, and no version is
ahead of the store's clock.  `write` rewrites any number of entries at one new time.

A reader that remembers what it read can tell from the version alone whether that is still what the
store holds: `Seen` says so, it holds of what was just read (`seen_self`), and every write keeps it
(`Seen.write`).  This is the whole reason why checking versions at the commit of a transaction is
enough.
-/

set_option autoImplicit false

namespace GiftGenie.Library.VersionedStore

/-- The version of an entry; `none` where there is no entry. -/
def version {α : Type*} (e : Option (ℕ × α)) : Option ℕ := e.map Prod.fst

/-- The value of an entry. -/
def value {α : Type*} (e : Option (ℕ × α)) : Option α := e.map Prod.snd

@[simp] theorem version_none {α : Type*} : version (none : Option (ℕ × α)) = none := rfl

@[simp] theorem version_some {α : Type*} (n : ℕ) (a : α) : version (some (n, a)) = some n := rfl

@[simp] theorem value_none {α : Type*} : value (none : Option (ℕ × α)) = none := rfl

@[simp] theorem value_some {α : Type*} (n : ℕ) (a : α) : value (some (n, a)) = some a := rfl

theorem version_eq_none {α : Type*} {e : Option (ℕ × α)} : version e = none ↔ e = none :=
  Option.map_eq_none_iff

/-- A store; no entry is newer than the clock. -/
structure Store (κ α : Type*) where
  entries : κ → Option (ℕ × α)
  clock : ℕ
  stamp_le : ∀ k n a, entries k = some (n, a) → n ≤ clock

namespace Store

variable {κ α : Type*}

/-- The values without their versions. -/
def values (s : Store κ α) (k : κ) : Option α := value (s.entries k)

/-- A store at time 0 with the given values. -/
def ofValues (values : κ → Option α) : Store κ α where
  entries k := (values k).map fun a => (0, a)
  clock := 0
  stamp_le := by
    intro k n a h
    obtain ⟨b, -, hb⟩ := Option.map_eq_some_iff.mp h
    exact Nat.le_of_eq (congrArg Prod.fst hb).symm

/-- Rewrite the entries that `touched` selects, at the next time. -/
def write (s : Store κ α) (touched : κ → Bool) (f : κ → Option α → Option α) : Store κ α where
  entries k := if touched k then (f k (s.values k)).map fun a => (s.clock + 1, a) else s.entries k
  clock := s.clock + 1
  stamp_le := by
    intro k n a h
    split at h
    · obtain ⟨b, -, hb⟩ := Option.map_eq_some_iff.mp h
      exact Nat.le_of_eq (congrArg Prod.fst hb).symm
    · exact Nat.le_succ_of_le (s.stamp_le k n a h)

@[simp] theorem clock_write (s : Store κ α) (touched : κ → Bool) (f : κ → Option α → Option α) :
    (s.write touched f).clock = s.clock + 1 := rfl

theorem entries_write_of_touched {s : Store κ α} {touched : κ → Bool}
    {f : κ → Option α → Option α} {k : κ} (h : touched k = true) :
    (s.write touched f).entries k = (f k (s.values k)).map fun a => (s.clock + 1, a) := if_pos h

theorem entries_write_of_not {s : Store κ α} {touched : κ → Bool} {f : κ → Option α → Option α}
    {k : κ} (h : touched k = false) : (s.write touched f).entries k = s.entries k :=
  if_neg (by rw [h]; exact Bool.false_ne_true)

theorem values_write (s : Store κ α) (touched : κ → Bool) (f : κ → Option α → Option α) (k : κ) :
    (s.write touched f).values k = if touched k then f k (s.values k) else s.values k := by
  cases h : touched k with
  | true =>
    rw [values, entries_write_of_touched h, value, Option.map_map, if_pos rfl]
    exact Option.map_id_apply
  | false =>
    rw [values, entries_write_of_not h]
    rfl

/-- `e` was read from the entry of `k` at some time: as long as the version is that of `e`, the entry
is `e`. -/
structure Seen (s : Store κ α) (k : κ) (e : Option (ℕ × α)) : Prop where
  stamp_le : ∀ n a, e = some (n, a) → n ≤ s.clock
  eq_of_version : version (s.entries k) = version e → s.entries k = e

theorem seen_self (s : Store κ α) (k : κ) : s.Seen k (s.entries k) :=
  ⟨s.stamp_le k, fun _ => rfl⟩

/-- **Versions tell.**  A write gives what it touches a version that nobody has read, or none. -/
theorem Seen.write {s : Store κ α} {k : κ} {e : Option (ℕ × α)} (h : s.Seen k e)
    (touched : κ → Bool) (f : κ → Option α → Option α) : (s.write touched f).Seen k e := by
  constructor
  · intro n a he
    exact Nat.le_succ_of_le (h.stamp_le n a he)
  · cases ht : touched k with
    | false =>
      rw [entries_write_of_not ht]
      exact h.eq_of_version
    | true =>
      rw [entries_write_of_touched ht]
      cases f k (s.values k) with
      | none =>
        intro hv
        exact (version_eq_none.mp hv.symm).symm
      | some b =>
        intro hv
        cases e with
        | none => exact nomatch hv
        | some p =>
          -- the new version is past everything that was read
          have hnew : s.clock + 1 = p.1 := Option.some.inj hv
          have hold : p.1 ≤ s.clock := h.stamp_le p.1 p.2 rfl
          omega

end Store

end GiftGenie.Library.VersionedStore
