import GiftGenie.CalendarPage
import GiftGenie.Library.Machine
import Mathlib.Data.List.Count

/-!
# PREV and NEXT

Both buttons move the selected date by 30 days and write the name of its month.  From most days the
month is the neighbouring one; from the first of a month of 31 days NEXT stays in the month, and
from the last days of January it skips February.  PREV stays from the 31st, and skips February from
the first days of March.

`months_iff` is exact: every press of a sequence moves by one month, so that the presses add up, if
and only if none of them is made on one of these days.
-/

set_option autoImplicit false

namespace GiftGenie.CalendarPage

open GiftGenie.Library GiftGenie.Library.Gregorian

inductive Press where
  | prev
  | next
  deriving DecidableEq, Repr

variable {L : Type} (yMMM : Date → String)

def pressStep (s : CalendarPageState L) : Press → Option (CalendarPageState L)
  | .prev => some (s.prev yMMM)
  | .next => some (s.next yMMM)

/-- The text is the one of a day of the month. -/
def Names (text : String) (month : Month) : Prop := ∃ date, date.month = month ∧ yMMM date = text

/-- After the press the month directly before, or directly after, is named. -/
def Moves (s : CalendarPageState L) : Press → Prop
  | .prev => Names yMMM (s.prev yMMM).currentMonth s.currentDate2.month.prev
  | .next => Names yMMM (s.next yMMM).currentMonth s.currentDate2.month.next

/-- The days from which 30 days lead to the neighbouring month. -/
def Near (date : Date) : Press → Prop
  | .prev => date.day ≠ 31 ∧ ¬(date.month.number = 3 ∧ date.day + date.month.prev.days ≤ 30)
  | .next => ¬(date.day = 1 ∧ date.month.days = 31) ∧
      ¬(date.month.number = 1 ∧ date.month.next.days + 1 < date.day)

/-! ### Thirty days -/

/-- Neither a month nor the one after the next has the name of the next one. -/
theorem next_number_ne (m : Month) :
    m.number ≠ m.next.number ∧ m.next.next.number ≠ m.next.number := by
  have hpos := m.pos
  have hle := m.le
  rw [m.next.next_number, m.next_number]
  split <;> split <;> omega

theorem prev_number_ne (m : Month) :
    m.number ≠ m.prev.number ∧ m.prev.prev.number ≠ m.prev.number := by
  have hpos := m.pos
  have hle := m.le
  rw [m.prev.prev_number, m.prev_number]
  split <;> split <;> omega

/-- Thirty days lead to the next month from the days of `Near`, and to a month of another name from
all others. -/
theorem addDays_cases (date : Date) :
    ((date.addDays 30).month = date.month.next ∧ Near date .next) ∨
      ((date.addDays 30).month.number ≠ date.month.next.number ∧ ¬Near date .next) := by
  have hle := date.le
  have hmonth := date.month.days_cases
  have hnext := date.month.next.days_cases
  have hnext' := date.month.next.next.days_cases
  have hne := next_number_ne date.month
  by_cases hstays : date.day + 30 ≤ date.month.days
  · have hsame := (Date.addDays_within hstays).1
    refine Or.inr ⟨hsame ▸ hne.1, fun hnear => hnear.1 ?_⟩
    have hpos := date.pos
    omega
  · by_cases hreaches : date.day + 30 ≤ date.month.days + date.month.next.days
    · refine Or.inl ⟨(Date.addDays_across (by omega) hreaches).1, ?_, ?_⟩
      · omega
      · omega
    · have hpast := Date.addDays_past (d := date) (n := 30) (by omega) (by omega)
      refine Or.inr ⟨hpast ▸ hne.2, fun hnear => hnear.2 ?_⟩
      -- only February has less than 30 days
      have hjanuary : date.month.number = 1 := by
        have hlt : date.month.next.number = 2 := hnext.2.2.mp (by omega)
        rw [date.month.next_number] at hlt
        split at hlt <;> omega
      have h31 : date.month.days = 31 := date.month.days_eq_31.mpr (by simp [hjanuary])
      omega

/-- And back to the month before. -/
theorem subDays_cases (date : Date) :
    ((date.subDays 30).month = date.month.prev ∧ Near date .prev) ∨
      ((date.subDays 30).month.number ≠ date.month.prev.number ∧ ¬Near date .prev) := by
  have hle := date.le
  have hpos := date.pos
  have hmonth := date.month.days_cases
  have hprev := date.month.prev.days_cases
  have hprev' := date.month.prev.prev.days_cases
  have hne := prev_number_ne date.month
  by_cases hstays : 30 < date.day
  · have hsame := (Date.subDays_within hstays).1
    refine Or.inr ⟨hsame ▸ hne.1, fun hnear => hnear.1 ?_⟩
    omega
  · by_cases hreaches : 30 < date.day + date.month.prev.days
    · refine Or.inl ⟨(Date.subDays_across (by omega) hreaches).1, ?_, ?_⟩
      · omega
      · omega
    · have hpast := Date.subDays_past (d := date) (n := 30) (by omega) (by omega)
      refine Or.inr ⟨hpast ▸ hne.2, fun hnear => hnear.2 ?_⟩
      have hmarch : date.month.number = 3 := by
        have hlt : date.month.prev.number = 2 := hprev.2.2.mp (by omega)
        rw [date.month.prev_number] at hlt
        split at hlt <;> omega
      exact ⟨hmarch, by omega⟩

/-! ### One press -/

variable {yMMM}

/-- The text of a date names only months with the name of its own. -/
theorem number_of_names (hformat : ∀ date date', yMMM date = yMMM date' →
    date.month.number = date'.month.number) {date : Date} {month : Month}
    (h : Names yMMM (yMMM date) month) : date.month.number = month.number := by
  obtain ⟨date', rfl, htext⟩ := h
  exact (hformat date' date htext).symm

theorem moves_iff (hformat : ∀ date date', yMMM date = yMMM date' →
    date.month.number = date'.month.number) (s : CalendarPageState L) (press : Press) :
    Moves yMMM s press ↔ Near s.currentDate2 press := by
  cases press with
  | next =>
    rcases addDays_cases s.currentDate2 with ⟨hmonth, hnear⟩ | ⟨hne, hnear⟩
    · exact iff_of_true ⟨_, hmonth, rfl⟩ hnear
    · exact iff_of_false (fun hmoves => hne (number_of_names hformat hmoves)) hnear
  | prev =>
    rcases subDays_cases s.currentDate2 with ⟨hmonth, hnear⟩ | ⟨hne, hnear⟩
    · exact iff_of_true ⟨_, hmonth, rfl⟩ hnear
    · exact iff_of_false (fun hmoves => hne (number_of_names hformat hmoves)) hnear

/-- What a press adds to the number of the month. -/
def Press.sign : Press → ℤ
  | .prev => -1
  | .next => 1

theorem index_press {s t : CalendarPageState L} {press : Press} (h : Near s.currentDate2 press)
    (hstep : pressStep yMMM s press = some t) :
    t.currentDate2.month.index = s.currentDate2.month.index + press.sign := by
  cases press with
  | next =>
    rcases addDays_cases s.currentDate2 with ⟨hmonth, -⟩ | ⟨-, hfar⟩
    · obtain rfl := Option.some.inj hstep
      exact (congrArg Month.index hmonth).trans (Month.index_next _)
    · exact absurd h hfar
  | prev =>
    rcases subDays_cases s.currentDate2 with ⟨hmonth, -⟩ | ⟨-, hfar⟩
    · obtain rfl := Option.some.inj hstep
      exact (congrArg Month.index hmonth).trans (Month.index_prev _)
    · exact absurd h hfar

/-! ### Sequences of presses -/

/-- The presses of NEXT less those of PREV. -/
def shift (presses : List Press) : ℤ := presses.count .next - presses.count .prev

theorem shift_cons (press : Press) (presses : List Press) :
    shift (press :: presses) = press.sign + shift presses := by
  cases press with
  | prev =>
    rw [shift, shift, List.count_cons_self, List.count_cons_of_ne (by decide), Press.sign]
    omega
  | next =>
    rw [shift, shift, List.count_cons_self, List.count_cons_of_ne (by decide), Press.sign]
    omega

theorem index_run {presses : List Press} {s s' : CalendarPageState L}
    (hnear : Machine.AllSteps (pressStep yMMM) (fun s => Near s.currentDate2) s presses)
    (hrun : Machine.run (pressStep yMMM) s presses = some s') :
    s'.currentDate2.month.index = s.currentDate2.month.index + shift presses := by
  induction presses generalizing s with
  | nil =>
    cases hrun
    exact (add_zero _).symm
  | cons press presses ih =>
    obtain ⟨t, ht, hrest⟩ := Machine.run_cons.mp hrun
    rw [ih (hnear.2 t ht) hrest, index_press hnear.1 ht, shift_cons]
    omega

/-- **PREV and NEXT, exactly.**  `DateFormat.yMMM` gives different texts to months of different
names.  Then every press of a sequence names the neighbouring month, and the selected month is
shifted by the number of NEXT less that of PREV, if and only if every press is made on a day of
`Near`. -/
theorem months_iff {L : Type} (yMMM : Date → String)
    (hformat : ∀ date date', yMMM date = yMMM date' → date.month.number = date'.month.number)
    (presses : List Press) (s s' : CalendarPageState L)
    (hrun : Machine.run (pressStep yMMM) s presses = some s') :
    (Machine.AllSteps (pressStep yMMM) (Moves yMMM) s presses ∧
        s'.currentDate2.month.index = s.currentDate2.month.index + shift presses) ↔
      Machine.AllSteps (pressStep yMMM) (fun s => Near s.currentDate2) s presses := by
  have hsteps : Machine.AllSteps (pressStep yMMM) (Moves yMMM) s presses ↔
      Machine.AllSteps (pressStep yMMM) (fun s => Near s.currentDate2) s presses :=
    Machine.allSteps_iff (I := fun _ => True) (fun s press _ => moves_iff hformat s press)
      (fun _ _ _ _ _ _ => trivial) presses s trivial
  rw [hsteps]
  exact and_iff_left_of_imp fun hnear => index_run hnear hrun

/-! ### English months -/

theorem monthNames_injective :
    ∀ i j : Fin 12, monthNames.getD i "" = monthNames.getD j "" → i = j := by
  decide

theorem monthNames_length : ∀ i : Fin 12, (monthNames.getD i "").toList.length = 3 := by
  decide

theorem englishMonth_number (date date' : Date) (h : englishMonth date = englishMonth date') :
    date.month.number = date'.month.number := by
  have hpos := date.month.pos
  have hle := date.month.le
  have hpos' := date'.month.pos
  have hle' := date'.month.le
  have hi := monthNames_length ⟨date.month.number - 1, by omega⟩
  have hj := monthNames_length ⟨date'.month.number - 1, by omega⟩
  have hlists := congrArg String.toList h
  simp only [englishMonth, String.toList_append, List.append_assoc] at hlists
  have hnames := (List.append_inj hlists (hi.trans hj.symm)).1
  have heq := monthNames_injective ⟨date.month.number - 1, by omega⟩
    ⟨date'.month.number - 1, by omega⟩ (String.toList_injective hnames)
  have hnumbers := congrArg Fin.val heq
  dsimp only at hnumbers
  omega

/-- From the 23rd of April one month forth and back. -/
theorem months_iff_april :
    ∃ s : CalendarPageState (Date → List Event),
      Machine.run (pressStep englishMonth) (CalendarPageState.start mapLists) [.next, .prev] =
          some s ∧
        s.currentDate2.month.index =
          (CalendarPageState.start mapLists).currentDate2.month.index := by
  have hmay := Date.addDays_across (n := 30)
    (d := (CalendarPageState.start mapLists).currentDate2) (by decide) (by decide)
  have hnear : Machine.AllSteps (pressStep englishMonth) (fun s => Near s.currentDate2)
      (CalendarPageState.start mapLists) [.next, .prev] := by
    refine ⟨⟨by decide, by decide⟩, fun s hs => ⟨?_, fun _ _ => trivial⟩⟩
    obtain rfl := Option.some.inj hs
    refine ⟨?_, fun hmarch => ?_⟩
    · show ((CalendarPageState.start mapLists).currentDate2.addDays 30).day ≠ 31
      rw [hmay.2]
      decide
    · have hnumber :
          ((CalendarPageState.start mapLists).currentDate2.addDays 30).month.number = 3 := hmarch.1
      rw [hmay.1] at hnumber
      exact absurd hnumber (by decide)
  refine ⟨_, rfl, ?_⟩
  have hmonths := (months_iff englishMonth englishMonth_number [.next, .prev] _ _ rfl).mpr hnear
  rw [hmonths.2]
  rfl

def mayFirst : Date := ⟨⟨2019, 5, by decide, by decide⟩, 1, Nat.one_pos, by decide⟩

/-- From the first of May NEXT leads to the 31st. -/
theorem not_moves :
    ¬Moves englishMonth ((CalendarPageState.start mapLists).onDayPressed mayFirst) .next := by
  intro hmoves
  have hsame : (mayFirst.addDays 30).month = mayFirst.month := (Date.addDays_within (by decide)).1
  have hnumber : (mayFirst.addDays 30).month.number = mayFirst.month.next.number :=
    number_of_names englishMonth_number hmoves
  rw [hsame] at hnumber
  exact absurd hnumber (by decide)

end GiftGenie.CalendarPage
