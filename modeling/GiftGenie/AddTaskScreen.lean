import GiftGenie.CalendarPage
import GiftGenie.Library.Machine

/-!
# The screen that adds a task

The time of a new task is cut out of the text `_time`, which holds `null` before the first time
picker has returned, `TimeOfDay(HH:MM)` after a chosen time, and the text `null` after a cancelled
picker.  The screen shows dashes for `null`; its `onSubmitted` cuts `_time.toString()` in any case.

`substrings_iff` says exactly in which runs no substring is out of range, and every stored task is a
time followed by a submitted text: a screen may be built before the first picker has returned or
after a chosen time, and a text may be submitted after a chosen time only.
-/

set_option autoImplicit false

namespace GiftGenie.CalendarPage

open GiftGenie.Library GiftGenie.Library.Gregorian

/-- `s.substring(start, end)`; `none` where it throws a `RangeError`.  What is cut off here is
always made of ASCII characters, so that characters count as code units do. -/
def substring (s : String) (start stop : ℕ) : Option String :=
  if start ≤ stop ∧ stop ≤ s.length then
    some (String.ofList ((s.toList.drop start).take (stop - start)))
  else none

/-- `s.substring(start)`. -/
def substringFrom (s : String) (start : ℕ) : Option String := substring s start s.length

structure TimeOfDay where
  hour : Fin 24
  minute : Fin 60
  deriving DecidableEq

def addLeadingZeroIfNeeded (value : ℕ) : String :=
  if value < 10 then "0" ++ toString value else toString value

/-- The five characters `HH:MM`. -/
def TimeOfDay.label (t : TimeOfDay) : String :=
  addLeadingZeroIfNeeded t.hour ++ ":" ++ addLeadingZeroIfNeeded t.minute

def TimeOfDay.toString (t : TimeOfDay) : String := "TimeOfDay(" ++ t.label ++ ")"

/-- `picker.toString()`, where a cancelled picker is `null`. -/
def pickerToString : Option TimeOfDay → String
  | some t => t.toString
  | none => "null"

/-- The text beside the button: `_time == null ? "  -  " : _time.toString().substring(10,15)`. -/
def timeText : Option String → Option String
  | none => some "  -  "
  | some time => substring time 10 15

/-- `_time.toString().substring(10,15)`. -/
def timeR (time : Option String) : Option String := substring (time.getD "null") 10 15

/-- The two texts of a row. -/
def buildToDoItem (todoText : String) : Option (String × String) := do
  let title ← substring todoText 0 5
  let trailing ← substringFrom todoText 5
  return (title, trailing)

/-- The page, the number of add screens on top of it, and the texts submitted so far.  All of them show
and use the one `_time` of the page. -/
structure Screens (L : Type) where
  page : CalendarPageState L
  adding : ℕ
  submitted : List String

inductive ScreenEvent where
  | onDayPressed (date : Date)
  | onCalendarChanged (date : Date)
  | prev
  | next
  | removeTodoItem (index : ℕ)
  | pushAddTodoScreen
  | buildAddTodoScreen
  | showTimePicker (picker : Option TimeOfDay)
  | onSubmitted (val : String)
  | pop
  | build

variable {L : Type} (E : EventLists L) (yMMM : Date → String)

namespace Screens

def start : Screens L where
  page := CalendarPageState.start E
  adding := 0
  submitted := []

variable (s : Screens L)

/-- The texts of the rows that `buildList` builds. -/
def rows : List String := (s.page.tasks s.page.currentDate2).take 10

/-- `onSubmitted`; where the substring throws, nothing is stored and the screen stays. -/
def onSubmitted (val : String) : Screens L :=
  let s := { s with submitted := s.submitted ++ [val] }
  match timeR s.page.time with
  | some time => { s with page := s.page.addToDoItem E (time ++ val), adding := s.adding - 1 }
  | none => s

end Screens

def screenStep (s : Screens L) : ScreenEvent → Option (Screens L)
  | .onDayPressed date => some { s with page := s.page.onDayPressed date }
  | .onCalendarChanged date => some { s with page := s.page.onCalendarChanged yMMM date }
  | .prev => some { s with page := s.page.prev yMMM }
  | .next => some { s with page := s.page.next yMMM }
  | .removeTodoItem index => (s.page.removeTodoItem E index).map fun page => { s with page := page }
  | .pushAddTodoScreen => some { s with adding := s.adding + 1 }
  | .buildAddTodoScreen => if 0 < s.adding then some s else none
  | .showTimePicker picker =>
      some { s with page := { s.page with time := some (pickerToString picker) } }
  | .onSubmitted val => if 0 < s.adding then some (s.onSubmitted E val) else none
  | .pop => if 0 < s.adding then some { s with adding := s.adding - 1 } else none
  | .build => some s

/-- Every substring that is cut in the step is within range. -/
def InRange (s : Screens L) : ScreenEvent → Prop
  | .buildAddTodoScreen => timeText s.page.time ≠ none
  | .onSubmitted _ => timeR s.page.time ≠ none
  | .build => ∀ todoText ∈ s.rows, buildToDoItem todoText ≠ none
  | _ => True

/-- Every stored task is a time followed by a submitted text. -/
def Stamped (s : Screens L) : Prop :=
  ∀ date, ∀ task ∈ s.page.tasks date, ∃ t : TimeOfDay, ∃ val ∈ s.submitted, task = t.label ++ val

/-- The last time picker returned a chosen time. -/
def Chosen (time : Option String) : Prop := ∃ t : TimeOfDay, time = some t.toString

/-- The add screen is built before the first picker has returned or after a chosen time, and a text
is submitted after a chosen time. -/
def TimeChosen (s : Screens L) : ScreenEvent → Prop
  | .buildAddTodoScreen => s.page.time = none ∨ Chosen s.page.time
  | .onSubmitted _ => Chosen s.page.time
  | _ => True

/-! ### Substrings -/

/-- A text is cut out of the middle of another one. -/
theorem substring_append (a b c : String) :
    substring (a ++ b ++ c) a.length (a.length + b.length) = some b := by
  have hbounds : a.length ≤ a.length + b.length ∧ a.length + b.length ≤ (a ++ b ++ c).length := by
    rw [String.length_append, String.length_append]
    omega
  have hdrop : (a.toList ++ (b.toList ++ c.toList)).drop a.length = b.toList ++ c.toList := by
    rw [← String.length_toList, List.drop_left]
  have htake : (b.toList ++ c.toList).take b.length = b.toList := by
    rw [← String.length_toList, List.take_left]
  rw [substring, if_pos hbounds, String.toList_append, String.toList_append, List.append_assoc,
    hdrop, Nat.add_sub_cancel_left, htake, String.ofList_toList]

theorem length_addLeadingZero : ∀ value : Fin 60, (addLeadingZeroIfNeeded value).length = 2 := by
  decide

theorem length_label (t : TimeOfDay) : t.label.length = 5 := by
  have hhour : (addLeadingZeroIfNeeded t.hour).length = 2 :=
    length_addLeadingZero ⟨t.hour, by omega⟩
  have hminute : (addLeadingZeroIfNeeded t.minute).length = 2 := length_addLeadingZero t.minute
  rw [TimeOfDay.label, String.length_append, String.length_append, hhour, hminute]
  rfl

/-- The five characters are cut out of a chosen time. -/
theorem substring_toString (t : TimeOfDay) : substring t.toString 10 15 = some t.label := by
  have hcut := substring_append "TimeOfDay(" t.label ")"
  rw [length_label] at hcut
  exact hcut

/-- A text with a time in front makes a row. -/
theorem buildToDoItem_label (t : TimeOfDay) (val : String) :
    buildToDoItem (t.label ++ val) = some (t.label, val) := by
  have htitle := substring_append "" t.label val
  have htrailing := substring_append t.label val ""
  rw [String.empty_append, length_label] at htitle
  rw [String.append_empty, length_label] at htrailing
  have hlength : (t.label ++ val).length = 5 + val.length := by
    rw [String.length_append, length_label]
  rw [buildToDoItem, substringFrom, hlength, htrailing]
  show (substring (t.label ++ val) 0 5).bind _ = _
  rw [show substring (t.label ++ val) 0 5 = some t.label from htitle]
  rfl

/-! ### What holds in every run -/

/-- What a picker can leave, and that tasks are stamped. -/
structure Timed (s : Screens L) : Prop where
  time : s.page.time = none ∨ s.page.time = some "null" ∨ Chosen s.page.time
  stamped : Stamped s

theorem chosen_of_picker (picker : Option TimeOfDay) :
    some (pickerToString picker) = some "null" ∨ Chosen (some (pickerToString picker)) := by
  cases picker with
  | none => exact Or.inl rfl
  | some t => exact Or.inr ⟨t, rfl⟩

variable {E} {yMMM} {s : Screens L}

theorem timed_start : Timed (Screens.start E) := by
  refine ⟨Or.inl rfl, fun date task htask => ?_⟩
  rw [show (Screens.start E).page.tasks date = [] from CalendarPageState.tasks_start date] at htask
  exact absurd htask List.not_mem_nil

theorem not_chosen_null : ¬Chosen (some "null") := by
  rintro ⟨t, ht⟩
  have hlength : "null".length = t.toString.length := congrArg String.length (Option.some.inj ht)
  rw [TimeOfDay.toString, String.length_append, String.length_append, length_label] at hlength
  exact absurd hlength (by decide)

/-- What a picker has left can be cut if and only if it is a chosen time. -/
theorem substring_ne_none {time : String} (h : time = "null" ∨ Chosen (some time)) :
    substring time 10 15 ≠ none ↔ Chosen (some time) := by
  rcases h with rfl | hchosen
  · exact iff_of_false (by decide) not_chosen_null
  · refine iff_of_true ?_ hchosen
    obtain ⟨t, ht⟩ := hchosen
    rw [Option.some.inj ht, substring_toString]
    exact Option.some_ne_none _

theorem Timed.picked (h : Timed s) {time : String} (htime : s.page.time = some time) :
    time = "null" ∨ Chosen (some time) := by
  have hcases := h.time
  rw [htime] at hcases
  rcases hcases with hnone | hnull | hchosen
  · exact absurd hnone (Option.some_ne_none time)
  · exact Or.inl (Option.some.inj hnull)
  · exact Or.inr hchosen

theorem not_chosen_none : ¬Chosen none := fun ⟨_, ht⟩ => Option.some_ne_none _ ht.symm

/-- A submission cuts the time if and only if one was chosen. -/
theorem timeR_ne_none (h : Timed s) : timeR s.page.time ≠ none ↔ Chosen s.page.time := by
  cases htime : s.page.time with
  | none => exact iff_of_false (by decide) not_chosen_none
  | some time => exact substring_ne_none (h.picked htime)

/-- The add screen cuts the time unless the last picker was cancelled. -/
theorem timeText_ne_none (h : Timed s) :
    timeText s.page.time ≠ none ↔ s.page.time = none ∨ Chosen s.page.time := by
  cases htime : s.page.time with
  | none => exact iff_of_true (Option.some_ne_none _) (Or.inl rfl)
  | some time =>
    rw [or_iff_right (Option.some_ne_none time)]
    exact substring_ne_none (h.picked htime)

/-- **The condition is exact in one step.** -/
theorem inRange_iff (h : Timed s) (e : ScreenEvent) : InRange s e ↔ TimeChosen s e := by
  cases e with
  | buildAddTodoScreen => exact timeText_ne_none h
  | onSubmitted val => exact timeR_ne_none h
  | build =>
    refine iff_of_true (fun todoText htext => ?_) trivial
    obtain ⟨t, val, -, rfl⟩ := h.stamped _ todoText (List.mem_of_mem_take htext)
    rw [buildToDoItem_label]
    exact Option.some_ne_none _
  | _ => exact Iff.rfl

/-! ### One step -/

theorem stamped_mono {s' : Screens L} (h : Stamped s)
    (htasks : ∀ date, ∀ task ∈ s'.page.tasks date, task ∈ s.page.tasks date)
    (hsubmitted : s.submitted ⊆ s'.submitted) : Stamped s' := by
  intro date task htask
  obtain ⟨t, val, hval, rfl⟩ := h date task (htasks date task htask)
  exact ⟨t, val, hsubmitted hval, rfl⟩

theorem timed_onSubmitted (h : Timed s) (val : String) : Timed (s.onSubmitted E val) := by
  have hsubmitted : s.submitted ⊆ s.submitted ++ [val] := List.subset_append_left _ _
  unfold Screens.onSubmitted
  dsimp only
  cases htime : timeR s.page.time with
  | none => exact ⟨h.time, stamped_mono h.stamped (fun _ _ htask => htask) hsubmitted⟩
  | some time =>
    obtain ⟨t, ht⟩ := (timeR_ne_none h).mp (htime ▸ Option.some_ne_none time)
    rw [ht, timeR, Option.getD_some, substring_toString] at htime
    obtain rfl := Option.some.inj htime
    have hpos : 0 < (t.label ++ val).length := by
      rw [String.length_append, length_label]
      omega
    refine ⟨?_, fun date task htask => ?_⟩
    · rw [(CalendarPageState.addToDoItem_frame (t.label ++ val)).2]
      exact h.time
    · rw [CalendarPageState.tasks_addToDoItem hpos] at htask
      have hcases : task ∈ s.page.tasks date ∨ task = t.label ++ val := by
        split at htask
        · exact (List.mem_append.mp htask).imp_right List.mem_singleton.mp
        · exact Or.inl htask
      rcases hcases with hold | rfl
      · obtain ⟨t', val', hval', rfl⟩ := h.stamped date task hold
        exact ⟨t', val', hsubmitted hval', rfl⟩
      · exact ⟨t, val, List.mem_append_right _ (List.mem_singleton.mpr rfl), rfl⟩

theorem timed_removeTodoItem (h : Timed s) {index : ℕ} {page : CalendarPageState L}
    (hpage : s.page.removeTodoItem E index = some page) : Timed { s with page := page } := by
  obtain ⟨-, te, -, rfl⟩ := CalendarPageState.removeTodoItem_cases hpage
  refine ⟨h.time, stamped_mono h.stamped (fun date task htask => ?_) (List.Subset.refl _)⟩
  have htasks := CalendarPageState.tasks_setTasks (s := s.page) s.page.currentDate2
    ((s.page.tasks s.page.currentDate2).eraseIdx index) date
  change task ∈ (s.page.setTasks s.page.currentDate2 _).tasks date at htask
  rw [htasks] at htask
  split at htask
  · rename_i hd
    rw [hd]
    exact List.mem_of_mem_eraseIdx htask
  · exact htask

theorem timed_step (s : Screens L) (e : ScreenEvent) (s' : Screens L) (h : Timed s)
    (hstep : screenStep E yMMM s e = some s') : Timed s' := by
  cases e with
  | removeTodoItem index =>
    obtain ⟨page, hpage, rfl⟩ := Option.map_eq_some_iff.mp hstep
    exact timed_removeTodoItem h hpage
  | buildAddTodoScreen =>
    obtain ⟨-, hs'⟩ := Option.ite_none_right_eq_some.mp hstep
    rw [← Option.some.inj hs']
    exact h
  | showTimePicker picker =>
    cases hstep
    exact ⟨Or.inr (chosen_of_picker picker), h.stamped⟩
  | onSubmitted val =>
    obtain ⟨-, hs'⟩ := Option.ite_none_right_eq_some.mp hstep
    rw [← Option.some.inj hs']
    exact timed_onSubmitted h val
  | pop =>
    obtain ⟨-, hs'⟩ := Option.ite_none_right_eq_some.mp hstep
    rw [← Option.some.inj hs']
    exact ⟨h.time, h.stamped⟩
  | _ =>
    cases hstep
    exact ⟨h.time, h.stamped⟩

/-! ### Runs -/

/-- **Substrings, exactly.**  In a run no substring is cut out of range and all stored tasks are a
time followed by a submitted text, if and only if the add screen is never built after a cancelled
picker, and every text is submitted after a chosen time. -/
theorem substrings_iff {L : Type} (E : EventLists L) (yMMM : Date → String)
    (events : List ScreenEvent) :
    (Machine.AllSteps (screenStep E yMMM) InRange (Screens.start E) events ∧
        Machine.AllStates (screenStep E yMMM) Stamped (Screens.start E) events) ↔
      Machine.AllSteps (screenStep E yMMM) TimeChosen (Screens.start E) events := by
  have hstamped : Machine.AllStates (screenStep E yMMM) Stamped (Screens.start E) events :=
    (Machine.allStates_of_invariant timed_step events _ timed_start).mono fun s h => h.stamped
  rw [and_iff_left hstamped]
  exact Machine.allSteps_iff (fun s e h => inRange_iff h e)
    (fun s e s' h _ hstep => timed_step s e s' h hstep) events _ timed_start

/-- A text is submitted before a time was chosen. -/
def untimed : List ScreenEvent := [.pushAddTodoScreen, .buildAddTodoScreen, .onSubmitted "call"]

/-- `"null".substring(10,15)` is out of range. -/
theorem substring_out_of_range :
    ¬∀ events,
      Machine.AllSteps (screenStep mapLists englishMonth) InRange (Screens.start mapLists) events ∧
        Machine.AllStates (screenStep mapLists englishMonth) Stamped (Screens.start mapLists)
          events := by
  intro hall
  have h := (hall untimed).1
  have hsubmitted : InRange { Screens.start mapLists with adding := 1 } (.onSubmitted "call") :=
    ((h.2 _ rfl).2 _ rfl).1
  exact hsubmitted (by decide)

end GiftGenie.CalendarPage
