import GiftGenie.Library.Gregorian

/-!
# The calendar page

`CalendarPageState` keeps the tasks of a day twice: as the texts in `_toDoList` and as the events of
`_markedDateMap`.  `_addToDoItem` appends to both; `_removeTodoItem` deletes a text by its position,
and an event by its value.

The page uses two packages, which are parameters here: `EventList` of the calendar widget
(`EventLists`, with its documented behaviour in `Lawful`), and `DateFormat.yMMM` (`yMMM`).
-/

set_option autoImplicit false

namespace GiftGenie.CalendarPage

open GiftGenie.Library.Gregorian

/-- The static `_eventIcon` is the only icon. -/
inductive Icon where
  | eventIcon
  deriving DecidableEq, Repr

/-- Its `==` compares the three fields. -/
structure Event where
  title : String
  date : Date
  icon : Icon
  deriving DecidableEq

/-- The constructor and the methods of `EventList<Event>`; the map that the constructor takes is a
list of its entries. -/
structure EventLists (L : Type) where
  new : List (Date × List Event) → L
  getEvents : L → Date → List Event
  add : L → Date → Event → L
  remove : L → Date → Event → L

/-- There is one list for each date; `add` appends to it, and `remove` deletes the first element
that is equal. -/
structure EventLists.Lawful {L : Type} (E : EventLists L) : Prop where
  getEvents_new : ∀ events date, E.getEvents (E.new events) date = (events.lookup date).getD []
  getEvents_add : ∀ l date event date', E.getEvents (E.add l date event) date' =
    if date' = date then E.getEvents l date' ++ [event] else E.getEvents l date'
  getEvents_remove : ∀ l date event date', E.getEvents (E.remove l date event) date' =
    if date' = date then (E.getEvents l date').erase event else E.getEvents l date'

/-- `EventList` as a function of the date. -/
def mapLists : EventLists (Date → List Event) where
  new := fun events date => (events.lookup date).getD []
  getEvents := fun l date => l date
  add := fun l date event => Function.update l date (l date ++ [event])
  remove := fun l date event => Function.update l date ((l date).erase event)

theorem lawful_mapLists : mapLists.Lawful where
  getEvents_new := fun _ _ => rfl
  getEvents_add := fun l date event date' => by
    by_cases h : date' = date
    · simp [mapLists, h]
    · simp [mapLists, h]
  getEvents_remove := fun l date event date' => by
    by_cases h : date' = date
    · simp [mapLists, h]
    · simp [mapLists, h]

/-- The abbreviated names of the months in English. -/
def monthNames : List String :=
  ["Jan", "Feb", "Mar", "Apr", "May", "Jun", "Jul", "Aug", "Sep", "Oct", "Nov", "Dec"]

/-- `DateFormat.yMMM().format(date)` in English. -/
def englishMonth (date : Date) : String :=
  monthNames.getD (date.month.number - 1) "" ++ " " ++ toString date.month.year.natAbs

structure CalendarPageState (L : Type) where
  currentDate2 : Date
  currentMonth : String
  time : Option String
  toDoList : Date → Option (List String)
  markedDateMap : L

namespace CalendarPageState

variable {L : Type} (E : EventLists L) (yMMM : Date → String)

/-- The page as it is created. -/
def start : CalendarPageState L where
  currentDate2 := ⟨⟨2019, 4, by decide, by decide⟩, 23, by decide, by decide⟩
  currentMonth := ""
  time := none
  toDoList := fun date =>
    if date = ⟨⟨1900, 1, by decide, by decide⟩, 1, by decide, by decide⟩ then some [] else none
  markedDateMap := E.new [(⟨⟨2019, 4, by decide, by decide⟩, 22, by decide, by decide⟩, [])]

variable (s : CalendarPageState L)

/-! ### The calendar -/

def onDayPressed (date : Date) : CalendarPageState L := { s with currentDate2 := date }

def onCalendarChanged (date : Date) : CalendarPageState L := { s with currentMonth := yMMM date }

/-- The PREV button.  It subtracts thirty times 24 hours, and days have 24 hours here: no clock is
changed. -/
def prev : CalendarPageState L :=
  let date := s.currentDate2.subDays 30
  { s with currentDate2 := date, currentMonth := yMMM date }

/-- The NEXT button, which adds them. -/
def next : CalendarPageState L :=
  let date := s.currentDate2.addDays 30
  { s with currentDate2 := date, currentMonth := yMMM date }

/-! ### The tasks -/

/-- `_toDoList[date] = tasks`. -/
def setTasks (date : Date) (tasks : List String) : CalendarPageState L :=
  { s with toDoList := Function.update s.toDoList date (some tasks) }

def addToDoItem (task : String) : CalendarPageState L :=
  if 0 < task.length then
    let s := match s.toDoList s.currentDate2 with
      | some tasks => s.setTasks s.currentDate2 (tasks ++ [task])
      | none => s.setTasks s.currentDate2 [task]
    { s with
      markedDateMap := E.add s.markedDateMap s.currentDate2 ⟨task, s.currentDate2, .eventIcon⟩ }
  else s

/-- `_removeTodoItem`; `none` where it throws, which is before anything is changed. -/
def removeTodoItem (index : ℕ) : Option (CalendarPageState L) := do
  let te ← (E.getEvents s.markedDateMap s.currentDate2)[index]?
  let tasks ← s.toDoList s.currentDate2
  let s' := s.setTasks s.currentDate2 (tasks.eraseIdx index)
  if index < tasks.length then
    some { s' with markedDateMap := E.remove s.markedDateMap s.currentDate2 te }
  else none

/-- The tasks of a date, none where `_toDoList` has no such key. -/
def tasks (date : Date) : List String := (s.toDoList date).getD []

/-! ### What a task does to the two lists -/

variable {E} {s}

theorem tasks_start (date : Date) : (start E).tasks date = [] := by
  unfold tasks start
  dsimp only
  split <;> rfl

theorem tasks_setTasks (date : Date) (tasks : List String) (date' : Date) :
    (s.setTasks date tasks).tasks date' = if date' = date then tasks else s.tasks date' := by
  by_cases h : date' = date
  · simp [CalendarPageState.tasks, setTasks, h]
  · simp [CalendarPageState.tasks, setTasks, h]

theorem addToDoItem_of_empty {task : String} (h : task.length = 0) : s.addToDoItem E task = s := by
  rw [addToDoItem, if_neg (by omega)]

/-- A text is appended to the tasks of the selected date. -/
theorem tasks_addToDoItem {task : String} (h : 0 < task.length) (date : Date) :
    (s.addToDoItem E task).tasks date =
      if date = s.currentDate2 then s.tasks date ++ [task] else s.tasks date := by
  have hset : ∀ tasks : List String, s.tasks s.currentDate2 ++ [task] = tasks →
      (s.setTasks s.currentDate2 tasks).tasks date =
        if date = s.currentDate2 then s.tasks date ++ [task] else s.tasks date := by
    rintro tasks rfl
    rw [tasks_setTasks]
    by_cases hd : date = s.currentDate2
    · rw [if_pos hd, if_pos hd, hd]
    · rw [if_neg hd, if_neg hd]
  rw [addToDoItem, if_pos h]
  cases htasks : s.toDoList s.currentDate2 with
  | none => exact hset [task] (by rw [CalendarPageState.tasks, htasks]; rfl)
  | some tasks => exact hset (tasks ++ [task]) (by rw [CalendarPageState.tasks, htasks]; rfl)

theorem addToDoItem_frame (task : String) :
    (s.addToDoItem E task).currentDate2 = s.currentDate2 ∧ (s.addToDoItem E task).time = s.time := by
  unfold addToDoItem
  split
  · cases s.toDoList s.currentDate2 <;> exact ⟨rfl, rfl⟩
  · exact ⟨rfl, rfl⟩

theorem tasks_addToDoItem_self {task : String} (h : 0 < task.length) :
    (s.addToDoItem E task).tasks (s.addToDoItem E task).currentDate2 =
      s.tasks s.currentDate2 ++ [task] := by
  rw [(addToDoItem_frame task).1, tasks_addToDoItem h, if_pos rfl]

theorem getEvents_addToDoItem (hE : E.Lawful) {task : String} (h : 0 < task.length) (date : Date) :
    E.getEvents (s.addToDoItem E task).markedDateMap date =
      if date = s.currentDate2
      then E.getEvents s.markedDateMap date ++ [⟨task, s.currentDate2, .eventIcon⟩]
      else E.getEvents s.markedDateMap date := by
  rw [addToDoItem, if_pos h, ← hE.getEvents_add]
  cases s.toDoList s.currentDate2 <;> rfl

/-- Everything a removal that does not throw has done. -/
theorem removeTodoItem_cases {index : ℕ} {s' : CalendarPageState L}
    (h : s.removeTodoItem E index = some s') :
    index < (s.tasks s.currentDate2).length ∧
      ∃ te, (E.getEvents s.markedDateMap s.currentDate2)[index]? = some te ∧
        s' = { s.setTasks s.currentDate2 ((s.tasks s.currentDate2).eraseIdx index) with
          markedDateMap := E.remove s.markedDateMap s.currentDate2 te } := by
  simp only [removeTodoItem, Option.bind_eq_bind, Option.bind_eq_some_iff,
    Option.ite_none_right_eq_some, Option.some.injEq] at h
  obtain ⟨te, hte, tasks, htasks, hlt, rfl⟩ := h
  have heq : s.tasks s.currentDate2 = tasks := by rw [CalendarPageState.tasks, htasks]; rfl
  rw [heq]
  exact ⟨hlt, te, hte, rfl⟩

end CalendarPageState

end GiftGenie.CalendarPage
