import GiftGenie.CalendarPage
import GiftGenie.Library.ListSet
import GiftGenie.Library.Machine

/-!
# Tasks and their events

A day is `Aligned` if its events are titled as its tasks, in order.  An addition keeps this.  A
removal deletes the task in the row and the first event that is equal to the one in the row, and so
keeps it exactly if no other text stands between the row and the first row with its text
(`FirstOfItsText`).

`aligned_iff` is exact: the days are aligned throughout a run if and only if every row is removed
under this condition.
-/

set_option autoImplicit false

namespace GiftGenie.CalendarPage

open GiftGenie.Library GiftGenie.Library.Gregorian
open CalendarPageState (start)

/-- What the page does with its days. -/
inductive DayAction where
  | onDayPressed (date : Date)
  | prev
  | next
  | addToDoItem (task : String)
  | removeTodoItem (index : ℕ)

variable {L : Type} (E : EventLists L) (yMMM : Date → String)

/-- One step of the page; `none` for a removal that throws. -/
def dayStep (s : CalendarPageState L) : DayAction → Option (CalendarPageState L)
  | .onDayPressed date => some (s.onDayPressed date)
  | .prev => some (s.prev yMMM)
  | .next => some (s.next yMMM)
  | .addToDoItem task => some (s.addToDoItem E task)
  | .removeTodoItem index => s.removeTodoItem E index

/-- The titles of the events of a date. -/
def titles (s : CalendarPageState L) (date : Date) : List String :=
  (E.getEvents s.markedDateMap date).map Event.title

def Aligned (s : CalendarPageState L) : Prop := ∀ date, titles E s date = s.tasks date

/-- All texts from the first row with the text of the removed one up to it are this text. -/
def FirstOfItsText (s : CalendarPageState L) : DayAction → Prop
  | .removeTodoItem index => ∀ j k, j ≤ k → k ≤ index →
      (s.tasks s.currentDate2)[j]? = (s.tasks s.currentDate2)[index]? →
      (s.tasks s.currentDate2)[k]? = (s.tasks s.currentDate2)[index]?
  | _ => True

/-! ### What holds in every run -/

/-- The event that `_addToDoItem` makes. -/
def eventOf (date : Date) (title : String) : Event := ⟨title, date, .eventIcon⟩

theorem eventOf_injective (date : Date) : Function.Injective (eventOf date) :=
  fun _ _ h => congrArg Event.title h

/-- The events of a date were made for it, and there are as many as tasks. -/
structure Dated (s : CalendarPageState L) : Prop where
  events : ∀ date, E.getEvents s.markedDateMap date = (titles E s date).map (eventOf date)
  length : ∀ date, (titles E s date).length = (s.tasks date).length

variable {E} {yMMM} {s : CalendarPageState L}

theorem titles_start (hE : E.Lawful) (date : Date) : titles E (start E) date = [] := by
  have hempty : ∀ day : Date, (([(day, [])] : List (Date × List Event)).lookup date).getD [] = [] := by
    intro day
    rw [List.lookup_cons]
    cases date == day <;> rfl
  unfold titles start
  dsimp only
  rw [hE.getEvents_new, hempty]
  rfl

theorem dated_start (hE : E.Lawful) : Dated E (start E) := by
  refine ⟨fun date => ?_, fun date => ?_⟩
  · have htitles := titles_start hE date
    rw [htitles]
    exact List.map_eq_nil_iff.mp htitles
  · rw [titles_start hE, CalendarPageState.tasks_start]

/-- An addition adds its title. -/
theorem titles_addToDoItem (hE : E.Lawful) {task : String} (h : 0 < task.length) (date : Date) :
    titles E (s.addToDoItem E task) date =
      if date = s.currentDate2 then titles E s date ++ [task] else titles E s date := by
  rw [titles, CalendarPageState.getEvents_addToDoItem hE h]
  split
  · rw [List.map_append]
    rfl
  · rfl

theorem dated_addToDoItem (hE : E.Lawful) (hs : Dated E s) (task : String) :
    Dated E (s.addToDoItem E task) := by
  by_cases h : 0 < task.length
  · refine ⟨fun date => ?_, fun date => ?_⟩
    · rw [titles_addToDoItem hE h, CalendarPageState.getEvents_addToDoItem hE h, hs.events date]
      split
      · rename_i hd
        subst hd
        rw [List.map_append]
        rfl
      · rfl
    · rw [titles_addToDoItem hE h, CalendarPageState.tasks_addToDoItem h]
      split
      · rw [List.length_append, List.length_append, hs.length date]
      · exact hs.length date
  · rw [CalendarPageState.addToDoItem_of_empty (by omega)]
    exact hs

/-- A row can be removed: the task and the event are there. -/
theorem removeTodoItem_of_row (hs : Dated E s) {index : ℕ}
    (h : index < (s.tasks s.currentDate2).length) :
    ∃ s', s.removeTodoItem E index = some s' := by
  have hlength := hs.length s.currentDate2
  rw [titles, List.length_map] at hlength
  have hevent : index < (E.getEvents s.markedDateMap s.currentDate2).length := by omega
  unfold CalendarPageState.removeTodoItem
  rw [List.getElem?_eq_getElem hevent]
  cases htasks : s.toDoList s.currentDate2 with
  | none =>
    rw [CalendarPageState.tasks, htasks] at h
    exact absurd h (Nat.not_lt_zero index)
  | some tasks =>
    rw [CalendarPageState.tasks, htasks] at h
    exact ⟨_, if_pos h⟩

/-- A removal deletes a task by its row, and the first event with the title in this row. -/
theorem removeTodoItem_effect (hE : E.Lawful) (hs : Dated E s) {index : ℕ}
    {s' : CalendarPageState L} (h : s.removeTodoItem E index = some s') :
    ∃ title, (titles E s s.currentDate2)[index]? = some title ∧ ∀ date,
      s'.tasks date = (if date = s.currentDate2
        then (s.tasks s.currentDate2).eraseIdx index else s.tasks date) ∧
      E.getEvents s'.markedDateMap date = ((if date = s.currentDate2
        then (titles E s s.currentDate2).erase title else titles E s date).map (eventOf date)) := by
  obtain ⟨-, te, hte, rfl⟩ := CalendarPageState.removeTodoItem_cases h
  rw [hs.events, List.getElem?_map, Option.map_eq_some_iff] at hte
  obtain ⟨title, htitle, rfl⟩ := hte
  refine ⟨title, htitle, fun date => ⟨CalendarPageState.tasks_setTasks _ _ _, ?_⟩⟩
  dsimp only
  rw [hE.getEvents_remove]
  split
  · rename_i hd
    subst hd
    rw [hs.events, List.map_erase (eventOf_injective _)]
  · exact hs.events date

theorem titles_of_events {date : Date} {xs : List String}
    (h : E.getEvents s.markedDateMap date = xs.map (eventOf date)) : titles E s date = xs := by
  rw [titles, h, List.map_map]
  exact List.map_id xs

theorem dated_removeTodoItem (hE : E.Lawful) (hs : Dated E s) {index : ℕ}
    {s' : CalendarPageState L} (h : s.removeTodoItem E index = some s') : Dated E s' := by
  obtain ⟨hrow, -⟩ := CalendarPageState.removeTodoItem_cases h
  obtain ⟨title, htitle, heffect⟩ := removeTodoItem_effect hE hs h
  refine ⟨fun date => ?_, fun date => ?_⟩
  · rw [titles_of_events (heffect date).2]
    exact (heffect date).2
  · rw [titles_of_events (heffect date).2, (heffect date).1]
    split
    · rw [List.length_erase_of_mem (List.mem_of_getElem? htitle), List.length_eraseIdx_of_lt hrow,
        hs.length]
    · exact hs.length date

theorem dated_step (hE : E.Lawful) (s : CalendarPageState L) (action : DayAction)
    (s' : CalendarPageState L) (hs : Dated E s) (h : dayStep E yMMM s action = some s') :
    Dated E s' := by
  cases action with
  | addToDoItem task =>
    cases h
    exact dated_addToDoItem hE hs task
  | removeTodoItem index => exact dated_removeTodoItem hE hs h
  | _ =>
    cases h
    exact ⟨hs.events, hs.length⟩

/-! ### One step -/

theorem aligned_removeTodoItem (hE : E.Lawful) (hs : Dated E s) (halign : Aligned E s) {index : ℕ}
    {s' : CalendarPageState L} (h : s.removeTodoItem E index = some s') :
    Aligned E s' ↔ FirstOfItsText s (.removeTodoItem index) := by
  obtain ⟨title, htitle, heffect⟩ := removeTodoItem_effect hE hs h
  rw [halign] at htitle
  have hday : Aligned E s' ↔
      (s.tasks s.currentDate2).erase title = (s.tasks s.currentDate2).eraseIdx index := by
    constructor
    · intro hall
      have hdate := hall s.currentDate2
      rw [titles_of_events (heffect _).2, (heffect _).1, if_pos rfl, if_pos rfl, halign] at hdate
      exact hdate
    · intro hsame date
      rw [titles_of_events (heffect date).2, (heffect date).1, halign, hsame]
      split
      · rfl
      · exact halign date
  rw [hday, eq_comm, ListSet.eraseIdx_eq_erase_iff htitle, FirstOfItsText, htitle]

theorem aligned_addToDoItem (hE : E.Lawful) (halign : Aligned E s) (task : String) :
    Aligned E (s.addToDoItem E task) := by
  intro date
  by_cases h : 0 < task.length
  · rw [titles_addToDoItem hE h, CalendarPageState.tasks_addToDoItem h, halign]
  · rw [CalendarPageState.addToDoItem_of_empty (by omega)]
    exact halign date

theorem aligned_step (hE : E.Lawful) (s : CalendarPageState L) (action : DayAction)
    (s' : CalendarPageState L) (hs : Dated E s) (halign : Aligned E s)
    (h : dayStep E yMMM s action = some s') : Aligned E s' ↔ FirstOfItsText s action := by
  cases action with
  | addToDoItem task =>
    cases h
    exact iff_of_true (aligned_addToDoItem hE halign task) trivial
  | removeTodoItem index => exact aligned_removeTodoItem hE hs halign h
  | _ =>
    cases h
    exact iff_of_true halign trivial

/-! ### Runs -/

theorem aligned_start (hE : E.Lawful) : Aligned E (start E) :=
  fun date => (titles_start hE date).trans (CalendarPageState.tasks_start date).symm

/-- In every state of a run a row of the selected date can be removed without an error. -/
theorem rows_removable (hE : E.Lawful) {actions : List DayAction}
    (hrun : Machine.run (dayStep E yMMM) (start E) actions = some s) {index : ℕ}
    (h : index < (s.tasks s.currentDate2).length) : ∃ s', s.removeTodoItem E index = some s' :=
  removeTodoItem_of_row (Machine.run_invariant (dated_step hE) actions _ s (dated_start hE) hrun) h

/-- **Tasks and events, exactly.**  Every date has the events of its tasks in all states of a run if
and only if, whenever a row is removed, no other text stands between it and the first row with its
text. -/
theorem aligned_iff {L : Type} (E : EventLists L) (hE : E.Lawful) (yMMM : Date → String)
    (actions : List DayAction) (s : CalendarPageState L)
    (hrun : Machine.run (dayStep E yMMM) (start E) actions = some s) :
    Machine.AllStates (dayStep E yMMM) (Aligned E) (start E) actions ↔
      Machine.AllSteps (dayStep E yMMM) FirstOfItsText (start E) actions :=
  Machine.allStates_iff_allSteps (dated_step hE) (aligned_step hE) actions _ s (dated_start hE)
    (aligned_start hE) hrun

/-- Two different tasks, and the second is done. -/
def twoTasks : List DayAction :=
  [.addToDoItem "09:00 call", .addToDoItem "10:00 mail", .removeTodoItem 1]

/-- The page with the two tasks. -/
def callAndMail : CalendarPageState (Date → List Event) :=
  ((start mapLists).addToDoItem mapLists "09:00 call").addToDoItem mapLists "10:00 mail"

theorem tasks_callAndMail :
    callAndMail.tasks callAndMail.currentDate2 = ["09:00 call", "10:00 mail"] := by
  rw [callAndMail, CalendarPageState.tasks_addToDoItem_self (by decide),
    CalendarPageState.tasks_addToDoItem_self (by decide), CalendarPageState.tasks_start]
  rfl

theorem dated_callAndMail : Dated mapLists callAndMail :=
  dated_addToDoItem lawful_mapLists
    (dated_addToDoItem lawful_mapLists (dated_start lawful_mapLists) _) _

theorem firstOfItsText_twoTasks :
    Machine.AllSteps (dayStep mapLists englishMonth) FirstOfItsText (start mapLists) twoTasks := by
  have hlast : FirstOfItsText callAndMail (.removeTodoItem 1) := by
    intro j k hjk hk hj
    rw [tasks_callAndMail] at hj ⊢
    have hj' : j ≠ 0 := by
      rintro rfl
      exact absurd hj (by decide)
    obtain rfl : k = 1 := by omega
    rfl
  refine ⟨trivial, fun s hs => ⟨trivial, fun s' hs' => ⟨?_, fun _ _ => trivial⟩⟩⟩
  cases hs
  cases hs'
  exact hlast

theorem aligned_iff_twoTasks :
    Machine.AllStates (dayStep mapLists englishMonth) (Aligned mapLists) (start mapLists)
      twoTasks := by
  have hrow : 1 < (callAndMail.tasks callAndMail.currentDate2).length := by
    rw [tasks_callAndMail]
    decide
  obtain ⟨s, hs⟩ := removeTodoItem_of_row dated_callAndMail hrow
  have hrun : Machine.run (dayStep mapLists englishMonth) (start mapLists) twoTasks = some s :=
    Machine.run_cons.mpr ⟨_, rfl, Machine.run_cons.mpr ⟨callAndMail, rfl,
      Machine.run_cons.mpr ⟨s, hs, rfl⟩⟩⟩
  exact (aligned_iff mapLists lawful_mapLists englishMonth twoTasks s hrun).mpr
    firstOfItsText_twoTasks

/-- The call is entered once more, and this third task is done. -/
def repeatedTask : List DayAction :=
  [.addToDoItem "09:00 call", .addToDoItem "10:00 mail", .addToDoItem "09:00 call",
    .removeTodoItem 2]

/-- What is left is a call and a mail as tasks, and a mail and a call as events. -/
theorem not_aligned :
    ¬∀ s, Machine.run (dayStep mapLists englishMonth) (start mapLists) repeatedTask = some s →
      Aligned mapLists s := by
  intro h
  have hdated : Dated mapLists (callAndMail.addToDoItem mapLists "09:00 call") :=
    dated_addToDoItem lawful_mapLists dated_callAndMail _
  have haligned : Aligned mapLists (callAndMail.addToDoItem mapLists "09:00 call") :=
    aligned_addToDoItem lawful_mapLists (aligned_addToDoItem lawful_mapLists
      (aligned_addToDoItem lawful_mapLists (aligned_start lawful_mapLists) _) _) _
  have htasks := CalendarPageState.tasks_addToDoItem_self (E := mapLists) (s := callAndMail)
    (show 0 < "09:00 call".length by decide)
  rw [tasks_callAndMail] at htasks
  obtain ⟨s, hs⟩ := removeTodoItem_of_row hdated (by rw [htasks]; show 2 < 3; omega)
  have hrun : Machine.run (dayStep mapLists englishMonth) (start mapLists) repeatedTask = some s :=
    Machine.run_cons.mpr ⟨_, rfl, Machine.run_cons.mpr ⟨callAndMail, rfl,
      Machine.run_cons.mpr ⟨_, rfl, Machine.run_cons.mpr ⟨s, hs, rfl⟩⟩⟩⟩
  -- the mail stands between the two calls
  have hfirst := (aligned_removeTodoItem lawful_mapLists hdated haligned hs).mp (h s hrun) 0 1
    (by omega) (by omega)
  rw [htasks] at hfirst
  exact absurd (hfirst rfl) (by decide)

end GiftGenie.CalendarPage
