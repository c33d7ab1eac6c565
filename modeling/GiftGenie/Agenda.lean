import GiftGenie.AddTaskScreen
import GiftGenie.TaskEvents

/-!
# The agenda behind the calendar page

What the calendar page is for, in its own terms: an `Agenda` has a selected day and, for each day, a
list of entries, which are a time with a text.  An entry is added with the time that was chosen last;
it is ticked off in a dialog that is about it.

The page keeps none of this.  It has texts whose first five characters are a time, a second map with
an event for each text, a time that is cut out of another text, and dialogs that know a row.  (The
title of a dialog indexes the map of the days by this row, and shows `null`.)
`calendar_refines_agenda`: the page and the agenda can do the same in every run, the dialog always
ticks off the entry whose row was pressed, and the rows show the entries.

Days have 24 hours here, as everywhere in the model of this page: PREV and NEXT move by thirty times
24 hours, which is thirty days where no clock is changed in between.
-/

set_option autoImplicit false

namespace GiftGenie.CalendarPage

open GiftGenie.Library GiftGenie.Library.Gregorian

/-! ### The agenda -/

structure Entry where
  time : TimeOfDay
  text : String
  deriving DecidableEq

/-- `time` is the time chosen last, `adding` the number of entries that are being written, and `asked`
the place of the entry that the open dialog is about. -/
structure Agenda where
  day : Date
  time : Option TimeOfDay := none
  adding : ℕ := 0
  entries : Date → List Entry := fun _ => []
  asked : Option ℕ := none

inductive PageEvent where
  | screen (e : ScreenEvent)
  | onLongPress (index : ℕ)
  | cancel
  | markAsDone

namespace Agenda

variable (a : Agenda)

/-- The selected day gets these entries. -/
def setEntries (entries : List Entry) : Agenda :=
  { a with entries := Function.update a.entries a.day entries }

theorem entries_setEntries (entries : List Entry) (date : Date) :
    (a.setEntries entries).entries date = if date = a.day then entries else a.entries date :=
  Function.update_apply a.entries a.day entries date

def submit (text : String) : Agenda :=
  match a.time with
  | some time => { a.setEntries (a.entries a.day ++ [⟨time, text⟩]) with adding := a.adding - 1 }
  | none => a

def screen : ScreenEvent → Option Agenda
  | .onDayPressed date => some { a with day := date }
  | .onCalendarChanged _ => some a
  | .prev => some { a with day := a.day.subDays 30 }
  | .next => some { a with day := a.day.addDays 30 }
  | .removeTodoItem _ => none
  | .pushAddTodoScreen => some { a with adding := a.adding + 1 }
  | .buildAddTodoScreen => if 0 < a.adding then some a else none
  | .showTimePicker picker => some { a with time := picker }
  | .onSubmitted text => if 0 < a.adding then some (a.submit text) else none
  | .pop => if 0 < a.adding then some { a with adding := a.adding - 1 } else none
  | .build => some a

/-- The entries of the selected day that there is room for. -/
def shown : List Entry := (a.entries a.day).take 10

def step : PageEvent → Option Agenda
  | .screen e => if a.asked = none then a.screen e else none
  | .onLongPress index =>
      if a.asked = none ∧ a.adding = 0 ∧ index < a.shown.length then
        some { a with asked := some index }
      else none
  | .cancel => a.asked.map fun _ => { a with asked := none }
  | .markAsDone =>
      a.asked.map fun index =>
        { a.setEntries ((a.entries a.day).eraseIdx index) with asked := none }

end Agenda

/-! ### The page with its dialogs -/

/-- `prompt` is the row that the open dialog of `_promptRemoveTodoItem` was opened on. -/
structure Dialogs (L : Type) where
  screens : Screens L
  prompt : Option ℕ := none

variable {L : Type} (E : EventLists L) (yMMM : Date → String)

/-- A dialog has to be closed before anything else is done.  A row is only removed by its dialog. -/
def pageStep (s : Dialogs L) : PageEvent → Option (Dialogs L)
  | .screen (.removeTodoItem _) => none
  | .screen e =>
      if s.prompt = none then
        (screenStep E yMMM s.screens e).map fun screens => { s with screens := screens }
      else none
  | .onLongPress index =>
      if s.prompt = none ∧ s.screens.adding = 0 ∧ index < s.screens.rows.length then
        some { s with prompt := some index }
      else none
  | .cancel => s.prompt.map fun _ => { s with prompt := none }
  | .markAsDone =>
      s.prompt.bind fun index =>
        (s.screens.page.removeTodoItem E index).map fun page =>
          { s with screens := { s.screens with page := page }, prompt := none }

def Dialogs.start : Dialogs L where
  screens := Screens.start E

/-- An empty agenda. -/
def Agenda.start (day : Date) : Agenda where
  day := day

/-! ### The page presents the agenda -/

/-- The text that the page keeps of an entry. -/
def Entry.task (e : Entry) : String := e.time.label ++ e.text

/-- What a picker has left in `_time`. -/
inductive Picked : Option String → Option TimeOfDay → Prop where
  | nothing : Picked none none
  | cancelled : Picked (some "null") none
  | chosen (t : TimeOfDay) : Picked (some t.toString) (some t)

/-- The page is in the state of the agenda. -/
structure Presents (s : Dialogs L) (a : Agenda) : Prop where
  day : s.screens.page.currentDate2 = a.day
  time : Picked s.screens.page.time a.time
  adding : s.screens.adding = a.adding
  prompt : s.prompt = a.asked
  tasks : ∀ date, s.screens.page.tasks date = (a.entries date).map Entry.task
  dated : Dated E s.screens.page
  asked : ∀ index, a.asked = some index → index < (a.entries a.day).length

variable {E} {yMMM} {s : Dialogs L} {a : Agenda}

/-- The rows of the page are the entries of the day, cut in two where the time ends. -/
theorem Presents.rows (h : Presents E s a) :
    s.screens.rows.map buildToDoItem = a.shown.map fun e => some (e.time.label, e.text) := by
  rw [Screens.rows, h.tasks, h.day, ← List.map_take, List.map_map, Agenda.shown]
  refine List.map_congr_left fun e _ => ?_
  exact buildToDoItem_label e.time e.text

/-- A day has a mark for each of its entries. -/
theorem Presents.marks (h : Presents E s a) (date : Date) :
    (E.getEvents s.screens.page.markedDateMap date).length = (a.entries date).length := by
  have hlength := h.dated.length date
  rw [titles, List.length_map, h.tasks, List.length_map] at hlength
  exact hlength

theorem presents_start (hE : E.Lawful) :
    Presents E (Dialogs.start E) (.start (CalendarPageState.start E).currentDate2) where
  day := rfl
  time := .nothing
  adding := rfl
  prompt := rfl
  tasks := CalendarPageState.tasks_start
  dated := dated_start hE
  asked := nofun

/-! ### Adding -/

theorem timeR_of_picked {time : Option String} {chosen : Option TimeOfDay} (h : Picked time chosen) :
    timeR time = chosen.map TimeOfDay.label := by
  cases h with
  | nothing => decide
  | cancelled => decide
  | chosen t => exact substring_toString t

theorem presents_onSubmitted (hE : E.Lawful) (h : Presents E s a) (text : String)
    (hprompt : s.prompt = none) :
    Presents E { s with screens := s.screens.onSubmitted E text } (a.submit text) := by
  have htimeR := timeR_of_picked h.time
  cases htime : a.time with
  | none =>
    rw [htime, Option.map_none] at htimeR
    simp only [Screens.onSubmitted, Agenda.submit, htimeR, htime]
    exact ⟨h.day, h.time, h.adding, h.prompt, h.tasks, h.dated, h.asked⟩
  | some t =>
    rw [htime, Option.map_some] at htimeR
    simp only [Screens.onSubmitted, Agenda.submit, htimeR, htime]
    have hpos : 0 < (t.label ++ text).length := by
      rw [String.length_append, length_label]
      omega
    obtain ⟨hday, htime'⟩ :=
      CalendarPageState.addToDoItem_frame (E := E) (s := s.screens.page) (t.label ++ text)
    refine ⟨hday.trans h.day, htime'.symm ▸ h.time, congrArg (· - 1) h.adding, h.prompt, fun date => ?_,
      dated_addToDoItem hE h.dated _, fun index hasked => ?_⟩
    · show (s.screens.page.addToDoItem E (t.label ++ text)).tasks date =
        ((a.setEntries _).entries date).map Entry.task
      rw [CalendarPageState.tasks_addToDoItem hpos, Agenda.entries_setEntries, h.tasks, h.day]
      split
      · rename_i hd
        rw [hd, List.map_append]
        rfl
      · rfl
    · -- no dialog is open while a text is submitted
      have hopen : s.prompt = some index := h.prompt.trans hasked
      rw [hprompt] at hopen
      cases hopen

/-! ### Ticking off -/

theorem presents_markAsDone (hE : E.Lawful) (h : Presents E s a) {index : ℕ}
    (hasked : a.asked = some index) :
    ∃ page, s.screens.page.removeTodoItem E index = some page ∧
      Presents E { s with screens := { s.screens with page := page }, prompt := none }
        { a.setEntries ((a.entries a.day).eraseIdx index) with asked := none } := by
  have hrow : index < (s.screens.page.tasks s.screens.page.currentDate2).length := by
    rw [h.tasks, h.day, List.length_map]
    exact h.asked index hasked
  obtain ⟨page, hpage⟩ := removeTodoItem_of_row h.dated hrow
  refine ⟨page, hpage, ?_⟩
  obtain ⟨-, te, -, hpage'⟩ := CalendarPageState.removeTodoItem_cases hpage
  have hdated := dated_removeTodoItem hE h.dated hpage
  subst hpage'
  refine ⟨h.day, h.time, h.adding, rfl, fun date => ?_, hdated, nofun⟩
  show (s.screens.page.setTasks s.screens.page.currentDate2 _).tasks date =
    ((a.setEntries _).entries date).map Entry.task
  rw [CalendarPageState.tasks_setTasks, Agenda.entries_setEntries, h.day, h.tasks, h.tasks]
  split
  · rw [List.eraseIdx_map]
  · rfl

/-! ### One step -/

theorem picked_picker (picker : Option TimeOfDay) : Picked (some (pickerToString picker)) picker := by
  cases picker with
  | none => exact .cancelled
  | some t => exact .chosen t

/-- Another day is selected while no dialog is open. -/
theorem presents_day (h : Presents E s a) (hprompt : s.prompt = none) {page : CalendarPageState L}
    {date : Date} (hday : page.currentDate2 = date) (htime : page.time = s.screens.page.time)
    (htasks : page.toDoList = s.screens.page.toDoList)
    (hmarks : page.markedDateMap = s.screens.page.markedDateMap) :
    Presents E { s with screens := { s.screens with page := page } } { a with day := date } where
  day := hday
  time := htime.symm ▸ h.time
  adding := h.adding
  prompt := h.prompt
  tasks := fun date' => by
    rw [← h.tasks date', CalendarPageState.tasks, htasks]
    rfl
  dated := by
    refine ⟨fun date' => ?_, fun date' => ?_⟩
    · rw [titles, hmarks]
      exact h.dated.events date'
    · rw [titles, hmarks, CalendarPageState.tasks, htasks]
      exact h.dated.length date'
  asked := fun index hasked => by
    rw [h.prompt.symm.trans hprompt] at hasked
    cases hasked

variable (yMMM) in
/-- What is done while no dialog is open. -/
theorem presents_screen (hE : E.Lawful) (h : Presents E s a) (hprompt : s.prompt = none)
    {e : ScreenEvent} (he : ∀ index, e ≠ .removeTodoItem index) :
    Option.Rel (fun screens a' => Presents E { s with screens := screens } a')
      (screenStep E yMMM s.screens e) (a.screen e) := by
  have hadding : ∀ adding, Presents E { s with screens := { s.screens with adding := adding } }
      { a with adding := adding } :=
    fun _ => ⟨h.day, h.time, rfl, h.prompt, h.tasks, h.dated, h.asked⟩
  cases e with
  | onDayPressed date => exact .some (presents_day h hprompt rfl rfl rfl rfl)
  | onCalendarChanged date =>
    exact .some ⟨h.day, h.time, h.adding, h.prompt, h.tasks, ⟨h.dated.events, h.dated.length⟩,
      h.asked⟩
  | prev => exact .some (presents_day h hprompt (h.day ▸ rfl) rfl rfl rfl)
  | next => exact .some (presents_day h hprompt (h.day ▸ rfl) rfl rfl rfl)
  | removeTodoItem index => exact absurd rfl (he index)
  | pushAddTodoScreen =>
    rw [screenStep, Agenda.screen, h.adding]
    exact .some (hadding (a.adding + 1))
  | buildAddTodoScreen =>
    rw [screenStep, Agenda.screen, h.adding]
    split
    · exact .some h
    · exact .none
  | showTimePicker picker =>
    exact .some ⟨h.day, picked_picker picker, h.adding, h.prompt, h.tasks,
      ⟨h.dated.events, h.dated.length⟩, h.asked⟩
  | onSubmitted text =>
    rw [screenStep, Agenda.screen, h.adding]
    split
    · exact .some (presents_onSubmitted hE h text hprompt)
    · exact .none
  | pop =>
    rw [screenStep, Agenda.screen, h.adding]
    split
    · exact .some (hadding (a.adding - 1))
    · exact .none
  | build => exact .some h

theorem pageStep_screen {e : ScreenEvent} (he : ∀ index, e ≠ .removeTodoItem index) :
    pageStep E yMMM s (.screen e) =
      if s.prompt = none then
        (screenStep E yMMM s.screens e).map fun screens => { s with screens := screens }
      else none := by
  cases e with
  | removeTodoItem index => exact absurd rfl (he index)
  | _ => rfl

variable (yMMM) in
/-- **Page and agenda step together.** -/
theorem presents_step (hE : E.Lawful) (s : Dialogs L) (a : Agenda) (e : PageEvent)
    (h : Presents E s a) : Option.Rel (Presents E) (pageStep E yMMM s e) (a.step e) := by
  cases e with
  | screen e =>
    by_cases he : ∃ index, e = .removeTodoItem index
    · obtain ⟨index, rfl⟩ := he
      have hnone : a.step (.screen (.removeTodoItem index)) = none := ite_self none
      rw [hnone]
      exact .none
    · have he' : ∀ index, e ≠ .removeTodoItem index := fun index hi => he ⟨index, hi⟩
      rw [pageStep_screen he', Agenda.step, ← h.prompt]
      split
      · rename_i hprompt
        have hrel := presents_screen yMMM hE h hprompt he'
        generalize screenStep E yMMM s.screens e = next, a.screen e = next' at hrel
        cases hrel with
        | none => exact .none
        | some hnext => exact .some hnext
      · exact .none
  | onLongPress index =>
    have hlength : s.screens.rows.length = a.shown.length := by
      have hrows := congrArg List.length h.rows
      rwa [List.length_map, List.length_map] at hrows
    rw [pageStep, Agenda.step, h.prompt, h.adding, hlength]
    split
    · rename_i hopen
      refine .some ⟨h.day, h.time, h.adding, rfl, h.tasks, h.dated, fun index' hasked => ?_⟩
      have hshown := hopen.2.2
      rw [Agenda.shown, List.length_take] at hshown
      rw [← Option.some.inj hasked]
      show index < (a.entries a.day).length
      omega
    · exact .none
  | cancel =>
    rw [pageStep, Agenda.step, h.prompt]
    cases a.asked with
    | none => exact .none
    | some index => exact .some ⟨h.day, h.time, h.adding, rfl, h.tasks, h.dated, nofun⟩
  | markAsDone =>
    rw [pageStep, Agenda.step, h.prompt]
    cases hasked : a.asked with
    | none => exact .none
    | some index =>
      obtain ⟨page, hpage, hpresents⟩ := presents_markAsDone hE h hasked
      rw [Option.bind_some, hpage]
      exact .some hpresents

/-! ### Runs -/

/-- **The calendar refines an agenda.**  Every run of the page with its screens and dialogs is possible
exactly if it is one of the agenda, and leads to the same state of both: the rows are the times and
the texts of the first ten entries of the day, every day has a mark for each of its entries, and an
open dialog is about the entry whose row was pressed; so no dialog is ever about a row that has
gone. -/
theorem calendar_refines_agenda {L : Type} (E : EventLists L) (hE : E.Lawful) (yMMM : Date → String)
    (events : List PageEvent) :
    Option.Rel (fun s a => Presents E s a ∧
        s.screens.rows.map buildToDoItem = a.shown.map (fun e => some (e.time.label, e.text)) ∧
        ∀ date, (E.getEvents s.screens.page.markedDateMap date).length = (a.entries date).length)
      (Machine.run (pageStep E yMMM) (Dialogs.start E) events)
      (Machine.run Agenda.step (.start (CalendarPageState.start E).currentDate2) events) := by
  have hrel := Machine.run_rel (presents_step yMMM hE) events _ _ (presents_start hE)
  generalize Machine.run (pageStep E yMMM) (Dialogs.start E) events = s,
    Machine.run Agenda.step (.start (CalendarPageState.start E).currentDate2) events = a at hrel
  cases hrel with
  | none => exact .none
  | some h => exact .some ⟨h, h.rows, h.marks⟩

/-- A call and a mail are entered on two add screens, one on top of the other, and the call is done. -/
def callDone : List PageEvent :=
  [.screen .pushAddTodoScreen, .screen .pushAddTodoScreen,
    .screen (.showTimePicker (some ⟨9, 30⟩)), .screen (.onSubmitted "call"),
    .screen (.showTimePicker (some ⟨10, 15⟩)), .screen (.onSubmitted "mail"), .onLongPress 0,
    .markAsDone]

/-- The mail is left. -/
theorem calendar_refines_agenda_callDone :
    ∃ s, Machine.run (pageStep mapLists englishMonth) (Dialogs.start mapLists) callDone = some s ∧
      s.screens.rows.map buildToDoItem = [some ("10:15", "mail")] := by
  obtain ⟨a, hrun, hshown⟩ : ∃ a, Machine.run Agenda.step
      (.start (CalendarPageState.start mapLists).currentDate2) callDone = some a ∧
      a.shown = [⟨⟨10, 15⟩, "mail"⟩] := ⟨_, rfl, by decide⟩
  have hrel := calendar_refines_agenda mapLists lawful_mapLists englishMonth callDone
  rw [hrun] at hrel
  generalize Machine.run (pageStep mapLists englishMonth) (Dialogs.start mapLists) callDone = s at hrel
  cases hrel with
  | some h =>
    rw [hshown] at h
    exact ⟨_, rfl, h.2.1.trans (by decide)⟩

end GiftGenie.CalendarPage
