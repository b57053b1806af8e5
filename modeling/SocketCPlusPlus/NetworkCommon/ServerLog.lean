import Mathlib.Logic.Function.Basic
import SocketCPlusPlus.Foundation.History
import SocketCPlusPlus.Utils.Conversions

/-! The log file of a server. A line gets the date only when the second has changed since the last
one that got it, and the reader of a file has to carry it on. -/
namespace SocketCPlusPlus.NetworkCommon
open Foundation Utils

abbrev Text : Type := List UInt8

/-- A line of a log file, without the columns and the ornaments of its format. -/
inductive Line where
  | blank
  | ornament
  | processName (name : Text)
  | created (date : Text)
  | newLog
  | separator (buffer : Text)
  | entry (filterName : Text) (priority : Int32) (buffer : Text) (timeString : Option Text)
  deriving DecidableEq, Repr

/-- The date that a line shows, if it shows one. -/
def Line.date? : Line → Option Text
  | .created date => some date
  | .entry _ _ _ timeString => timeString
  | _ => none

/-- The files by their names and the one that is open. Times are seconds. -/
structure ServerLog where
  files : Text → List Line
  loggingFile : Option Text
  loggingFilterName : Text
  lastTimeLogged : Nat
  isCreatingFile : Bool

namespace ServerLog

def logTempBufferSize : Nat := 512

def new (files : Text → List Line) : ServerLog where
  files := files
  loggingFile := none
  loggingFilterName := []
  lastTimeLogged := 0
  isCreatingFile := false

/-- A stream that is not open takes nothing. -/
def write (log : ServerLog) (lines : List Line) : ServerLog :=
  match log.loggingFile with
  | none => log
  | some file => { log with files := Function.update log.files file (log.files file ++ lines) }

/-- A character that is doubled at the start of a line of separators. -/
def isSeparator (buffer : Text) : Bool :=
  buffer.getD 0 0 = buffer.getD 1 0 && [45, 42, 61, 43].contains (buffer.getD 0 0)

section Clock
variable (gmtime : Int → Tm) (mktime : Tm → Int)

/-- `GetDateInUTC()`, with what it reads from the clock. -/
def date (rawtime : Nat) : Text := getDateInUTCFromNow gmtime mktime false rawtime 0 0 0

def header (processName : Text) (rawtime : Nat) : List Line :=
  [.blank, .blank, .blank, .ornament, .ornament, .processName processName,
    .created (date gmtime mktime rawtime), .newLog, .ornament, .ornament]

/-- The system opens a file for appending or does not. -/
def createLogFile (log : ServerLog) (externalFilename processName : Text)
    (erasePreviousContents opened : Bool) (rawtime : Nat) : ServerLog :=
  if log.isCreatingFile then log
  else
    let files := if erasePreviousContents then Function.update log.files externalFilename []
      else log.files
    let log := { log with
      files := files
      loggingFilterName := processName
      loggingFile := if opened then some externalFilename else none }
    if !erasePreviousContents then log.write (header gmtime mktime processName rawtime) else log

/-- The clock is read to compare, and once more for the date. -/
def fileLog (log : ServerLog) (priority : Int32) (buffer : Text) (currentTime rawtime : Nat) :
    ServerLog :=
  if log.loggingFile.isNone then log
  else if isSeparator buffer then log.write [.separator buffer]
  else if log.lastTimeLogged < currentTime then
    { log with lastTimeLogged := currentTime }.write
      [.entry log.loggingFilterName priority buffer (some (date gmtime mktime rawtime))]
  else log.write [.entry log.loggingFilterName priority buffer none]

/-- What the format printed, cut to the buffer. -/
def logMessage (log : ServerLog) (priority : Int32) (printed : Text) (currentTime rawtime : Nat) :
    ServerLog :=
  log.fileLog gmtime mktime priority (printed.take (logTempBufferSize - 2)) currentTime rawtime

def fileLogClose (log : ServerLog) : ServerLog := { log with loggingFile := none }

/-- The calls, with what the clock shows where they may read it. It can be set, also back. -/
inductive Event where
  | create (externalFilename processName : Text) (erasePreviousContents opened : Bool)
      (rawtime : Nat)
  | message (priority : Int32) (printed : Text) (currentTime rawtime : Nat)
  | close

inductive Step : ServerLog → Event → ServerLog → Prop
  | create (log : ServerLog) (externalFilename processName : Text)
      (erasePreviousContents opened : Bool) (rawtime : Nat) :
      Step log (.create externalFilename processName erasePreviousContents opened rawtime)
        (log.createLogFile gmtime mktime externalFilename processName erasePreviousContents opened
          rawtime)
  | message (log : ServerLog) (priority : Int32) (printed : Text) (currentTime rawtime : Nat) :
      Step log (.message priority printed currentTime rawtime)
        (log.logMessage gmtime mktime priority printed currentTime rawtime)
  | close (log : ServerLog) : Step log .close log.fileLogClose

end Clock

/-! Reading a file. The reader tells the lines and their columns apart. -/

/-- The last date shown. -/
def lastDate (shown : Option Text) (lines : List Line) : Option Text :=
  lines.foldl (fun shown line => line.date? <|> shown) shown

/-- The dates of the entries, each its own or the last one above it. -/
def entryDates : Option Text → List Line → List (Option Text)
  | _, [] => []
  | shown, line :: lines =>
    let shown := line.date? <|> shown
    match line with
    | .entry .. => shown :: entryDates shown lines
    | _ => entryDates shown lines

theorem entryDates_append (shown : Option Text) (xs ys : List Line) :
    entryDates shown (xs ++ ys) = entryDates shown xs ++ entryDates (lastDate shown xs) ys := by
  induction xs generalizing shown with
  | nil => rfl
  | cons line xs ih =>
    rw [List.cons_append]
    cases line with
    | entry filterName priority buffer timeString =>
      exact congrArg (List.cons _) (ih _)
    | blank => exact ih _
    | ornament => exact ih _
    | processName name => exact ih _
    | created date => exact ih _
    | newLog => exact ih _
    | separator buffer => exact ih _

theorem lastDate_append (shown : Option Text) (xs ys : List Line) :
    lastDate shown (xs ++ ys) = lastDate (lastDate shown xs) ys := List.foldl_append

/-! What a call leaves. -/

@[simp] theorem write_loggingFile (log : ServerLog) (lines : List Line) :
    (log.write lines).loggingFile = log.loggingFile := by
  unfold write
  split <;> rfl

@[simp] theorem write_isCreatingFile (log : ServerLog) (lines : List Line) :
    (log.write lines).isCreatingFile = log.isCreatingFile := by
  unfold write
  split <;> rfl

@[simp] theorem write_lastTimeLogged (log : ServerLog) (lines : List Line) :
    (log.write lines).lastTimeLogged = log.lastTimeLogged := by
  unfold write
  split <;> rfl

theorem write_open {log : ServerLog} {file : Text} (hopen : log.loggingFile = some file)
    (lines : List Line) : (log.write lines).files file = log.files file ++ lines := by
  simp [write, hopen]

section Runs
variable {gmtime : Int → Tm} {mktime : Tm → Int}

/-- A message leaves the open file open, and the last second that got a date is the old one or the one
that the clock shows. -/
theorem logMessage_frame (log : ServerLog) (priority : Int32) (printed : Text)
    (currentTime rawtime : Nat) :
    let log' := log.logMessage gmtime mktime priority printed currentTime rawtime
    log'.loggingFile = log.loggingFile ∧ log'.isCreatingFile = log.isCreatingFile ∧
      (log'.lastTimeLogged = log.lastTimeLogged ∨ log'.lastTimeLogged = currentTime) := by
  unfold logMessage fileLog
  by_cases hnone : log.loggingFile.isNone
  · simp [hnone]
  by_cases hseparator : isSeparator (printed.take (logTempBufferSize - 2))
  · simp [hnone, hseparator]
  by_cases hlater : log.lastTimeLogged < currentTime
  · simp [hnone, hseparator, hlater]
  · simp [hnone, hseparator, hlater]

def readings (t : Taken ServerLog Event) : List Nat :=
  match t.event with
  | .create _ _ _ _ rawtime => [rawtime]
  | .message _ _ currentTime rawtime => [currentTime, rawtime]
  | .close => []

/-- A message that reads the clock twice reads it within one second. -/
def Event.WithinSecond : Event → Prop
  | .message _ _ currentTime rawtime => currentTime = rawtime
  | .create .. | .close => True

theorem lastTimeLogged_mem {files : Text → List Line} {log : ServerLog}
    {taken : List (Taken ServerLog Event)}
    (h : History (Step gmtime mktime) (new files) taken log) :
    log.isCreatingFile = false ∧ log.lastTimeLogged ∈ 0 :: taken.flatMap readings := by
  induction h with
  | start => exact ⟨rfl, List.mem_cons_self⟩
  | @step taken before after event _ hs ih =>
    obtain ⟨hcreating, hlast⟩ := ih
    rw [List.flatMap_append, List.flatMap_singleton, ← List.cons_append]
    cases hs with
    | create externalFilename processName erasePreviousContents opened rawtime =>
      have hsame : (before.createLogFile gmtime mktime externalFilename processName
          erasePreviousContents opened rawtime).lastTimeLogged = before.lastTimeLogged := by
        cases erasePreviousContents <;> simp [createLogFile, hcreating]
      rw [hsame]
      refine ⟨?_, List.mem_append_left _ hlast⟩
      cases erasePreviousContents <;> simp [createLogFile, hcreating]
    | message priority printed currentTime rawtime =>
      obtain ⟨-, hcreating', hlogged⟩ :=
        @logMessage_frame gmtime mktime before priority printed currentTime rawtime
      refine ⟨hcreating'.trans hcreating, ?_⟩
      rcases hlogged with hlogged | hlogged
      · rw [hlogged]
        exact List.mem_append_left _ hlast
      · rw [hlogged]
        exact List.mem_append_right _ List.mem_cons_self
    | close => exact ⟨hcreating, List.mem_append_left _ hlast⟩

/-- The second in which a step appends an entry, if it appends one. -/
def entryTime (t : Taken ServerLog Event) : Option Nat :=
  match t.event with
  | .message _ printed currentTime _ =>
    if t.before.loggingFile.isSome && !isSeparator (printed.take (logTempBufferSize - 2)) then
      some currentTime
    else none
  | _ => none

def Event.isCreate : Event → Bool
  | .create .. => true
  | _ => false

variable (gmtime mktime) in
/-- The date that a reader finds for an entry. A file that was erased starts without one, and an
entry of a second already logged brings none. -/
def dateFound (erased : Bool) (logged time : Nat) : Option Text :=
  if erased && decide (time ≤ logged) then none else some (date gmtime mktime time)

variable (gmtime mktime) in
/-- What a log leaves between two messages when the clock has shown `now`, since a file was opened in
the second `start`. -/
structure Dated (file : Text) (base : List Line) (erased : Bool) (logged start now : Nat)
    (times : List Nat) (log : ServerLog) (lines : List Line) : Prop where
  opened : log.loggingFile = some file ∨ log.loggingFile = none
  content : log.files file = base ++ lines
  found : entryDates none lines = times.map (dateFound gmtime mktime erased logged)
  started : logged ≤ start ∧ start ≤ now ∧ log.lastTimeLogged ≤ now
  shown : log.lastTimeLogged = logged ∧
        lastDate none lines = (if erased then none else some (date gmtime mktime start)) ∨
      logged < log.lastTimeLogged ∧
        lastDate none lines = some (date gmtime mktime log.lastTimeLogged)

namespace Dated
variable {file : Text} {base : List Line} {erased : Bool} {logged start now time : Nat}
  {times : List Nat} {log : ServerLog} {lines : List Line}

theorem later (h : Dated gmtime mktime file base erased logged start now times log lines)
    (htime : now ≤ time) : Dated gmtime mktime file base erased logged start time times log lines :=
  { h with started := ⟨h.started.1, h.started.2.1.trans htime, h.started.2.2.trans htime⟩ }

theorem carried (h : Dated gmtime mktime file base erased logged start now times log lines)
    (hsame : ¬ log.lastTimeLogged < now) :
    lastDate none lines = dateFound gmtime mktime erased logged now := by
  obtain ⟨hlogged, hstart, hle⟩ := h.started
  have hnow : log.lastTimeLogged = now := Nat.le_antisymm hle (Nat.le_of_not_lt hsame)
  obtain ⟨hfirst, hlast⟩ | ⟨hlater, hlast⟩ := h.shown
  · have hstart' : start = now := by omega
    have hfirst' : now ≤ logged := by omega
    rw [hlast, dateFound, hstart', decide_eq_true hfirst', Bool.and_true]
  · have hlater' : ¬ now ≤ logged := by omega
    rw [hlast, dateFound, decide_eq_false hlater', Bool.and_false, hnow]
    rfl

/-- A line that is no entry and shows no date. -/
theorem separator (h : Dated gmtime mktime file base erased logged start now times log lines)
    (hopen : log.loggingFile = some file) (buffer : Text) :
    Dated gmtime mktime file base erased logged start now times (log.write [.separator buffer])
      (lines ++ [.separator buffer]) where
  opened := .inl ((write_loggingFile _ _).trans hopen)
  content := by rw [write_open hopen, h.content, List.append_assoc]
  found := by rw [entryDates_append, h.found]; exact List.append_nil _
  started := by simpa using h.started
  shown := by rw [lastDate_append, write_lastTimeLogged]; exact h.shown

theorem dated (h : Dated gmtime mktime file base erased logged start now times log lines)
    (hopen : log.loggingFile = some file) (hlater : log.lastTimeLogged < now)
    (filterName : Text) (priority : Int32) (buffer : Text) :
    Dated gmtime mktime file base erased logged start now (times ++ [now])
      ({ log with lastTimeLogged := now }.write
        [.entry filterName priority buffer (some (date gmtime mktime now))])
      (lines ++ [.entry filterName priority buffer (some (date gmtime mktime now))]) := by
  have hlogged : logged < now := by
    obtain ⟨hfirst, -⟩ | ⟨hfirst, -⟩ := h.shown <;> omega
  refine ⟨.inl ((write_loggingFile _ _).trans hopen), ?_, ?_, ?_, .inr ⟨?_, ?_⟩⟩
  · have hopen' : ServerLog.loggingFile { log with lastTimeLogged := now } = some file := hopen
    rw [write_open hopen', h.content, List.append_assoc]
  · have hfound : dateFound gmtime mktime erased logged now = some (date gmtime mktime now) := by
      rw [dateFound, decide_eq_false (Nat.not_le_of_lt hlogged), Bool.and_false]
      rfl
    rw [entryDates_append, h.found, List.map_append, List.map_singleton, hfound]
    rfl
  · obtain ⟨hstart, hnow, -⟩ := h.started
    simpa using ⟨hstart, hnow⟩
  · rwa [write_lastTimeLogged]
  · rw [lastDate_append, write_lastTimeLogged]
    rfl

theorem undated (h : Dated gmtime mktime file base erased logged start now times log lines)
    (hopen : log.loggingFile = some file) (hsame : ¬ log.lastTimeLogged < now)
    (filterName : Text) (priority : Int32) (buffer : Text) :
    Dated gmtime mktime file base erased logged start now (times ++ [now])
      (log.write [.entry filterName priority buffer none])
      (lines ++ [.entry filterName priority buffer none]) where
  opened := .inl ((write_loggingFile _ _).trans hopen)
  content := by rw [write_open hopen, h.content, List.append_assoc]
  found := by
    rw [entryDates_append, h.found, List.map_append, List.map_singleton, ← h.carried hsame]
    rfl
  started := by simpa using h.started
  shown := by rw [lastDate_append, write_lastTimeLogged]; exact h.shown

theorem message (h : Dated gmtime mktime file base erased logged start now times log lines)
    (priority : Int32) (printed : Text) :
    ∃ added, Dated gmtime mktime file base erased logged start now
      (times ++ (entryTime ⟨log, .message priority printed now now,
        log.logMessage gmtime mktime priority printed now now⟩).toList)
      (log.logMessage gmtime mktime priority printed now now) (lines ++ added) := by
  obtain hopen | hclosed := h.opened
  · by_cases hseparator : isSeparator (printed.take (logTempBufferSize - 2))
    · refine ⟨[.separator (printed.take (logTempBufferSize - 2))], ?_⟩
      simpa [entryTime, logMessage, fileLog, hopen, hseparator] using h.separator hopen _
    by_cases hlater : log.lastTimeLogged < now
    · refine ⟨[.entry log.loggingFilterName priority (printed.take (logTempBufferSize - 2))
        (some (date gmtime mktime now))], ?_⟩
      simpa [entryTime, logMessage, fileLog, hopen, hseparator, hlater] using
        h.dated hopen hlater log.loggingFilterName priority (printed.take (logTempBufferSize - 2))
    · refine ⟨[.entry log.loggingFilterName priority (printed.take (logTempBufferSize - 2)) none],
        ?_⟩
      simpa [entryTime, logMessage, fileLog, hopen, hseparator, hlater] using
        h.undated hopen hlater log.loggingFilterName priority
          (printed.take (logTempBufferSize - 2))
  · exact ⟨[], by simpa [entryTime, logMessage, fileLog, hclosed] using h⟩

/-- What one step adds, as long as no other file is opened and the clock does not step back. -/
theorem step (h : Dated gmtime mktime file base erased logged start now times log lines)
    {event : Event} {log' : ServerLog} (hs : Step gmtime mktime log event log')
    (hkeep : event.isCreate = false) (hsecond : event.WithinSecond)
    (hclock : ∀ time ∈ readings ⟨log, event, log'⟩, now ≤ time) :
    ∃ now' ∈ now :: readings ⟨log, event, log'⟩, ∃ added,
      Dated gmtime mktime file base erased logged start now'
        (times ++ (entryTime ⟨log, event, log'⟩).toList) log' (lines ++ added) := by
  cases hs with
  | create => cases hkeep
  | close =>
    exact ⟨now, List.mem_cons_self, [], by simpa [entryTime] using { h with opened := .inr rfl }⟩
  | message priority printed currentTime rawtime =>
    have hsame : currentTime = rawtime := hsecond
    subst hsame
    have htime : now ≤ currentTime := hclock currentTime List.mem_cons_self
    exact ⟨currentTime, List.mem_cons_of_mem _ List.mem_cons_self,
      (h.later htime).message priority printed⟩

/-- A file just opened, with the header where the old contents were kept. -/
theorem opening {s : ServerLog} (hcreating : s.isCreatingFile = false)
    (hle : s.lastTimeLogged ≤ start) (file processName : Text) (erased : Bool) :
    Dated gmtime mktime file (if erased then [] else s.files file) erased s.lastTimeLogged start
      start [] (s.createLogFile gmtime mktime file processName erased true start)
      (if erased then [] else header gmtime mktime processName start) := by
  cases erased with
  | false =>
    refine ⟨.inl ?_, ?_, rfl, ?_, .inl ⟨?_, rfl⟩⟩ <;>
      simp [createLogFile, hcreating, write, hle]
  | true =>
    refine ⟨.inl ?_, ?_, rfl, ?_, .inl ⟨?_, rfl⟩⟩ <;>
      simp [createLogFile, hcreating, hle]

end Dated

private theorem filterMap_singleton {α β : Type} (f : α → Option β) (x : α) :
    [x].filterMap f = (f x).toList := by
  cases hx : f x <;> simp [hx]

/-- The clock does not step back in a run before a file is opened, then, and in the run after it. -/
def SteadyClock (before : List (Taken ServerLog Event)) (start : Nat)
    (taken : List (Taken ServerLog Event)) : Prop :=
  (before.flatMap readings ++ start :: taken.flatMap readings).Pairwise (· ≤ ·)

/-- Whatever a server logged before it opened a file, whoever reads what it then appends, from the top
and with the last date seen, finds for every entry the second in which it was logged, until another
file is opened, if the clock does not step back and shows no two seconds to one message. Only in a
file that was erased the entries up to the last second that got a date in the old file have none. -/
theorem entries_dated {files : Text → List Line} {s log : ServerLog}
    {before taken : List (Taken ServerLog Event)} {file processName : Text} {erased : Bool}
    {start : Nat} (hbefore : History (Step gmtime mktime) (new files) before s)
    (h : History (Step gmtime mktime)
      (s.createLogFile gmtime mktime file processName erased true start) taken log)
    (hkeep : ∀ t ∈ taken, t.event.isCreate = false) (hclock : SteadyClock before start taken)
    (hsecond : ∀ t ∈ taken, t.event.WithinSecond) :
    ∃ lines, log.files file = (if erased then [] else s.files file) ++ lines ∧
      entryDates none lines = (taken.filterMap entryTime).map fun time =>
        if erased && decide (time ≤ s.lastTimeLogged) then none
        else some (date gmtime mktime time) := by
  obtain ⟨hcreating, hlast⟩ := lastTimeLogged_mem hbefore
  obtain ⟨-, hafter, hcross⟩ := List.pairwise_append.mp hclock
  have hle : s.lastTimeLogged ≤ start := by
    rcases List.mem_cons.mp hlast with hzero | hread
    · exact hzero ▸ Nat.zero_le start
    · exact hcross _ hread start List.mem_cons_self
  have hdated : ∃ now ∈ start :: taken.flatMap readings, ∃ lines,
      Dated gmtime mktime file (if erased then [] else s.files file) erased s.lastTimeLogged start
        now (taken.filterMap entryTime) log lines := by
    clear hcross hclock
    induction h with
    | start =>
      exact ⟨start, List.mem_cons_self, _, Dated.opening hcreating hle file processName erased⟩
    | step _ hs ih =>
      rw [List.flatMap_append, List.flatMap_singleton, ← List.cons_append,
        List.pairwise_append] at hafter
      obtain ⟨hearlier, -, hnext⟩ := hafter
      obtain ⟨hkept, hlastKept⟩ := List.forall_mem_append.mp hkeep
      obtain ⟨hseconds, hlastSecond⟩ := List.forall_mem_append.mp hsecond
      obtain ⟨now, hnow, lines, hlines⟩ := ih hkept hseconds hearlier
      obtain ⟨now', hnow', added, hadded⟩ := hlines.step hs
        (hlastKept _ (List.mem_singleton_self _)) (hlastSecond _ (List.mem_singleton_self _))
        fun time htime => hnext now hnow time htime
      rw [← filterMap_singleton, ← List.filterMap_append] at hadded
      refine ⟨now', ?_, lines ++ added, hadded⟩
      rw [List.flatMap_append, List.flatMap_singleton, ← List.cons_append]
      rcases List.mem_cons.mp hnow' with rfl | hread
      · exact List.mem_append_left _ hnow
      · exact List.mem_append_right _ hread
  obtain ⟨now, -, lines, hlines⟩ := hdated
  exact ⟨lines, hlines.content, hlines.found⟩

/-- A file erased in a second that is in the old one already. -/
theorem sample_entries_dated :
    let gmtime : Int → Tm := fun t => ⟨t % 60, t / 60 % 60, t / 3600, 1, 0, 70, 4, 0, 0⟩
    let mktime : Tm → Int := fun tm =>
      tm.tmSec + 60 * tm.tmMin + 3600 * tm.tmHour + 86400 * (tm.tmMday - 1)
    let s := ((new fun _ => []).createLogFile gmtime mktime [97] [112] false true 5).logMessage
      gmtime mktime 1 [120] 5 5
    let reopened := s.createLogFile gmtime mktime [97] [112] true true 5
    let log := (reopened.logMessage gmtime mktime 1 [121] 5 5).logMessage gmtime mktime 1 [122] 6 6
    ∃ lines, log.files [97] = [] ++ lines ∧
      entryDates none lines = [none, some (date gmtime mktime 6)] := by
  intro gmtime mktime s reopened log
  have hbefore : History (Step gmtime mktime) (new fun _ => []) _ s :=
    .step (.step .start (.create _ [97] [112] false true 5)) (.message _ 1 [120] 5 5)
  have htaken : History (Step gmtime mktime) reopened _ log :=
    .step (.step .start (.message _ 1 [121] 5 5)) (.message _ 1 [122] 6 6)
  have hclock : [5, 5, 5, 5, 5, 5, 6, 6].Pairwise (· ≤ ·) := by decide
  exact entries_dated hbefore htaken (by decide) hclock (by simp [Event.WithinSecond])

/-- An entry of the second before, after the clock is set back, is read with the later date. -/
example (gmtime : Int → Tm) (mktime : Tm → Int) :
    let opened := (new fun _ => []).createLogFile gmtime mktime [97] [112] false true 5
    let log := (opened.logMessage gmtime mktime 1 [120] 6 6).logMessage gmtime mktime 1 [121] 5 5
    entryDates none (log.files [97]) =
      [some (date gmtime mktime 6), some (date gmtime mktime 6)] := rfl

end Runs

end ServerLog
end SocketCPlusPlus.NetworkCommon
