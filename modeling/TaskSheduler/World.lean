import Mathlib.Data.Int.ConditionallyCompleteOrder
import TaskSheduler.PosixSharedMemory
import TaskSheduler.FloatArith
import TaskSheduler.Program

/-!
# What a sequential run of the program sees and changes

`World` is the state that sequential code changes: the mapped segment, the
standard output, the files it appends to, the log of the task processor, and
how many times it has used each source of outside values.  `Env` is the
outside: the capacity of the segment, which `sem_wait` calls fail, what the
clock shows at each reading (`Clock`, never going back), and the values the
language leaves open.

Times are in nanoseconds, as `steady_clock` counts them; durations that the
source keeps in `milliseconds` are integers of milliseconds.
-/

namespace TaskSheduler

open Programs FloatArithmetic

/-- `steady_clock`: what each reading shows; it never goes back. -/
structure Clock where
  read : Nat → Int
  mono : Monotone read

/-- A clock that stands still. -/
def Clock.still (now : Int) : Clock where
  read := fun _ => now
  mono := monotone_const

/-- What the program meets outside its own state.  Each stream is indexed by
the number of earlier uses. -/
structure Env where
  capacity : Nat
  /-- The segment uses declared slots only. -/
  declared : capacity ≤ countTasks
  clock : Clock
  float : FloatArith
  /-- The `sem_wait` calls that return -1. -/
  waitFails : Nat → Bool
  /-- The values read off `UnixTask::get_total_time`, which returns nothing. -/
  totalTime : Nat → Int
  /-- The contents of the uninitialised local `SharedTask st`. -/
  uninitialised : Nat → SharedTask
  /-- Whether an `ofstream` opens. -/
  fileOpens : Nat → Bool
  /-- How often a sleeping loop looks at the clock before we stop watching. -/
  patience : Nat

/-- Surroundings in which nothing fails, with exact arithmetic. -/
def Env.quiet (capacity : Nat) (declared : capacity ≤ countTasks) (clock : Clock) : Env where
  capacity := capacity
  declared := declared
  clock := clock
  float := FloatArith.exact
  waitFails := fun _ => false
  totalTime := fun _ => 0
  uninitialised := fun _ => SharedTask.zeroed
  fileOpens := fun _ => true
  patience := 1000

theorem one_le_countTasks : 1 ≤ countTasks := by decide

theorem two_le_countTasks : 2 ≤ countTasks := by decide

/-- The surroundings of a one-slot segment whose clock stands still. -/
def envOne : Env := Env.quiet 1 one_le_countTasks (Clock.still 0)

/-- The surroundings of a two-slot segment whose clock stands still. -/
def envTwo : Env := Env.quiet 2 two_le_countTasks (Clock.still 0)

/-- A line of the task processor's log. -/
inductive LogEntry
  /-- "Processing task: " and the description. -/
  | processing (description : List UInt8)
  /-- "Task completed: " and the description. -/
  | completed (description : List UInt8)
  /-- "Error processing task: " and the message. -/
  | failed (message : String)
deriving DecidableEq

/-- The state of a sequential run. -/
structure World where
  shm : Shm
  waits : Nat
  readings : Nat
  totals : Nat
  locals : Nat
  opens : Nat
  output : List String
  written : List (List UInt8 × String)
  log : List LogEntry

/-- A run that has not started yet, on a given segment. -/
def World.begin (shm : Shm) : World where
  shm := shm
  waits := 0
  readings := 0
  totals := 0
  locals := 0
  opens := 0
  output := []
  written := []
  log := []

/-- `steady_clock::now()`. -/
def now (env : Env) : Program World Int := fun w =>
  .ok (env.clock.read w.readings) { w with readings := w.readings + 1 }

/-- The value of a call to `UnixTask::get_total_time`. -/
def anyTotalTime (env : Env) : Program World Int := fun w =>
  .ok (env.totalTime w.totals) { w with totals := w.totals + 1 }

/-- `SharedTask st;` -/
def anySharedTask (env : Env) : Program World SharedTask := fun w =>
  .ok (env.uninitialised w.locals) { w with locals := w.locals + 1 }

/-- `std::cout << lines`, each ended by `std::endl`. -/
def writeOutput (lines : List String) : Program World Unit :=
  modify fun w => { w with output := w.output ++ lines }

/-- `std::ofstream tmp(path, std::ios::app)`: whether it opened. -/
def openAppend (env : Env) : Program World Bool := fun w =>
  .ok (env.fileOpens w.opens) { w with opens := w.opens + 1 }

/-- `tmp << line`. -/
def appendLine (path : List UInt8) (line : String) : Program World Unit :=
  modify fun w => { w with written := w.written ++ [(path, line)] }

/-- `logger_->log(entry)` of the task processor. -/
def logLine (entry : LogEntry) : Program World Unit :=
  modify fun w => { w with log := w.log ++ [entry] }

@[simp] theorem now_apply (env : Env) (w : World) :
    now env w = .ok (env.clock.read w.readings) { w with readings := w.readings + 1 } := rfl

@[simp] theorem anyTotalTime_apply (env : Env) (w : World) :
    anyTotalTime env w = .ok (env.totalTime w.totals) { w with totals := w.totals + 1 } := rfl

@[simp] theorem anySharedTask_apply (env : Env) (w : World) :
    anySharedTask env w =
      .ok (env.uninitialised w.locals) { w with locals := w.locals + 1 } := rfl

@[simp] theorem writeOutput_apply (lines : List String) (w : World) :
    writeOutput lines w = .ok () { w with output := w.output ++ lines } := rfl

@[simp] theorem logLine_apply (entry : LogEntry) (w : World) :
    logLine entry w = .ok () { w with log := w.log ++ [entry] } := rfl

end TaskSheduler
