import TaskSheduler.ManagerSteps

/-!
# Processor, scheduler, and the thread that starts and stops them

The two loops `process_tasks` and `schedule` run in threads of their own over
one manager; the main thread calls `start` and `stop` of `Scheduler` and
`TaskProcessor`.  `running` holds the two atomic flags `running_`, one of each
class, and a loop reads its own.

An execution is left open: `execute` may return either value, leave any object
behind (but for its id, which nothing writes) or throw, so what is proved here
holds whatever the tasks do.  Sleeping changes nothing and is part of the step
before it.
-/

namespace TaskSheduler

open Interleaving Programs

/-- The threads that the classes launch. -/
inductive Loop
  | processor
  | scheduler
deriving DecidableEq

instance : Fintype Loop where
  elems := {.processor, .scheduler}
  complete := by intro t; cases t <;> decide

/-- Where a loop is; `off` when its `std::thread` is not joinable, `done` when
the function has returned. -/
inductive LoopPc
  | off
  /-- About to read `running_` in the `while` condition. -/
  | whileTest
  /-- About to evaluate `task_count() > 0`. -/
  | countTest
  /-- In a call of the manager. -/
  | managing (pc : ManagerPc)
  /-- In `execute`. -/
  | executing (task : UnixTask)
  /-- `execute` has returned false; about to read `running_` once more. -/
  | keepTest (task : UnixTask)
  | done

/-- `std::thread::joinable`. -/
def LoopPc.joinable : LoopPc → Bool
  | .off => false
  | _ => true

theorem LoopPc.eq_off {pc : LoopPc} (h : pc.joinable = false) : pc = .off := by
  cases pc <;> first | rfl | cases h

/-- The manager call a loop is in. -/
def LoopPc.manager : LoopPc → ManagerPc
  | .managing pc => pc
  | _ => .idle

/-- How `execute` ends: the value it returns and the object afterwards, or an
exception. -/
inductive Execution
  | returned (completed : Bool) (after : UnixTask)
  | thrown

/-- What a loop meets at a step. -/
structure LoopChoice extends Choice where
  executed : Execution

/-- What the loops show: a task that is done with, a task that an exception of
`execute` or the flag `running_` has cost its place, and a call of the manager
that threw. -/
inductive SystemEvent
  | finished (id : Int32)
  | threw (id : Int32)
  | dropped (id : Int32)
  | aborted (pc : ManagerPc)

/-- One step of `process_tasks`. -/
def processTasksStep (env : Env) (timeQuantum : Int) (choice : LoopChoice) (shm : Shm)
    (running : Bool) : LoopPc → Option (Shm × LoopPc × List SystemEvent)
  | .whileTest => some (shm, if running then .countTest else .done, [])
  | .countTest =>
      if 0 < shm.count then
        (choice.run shm (start env .getNextTask)).map fun pc => (shm, .managing pc, [])
      else
        some (shm, .whileTest, [])
  | .managing pc =>
      (managerStep env choice.toChoice shm pc).map fun r =>
        match r.2.2 with
        | none => (r.1, .managing r.2.1, [])
        | some (.got task) => (r.1, .executing task, [])
        | some (.thrown _) => (r.1, .whileTest, [.aborted pc])
        | some _ => (r.1, .whileTest, [])
  | .executing task =>
      (choice.run shm (task.getTotalTime env)).map fun total =>
        match choice.executed with
        | .thrown => (shm, .whileTest, [.threw task.id])
        | .returned completed after =>
            if total < timeQuantum || completed then
              (shm, .whileTest, [.finished task.id])
            else
              (shm, .keepTest { after with id := task.id }, [])
  | .keepTest task =>
      if running then
        (choice.run shm (start env (.addTask task))).map fun pc => (shm, .managing pc, [])
      else
        some (shm, .whileTest, [.dropped task.id])
  | .off | .done => none

/-- One step of `schedule`. -/
def scheduleStep (env : Env) (algorithm : SchedulingAlgorithm) (choice : LoopChoice)
    (shm : Shm) (running : Bool) : LoopPc → Option (Shm × LoopPc × List SystemEvent)
  | .whileTest =>
      if running then
        (choice.run shm (start env (.reorderTasks algorithm))).map fun pc =>
          (shm, .managing pc, [])
      else
        some (shm, .done, [])
  | .managing pc =>
      (managerStep env choice.toChoice shm pc).map fun r =>
        match r.2.2 with
        | none => (r.1, .managing r.2.1, [])
        | some (.thrown _) => (r.1, .whileTest, [.aborted pc])
        | some _ => (r.1, .whileTest, [])
  | _ => none

/-- What the main thread does in a call, one shared action after the other. -/
inductive MainOp
  | setSchedulerRunning (value : Bool)
  | setRunning (t : Loop) (value : Bool)
  | launch (t : Loop)
  | join (t : Loop)
deriving DecidableEq

/-- `TaskProcessor::start`. -/
def TaskProcessor.start : List MainOp := [.setRunning .processor true, .launch .processor]

/-- `TaskProcessor::stop`. -/
def TaskProcessor.stop : List MainOp := [.setRunning .processor false, .join .processor]

/-- `Scheduler::start`. -/
def Scheduler.start : List MainOp :=
  [.setSchedulerRunning true, .setRunning .scheduler true] ++ TaskProcessor.start ++
    [.launch .scheduler]

/-- `Scheduler::stop`. -/
def Scheduler.stop : List MainOp :=
  [.setSchedulerRunning false, .setRunning .scheduler false] ++ TaskProcessor.stop ++
    [.join .scheduler]

/-- The calls of the main thread. -/
inductive MainCall
  | processorStart
  | processorStop
  | schedulerStart
  | schedulerStop

/-- What a call does. -/
def MainCall.ops : MainCall → List MainOp
  | .processorStart => TaskProcessor.start
  | .processorStop => TaskProcessor.stop
  | .schedulerStart => Scheduler.start
  | .schedulerStop => Scheduler.stop

/-- The segment, the flags, the loops, and what the main thread has still to
do in its call. -/
structure System where
  shm : Shm
  running : Loop → Bool
  pc : Loop → LoopPc
  main : List MainOp

/-- Before the first call. -/
def System.begin (shm : Shm) : System where
  shm := shm
  running := fun _ => false
  pc := fun _ => .off
  main := []

/-- The next step of the main thread.  `join` waits for a loop that has not
returned; assigning a new thread over a joinable one terminates the program. -/
def mainStep (s : System) : Option System :=
  match s.main with
  | [] => none
  | .setSchedulerRunning value :: rest =>
      some { s with shm := { s.shm with schedulerRunning := value }, main := rest }
  | .setRunning t value :: rest =>
      some { s with running := Function.update s.running t value, main := rest }
  | .launch t :: rest =>
      match s.pc t with
      | .off => some { s with pc := Function.update s.pc t .whileTest, main := rest }
      | _ => none
  | .join t :: rest =>
      match s.pc t with
      | .off => some { s with main := rest }
      | .done => some { s with pc := Function.update s.pc t .off, main := rest }
      | _ => none

/-- The main thread starts a call or goes on with it, or a loop goes on. -/
inductive SystemAction
  | call (call : MainCall)
  | main
  | loop (t : Loop) (choice : LoopChoice)

/-- One step of a loop. -/
def loopStep (env : Env) (timeQuantum : Int) (algorithm : SchedulingAlgorithm)
    (choice : LoopChoice) (s : System) : Loop → Option (Shm × LoopPc × List SystemEvent)
  | .processor =>
      processTasksStep env timeQuantum choice s.shm (s.running .processor) (s.pc .processor)
  | .scheduler =>
      scheduleStep env algorithm choice s.shm (s.running .scheduler) (s.pc .scheduler)

/-- The whole system. -/
def systemMachine (env : Env) (timeQuantum : Int) (algorithm : SchedulingAlgorithm) :
    Machine System SystemAction SystemEvent where
  step s
    | .call call => if s.main.isEmpty then some ({ s with main := call.ops }, []) else none
    | .main => (mainStep s).map (·, [])
    | .loop t choice =>
        (loopStep env timeQuantum algorithm choice s t).map fun r =>
          ({ s with shm := r.1, pc := Function.update s.pc t r.2.1 }, r.2.2)

end TaskSheduler
