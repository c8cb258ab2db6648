import TaskSheduler.CountedQueue
import TaskSheduler.ReorderTasks

/-!
# The calls of TaskQueueManager, interleaved

A thread in a call of the manager is between two queue calls only where
`reorder_tasks` tests `empty()`; everywhere else it is in a queue call, which
it made for some `Purpose`.  Between two shared actions the code is local: the
conversions, the priority updates and the reading of the clock are the
programs of the sequential model, run in a world that the thread does not
share (`Choice.run`).  Local code is performed with the step before it.

`managerStep` is one step of a thread; `ManagerMove` lists what such a step
can do, and every invariant below is derived from that list.
-/

namespace TaskSheduler

open Interleaving Programs

/-- The calls of the manager. -/
inductive ManagerCall
  | getNextTask
  | addTask (task : UnixTask)
  | reorderTasks (algorithm : SchedulingAlgorithm)
deriving DecidableEq

/-- What a finished call hands back. -/
inductive ManagerReply
  | got (task : UnixTask)
  | added
  | reordered
  | thrown (message : String)

/-- What a queue call is made for. -/
inductive Purpose
  /-- The `dequeue` of `get_next_task`. -/
  | getting
  /-- The `enqueue` of `add_task`. -/
  | adding (task : UnixTask)
  /-- The `print` of `add_task`. -/
  | printing (task : UnixTask)
  /-- A `dequeue` of `reorder_tasks`, with the vector filled so far. -/
  | draining (algorithm : SchedulingAlgorithm) (tasks : List UnixTask)
  /-- An `enqueue` of `reorder_tasks`, with the tasks still to be added after it. -/
  | refilling (algorithm : SchedulingAlgorithm) (rest : List UnixTask)
  /-- The `print` after it. -/
  | reprinting (algorithm : SchedulingAlgorithm) (rest : List UnixTask)

/-- Where a thread is in a call of the manager. -/
inductive ManagerPc
  | idle
  /-- About to evaluate `!shared_memory_->empty()`. -/
  | testing (algorithm : SchedulingAlgorithm) (tasks : List UnixTask)
  | inQueue (purpose : Purpose) (pc : QueuePc)

/-- The queue call a thread is in. -/
def ManagerPc.queue : ManagerPc → QueuePc
  | .inQueue _ pc => pc
  | _ => .idle

/-- The call of the manager that a queue call belongs to. -/
def Purpose.call : Purpose → ManagerCall
  | .getting => .getNextTask
  | .adding task | .printing task => .addTask task
  | .draining algorithm _ | .refilling algorithm _ | .reprinting algorithm _ =>
      .reorderTasks algorithm

/-- The call of the manager that a thread is in. -/
def ManagerPc.call : ManagerPc → Option ManagerCall
  | .idle => none
  | .testing algorithm _ => some (.reorderTasks algorithm)
  | .inQueue purpose _ => some purpose.call

/-- A thread that is in no call is idle. -/
theorem ManagerPc.eq_idle {pc : ManagerPc} (h : pc.call.isNone = true) : pc = .idle := by
  cases pc with
  | idle => rfl
  | testing algorithm tasks => cases h
  | inQueue purpose pc => cases h

/-- What a thread meets at a step: whether `sem_wait` fails, and how often the
clock and the values the language leaves open were used before. -/
structure Choice where
  fail : Bool
  readings : Nat
  totals : Nat
  locals : Nat

/-- Nothing fails, and everything is read for the first time. -/
def Choice.quiet : Choice where
  fail := false
  readings := 0
  totals := 0
  locals := 0

/-- Run local code. -/
def Choice.run {α : Type} (choice : Choice) (shm : Shm) (x : Program World α) : Option α :=
  match x { World.begin shm with
      readings := choice.readings, totals := choice.totals, locals := choice.locals } with
  | .ok a _ => some a
  | .error _ _ => none

/-! ## One step -/

/-- The part of `add_task` before its `enqueue`. -/
def enter (env : Env) (purpose : Purpose) (task : UnixTask) : Program World ManagerPc := do
  let st ← anySharedTask env
  let st ← convertToSharedTask env task st
  return .inQueue purpose (.enqWaitSlot st)

/-- The refill loop of `reorder_tasks` up to its next `enqueue`, or its end. -/
def refill (env : Env) (algorithm : SchedulingAlgorithm) :
    List UnixTask → Program World (ManagerPc × Option ManagerReply)
  | [] => return (.idle, some .reordered)
  | task :: rest => do return (← enter env (.refilling algorithm rest) task, none)

/-- The code of a call up to its first shared action. -/
def start (env : Env) : ManagerCall → Program World ManagerPc
  | .getNextTask => return .inQueue .getting QueueCall.dequeue.entry
  | .addTask task => enter env (.adding task) task
  | .reorderTasks algorithm => return .testing algorithm []

/-- What follows a queue call that returned. -/
def resume (env : Env) : Purpose → Reply → Program World (ManagerPc × Option ManagerReply)
  | .getting, .dequeued st => do
      let task ← convertFromSharedTask env st
      return (.idle, some (.got task))
  | .adding task, .enqueued => return (.inQueue (.printing task) QueueCall.print.entry, none)
  | .printing _, .printed => return (.idle, some .added)
  | .draining algorithm tasks, .dequeued st => do
      let task ← convertFromSharedTask env st
      return (.testing algorithm (tasks ++ [task]), none)
  | .refilling algorithm rest, .enqueued =>
      return (.inQueue (.reprinting algorithm rest) QueueCall.print.entry, none)
  | .reprinting algorithm rest, .printed => refill env algorithm rest
  | _, .thrown message => raise message
  -- A call made for one purpose does not return the reply of another.
  | _, _ => throw .blocked

/-- An exception ends the call of the manager. -/
def orThrown (x : Program World (ManagerPc × Option ManagerReply)) :
    Program World (ManagerPc × Option ManagerReply) :=
  catchThrown x fun message => return (.idle, some (.thrown message))

/-- One step of a thread in a call of the manager: the segment and the program
point after it, and the reply when the call has finished. -/
def managerStep (env : Env) (choice : Choice) (shm : Shm) :
    ManagerPc → Option (Shm × ManagerPc × Option ManagerReply)
  | .idle => none
  | .testing algorithm tasks =>
      if shm.count = 0 then
        (choice.run shm do
          let tasks ← tasks.mapM (algorithm.updateTaskPriority env)
          refill env algorithm tasks).map (shm, ·)
      else
        some (shm, .inQueue (.draining algorithm tasks) QueueCall.dequeue.entry, none)
  | .inQueue purpose pc =>
      (queueStep env.capacity shm pc choice.fail).bind fun r =>
        match r.2.2.findSome? Note.reply? with
        | none => some (r.1, .inQueue purpose r.2.1, none)
        | some reply => (choice.run r.1 (orThrown (resume env purpose reply))).map (r.1, ·)

/-- A segment and the threads that share its manager. -/
structure ManagerState (Tid : Type*) where
  shm : Shm
  pc : Tid → ManagerPc

/-- A thread starts a call, or performs the next step of the one it is in. -/
inductive ManagerAction (Tid : Type*)
  | call (t : Tid) (call : ManagerCall) (choice : Choice)
  | step (t : Tid) (choice : Choice)

/-- The call a step has finished, with its reply. -/
def finishedCall (pc : ManagerPc) (reply : Option ManagerReply) :
    List (ManagerCall × ManagerReply) :=
  match pc.call, reply with
  | some call, some reply => [(call, reply)]
  | _, _ => []

/-- Any number of threads sharing one manager; the events are the finished
calls with their replies. -/
def managerMachine (Tid : Type*) [DecidableEq Tid] (env : Env) :
    Machine (ManagerState Tid) (ManagerAction Tid) (Tid × ManagerCall × ManagerReply) where
  step s
    | .call t call choice =>
        match s.pc t with
        | .idle => (choice.run s.shm (start env call)).map fun pc =>
            ({ s with pc := Function.update s.pc t pc }, [])
        | _ => none
    | .step t choice =>
        (managerStep env choice s.shm (s.pc t)).map fun r =>
          ({ shm := r.1, pc := Function.update s.pc t r.2.1 },
            (finishedCall (s.pc t) r.2.2).map (t, ·))

end TaskSheduler
