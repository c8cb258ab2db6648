import TaskSheduler.Task

/-!
# Scheduling algorithms

The two implementations of `SchedulingAlgorithm`.  `update_task_priority` is
what `reorder_tasks` calls; `select_next_task` chooses among tasks by index.
-/

namespace TaskSheduler

open Programs

/-- The concrete algorithms; round robin carries its index. -/
inductive SchedulingAlgorithm
  | roundRobinScheduling (currentIndex : Nat)
  | priorityScheduling
deriving DecidableEq

/-- `update_task_priority`; a no-op for round robin. -/
def SchedulingAlgorithm.updateTaskPriority (env : Env) (algorithm : SchedulingAlgorithm)
    (task : UnixTask) : Program World UnixTask :=
  match algorithm with
  | .roundRobinScheduling _ => return task
  | .priorityScheduling => task.adjustDynamicPriority env

/-- `RoundRobinScheduling::select_next_task`; the state is `current_index_`. -/
def RoundRobinScheduling.selectNextTask (tasks : List UnixTask) : Program Nat Nat := do
  if tasks.isEmpty then raise "No tasks available"
  let currentIndex ← get
  let currentIndex := sizeAdd currentIndex 1 % tasks.length
  set currentIndex
  return currentIndex

/-- The loop of `PriorityScheduling::select_next_task`: the best index so far
and its priority, and the index `i` of the next task. -/
def selectLoop (selected : Nat) (highest : Int32) : Nat → List UnixTask → Nat
  | _, [] => selected
  | i, task :: rest =>
      if highest < task.dynamicPriority then
        selectLoop i task.dynamicPriority (i + 1) rest
      else
        selectLoop selected highest (i + 1) rest

/-- `PriorityScheduling::select_next_task`. -/
def PriorityScheduling.selectNextTask : List UnixTask → Except String Nat
  | [] => .error "No tasks available"
  | task :: rest => .ok (selectLoop 0 task.dynamicPriority 1 rest)

end TaskSheduler
