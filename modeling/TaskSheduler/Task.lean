import TaskSheduler.World

/-!
# Tasks

`UnixTask` carries the members of the C++ class that the queue, the
schedulers and the processor use; the members a derived class adds are in
its `TaskKind`, on which the virtual calls branch.

`adjust_dynamic_priority` is a pure function of the clock reading it takes,
`adjustedAt`; the programs below it take the readings in the order of the
source.
-/

namespace TaskSheduler

open Programs FloatArithmetic

/-- `UnixTask::TaskState`. -/
inductive TaskState
  | ready
  | running
  | waiting
  | completed
deriving DecidableEq

/-- The class of a task, with the members it adds to `UnixTask`. -/
inductive TaskKind
  | unixTask
  | cpuIntensiveTask (totalWork remainingWork : Int)
  | ioBoundTask (filePath : List UInt8) (operationsRemaining : Int32)
deriving DecidableEq

/-- `class UnixTask`. -/
structure UnixTask where
  id : Int32
  description : List UInt8
  arrivalTime : Int
  staticPriority : Int32
  dynamicPriority : Int32
  state : TaskState
  completed : Bool
  lastExecutionTime : Int
  cpuUsage : ℚ
  isIoBound : Bool
  kind : TaskKind
deriving DecidableEq

/-- The bytes of a string literal. -/
def textBytes (text : String) : List UInt8 := text.toList.map fun c => c.toNat.toUInt8

/-- `duration_cast<milliseconds>`: truncation toward zero. -/
def toMilliseconds (nanoseconds : Int) : Int := nanoseconds.tdiv 1000000

/-! ## Construction -/

/-- The object that the constructor of `UnixTask` sets up before validating;
the members it does not mention have their default initialisers. -/
def UnixTask.built (id : Int32) (description : List UInt8) (staticPriority : Int32)
    (arrival : Int) : UnixTask where
  id := id
  description := description
  arrivalTime := arrival
  staticPriority := staticPriority
  dynamicPriority := staticPriority
  state := .ready
  completed := false
  lastExecutionTime := 0
  cpuUsage := 0
  isIoBound := false
  kind := .unixTask

/-- The constructor of `CpuIntensiveTask`. -/
def CpuIntensiveTask.built (id : Int32) (duration arrival : Int) : UnixTask :=
  { UnixTask.built id (textBytes "CPU-Intensive Task") 0 arrival with
    kind := .cpuIntensiveTask duration duration
    isIoBound := false }

/-- The constructor of `IoBoundTask`. -/
def IoBoundTask.built (id : Int32) (filePath : List UInt8) (operations : Int32)
    (arrival : Int) : UnixTask :=
  { UnixTask.built id (textBytes "I/O-Bound Task: " ++ filePath) 0 arrival with
    kind := .ioBoundTask filePath operations
    isIoBound := true }

/-! ## Priorities -/

/-- The priorities `validate_priority` accepts. -/
def validPriority (p : Int32) : Bool := !(decide (p < -20) || decide (p > 19))

/-- `validate_priority`. -/
def validatePriority (p : Int32) : Except String Unit :=
  if validPriority p then .ok () else .error "Priority must be in [-20, 19]"

/-- `UnixTask::SchedulingParams`. -/
structure SchedulingParams where
  cpuWeight : ℚ
  starvationWeight : ℚ
  ioBoost : ℚ

/-- The default scheduling parameters, as `float` constants. -/
def schedulingParams (float : FloatArith) : SchedulingParams where
  cpuWeight := float.round (7 / 10)
  starvationWeight := float.round (3 / 10)
  ioBoost := float.round (1 / 5)

/-- How starved a task is that last ran `sinceLastRun` nanoseconds ago. -/
def starvationFactor (float : FloatArith) (sinceLastRun : Int) : ℚ :=
  let seconds := float.round (float.round sinceLastRun / float.round 1000000000)
  clamp (float.round (seconds / 10)) 0 1

/-- `priority_adjustment`. -/
def priorityAdjustment (float : FloatArith) (cpuUsage : ℚ) (sinceLastRun : Int)
    (isIoBound : Bool) : ℚ :=
  let params := schedulingParams float
  let weighted := float.round (float.round (params.cpuWeight * cpuUsage) -
    float.round (params.starvationWeight * starvationFactor float sinceLastRun))
  if isIoBound then float.round (weighted - params.ioBoost) else weighted

/-- The value `adjust_dynamic_priority` gives to `dynamic_priority_`. -/
def dynamicPriorityOf (float : FloatArith) (staticPriority : Int32) (cpuUsage : ℚ)
    (sinceLastRun : Int) (isIoBound : Bool) : Int32 :=
  let adjustment := priorityAdjustment float cpuUsage sinceLastRun isIoBound
  let sum := float.round (float.round staticPriority.toInt + float.round (adjustment * 20))
  clamp (float.toInt sum) (-20) 19

/-- `adjust_dynamic_priority` when the clock shows `time`. -/
def UnixTask.adjustedAt (float : FloatArith) (time : Int) (task : UnixTask) : UnixTask :=
  { task with
    dynamicPriority := dynamicPriorityOf float task.staticPriority task.cpuUsage
      (time - task.lastExecutionTime) task.isIoBound
    lastExecutionTime := time
    cpuUsage := 0 }

/-- `adjust_dynamic_priority`. -/
def UnixTask.adjustDynamicPriority (env : Env) (task : UnixTask) : Program World UnixTask := do
  let time ← now env
  return task.adjustedAt env.float time

/-- `set_static_priority`; the object is given up when it throws. -/
def UnixTask.setStaticPriority (env : Env) (niceValue : Int32) (task : UnixTask) :
    Program World UnixTask := do
  let task := { task with staticPriority := niceValue }
  fromExcept (validatePriority task.staticPriority)
  task.adjustDynamicPriority env

/-- `set_state`. -/
def UnixTask.setState (state : TaskState) (task : UnixTask) : UnixTask :=
  { task with
    completed := if state = .completed then true else task.completed
    state := state }

/-- The valid priorities are the integers from -20 to 19. -/
theorem validPriority_iff (p : Int32) :
    validPriority p = true ↔ -20 ≤ p.toInt ∧ p.toInt ≤ 19 := by
  have hlo : (-20 : Int32).toInt = -20 := rfl
  have hhi : (19 : Int32).toInt = 19 := rfl
  simp only [validPriority, Bool.not_eq_true', Bool.or_eq_false_iff, decide_eq_false_iff_not,
    gt_iff_lt, Int32.lt_iff_toInt_lt, hlo, hhi]
  omega

/-- Every value `adjust_dynamic_priority` computes is a valid priority. -/
theorem validPriority_dynamicPriorityOf (float : FloatArith) (p : Int32) (cpu : ℚ) (t : Int)
    (io : Bool) : validPriority (dynamicPriorityOf float p cpu t io) = true := by
  have hbounds : (-20 : Int) ≤ 19 := by decide
  rw [validPriority_iff, dynamicPriorityOf, toInt_clamp]
  exact ⟨le_clamp hbounds, clamp_le hbounds⟩

/-! ## Execution -/

/-- `get_total_time`, overridden by `CpuIntensiveTask` only. -/
def UnixTask.getTotalTime (env : Env) (task : UnixTask) : Program World Int :=
  match task.kind with
  | .cpuIntensiveTask totalWork _ => return totalWork
  | _ => anyTotalTime env

/-- The share of a slice that was used, cut at `bound`; a zero slice divides
by zero and leaves the bound. -/
def usage (float : FloatArith) (bound : ℚ) (actualWork quantum : Int) : ℚ :=
  if quantum = 0 then bound
  else min bound (float.round (float.round actualWork / float.round quantum))

/-- The bound of the loop in `CpuIntensiveTask::execute`, converted to `size_t`. -/
def cpuIterations (quantum : Int) : Nat := ((500000 * quantum.tdiv 10) % 2 ^ 64).toNat

/-- The loop of `CpuIntensiveTask::execute` with `left` rounds to go; it
returns the reading at which the slice was used up, if there was one. -/
def cpuLoop (env : Env) (start quantum : Int) : Nat → Program World (Option Int)
  | 0 => return none
  | left + 1 => do
      let currentTime ← now env
      if quantum * 1000000 ≤ currentTime - start then
        return some currentTime
      else
        cpuLoop env start quantum left

/-- The task after `actualWork` nanoseconds of a slice: what both ends of
`CpuIntensiveTask::execute` deduct and note. -/
def CpuIntensiveTask.worked (float : FloatArith) (quantum actualWork : Int) (task : UnixTask)
    (totalWork remainingWork : Int) : UnixTask :=
  { task with
    kind := .cpuIntensiveTask totalWork (remainingWork - toMilliseconds actualWork)
    cpuUsage := usage float 1 actualWork quantum }

/-- `CpuIntensiveTask::execute`. -/
def CpuIntensiveTask.execute (env : Env) (quantum : Int) (task : UnixTask)
    (totalWork remainingWork : Int) : Program World (Bool × UnixTask) := do
  let task := task.setState .running
  let start ← now env
  match ← cpuLoop env start quantum (cpuIterations quantum) with
  | some currentTime =>
      let actualWork := currentTime - start
      let task := worked env.float quantum actualWork task totalWork remainingWork
      return (false, task.setState .ready)
  | none =>
      let actualWork := (← now env) - start
      let task := worked env.float quantum actualWork task totalWork remainingWork
      let completed := decide (remainingWork - toMilliseconds actualWork ≤ 0)
      return (completed, task.setState (if completed then .completed else .ready))

/-- Sleep, a millisecond at a time, until the clock shows `endTime`. -/
def sleepUntil (env : Env) (endTime : Int) : Nat → Program World Unit
  | 0 => throw .outOfFuel
  | patience + 1 => do
      if (← now env) < endTime then
        sleepUntil env endTime patience

/-- `IoBoundTask::execute`. -/
def IoBoundTask.execute (env : Env) (quantum : Int) (task : UnixTask)
    (filePath : List UInt8) (operationsRemaining : Int32) :
    Program World (Bool × UnixTask) := do
  let task := task.setState .running
  let start ← now env
  if ← openAppend env then
    appendLine filePath ("Operation #" ++ toString operationsRemaining.toInt ++ "\n")
    sleepUntil env (start + quantum.tdiv 2 * 1000000) env.patience
    let actualWork := (← now env) - start
    let operationsRemaining := operationsRemaining - 1
    let task := { task with
      kind := .ioBoundTask filePath operationsRemaining
      cpuUsage := usage env.float (env.float.round (3 / 10)) actualWork quantum }
    let completed := decide (operationsRemaining ≤ 0)
    return (completed, task.setState (if completed then .completed else .ready))
  else
    return (true, task.setState .completed)

/-- `execute`: whether the task is completed, and the task afterwards. -/
def UnixTask.execute (env : Env) (quantum : Int) (task : UnixTask) :
    Program World (Bool × UnixTask) :=
  match task.kind with
  | .unixTask => raise "Execute method not implemented"
  | .cpuIntensiveTask totalWork remainingWork =>
      CpuIntensiveTask.execute env quantum task totalWork remainingWork
  | .ioBoundTask filePath operationsRemaining =>
      IoBoundTask.execute env quantum task filePath operationsRemaining

end TaskSheduler
