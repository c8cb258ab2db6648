import TaskSheduler.SchedulingAlgorithm
import TaskSheduler.QueueCalls

/-!
# TaskQueueManager

Encoding a task into a queue entry, decoding an entry into a task, and the
calls `add_task`, `get_next_task` and `reorder_tasks`.

`Encodes` lists what an entry keeps of the task it was made from; `decoded` is
the task made from an entry when the clock shows given times.  The lemmas say
what each call does on a quiescent segment.
-/

namespace TaskSheduler

open Programs FloatArithmetic

/-! ## Conversion -/

/-- The tag of a class. -/
def TaskKind.type : TaskKind → TaskType
  | .unixTask => .unixTask
  | .cpuIntensiveTask _ _ => .cpuIntensiveTask
  | .ioBoundTask _ _ => .ioBoundTask

/-- `strncpy` into the description buffer, and the NUL at its end. -/
def storedDescription (description : List UInt8) : Description :=
  List.Vector.ofFn fun i =>
    if i.val < maxPath - 1 then (cString description).getD i.val 0 else 0

/-- `std::max(0, static_cast<int>(milliseconds))`. -/
def remainingTime (milliseconds : Int) : Int32 :=
  let remaining := Int32.ofInt milliseconds
  if 0 < remaining then remaining else 0

/-- `convert_to_shared_task`; `dst` is the entry to be filled. -/
def convertToSharedTask (env : Env) (src : UnixTask) (dst : SharedTask) :
    Program World SharedTask := do
  let dst := { dst with
    id := src.id
    priority := src.dynamicPriority
    description := storedDescription src.description
    completed := src.completed }
  if dst.completed then
    return { dst with remainingTimeMs := 0 }
  else
    let dst := { dst with type := src.kind.type.value }
    let time ← now env
    let elapsedTimeMs := toMilliseconds (time - src.arrivalTime)
    let totalTimeMs ← src.getTotalTime env
    return { dst with remainingTimeMs := remainingTime (totalTimeMs - elapsedTimeMs) }

/-- The object that the `switch` of `convert_from_shared_task` makes.  The
constructors validate the default priority 0, which passes. -/
def taskOfType (src : SharedTask) (arrival : Int) : UnixTask :=
  if src.type = TaskType.cpuIntensiveTask.value then
    CpuIntensiveTask.built src.id src.remainingTimeMs.toInt arrival
  else if src.type = TaskType.ioBoundTask.value then
    IoBoundTask.built src.id (textBytes "output.txt") src.remainingTimeMs arrival
  else
    UnixTask.built src.id (cString src.description.toList) 0 arrival

/-- `convert_from_shared_task`. -/
def convertFromSharedTask (env : Env) (src : SharedTask) : Program World UnixTask := do
  let arrival ← now env
  let task ← (taskOfType src arrival).setStaticPriority env src.priority
  return if src.completed then task.setState .completed else task

/-! ## The calls -/

/-- `TaskQueueManager::add_task`. -/
def addTask (env : Env) (task : UnixTask) : Program World Unit := do
  let st ← anySharedTask env
  let st ← convertToSharedTask env task st
  enqueue env st
  print env

/-- `TaskQueueManager::get_next_task`. -/
def getNextTask (env : Env) : Program World UnixTask := do
  let st ← dequeue env
  convertFromSharedTask env st

/-- `TaskQueueManager::reorder_tasks`; `fuel` bounds the rounds of its
`while` loop. -/
def reorderTasks (env : Env) (algorithm : SchedulingAlgorithm) (fuel : Nat) :
    Program World Unit := do
  let tasks ← whileFuel
    (fun _ => do return !(← empty))
    (fun tasks => do return tasks ++ [← getNextTask env])
    fuel []
  let tasks ← tasks.mapM (algorithm.updateTaskPriority env)
  tasks.forM (addTask env)

/-! ## What the conversions keep -/

/-- The class that `convert_from_shared_task` makes for a tag. -/
def classOfTag (tag : Int32) : TaskType :=
  if tag = TaskType.cpuIntensiveTask.value then .cpuIntensiveTask
  else if tag = TaskType.ioBoundTask.value then .ioBoundTask
  else .unixTask

/-- The `switch`, by the class it selects. -/
theorem taskOfType_eq (src : SharedTask) (arrival : Int) :
    taskOfType src arrival =
      match classOfTag src.type with
      | .unixTask => UnixTask.built src.id (cString src.description.toList) 0 arrival
      | .cpuIntensiveTask => CpuIntensiveTask.built src.id src.remainingTimeMs.toInt arrival
      | .ioBoundTask =>
          IoBoundTask.built src.id (textBytes "output.txt") src.remainingTimeMs arrival := by
  unfold taskOfType classOfTag
  by_cases hcpu : src.type = TaskType.cpuIntensiveTask.value
  · rw [if_pos hcpu, if_pos hcpu]
  · rw [if_neg hcpu, if_neg hcpu]
    by_cases hio : src.type = TaskType.ioBoundTask.value
    · rw [if_pos hio, if_pos hio]
    · rw [if_neg hio, if_neg hio]

/-- The task made from an entry when the clock shows `arrival` and then
`adjusted`. -/
def decoded (float : FloatArith) (src : SharedTask) (arrival adjusted : Int) : UnixTask :=
  let task := { taskOfType src arrival with staticPriority := src.priority }
  let task := task.adjustedAt float adjusted
  if src.completed then task.setState .completed else task

/-- The value that a call of `get_total_time` yields in a given state. -/
def UnixTask.totalTimeIn (env : Env) (w : World) (task : UnixTask) : Int :=
  match task.kind with
  | .cpuIntensiveTask totalWork _ => totalWork
  | _ => env.totalTime w.totals

/-- The entry made from a task in a given state, over the leftovers `dst`: a
completed task leaves the type as it was. -/
def encoded (env : Env) (w : World) (src : UnixTask) (dst : SharedTask) : SharedTask where
  id := src.id
  priority := src.dynamicPriority
  description := storedDescription src.description
  type := if src.completed then dst.type else src.kind.type.value
  completed := src.completed
  remainingTimeMs :=
    if src.completed then 0
    else remainingTime (src.totalTimeIn env w -
      toMilliseconds (env.clock.read w.readings - src.arrivalTime))

/-- What an entry keeps of the task it was made from. -/
structure Encodes (task : UnixTask) (st : SharedTask) : Prop where
  id : st.id = task.id
  priority : st.priority = task.dynamicPriority
  description : st.description = storedDescription task.description
  completed : st.completed = task.completed
  type : task.completed = false → st.type = task.kind.type.value

/-- The tag says `IO_BOUND_TASK`. -/
def SharedTask.isIoBound (st : SharedTask) : Bool := st.type == TaskType.ioBoundTask.value

/-- What a task keeps of the entry it was made from when the clock showed
`time`: its last execution is the decoding, its CPU usage is forgotten. -/
structure Decodes (float : FloatArith) (src : SharedTask) (time : Int) (task : UnixTask) :
    Prop where
  id : task.id = src.id
  completed : task.completed = src.completed
  staticPriority : task.staticPriority = src.priority
  dynamicPriority :
    task.dynamicPriority = dynamicPriorityOf float src.priority 0 time src.isIoBound
  lastExecutionTime : task.lastExecutionTime = time
  cpuUsage : task.cpuUsage = 0
  isIoBound : task.isIoBound = src.isIoBound
  type : (task.kind.type.value == TaskType.ioBoundTask.value) = src.isIoBound

/-- The class of a decoded task is the one the entry's type selects. -/
theorem decoded_kind (float : FloatArith) (st : SharedTask) (arrival adjusted : Int) :
    (decoded float st arrival adjusted).kind = (taskOfType st arrival).kind := by
  unfold decoded
  cases st.completed <;> rfl

/-- The `switch` makes a fresh task of the class the tag says. -/
theorem taskOfType_fresh (src : SharedTask) (arrival : Int) :
    (taskOfType src arrival).id = src.id ∧ (taskOfType src arrival).completed = false ∧
      (taskOfType src arrival).lastExecutionTime = 0 ∧
      (taskOfType src arrival).cpuUsage = 0 ∧
      (taskOfType src arrival).isIoBound = src.isIoBound ∧
      ((taskOfType src arrival).kind.type.value == TaskType.ioBoundTask.value) =
        src.isIoBound := by
  unfold taskOfType SharedTask.isIoBound
  by_cases hcpu : src.type = TaskType.cpuIntensiveTask.value
  · rw [if_pos hcpu, hcpu]
    exact ⟨rfl, rfl, rfl, rfl, rfl, rfl⟩
  · rw [if_neg hcpu]
    by_cases hio : src.type = TaskType.ioBoundTask.value
    · rw [if_pos hio, hio]
      exact ⟨rfl, rfl, rfl, rfl, rfl, rfl⟩
    · rw [if_neg hio, beq_eq_false_iff_ne.mpr hio]
      exact ⟨rfl, rfl, rfl, rfl, rfl, rfl⟩

theorem decoded_decodes (float : FloatArith) (src : SharedTask) (arrival adjusted : Int) :
    Decodes float src adjusted (decoded float src arrival adjusted) := by
  obtain ⟨hid, hdone, hlast, hcpu, hio, htype⟩ := taskOfType_fresh src arrival
  have hpriority : dynamicPriorityOf float src.priority (taskOfType src arrival).cpuUsage
      (adjusted - (taskOfType src arrival).lastExecutionTime)
      (taskOfType src arrival).isIoBound =
        dynamicPriorityOf float src.priority 0 adjusted src.isIoBound := by
    rw [hcpu, hlast, hio, Int.sub_zero]
  unfold decoded
  cases h : src.completed with
  | true => exact ⟨hid, h.symm, rfl, hpriority, rfl, rfl, hio, htype⟩
  | false => exact ⟨hid, hdone.trans h.symm, rfl, hpriority, rfl, rfl, hio, htype⟩

section Conversion

variable {env : Env} {w : World}

/-- Decoding an entry with a valid priority. -/
theorem convertFromSharedTask_apply {src : SharedTask}
    (h : validPriority src.priority = true) :
    convertFromSharedTask env src w =
      .ok (decoded env.float src (env.clock.read w.readings) (env.clock.read (w.readings + 1)))
        { w with readings := w.readings + 2 } := by
  simp only [convertFromSharedTask, UnixTask.setStaticPriority, UnixTask.adjustDynamicPriority,
    validatePriority, h, if_true, fromExcept, bind_apply, now_apply, pure_apply, decoded]

/-- Decoding an entry with any other priority throws. -/
theorem convertFromSharedTask_throws {src : SharedTask}
    (h : validPriority src.priority = false) :
    convertFromSharedTask env src w = .error (.thrown "Priority must be in [-20, 19]")
      { w with readings := w.readings + 1 } := by
  simp only [convertFromSharedTask, UnixTask.setStaticPriority, validatePriority, h,
    Bool.false_eq_true, if_false, fromExcept, bind_apply, now_apply, raise_apply]

/-- Asking for the total time returns it and changes nothing else. -/
theorem getTotalTime_apply (env : Env) (w : World) (task : UnixTask) :
    ∃ t, task.getTotalTime env w = .ok (task.totalTimeIn env w) { w with totals := t } := by
  unfold UnixTask.getTotalTime UnixTask.totalTimeIn
  cases task.kind with
  | cpuIntensiveTask total remaining => exact ⟨_, rfl⟩
  | unixTask => exact ⟨_, rfl⟩
  | ioBoundTask path operations => exact ⟨_, rfl⟩

/-- A CPU task's total time is its own. -/
theorem totalTimeIn_cpu {task : UnixTask} {total remaining : Int}
    (h : task.kind = .cpuIntensiveTask total remaining) : task.totalTimeIn env w = total := by
  unfold UnixTask.totalTimeIn
  rw [h]

theorem getTotalTime_cpu {task : UnixTask} {total remaining : Int}
    (h : task.kind = .cpuIntensiveTask total remaining) :
    task.getTotalTime env w = .ok total w := by
  unfold UnixTask.getTotalTime
  rw [h]
  rfl

theorem getTotalTime_returns (env : Env) (w : World) (task : UnixTask) :
    ∃ total t, task.getTotalTime env w = .ok total { w with totals := t } :=
  ⟨_, getTotalTime_apply env w task⟩

/-- **Encoding never stops**, and a task that is not completed takes one
reading of the clock. -/
theorem convertToSharedTask_apply (env : Env) (w : World) (src : UnixTask)
    (dst : SharedTask) :
    ∃ r t, convertToSharedTask env src dst w =
        .ok (encoded env w src dst) { w with readings := r, totals := t } ∧
      r = w.readings + (if src.completed then 0 else 1) := by
  unfold convertToSharedTask encoded
  by_cases hdone : src.completed = true
  · simp only [hdone, if_true, pure_apply]
    exact ⟨w.readings, w.totals, rfl, rfl⟩
  · obtain ⟨t, htotal⟩ := getTotalTime_apply env { w with readings := w.readings + 1 } src
    have hsame : src.totalTimeIn env { w with readings := w.readings + 1 } =
        src.totalTimeIn env w := rfl
    simp only [hdone, Bool.false_eq_true, if_false, bind_apply, now_apply, htotal, pure_apply,
      hsame]
    exact ⟨w.readings + 1, t, rfl, rfl⟩

theorem encoded_encodes (env : Env) (w : World) (src : UnixTask) (dst : SharedTask) :
    Encodes src (encoded env w src dst) := by
  unfold encoded
  by_cases hdone : src.completed = true
  · rw [if_pos hdone]
    exact ⟨rfl, rfl, by dsimp only, by rw [hdone], by simp [hdone]⟩
  · rw [if_neg hdone]
    rw [Bool.not_eq_true] at hdone
    exact ⟨rfl, rfl, by dsimp only, by rw [hdone], fun _ => rfl⟩

/-- Encoding returns an entry that encodes its task. -/
theorem convertToSharedTask_returns (env : Env) (w : World) (src : UnixTask)
    (dst : SharedTask) :
    ∃ st r t, convertToSharedTask env src dst w =
        .ok st { w with readings := r, totals := t } ∧ Encodes src st ∧
      (src.completed = false → r = w.readings + 1) := by
  obtain ⟨r, t, hencode, hread⟩ := convertToSharedTask_apply env w src dst
  refine ⟨_, r, t, hencode, encoded_encodes env w src dst, fun hdone => ?_⟩
  rw [hread, hdone]
  rfl

end Conversion

/-! ## What the calls do -/

section Calls

variable {env : Env} {w : World} {q : List SharedTask} {st : SharedTask}

/-- `get_next_task` on a queue whose first entry has a valid priority. -/
theorem getNextTask_apply (h : Quiescent env.capacity w.shm (st :: q))
    (h₀ : env.waitFails w.waits = false) (h₁ : env.waitFails (w.waits + 1) = false)
    (hvalid : validPriority st.priority = true) :
    getNextTask env w =
      .ok (decoded env.float st (env.clock.read w.readings) (env.clock.read (w.readings + 1)))
        { w with
          shm := w.shm.dequeued env.capacity
          waits := w.waits + 2
          readings := w.readings + 2 } := by
  have hdequeue := dequeue_apply h₀ h₁ h.item_pos h.mutex_pos h.count_pos.ne'
  rw [h.ring.holds.head_slot] at hdequeue
  unfold getNextTask
  rw [returns hdequeue, convertFromSharedTask_apply hvalid]

/-- **Every way a `get_next_task` can end** on a queue that is not empty: a wait
fails and the queue is as it was, the decoder rejects the entry, which is gone,
or it returns the decoded task. -/
theorem getNextTask_cases (h : Quiescent env.capacity w.shm (st :: q)) :
    ∃ w', ((env.waitFails w.waits = true ∨ env.waitFails (w.waits + 1) = true) ∧
          (∃ message, getNextTask env w = .error (.thrown message) w') ∧ w'.shm = w.shm) ∨
      ((env.waitFails w.waits = false ∧ env.waitFails (w.waits + 1) = false) ∧
        Quiescent env.capacity w'.shm q ∧ w'.waits = w.waits + 2 ∧
        ((validPriority st.priority = false ∧
            ∃ message, getNextTask env w = .error (.thrown message) w') ∨
          (validPriority st.priority = true ∧
            getNextTask env w = .ok (decoded env.float st (env.clock.read w.readings)
              (env.clock.read (w.readings + 1))) w'))) := by
  by_cases hfail : env.waitFails w.waits = true ∨ env.waitFails (w.waits + 1) = true
  · obtain ⟨message, k, hthrow⟩ := dequeue_throws h.item_pos hfail
    refine ⟨{ w with waits := k }, .inl ⟨hfail, ⟨message, ?_⟩, rfl⟩⟩
    exact stops hthrow
  · simp only [not_or, Bool.not_eq_true] at hfail
    cases hvalid : validPriority st.priority with
    | true =>
        have hget := getNextTask_apply h hfail.1 hfail.2 hvalid
        exact ⟨_, .inr ⟨hfail, h.dequeued env.declared, rfl, .inr ⟨rfl, hget⟩⟩⟩
    | false =>
        have hdequeue := dequeue_apply hfail.1 hfail.2 h.item_pos h.mutex_pos h.count_pos.ne'
        rw [h.ring.holds.head_slot] at hdequeue
        have hget : getNextTask env w = _ :=
          (returns hdequeue).trans (convertFromSharedTask_throws hvalid)
        exact ⟨_, .inr ⟨hfail, h.dequeued env.declared, rfl, .inl ⟨rfl, _, hget⟩⟩⟩

/-- The entry that an `add_task` called in state `w` stores. -/
def storedEntry (env : Env) (w : World) (task : UnixTask) : SharedTask :=
  encoded env w task (env.uninitialised w.locals)

/-- It has the id of the task. -/
theorem storedEntry_id (env : Env) (w : World) (task : UnixTask) :
    (storedEntry env w task).id = task.id :=
  (encoded_encodes env w task (env.uninitialised w.locals)).id

/-- The number of clock readings after the encoding. -/
def encodedReadings (w : World) (task : UnixTask) : Nat :=
  w.readings + (if task.completed then 0 else 1)

/-- `add_task` encodes its task, which touches neither the segment nor the
log, and then enqueues the entry and prints the queue. -/
theorem addTask_apply (env : Env) (w : World) (task : UnixTask) :
    ∃ w₁, addTask env task w =
        (enqueue env (storedEntry env w task) >>= fun _ => print env) w₁ ∧
      w₁.shm = w.shm ∧ w₁.waits = w.waits ∧ w₁.log = w.log ∧
      w₁.readings = encodedReadings w task := by
  obtain ⟨r, t, hencode, hread⟩ := convertToSharedTask_apply env
    { w with locals := w.locals + 1 } task (env.uninitialised w.locals)
  refine ⟨{ w with readings := r, totals := t, locals := w.locals + 1 }, ?_, rfl, rfl, rfl,
    hread⟩
  unfold addTask
  rw [returns (anySharedTask_apply env w), returns hencode]
  rfl

/-- **Every way an `add_task` can end** on a queue with room: a wait of
`enqueue` fails and the segment is as it was, the wait of `print` fails when
the entry is already stored, or none fails and it returns. -/
theorem addTask_cases (h : Quiescent env.capacity w.shm q) (hroom : q.length < env.capacity)
    (task : UnixTask) :
    ∃ w', w'.log = w.log ∧ w'.readings = encodedReadings w task ∧
      (((env.waitFails w.waits = true ∨ env.waitFails (w.waits + 1) = true) ∧
          (∃ message, addTask env task w = .error (.thrown message) w') ∧
          w'.shm = w.shm) ∨
        ((env.waitFails w.waits = false ∧ env.waitFails (w.waits + 1) = false) ∧
          Quiescent env.capacity w'.shm (q ++ [storedEntry env w task]) ∧
          w'.waits = w.waits + 3 ∧
          ((env.waitFails (w.waits + 2) = true ∧
              ∃ message, addTask env task w = .error (.thrown message) w') ∨
            (env.waitFails (w.waits + 2) = false ∧ addTask env task w = .ok () w')))) := by
  obtain ⟨w₁, hadd, hshm, hcalls, hlog, hread⟩ := addTask_apply env w task
  rw [← hshm] at h
  rw [← hcalls]
  by_cases hfail : env.waitFails w₁.waits = true ∨ env.waitFails (w₁.waits + 1) = true
  · obtain ⟨message, k, hthrow⟩ :=
      enqueue_throws (storedEntry env w task) (h.slot_pos hroom) hfail
    rw [stops hthrow] at hadd
    exact ⟨{ w₁ with waits := k }, hlog, hread, .inl ⟨hfail, ⟨message, hadd⟩, hshm⟩⟩
  · simp only [not_or, Bool.not_eq_true] at hfail
    have hdone := h.enqueued env.declared hroom (storedEntry env w task)
    have henqueue := enqueue_apply (storedEntry env w task) hfail.1 hfail.2
      (h.slot_pos hroom) h.mutex_pos
    let w₂ : World := { w₁ with
      shm := w₁.shm.enqueued env.capacity (storedEntry env w task)
      waits := w₁.waits + 2 }
    rw [returns henqueue] at hadd
    cases hprint : env.waitFails (w₁.waits + 2) with
    | true =>
        have hthrow : print env w₂ = _ := print_throws hprint
        exact ⟨{ w₂ with waits := w₂.waits + 1 }, hlog, hread,
          .inr ⟨hfail, hdone, rfl, .inl ⟨rfl, _, hadd.trans hthrow⟩⟩⟩
    | false =>
        have hreturn : print env w₂ = _ := print_apply hprint hdone.mutex_pos
        refine ⟨_, ?_, ?_, .inr ⟨hfail, ?_, ?_, .inr ⟨rfl, hadd.trans hreturn⟩⟩⟩
        · exact hlog
        · exact hread
        · exact hdone
        · rfl

/-- **`add_task` appends the entry for its task** when the queue has room and
its waits succeed. -/
theorem addTask_stores (h : Quiescent env.capacity w.shm q) (hroom : q.length < env.capacity)
    (hwaits : ∀ k < 3, env.waitFails (w.waits + k) = false) (task : UnixTask) :
    ∃ w', addTask env task w = .ok () w' ∧
      Quiescent env.capacity w'.shm (q ++ [storedEntry env w task]) ∧ w'.log = w.log ∧
      w'.readings = encodedReadings w task ∧ w'.waits = w.waits + 3 := by
  have h₀ : env.waitFails w.waits = false := hwaits 0 (by omega)
  have h₁ := hwaits 1 (by omega)
  have h₂ := hwaits 2 (by omega)
  obtain ⟨w', hlog, hread, ⟨hfail, -⟩ | ⟨-, hdone, hcalls, ⟨hfail, -⟩ | ⟨-, hadd⟩⟩⟩ :=
    addTask_cases h hroom task
  · rw [h₀, h₁] at hfail
    simp at hfail
  · rw [h₂] at hfail
    cases hfail
  · exact ⟨w', hadd, hdone, hlog, hread, hcalls⟩

theorem addTask_returns (h : Quiescent env.capacity w.shm q) (hroom : q.length < env.capacity)
    (hwaits : ∀ k < 3, env.waitFails (w.waits + k) = false) (task : UnixTask) :
    ∃ st w', addTask env task w = .ok () w' ∧ Encodes task st ∧
      Quiescent env.capacity w'.shm (q ++ [st]) ∧ w'.log = w.log ∧
      (task.completed = false → w'.readings = w.readings + 1) := by
  obtain ⟨w', hadd, hdone, hlog, hread, -⟩ := addTask_stores h hroom hwaits task
  refine ⟨_, w', hadd, encoded_encodes env w task _, hdone, hlog, fun hfresh => ?_⟩
  rw [hread, encodedReadings, hfresh]
  rfl

end Calls

end TaskSheduler
