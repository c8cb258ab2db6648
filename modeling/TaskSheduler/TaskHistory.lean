import TaskSheduler.TaskQueueManager

/-!
# Histories of a task

A task is constructed, called upon by whoever holds it, put into the queue and
taken out again.  `Construction.run` is a constructor with its arguments,
`TaskCall.perform` a call together with what it leaves behind when it throws,
and `throughQueue` a pass: what `add_task` and the `get_next_task` of the same
entry do to the task.  `Reachable` collects the tasks of all such histories.

`execute_keeps` is what an `execute` never changes; from it and the other
calls follows `Coherent`, the invariant of every history.
-/

namespace TaskSheduler

open Programs FloatArithmetic

/-! ## Constructors, calls and passes -/

/-- `UnixTask::UnixTask`. -/
def UnixTask.construct (env : Env) (id : Int32) (description : List UInt8)
    (staticPriority : Int32) : Program World UnixTask := do
  let arrival ← now env
  let task := UnixTask.built id description staticPriority arrival
  fromExcept (validatePriority task.staticPriority)
  return task

/-- `CpuIntensiveTask::CpuIntensiveTask`. -/
def CpuIntensiveTask.construct (env : Env) (id : Int32) (duration : Int) :
    Program World UnixTask := do
  let task ← UnixTask.construct env id (textBytes "CPU-Intensive Task") 0
  return { task with kind := .cpuIntensiveTask duration duration, isIoBound := false }

/-- `IoBoundTask::IoBoundTask`. -/
def IoBoundTask.construct (env : Env) (id : Int32) (filePath : List UInt8)
    (operations : Int32) : Program World UnixTask := do
  let task ← UnixTask.construct env id (textBytes "I/O-Bound Task: " ++ filePath) 0
  return { task with kind := .ioBoundTask filePath operations, isIoBound := true }

/-- The constructors with their arguments. -/
inductive Construction
  | unixTask (id : Int32) (description : List UInt8) (staticPriority : Int32)
  | cpuIntensiveTask (id : Int32) (duration : Int)
  | ioBoundTask (id : Int32) (filePath : List UInt8) (operations : Int32)

/-- Run a constructor. -/
def Construction.run (env : Env) : Construction → Program World UnixTask
  | .unixTask id description staticPriority =>
      UnixTask.construct env id description staticPriority
  | .cpuIntensiveTask id duration => CpuIntensiveTask.construct env id duration
  | .ioBoundTask id filePath operations => IoBoundTask.construct env id filePath operations

/-- The calls by which a task changes. -/
inductive TaskCall
  | setStaticPriority (niceValue : Int32)
  | adjustDynamicPriority
  | setState (state : TaskState)
  | execute (quantum : Int)

/-- The task after a call; exceptions are caught.  A rejected priority stays
in the object, and the `execute` that throws does nothing before. -/
def TaskCall.perform (env : Env) (task : UnixTask) : TaskCall → Program World UnixTask
  | .setStaticPriority niceValue =>
      catchThrown (task.setStaticPriority env niceValue) fun _ =>
        return { task with staticPriority := niceValue }
  | .adjustDynamicPriority => task.adjustDynamicPriority env
  | .setState state => return task.setState state
  | .execute quantum =>
      catchThrown (do return (← task.execute env quantum).2) fun _ => return task

/-- What a pass does to a task: `add_task` encodes it into an uninitialised
entry, and the `get_next_task` that takes the entry out decodes it. -/
def throughQueue (env : Env) (task : UnixTask) : Program World UnixTask := do
  let st ← anySharedTask env
  let st ← convertToSharedTask env task st
  convertFromSharedTask env st

/-- The tasks of all histories. -/
inductive Reachable (env : Env) : UnixTask → Prop
  | constructed {construction : Construction} {task : UnixTask} {w w' : World}
      (h : construction.run env w = .ok task w') : Reachable env task
  | called {call : TaskCall} {task task' : UnixTask} {w w' : World}
      (before : Reachable env task) (h : call.perform env task w = .ok task' w') :
      Reachable env task'
  | passed {task task' : UnixTask} {w w' : World}
      (before : Reachable env task) (h : throughQueue env task w = .ok task' w') :
      Reachable env task'

/-! ## What an `execute` keeps -/

/-- The members that no `execute` changes, and the class. -/
structure KeptByExecute (task task' : UnixTask) : Prop where
  id : task'.id = task.id
  arrivalTime : task'.arrivalTime = task.arrivalTime
  staticPriority : task'.staticPriority = task.staticPriority
  dynamicPriority : task'.dynamicPriority = task.dynamicPriority
  lastExecutionTime : task'.lastExecutionTime = task.lastExecutionTime
  isIoBound : task'.isIoBound = task.isIoBound
  type : task'.kind.type = task.kind.type

/-- `execute` keeps them whenever it returns. -/
theorem execute_keeps {env : Env} {quantum : Int} {task : UnixTask} {w w' : World}
    {r : Bool × UnixTask} (h : task.execute env quantum w = .ok r w') :
    KeptByExecute task r.2 := by
  unfold UnixTask.execute at h
  cases hkind : task.kind with
  | unixTask =>
      rw [hkind] at h
      cases h
  | cpuIntensiveTask totalWork remainingWork =>
      simp only [hkind, CpuIntensiveTask.execute] at h
      obtain ⟨start, w₁, -, h⟩ := bind_returned h
      obtain ⟨result, w₂, -, h⟩ := bind_returned h
      cases result with
      | some time =>
          cases h
          exact ⟨rfl, rfl, rfl, rfl, rfl, rfl, by rw [hkind]; rfl⟩
      | none =>
          obtain ⟨finish, w₃, -, h⟩ := bind_returned h
          cases h
          exact ⟨rfl, rfl, rfl, rfl, rfl, rfl, by rw [hkind]; rfl⟩
  | ioBoundTask filePath operations =>
      simp only [hkind, IoBoundTask.execute] at h
      obtain ⟨start, w₁, -, h⟩ := bind_returned h
      obtain ⟨opened, w₂, -, h⟩ := bind_returned h
      cases opened with
      | false =>
          cases h
          exact ⟨rfl, rfl, rfl, rfl, rfl, rfl, rfl⟩
      | true =>
          simp only [if_true] at h
          obtain ⟨-, w₃, -, h⟩ := bind_returned h
          obtain ⟨-, w₄, -, h⟩ := bind_returned h
          obtain ⟨finish, w₅, -, h⟩ := bind_returned h
          cases h
          exact ⟨rfl, rfl, rfl, rfl, rfl, rfl, by rw [hkind]; rfl⟩

/-! ## The invariant of every history -/

/-- What every history of a task ensures: a dynamic priority the decoder
accepts, and a flag that agrees with the class. -/
structure Coherent (task : UnixTask) : Prop where
  priority : validPriority task.dynamicPriority = true
  isIoBound : task.isIoBound = (task.kind.type == .ioBoundTask)

/-- Adjusting makes the priority valid, whatever it was made from. -/
theorem Coherent.adjustedAt {task : UnixTask} (h : Coherent task) (float : FloatArith)
    (time : Int) : Coherent (task.adjustedAt float time) :=
  ⟨validPriority_dynamicPriorityOf _ _ _ _ _, h.isIoBound⟩

theorem Coherent.execute {task task' : UnixTask} (h : Coherent task)
    (hkept : KeptByExecute task task') : Coherent task' :=
  ⟨hkept.dynamicPriority ▸ h.priority, by rw [hkept.isIoBound, hkept.type, h.isIoBound]⟩

/-- A constructor that returns has validated the priority it was given. -/
theorem construct_coherent {env : Env} {construction : Construction} {task : UnixTask}
    {w w' : World} (h : construction.run env w = .ok task w') : Coherent task := by
  have hbase : ∀ {id : Int32} {description : List UInt8} {p : Int32} {task : UnixTask}
      {w' : World}, UnixTask.construct env id description p w = .ok task w' →
        validPriority task.dynamicPriority = true ∧ task.isIoBound = false ∧
          task.kind = .unixTask := by
    intro id description p task w' h
    obtain ⟨arrival, w₁, -, h⟩ := bind_returned h
    obtain ⟨checked, w₂, hvalid, h⟩ := bind_returned h
    cases h
    refine ⟨?_, rfl, rfl⟩
    cases hp : validPriority p with
    | true => exact hp
    | false =>
        simp only [validatePriority, UnixTask.built, hp, Bool.false_eq_true, if_false,
          fromExcept, raise_apply] at hvalid
        cases hvalid
  cases construction with
  | unixTask id description p =>
      obtain ⟨hvalid, hflag, hkind⟩ := hbase h
      exact ⟨hvalid, by rw [hflag, hkind]; rfl⟩
  | cpuIntensiveTask id duration =>
      obtain ⟨base, w₁, hrun, h⟩ := bind_returned h
      cases h
      exact ⟨(hbase hrun).1, rfl⟩
  | ioBoundTask id filePath operations =>
      obtain ⟨base, w₁, hrun, h⟩ := bind_returned h
      cases h
      exact ⟨(hbase hrun).1, rfl⟩

/-- `set_static_priority` with a valid priority adjusts by it. -/
theorem setStaticPriority_accepts {env : Env} {task : UnixTask} {niceValue : Int32} {w : World}
    (h : validPriority niceValue = true) :
    task.setStaticPriority env niceValue w =
      .ok (({ task with staticPriority := niceValue } : UnixTask).adjustedAt env.float
        (env.clock.read w.readings)) { w with readings := w.readings + 1 } := by
  simp only [UnixTask.setStaticPriority, validatePriority, h, if_true, fromExcept,
    UnixTask.adjustDynamicPriority, bind_apply, pure_apply, now_apply]

/-- With any other priority it throws. -/
theorem setStaticPriority_rejects {env : Env} {task : UnixTask} {niceValue : Int32} {w : World}
    (h : validPriority niceValue = false) :
    task.setStaticPriority env niceValue w =
      .error (.thrown "Priority must be in [-20, 19]") w := by
  simp only [UnixTask.setStaticPriority, validatePriority, h, Bool.false_eq_true, if_false,
    fromExcept, bind_apply, raise_apply]

/-- A call keeps the invariant, also when it throws. -/
theorem perform_coherent {env : Env} {call : TaskCall} {task task' : UnixTask} {w w' : World}
    (before : Coherent task) (h : call.perform env task w = .ok task' w') :
    Coherent task' := by
  cases call with
  | setStaticPriority niceValue =>
      have hleft : Coherent { task with staticPriority := niceValue } :=
        ⟨before.priority, before.isIoBound⟩
      cases hp : validPriority niceValue with
      | true =>
          rw [TaskCall.perform, catchThrown_returns (setStaticPriority_accepts hp)] at h
          cases h
          exact hleft.adjustedAt _ _
      | false =>
          rw [TaskCall.perform, catchThrown_thrown (setStaticPriority_rejects hp)] at h
          cases h
          exact hleft
  | adjustDynamicPriority =>
      cases h
      exact before.adjustedAt _ _
  | setState state =>
      cases h
      exact ⟨before.priority, before.isIoBound⟩
  | execute quantum =>
      cases hrun : task.execute env quantum w with
      | ok r w₁ =>
          have hreturns : (do return (← task.execute env quantum).2 : Program World UnixTask) w =
              .ok r.2 w₁ := by rw [returns hrun]; rfl
          rw [TaskCall.perform, catchThrown_returns hreturns] at h
          cases h
          exact before.execute (execute_keeps hrun)
      | error e w₁ =>
          have hstops : (do return (← task.execute env quantum).2 : Program World UnixTask) w =
              .error e w₁ := stops hrun
          simp only [TaskCall.perform, catchThrown, hstops] at h
          cases e with
          | thrown message =>
              cases h
              exact before
          | blocked => cases h
          | outOfFuel => cases h

/-! ## A pass -/

/-- A tag that the encoder wrote is read back. -/
theorem classOfTag_value (type : TaskType) : classOfTag type.value = type := by
  cases type <;> rfl

theorem decoded_type (float : FloatArith) (st : SharedTask) (arrival adjusted : Int) :
    (decoded float st arrival adjusted).kind.type = classOfTag st.type := by
  rw [decoded_kind, taskOfType_eq]
  cases classOfTag st.type with
  | unixTask => rfl
  | cpuIntensiveTask => rfl
  | ioBoundTask => rfl

/-- What is decoded is coherent. -/
theorem decoded_coherent (float : FloatArith) (st : SharedTask) (arrival adjusted : Int) :
    Coherent (decoded float st arrival adjusted) := by
  have hkept := decoded_decodes float st arrival adjusted
  constructor
  · rw [hkept.dynamicPriority]
    exact validPriority_dynamicPriorityOf _ _ _ _ _
  · rw [hkept.isIoBound, ← hkept.type]
    cases (decoded float st arrival adjusted).kind <;> rfl

section Pass

variable {env : Env} {task : UnixTask}

/-- **A pass returns** the task decoded from the entry it wrote, if that has a
valid priority. -/
theorem throughQueue_apply (env : Env) (hvalid : validPriority task.dynamicPriority = true)
    (w : World) :
    ∃ w', throughQueue env task w =
        .ok (decoded env.float (storedEntry env w task)
          (env.clock.read (encodedReadings w task))
          (env.clock.read (encodedReadings w task + 1))) w' ∧
      w'.readings = encodedReadings w task + 2 := by
  obtain ⟨r, t, hencode, hread⟩ := convertToSharedTask_apply env
    { w with locals := w.locals + 1 } task (env.uninitialised w.locals)
  have hentry : encoded env { w with locals := w.locals + 1 } task
      (env.uninitialised w.locals) = storedEntry env w task := rfl
  have hpriority : validPriority (storedEntry env w task).priority = true := hvalid
  have hstart : r = encodedReadings w task := hread
  subst hstart
  unfold throughQueue
  rw [returns (anySharedTask_apply env w), returns hencode, hentry,
    convertFromSharedTask_apply hpriority]
  exact ⟨_, rfl, rfl⟩

/-- A pass keeps the invariant. -/
theorem throughQueue_coherent {task' : UnixTask} {w w' : World} (before : Coherent task)
    (h : throughQueue env task w = .ok task' w') : Coherent task' := by
  obtain ⟨w₁, hpass, -⟩ := throughQueue_apply env before.priority w
  rw [hpass] at h
  cases h
  exact decoded_coherent _ _ _ _

/-- **Every task of every history is coherent.** -/
theorem reachable_coherent (h : Reachable env task) : Coherent task := by
  induction h with
  | constructed h => exact construct_coherent h
  | called before h ih => exact perform_coherent ih h
  | passed before h ih => exact throughQueue_coherent ih h

/-- On an empty queue, `add_task` followed by `get_next_task` is a pass. -/
theorem addTask_getNextTask {w : World} (h : Quiescent env.capacity w.shm [])
    (hcapacity : 0 < env.capacity) (hwaits : ∀ k < 5, env.waitFails (w.waits + k) = false)
    (hvalid : validPriority task.dynamicPriority = true) :
    ∃ task' w₁ w₂, throughQueue env task w = .ok task' w₁ ∧
      (do addTask env task; getNextTask env) w = .ok task' w₂ ∧
      Quiescent env.capacity w₂.shm [] ∧ w₂.readings = w₁.readings := by
  obtain ⟨w₁, hpass, hread₁⟩ := throughQueue_apply env hvalid w
  obtain ⟨w₂, hadd, hstored, -, hread₂, hcalls⟩ :=
    addTask_stores h hcapacity (fun k hk => hwaits k (by omega)) task
  have hpriority : validPriority (storedEntry env w task).priority = true := hvalid
  have hget := getNextTask_apply hstored (hcalls ▸ hwaits 3 (by omega))
    (by rw [hcalls]; exact hwaits 4 (by omega)) hpriority
  rw [hread₂] at hget
  refine ⟨_, w₁, _, hpass, (returns hadd).trans hget, hstored.dequeued env.declared, ?_⟩
  exact hread₁.symm

/-! ## What survives a pass -/

/-- **The class survives a pass exactly if the leftovers agree with it or the
task is not completed.**  Id and completion always survive: of a completed
task the encoder leaves the type of the uninitialised entry standing. -/
theorem throughQueue_keeps_kind_iff (htask : Reachable env task) (w : World) :
    ∃ task' w', throughQueue env task w = .ok task' w' ∧
      ((task'.id = task.id ∧ task'.kind.type = task.kind.type ∧
          task'.completed = task.completed) ↔
        (task.completed = true →
          classOfTag (env.uninitialised w.locals).type = task.kind.type)) := by
  obtain ⟨w', hpass, -⟩ := throughQueue_apply env (reachable_coherent htask).priority w
  have hkept := decoded_decodes env.float (storedEntry env w task)
    (env.clock.read (encodedReadings w task)) (env.clock.read (encodedReadings w task + 1))
  have htype := decoded_type env.float (storedEntry env w task)
    (env.clock.read (encodedReadings w task)) (env.clock.read (encodedReadings w task + 1))
  refine ⟨_, w', hpass, ?_⟩
  rw [hkept.id, hkept.completed, htype]
  cases hdone : task.completed with
  | true =>
      have htag : (storedEntry env w task).type = (env.uninitialised w.locals).type := by
        simp only [storedEntry, encoded, hdone, if_true]
      rw [htag]
      constructor
      · intro hall _
        exact hall.2.1
      · intro hclass
        exact ⟨rfl, hclass rfl, hdone⟩
  | false =>
      have htag : (storedEntry env w task).type = task.kind.type.value := by
        simp only [storedEntry, encoded, hdone, Bool.false_eq_true, if_false]
      rw [htag, classOfTag_value]
      refine iff_of_true ⟨rfl, rfl, hdone⟩ fun hcontra => ?_
      cases hcontra

/-- A CPU task as its constructor leaves it. -/
def freshCpuTask : UnixTask := CpuIntensiveTask.built 7 100 0

theorem reachable_freshCpuTask : Reachable envOne freshCpuTask := by
  have hrun : (Construction.cpuIntensiveTask 7 100).run envOne
      (World.begin (Shm.create 1)) = .ok freshCpuTask
        { World.begin (Shm.create 1) with readings := 1 } := rfl
  exact .constructed hrun

/-- The CPU task after a call of `set_state`. -/
def completedCpuTask : UnixTask := freshCpuTask.setState .completed

theorem reachable_completedCpuTask : Reachable envOne completedCpuTask := by
  have hcall : (TaskCall.setState .completed).perform envOne freshCpuTask
      (World.begin (Shm.create 1)) = .ok completedCpuTask (World.begin (Shm.create 1)) := rfl
  exact reachable_freshCpuTask.called hcall

/-- An unfinished CPU task comes back as a CPU task. -/
theorem throughQueue_keeps_kind_fresh :
    ∃ task' w', throughQueue envOne freshCpuTask (World.begin (Shm.create 1)) =
        .ok task' w' ∧
      task'.id = 7 ∧ task'.kind.type = .cpuIntensiveTask ∧ task'.completed = false := by
  obtain ⟨task', w', hpass, hiff⟩ :=
    throughQueue_keeps_kind_iff reachable_freshCpuTask (World.begin (Shm.create 1))
  refine ⟨task', w', hpass, hiff.mpr fun hdone => ?_⟩
  cases hdone

/-- A completed one, encoded over a zeroed entry, comes back as a `UnixTask`. -/
theorem throughQueue_changes_kind :
    Reachable envOne completedCpuTask ∧
      ∃ task' w', throughQueue envOne completedCpuTask (World.begin (Shm.create 1)) =
          .ok task' w' ∧
        completedCpuTask.kind.type = .cpuIntensiveTask ∧ task'.kind.type = .unixTask :=
  ⟨reachable_completedCpuTask, _, _, rfl, rfl, rfl⟩

/-- **What the encoder writes, the decoder accepts.**  After any history,
with constructor, calls and passes in any order, the priority of a task is in
the range, and the entry made from it over any leftovers at any time is
decoded, at any time, without an exception. -/
theorem encoder_output_accepted (htask : Reachable env task) :
    (-20 ≤ task.dynamicPriority.toInt ∧ task.dynamicPriority.toInt ≤ 19) ∧
      ∀ (dst : SharedTask) (w : World), ∃ st w₁,
        convertToSharedTask env task dst w = .ok st w₁ ∧
        ∀ w₂, ∃ task' w₃, convertFromSharedTask env st w₂ = .ok task' w₃ := by
  have hvalid := (reachable_coherent htask).priority
  refine ⟨(validPriority_iff _).mp hvalid, fun dst w => ?_⟩
  obtain ⟨r, t, hencode, -⟩ := convertToSharedTask_apply env w task dst
  have hpriority : validPriority (encoded env w task dst).priority = true := hvalid
  exact ⟨_, _, hencode, fun w₂ => ⟨_, _, convertFromSharedTask_apply hpriority⟩⟩

end Pass

/-- A plain task, and what a rejected priority leaves of it. -/
def rejectedTask : UnixTask :=
  { UnixTask.built 7 (textBytes "plain") 19 0 with staticPriority := 100 }

theorem reachable_rejectedTask : Reachable envOne rejectedTask := by
  have hrun : (Construction.unixTask 7 (textBytes "plain") 19).run envOne
      (World.begin (Shm.create 1)) = .ok (UnixTask.built 7 (textBytes "plain") 19 0)
        { World.begin (Shm.create 1) with readings := 1 } := rfl
  have hcall : (TaskCall.setStaticPriority 100).perform envOne
      (UnixTask.built 7 (textBytes "plain") 19 0) (World.begin (Shm.create 1)) =
        .ok rejectedTask (World.begin (Shm.create 1)) := rfl
  exact (Reachable.constructed hrun).called hcall

/-- The rejected priority is adjusted back into the range. -/
theorem encoder_output_accepted_rejected :
    (rejectedTask.adjustedAt FloatArith.exact 0).dynamicPriority.toInt ≤ 19 ∧
      ∃ st w₁, convertToSharedTask envOne (rejectedTask.adjustedAt FloatArith.exact 0)
        SharedTask.zeroed (World.begin (Shm.create 1)) = .ok st w₁ := by
  have hcall : TaskCall.adjustDynamicPriority.perform envOne rejectedTask
      (World.begin (Shm.create 1)) = .ok (rejectedTask.adjustedAt FloatArith.exact 0)
        { World.begin (Shm.create 1) with readings := 1 } := rfl
  obtain ⟨⟨-, hle⟩, haccepted⟩ :=
    encoder_output_accepted (reachable_rejectedTask.called hcall)
  obtain ⟨st, w₁, hencode, -⟩ := haccepted SharedTask.zeroed (World.begin (Shm.create 1))
  exact ⟨hle, st, w₁, hencode⟩

end TaskSheduler
