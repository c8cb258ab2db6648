import TaskSheduler.ReorderTasks

/-!
# One round of the task processor

`processTask` is the body of the loop in `process_tasks`: take a task, execute
it, and drop it or put it back.  `running` is the value of `running_` at the
put-back decision.

`execute_spec` is the contract of `execute`, whatever the class of the task:
it leaves the queue alone and keeps the id, and only a plain `UnixTask`
throws.  With it `processTask_throws` finds every point at which a round can
fail after `get_next_task`, and with that what the queue holds after the
`catch` block.
-/

namespace TaskSheduler

open Programs FloatArithmetic

/-- The branch of a task whose total time is at least the quantum, with the
slice it is given. -/
def sliceBranch (env : Env) (slice : Int) (running : Bool) (task : UnixTask) :
    Program World Unit := do
  let (completed, task) ← task.execute env slice
  if !completed && running then
    addTask env task
  else
    logLine (.completed task.description)

/-- The branch of a task whose total time is below the quantum. -/
def shortBranch (env : Env) (task : UnixTask) : Program World Unit := do
  let (_, task) ← task.execute env (← task.getTotalTime env)
  logLine (.completed task.description)

/-- The `try` block of `process_tasks` once `get_next_task` has returned. -/
def processTask (env : Env) (timeQuantum : Int) (running : Bool) (task : UnixTask) :
    Program World Unit := do
  logLine (.processing task.description)
  if (← task.getTotalTime env) < timeQuantum then
    shortBranch env task
  else
    sliceBranch env timeQuantum running task

/-- The body of the loop in `process_tasks`. -/
def processTasksRound (env : Env) (timeQuantum : Int) (running : Bool) : Program World Unit :=
  catchThrown
    (do
      if 0 < (← size) then
        let task ← getNextTask env
        processTask env timeQuantum running task)
    (fun message => logLine (.failed message))

/-- The state with a line added to the log. -/
def World.logged (w : World) (entry : LogEntry) : World := { w with log := w.log ++ [entry] }

section Rounds

variable {env : Env} {timeQuantum total : Int} {running : Bool} {w w₁ w₂ : World}
  {task : UnixTask}

/-- A task whose total time is below the quantum takes the short branch. -/
theorem processTask_short
    (htotal : task.getTotalTime env (w.logged (.processing task.description)) = .ok total w₂)
    (hshort : total < timeQuantum) :
    processTask env timeQuantum running task w = shortBranch env task w₂ := by
  unfold processTask
  rw [returns (logLine_apply _ w)]
  show (task.getTotalTime env >>= _) (w.logged _) = _
  rw [returns htotal, if_pos hshort]

/-- Any other task gets the quantum. -/
theorem processTask_sliced
    (htotal : task.getTotalTime env (w.logged (.processing task.description)) = .ok total w₂)
    (hlong : timeQuantum ≤ total) :
    processTask env timeQuantum running task w =
      sliceBranch env timeQuantum running task w₂ := by
  unfold processTask
  rw [returns (logLine_apply _ w)]
  show (task.getTotalTime env >>= _) (w.logged _) = _
  rw [returns htotal, if_neg (not_lt.mpr hlong)]

/-- A round that takes a task is the `try` block on it. -/
theorem processTasksRound_taken (hcount : 0 < w.shm.count)
    (hget : getNextTask env w = .ok task w₁) :
    processTasksRound env timeQuantum running w =
      catchThrown (processTask env timeQuantum running task)
        (fun message => logLine (.failed message)) w₁ := by
  have hsize : size w = .ok w.shm.count w := rfl
  simp only [processTasksRound, catchThrown, returns hsize, if_pos hcount, returns hget]

end Rounds

/-! ## What `execute` may do -/

/-- The two states agree on the segment, the waits made, and the log. -/
structure SameQueue (w w' : World) : Prop where
  shm : w'.shm = w.shm
  waits : w'.waits = w.waits
  log : w'.log = w.log

/-- A program that leaves the queue alone and throws nothing. -/
def Local {α : Type} (x : Program World α) : Prop :=
  ∀ w, Triple (SameQueue w) x (fun _ s => SameQueue w s)
    (fun e s => SameQueue w s ∧ e = .outOfFuel)

theorem Local.bind {α β : Type} {x : Program World α} {f : α → Program World β}
    (hx : Local x) (hf : ∀ a, Local (f a)) : Local (x >>= f) :=
  fun w => (hx w).bind fun a => hf a w

theorem Local.pure {α : Type} (a : α) : Local (Pure.pure a) :=
  fun _ => Triple.pure fun _ hs => hs

theorem now_local (env : Env) : Local (now env) :=
  fun _ _ hs => ⟨hs.shm, hs.waits, hs.log⟩

theorem openAppend_local (env : Env) : Local (openAppend env) :=
  fun _ _ hs => ⟨hs.shm, hs.waits, hs.log⟩

theorem appendLine_local (path : List UInt8) (line : String) : Local (appendLine path line) :=
  fun _ _ hs => ⟨hs.shm, hs.waits, hs.log⟩

theorem getTotalTime_local (env : Env) (task : UnixTask) : Local (task.getTotalTime env) := by
  intro w s hs
  obtain ⟨total, t, htotal⟩ := getTotalTime_returns env s task
  rw [htotal]
  exact ⟨hs.shm, hs.waits, hs.log⟩

theorem cpuLoop_local (env : Env) (start quantum : Int) (left : Nat) :
    Local (cpuLoop env start quantum left) := by
  induction left with
  | zero => exact Local.pure none
  | succ left ih =>
      refine (now_local env).bind fun time => ?_
      by_cases h : quantum * 1000000 ≤ time - start
      · rw [if_pos h]
        exact Local.pure _
      · rw [if_neg h]
        exact ih

theorem sleepUntil_local (env : Env) (endTime : Int) (patience : Nat) :
    Local (sleepUntil env endTime patience) := by
  induction patience with
  | zero => exact fun w s hs => ⟨hs, rfl⟩
  | succ patience ih =>
      refine (now_local env).bind fun time => ?_
      by_cases h : time < endTime
      · rw [if_pos h]
        exact ih
      · rw [if_neg h]
        exact Local.pure _

/-- The contract of `execute`: the queue is left alone, the id kept, and only
a plain `UnixTask` throws; it always does. -/
def Executes (w : World) (task : UnixTask) (x : Program World (Bool × UnixTask)) : Prop :=
  Triple (SameQueue w) x
    (fun r s => SameQueue w s ∧ r.2.id = task.id ∧ task.kind ≠ .unixTask)
    (fun e s => SameQueue w s ∧ ∀ message, e = .thrown message → task.kind = .unixTask)

/-- A local program in front of the rest of an `execute`. -/
theorem Executes.after {α : Type} {w : World} {task : UnixTask} {x : Program World α}
    {f : α → Program World (Bool × UnixTask)} (hx : Local x)
    (hf : ∀ a, Executes w task (f a)) : Executes w task (x >>= f) := by
  have hquiet : Triple (SameQueue w) x (fun _ s => SameQueue w s)
      (fun e s => SameQueue w s ∧ ∀ message, e = .thrown message → task.kind = .unixTask) := by
    refine (hx w).weaken (fun _ _ h => h) ?_
    rintro e s ⟨hs, rfl⟩
    exact ⟨hs, fun message h => by cases h⟩
  exact hquiet.bind hf

/-- Returning from `execute` with the task updated. -/
theorem Executes.return {w : World} {task task' : UnixTask} {completed : Bool}
    (hid : task'.id = task.id) (hkind : task.kind ≠ .unixTask) :
    Executes w task (Pure.pure (completed, task')) :=
  Triple.pure fun _ hs => ⟨hs, hid, hkind⟩

/-- **The contract of `execute`** holds of every class. -/
theorem execute_spec (env : Env) (quantum : Int) (task : UnixTask) (w : World) :
    Executes w task (task.execute env quantum) := by
  unfold UnixTask.execute
  cases hkind : task.kind with
  | unixTask => exact Triple.raise fun s hs => ⟨hs, fun _ _ => hkind⟩
  | cpuIntensiveTask totalWork remainingWork =>
      have hne : task.kind ≠ .unixTask := by simp [hkind]
      refine .after (now_local env) fun start => ?_
      refine .after (cpuLoop_local env start quantum _) fun result => ?_
      cases result with
      | some time => exact .return rfl hne
      | none => exact .after (now_local env) fun finish => .return rfl hne
  | ioBoundTask filePath operations =>
      have hne : task.kind ≠ .unixTask := by simp [hkind]
      refine .after (now_local env) fun start => ?_
      refine .after (openAppend_local env) fun opened => ?_
      cases opened with
      | false => exact .return rfl hne
      | true =>
          refine .after (appendLine_local _ _) fun _ => ?_
          refine .after (sleepUntil_local env _ _) fun _ => ?_
          exact .after (now_local env) fun finish => .return rfl hne

/-! ## Where a round can fail -/

section Errors

variable {env : Env} {w : World} {q rest : List SharedTask}

/-- `get_next_task` returns only if its waits succeed and the first entry has
a valid priority. -/
theorem getNextTask_returned (h : Quiescent env.capacity w.shm q) {task : UnixTask}
    {w₁ : World} (hget : getNextTask env w = .ok task w₁) :
    ∃ st rest, q = st :: rest ∧
      task = decoded env.float st (env.clock.read w.readings)
        (env.clock.read (w.readings + 1)) ∧
      Quiescent env.capacity w₁.shm rest ∧ w₁.waits = w.waits + 2 := by
  cases q with
  | nil =>
      exfalso
      have hzero : w.shm.dequeueSem = 0 := h.items
      cases h₀ : env.waitFails w.waits with
      | true =>
          rw [getNextTask, dequeue, bind_apply, returns (waitOn_fails .dequeueSem h₀)] at hget
          cases hget
      | false =>
          have hblocked : waitOn env .dequeueSem w = .error .blocked w := by
            simp [waitOn, h₀, Shm.value, hzero, semWait]
          rw [getNextTask, dequeue, bind_apply, stops hblocked] at hget
          cases hget
  | cons st rest =>
      obtain ⟨w', ⟨-, ⟨message, hthrow⟩, -⟩ | ⟨-, hw', hcalls, hends⟩⟩ := getNextTask_cases h
      · rw [hthrow] at hget
        cases hget
      · rcases hends with ⟨-, message, hthrow⟩ | ⟨-, hreturn⟩
        · rw [hthrow] at hget
          cases hget
        · rw [hreturn] at hget
          cases hget
          exact ⟨st, rest, rfl, rfl, hw', hcalls⟩

/-- The state in which an exception leaves the queue: without the task, or
with an entry for it at the end if `kept`. -/
def AfterThrow (env : Env) (w : World) (rest : List SharedTask) (id : Int32) (kept : Prop)
    (s : World) : Prop :=
  (¬kept ∧ s.shm = w.shm) ∨
    (kept ∧ ∃ st, Quiescent env.capacity s.shm (rest ++ [st]) ∧ st.id = id)

/-- The two waits of an `enqueue` succeed. -/
def EnqueueWaits (env : Env) (w : World) : Prop :=
  env.waitFails w.waits = false ∧ env.waitFails (w.waits + 1) = false

/-- `add_task` throws before it has stored the entry, or, if the waits of
`enqueue` succeed, from `print`. -/
theorem addTask_throws (h : Quiescent env.capacity w.shm rest)
    (hroom : rest.length < env.capacity) (task : UnixTask) :
    Triple (SameQueue w) (addTask env task) (fun _ _ => True)
      (fun _ s => AfterThrow env w rest task.id (EnqueueWaits env w) s) := by
  intro s hs
  rw [← hs.shm] at h
  have hwaits : EnqueueWaits env w ↔
      env.waitFails s.waits = false ∧ env.waitFails (s.waits + 1) = false := by
    rw [EnqueueWaits, hs.waits]
  obtain ⟨w', -, -, hends⟩ := addTask_cases h hroom task
  rcases hends with ⟨hfail, ⟨message, hthrow⟩, hshm⟩ | ⟨hwait, hdone, -, hends⟩
  · rw [hthrow]
    refine .inl ⟨fun hkept => ?_, hshm.trans hs.shm⟩
    have hboth := hwaits.mp hkept
    rw [hboth.1, hboth.2] at hfail
    simp at hfail
  · rcases hends with ⟨-, message, hthrow⟩ | ⟨-, hreturn⟩
    · rw [hthrow]
      exact .inr ⟨hwaits.mpr hwait, _, hdone, (encoded_encodes env s task _).id⟩
    · rw [hreturn]
      trivial

/-- Logging never fails. -/
theorem logLine_returns (entry : LogEntry) (P : World → Prop) (E : Stop → World → Prop) :
    Triple P (logLine entry) (fun _ _ => True) E :=
  fun _ _ => trivial

/-- Where the throw of a round may leave the queue: the task is kept if its
class implements `execute` and the waits of the put-back succeed. -/
def RoundThrow (env : Env) (w : World) (rest : List SharedTask) (task : UnixTask) (e : Stop)
    (s : World) : Prop :=
  ∀ message, e = .thrown message →
    AfterThrow env w rest task.id (task.kind ≠ .unixTask ∧ EnqueueWaits env w) s

/-- A throw of `execute` is that of a plain `UnixTask`: the task is gone. -/
theorem execute_throws {task : UnixTask} {x : Program World (Bool × UnixTask)}
    (h : Executes w task x) :
    Triple (SameQueue w) x
      (fun r s => SameQueue w s ∧ r.2.id = task.id ∧ task.kind ≠ .unixTask)
      (RoundThrow env w rest task) := by
  refine h.weaken (fun _ _ hr => hr) fun e s hs message he => .inl ⟨?_, hs.1.shm⟩
  rintro ⟨hne, -⟩
  exact hne (hs.2 message he)

theorem shortBranch_throws (task : UnixTask) :
    Triple (SameQueue w) (shortBranch env task) (fun _ _ => True)
      (RoundThrow env w rest task) := by
  have htotal : Triple (SameQueue w) (task.getTotalTime env) (fun _ s => SameQueue w s)
      (RoundThrow env w rest task) := by
    refine (getTotalTime_local env task w).weaken (fun _ _ h => h) ?_
    rintro e s ⟨-, rfl⟩ message h
    cases h
  refine htotal.bind fun total => (execute_throws (execute_spec env total task w)).bind ?_
  intro r
  exact logLine_returns _ _ _

theorem sliceBranch_throws (h : Quiescent env.capacity w.shm rest)
    (hroom : rest.length < env.capacity) (slice : Int) (running : Bool) (task : UnixTask) :
    Triple (SameQueue w) (sliceBranch env slice running task) (fun _ _ => True)
      (RoundThrow env w rest task) := by
  refine (execute_throws (execute_spec env slice task w)).bind ?_
  rintro ⟨completed, task'⟩
  by_cases hput : (!completed && running) = true
  · simp only [hput, if_true]
    rintro s ⟨hs, hid, hne⟩
    refine (addTask_throws h hroom task').weaken (fun _ _ h => h) ?_ s hs
    intro e s' hend message _
    rw [hid] at hend
    rcases hend with ⟨hlost, hshm⟩ | ⟨hkept, hst⟩
    · exact .inl ⟨fun hboth => hlost hboth.2, hshm⟩
    · exact .inr ⟨⟨hne, hkept⟩, hst⟩
  · simp only [hput, Bool.false_eq_true, if_false]
    exact logLine_returns _ _ _

/-- **Every way a round can throw after `get_next_task`.** -/
theorem processTask_throws (h : Quiescent env.capacity w.shm rest)
    (hroom : rest.length < env.capacity) (timeQuantum : Int) (running : Bool)
    (task : UnixTask) {message : String} {w' : World}
    (hthrow : processTask env timeQuantum running task w = .error (.thrown message) w') :
    AfterThrow env w rest task.id (task.kind ≠ .unixTask ∧ EnqueueWaits env w) w' := by
  let w₁ := w.logged (.processing task.description)
  obtain ⟨total, t, htotal⟩ := getTotalTime_returns env w₁ task
  have hstart : SameQueue w₁ { w₁ with totals := t } := ⟨rfl, rfl, rfl⟩
  by_cases hshort : total < timeQuantum
  · rw [processTask_short htotal hshort] at hthrow
    have hend : RoundThrow env w₁ rest task _ w' :=
      (shortBranch_throws task).stopped hstart hthrow
    exact hend message rfl
  · rw [processTask_sliced htotal (not_lt.mp hshort)] at hthrow
    have h₁ : Quiescent env.capacity w₁.shm rest := h
    have hend : RoundThrow env w₁ rest task _ w' :=
      (sliceBranch_throws h₁ hroom timeQuantum running task).stopped hstart hthrow
    exact hend message rfl

/-- The tag says a class that implements `execute`. -/
def SharedTask.executable (st : SharedTask) : Bool :=
  st.type == TaskType.cpuIntensiveTask.value || st.type == TaskType.ioBoundTask.value

theorem decoded_executable (float : FloatArith) (st : SharedTask) (arrival adjusted : Int) :
    (decoded float st arrival adjusted).kind ≠ .unixTask ↔ st.executable = true := by
  rw [decoded_kind]
  unfold taskOfType SharedTask.executable
  by_cases hcpu : st.type = TaskType.cpuIntensiveTask.value
  · simp [hcpu, CpuIntensiveTask.built]
  · by_cases hio : st.type = TaskType.ioBoundTask.value
    · have hne : ¬ TaskType.ioBoundTask.value = TaskType.cpuIntensiveTask.value := by decide
      simp [hio, hne, IoBoundTask.built]
    · simp [hcpu, hio, UnixTask.built]

/-- The put-back of the entry `st` taken out in state `w` can fail only in its
`print`: its class implements `execute`, and the two waits of the `enqueue`,
the third and fourth of the round, succeed. -/
def FailsInPrint (env : Env) (w : World) (st : SharedTask) : Prop :=
  st.executable = true ∧ env.waitFails (w.waits + 2) = false ∧
    env.waitFails (w.waits + 3) = false

/-- A round that throws after `get_next_task` ends with the error logged, and
the queue has lost the task unless the put-back failed in its `print`. -/
theorem round_after_throw (h : Quiescent env.capacity w.shm q) {task : UnixTask}
    {w₁ w' : World} {timeQuantum : Int} {running : Bool} {message : String}
    (hget : getNextTask env w = .ok task w₁)
    (hthrow : processTask env timeQuantum running task w₁ = .error (.thrown message) w') :
    ∃ st rest, q = st :: rest ∧
      processTasksRound env timeQuantum running w =
        .ok () { w' with log := w'.log ++ [.failed message] } ∧
      Quiescent env.capacity w₁.shm rest ∧
      AfterThrow env w₁ rest st.id (FailsInPrint env w st) w' := by
  obtain ⟨st, rest, rfl, rfl, hw₁, hwaits⟩ := getNextTask_returned h hget
  have hlen := h.length_le
  rw [List.length_cons] at hlen
  refine ⟨st, rest, rfl, ?_, hw₁, ?_⟩
  · rw [processTasksRound_taken h.count_pos hget]
    exact (catchThrown_thrown hthrow).trans (logLine_apply _ w')
  · have hcond : (decoded env.float st (env.clock.read w.readings)
        (env.clock.read (w.readings + 1))).kind ≠ .unixTask ∧ EnqueueWaits env w₁ ↔
          FailsInPrint env w st := by
      rw [decoded_executable, EnqueueWaits, hwaits, FailsInPrint]
    have hend := processTask_throws hw₁ (by omega) timeQuantum running _ hthrow
    rwa [AfterThrow, hcond, (decoded_decodes env.float st _ _).id] at hend

/-- **An error while processing keeps the task exactly when it comes from the
`print` of the put-back.**  Whenever `get_next_task` succeeds and the rest of
the round throws, the round ends with the error logged, and the queue then
holds the ids it held before if and only if the class of the task taken out
implements `execute` and the two waits of the put-back's `enqueue` succeed. -/
theorem error_while_processing_iff (h : Quiescent env.capacity w.shm q) {task : UnixTask}
    {w₁ w' : World} {timeQuantum : Int} {running : Bool} {message : String}
    (hget : getNextTask env w = .ok task w₁)
    (hthrow : processTask env timeQuantum running task w₁ = .error (.thrown message) w') :
    ∃ st rest q', q = st :: rest ∧
      processTasksRound env timeQuantum running w =
        .ok () { w' with log := w'.log ++ [.failed message] } ∧
      Quiescent env.capacity w'.shm q' ∧
      ((q'.map SharedTask.id).Perm (q.map SharedTask.id) ↔ FailsInPrint env w st) := by
  obtain ⟨st, rest, rfl, hround, hw₁, hend⟩ := round_after_throw h hget hthrow
  rcases hend with ⟨hlost, hshm⟩ | ⟨hkept, st', hst', hid⟩
  · refine ⟨st, rest, rest, rfl, hround, hshm ▸ hw₁, iff_of_false (fun hperm => ?_) hlost⟩
    have hsame := hperm.length_eq
    simp at hsame
  · refine ⟨st, rest, rest ++ [st'], rfl, hround, hst', iff_of_true ?_ hkept⟩
    rw [List.map_append, List.map_singleton, hid]
    exact List.perm_append_singleton _ _

end Errors

theorem quiescent_plainTask :
    Quiescent envOne.capacity (World.begin (Shm.holding (.numbered 7 0))).shm
      [.numbered 7 0] :=
  quiescent_holding _

/-- The only task of the queue is a plain `UnixTask`, as a server command
creates it: its round throws. -/
theorem plainTask_throws :
    ∃ task w₁ w', getNextTask envOne (World.begin (Shm.holding (.numbered 7 0))) =
        .ok task w₁ ∧
      processTask envOne 100 true task w₁ =
        .error (.thrown "Execute method not implemented") w' :=
  ⟨_, _, _, getNextTask_apply quiescent_plainTask rfl rfl (by decide), rfl⟩

/-- The condition at that round: the class does not implement `execute`. -/
theorem error_while_processing_plainTask :
    ∃ w' st rest q', [SharedTask.numbered 7 0] = st :: rest ∧
      processTasksRound envOne 100 true (World.begin (Shm.holding (.numbered 7 0))) =
        .ok () w' ∧
      Quiescent 1 w'.shm q' ∧
      ((q'.map SharedTask.id).Perm [7] ↔
        FailsInPrint envOne (World.begin (Shm.holding (.numbered 7 0))) st) := by
  obtain ⟨task, w₁, w', hget, hthrow⟩ := plainTask_throws
  obtain ⟨st, rest, q', hq, hround, hq', hiff⟩ :=
    error_while_processing_iff quiescent_plainTask hget hthrow
  exact ⟨_, st, rest, q', hq, hround, hq', hiff⟩

/-- After that round the queue has lost the task. -/
theorem error_loses_plainTask :
    ∃ w' q', processTasksRound envOne 100 true
        (World.begin (Shm.holding (.numbered 7 0))) = .ok () w' ∧
      Quiescent 1 w'.shm q' ∧ ¬ (q'.map SharedTask.id).Perm [7] := by
  obtain ⟨task, w₁, w', hget, hthrow⟩ := plainTask_throws
  obtain ⟨st, rest, hq, hround, hw₁, hend⟩ :=
    round_after_throw quiescent_plainTask hget hthrow
  obtain ⟨rfl, rfl⟩ := List.cons.inj hq
  rcases hend with ⟨-, hshm⟩ | ⟨⟨hexecutable, -⟩, -⟩
  · refine ⟨_, [], hround, ?_, by simp⟩
    show Quiescent 1 w'.shm []
    rw [hshm]
    exact hw₁
  · exact absurd hexecutable (by decide)

end TaskSheduler
