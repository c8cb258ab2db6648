import TaskSheduler.TaskProcessor

/-!
# The short branch of the processor and the sliced branch

A task whose total time is below the quantum is executed for its total time
and then dropped, whatever `execute` returned; the other branch drops a task
only if `execute` returned true.  For a `CpuIntensiveTask` the two agree
exactly when `execute` returns true, and that is a matter of the clock: no
reading inside its loop may reach the slice, and the reading after the loop
must (`EndsWithLoop`).
-/

namespace TaskSheduler

open Programs FloatArithmetic

/-- The clock readings with which a slice of `slice` milliseconds, begun at
reading `r`, is used up by the reading after the loop and not before. -/
def EndsWithLoop (env : Env) (r : Nat) (slice : Int) : Prop :=
  (∀ i < cpuIterations slice,
      env.clock.read (r + 1 + i) - env.clock.read r < slice * 1000000) ∧
    slice * 1000000 ≤ env.clock.read (r + 1 + cpuIterations slice) - env.clock.read r

/-- The loop of `CpuIntensiveTask::execute` runs to its end exactly if none of
its readings reaches the slice. -/
theorem cpuLoop_returns (env : Env) (start slice : Int) (left : Nat) (w : World) :
    ∃ result k, cpuLoop env start slice left w =
        .ok result { w with readings := w.readings + k } ∧
      (result = none ↔
        ∀ i < left, env.clock.read (w.readings + i) - start < slice * 1000000) ∧
      (result = none → k = left) := by
  induction left generalizing w with
  | zero => exact ⟨none, 0, rfl, by simp, fun _ => rfl⟩
  | succ left ih =>
      by_cases h : slice * 1000000 ≤ env.clock.read w.readings - start
      · refine ⟨some (env.clock.read w.readings), 1, ?_, ?_, fun hnone => by cases hnone⟩
        · rw [cpuLoop, returns (now_apply env w), if_pos h]
          rfl
        · refine iff_of_false (by simp) fun hall => ?_
          have hfirst := hall 0 (Nat.succ_pos _)
          rw [Nat.add_zero] at hfirst
          omega
      · obtain ⟨result, k, hrest, hnone, hk⟩ := ih { w with readings := w.readings + 1 }
        refine ⟨result, k + 1, ?_, ?_, fun hr => by rw [hk hr]⟩
        · rw [cpuLoop, returns (now_apply env w), if_neg h, hrest]
          simp only [Nat.add_assoc, Nat.add_comm 1]
        · rw [hnone]
          constructor
          · intro hall i hi
            cases i with
            | zero =>
                rw [Nat.add_zero]
                omega
            | succ i =>
                have hlater := hall i (by omega)
                rwa [Nat.add_assoc, Nat.add_comm 1] at hlater
          · intro hall i hi
            have hlater := hall (i + 1) (by omega)
            rwa [Nat.add_assoc, Nat.add_comm 1]

/-- Whole milliseconds reach `slice` exactly if the nanoseconds do. -/
theorem le_toMilliseconds {slice elapsed : Int} (h : 0 ≤ elapsed) :
    slice ≤ toMilliseconds elapsed ↔ slice * 1000000 ≤ elapsed := by
  rw [toMilliseconds, Int.tdiv_eq_ediv_of_nonneg h, Int.le_ediv_iff_mul_le (by decide)]

/-- **When `CpuIntensiveTask::execute` returns true.**  It always returns, and
with as much work remaining as the slice is long it returns true exactly if
the slice ends with the loop. -/
theorem cpuExecute_returns (env : Env) (slice total : Int) (task : UnixTask) (w : World) :
    ∃ done task' k, CpuIntensiveTask.execute env slice task total slice w =
        .ok (done, task') { w with readings := w.readings + k } ∧
      task'.description = task.description ∧
      (done = true ↔ EndsWithLoop env w.readings slice) := by
  obtain ⟨result, k, hloop, hnone, hk⟩ := cpuLoop_returns env (env.clock.read w.readings) slice
    (cpuIterations slice) { w with readings := w.readings + 1 }
  unfold CpuIntensiveTask.execute
  rw [returns (now_apply env w), returns hloop]
  cases result with
  | some time =>
      refine ⟨false, (CpuIntensiveTask.worked env.float slice (time - env.clock.read w.readings)
        (task.setState .running) total slice).setState .ready, 1 + k, ?_, rfl, ?_⟩
      · simp only [pure_apply, Nat.add_assoc]
      · refine iff_of_false Bool.false_ne_true fun hend => ?_
        have hnever := hnone.mpr hend.1
        cases hnever
  | none =>
      obtain rfl := hk rfl
      let actualWork := env.clock.read (w.readings + 1 + cpuIterations slice) -
        env.clock.read w.readings
      have helapsed : 0 ≤ actualWork := by
        have hmono := env.clock.mono
          (show w.readings ≤ w.readings + 1 + cpuIterations slice by omega)
        omega
      have hreach : slice ≤ toMilliseconds actualWork ↔ slice * 1000000 ≤ actualWork :=
        le_toMilliseconds helapsed
      have hdone : decide (slice - toMilliseconds actualWork ≤ 0) = true ↔
          EndsWithLoop env w.readings slice := by
        rw [decide_eq_true_eq]
        constructor
        · intro hdone
          exact ⟨hnone.mp rfl, hreach.mp (by omega)⟩
        · intro hend
          have hslice := hreach.mpr hend.2
          omega
      refine ⟨_, (CpuIntensiveTask.worked env.float slice actualWork (task.setState .running)
        total slice).setState
          (if decide (slice - toMilliseconds actualWork ≤ 0) then .completed else .ready),
        1 + cpuIterations slice + 1, ?_, rfl, hdone⟩
      simp only [bind_apply, now_apply, pure_apply, Nat.add_assoc, actualWork]

/-- A CPU entry is decoded with all of its time as remaining work. -/
theorem decoded_cpu (float : FloatArith) {st : SharedTask}
    (h : st.type = TaskType.cpuIntensiveTask.value) (arrival adjusted : Int) :
    (decoded float st arrival adjusted).kind =
      .cpuIntensiveTask st.remainingTimeMs.toInt st.remainingTimeMs.toInt := by
  rw [decoded_kind, taskOfType, if_pos h]
  rfl

section Branches

variable {env : Env} {w w₃ : World} {rest : List SharedTask} {task task' : UnixTask}
  {done : Bool} {slice : Int}

/-- The sliced branch after an `execute` that returned true: the task leaves. -/
theorem sliceBranch_drops (hexecute : task.execute env slice w = .ok (true, task') w₃) :
    sliceBranch env slice true task w = .ok () (w₃.logged (.completed task'.description)) := by
  unfold sliceBranch
  rw [returns hexecute]
  rfl

/-- The sliced branch after an `execute` that returned false: the task is put
back, once. -/
theorem sliceBranch_putsBack (hwaits : env.WaitsSucceed)
    (hexecute : task.execute env slice w = .ok (false, task') w₃)
    (h : Quiescent env.capacity w₃.shm rest) (hroom : rest.length < env.capacity) :
    ∃ st w'', sliceBranch env slice true task w = .ok () w'' ∧ Encodes task' st ∧
      Quiescent env.capacity w''.shm (rest ++ [st]) ∧ w''.log = w₃.log := by
  obtain ⟨st, w'', hadd, hkeeps, hw'', hlog, -⟩ :=
    addTask_returns h hroom (fun k _ => hwaits _) task'
  refine ⟨st, w'', ?_, hkeeps, hw'', hlog⟩
  unfold sliceBranch
  rw [returns hexecute]
  exact hadd

end Branches

/-- What a round makes of a short CPU task, next to what the sliced branch
makes of it with its total time as the slice: `done` is what `execute`
returned, `q'` and `w'` come from the round, `q''` and `w''` from the other
branch. -/
structure ShortRound (env : Env) (w : World) (rest : List SharedTask) (slice timeQuantum : Int)
    (done : Bool) (w' w'' : World) (q' q'' : List SharedTask) : Prop where
  round : processTasksRound env timeQuantum true w = .ok () w'
  queue : Quiescent env.capacity w'.shm q'
  sliced : ∃ task w₁ task' w₃, getNextTask env w = .ok task w₁ ∧
    task.execute env slice (w₁.logged (.processing task.description)) =
      .ok (done, task') w₃ ∧
    sliceBranch env slice true task (w₁.logged (.processing task.description)) = .ok () w'' ∧
    (if done then q'' = rest else ∃ st, Encodes task' st ∧ q'' = rest ++ [st])
  slicedQueue : Quiescent env.capacity w''.shm q''

/-- **A round on a short CPU task** drops it; the sliced branch drops it
exactly if the slice ends with the loop. -/
theorem short_round (env : Env) (hwaits : env.WaitsSucceed) {w : World} {st : SharedTask}
    {rest : List SharedTask} (h : Quiescent env.capacity w.shm (st :: rest))
    (hvalid : validPriority st.priority = true)
    (htype : st.type = TaskType.cpuIntensiveTask.value) {timeQuantum : Int}
    (hshort : st.remainingTimeMs.toInt < timeQuantum) :
    ∃ done w' w'' q'', ShortRound env w rest st.remainingTimeMs.toInt timeQuantum done w' w''
        rest q'' ∧
      (done = true ↔ EndsWithLoop env (w.readings + 2) st.remainingTimeMs.toInt) ∧
      (w'.log = w''.log ↔ done = true) := by
  have hlen := h.length_le
  rw [List.length_cons] at hlen
  obtain ⟨task, w₁, hget, hkind, hw₁, hreadings⟩ : ∃ task w₁,
      getNextTask env w = .ok task w₁ ∧
      task.kind = .cpuIntensiveTask st.remainingTimeMs.toInt st.remainingTimeMs.toInt ∧
      Quiescent env.capacity w₁.shm rest ∧ w₁.readings = w.readings + 2 :=
    ⟨_, _, getNextTask_apply h (hwaits _) (hwaits _) hvalid, decoded_cpu _ htype _ _,
      h.dequeued env.declared, rfl⟩
  let w₂ := w₁.logged (.processing task.description)
  have htotal : task.getTotalTime env w₂ = .ok st.remainingTimeMs.toInt w₂ :=
    getTotalTime_cpu hkind
  obtain ⟨done, task', k, hrun, -, hdone⟩ := cpuExecute_returns env
    st.remainingTimeMs.toInt st.remainingTimeMs.toInt task w₂
  have hexecute : task.execute env st.remainingTimeMs.toInt w₂ =
      .ok (done, task') { w₂ with readings := w₂.readings + k } := by
    unfold UnixTask.execute
    rw [hkind]
    exact hrun
  let w₃ : World := { w₂ with readings := w₂.readings + k }
  have hround : processTasksRound env timeQuantum true w =
      .ok () (w₃.logged (.completed task'.description)) := by
    rw [processTasksRound_taken h.count_pos hget]
    refine catchThrown_returns ?_
    rw [processTask_short htotal hshort]
    unfold shortBranch
    rw [returns htotal, returns hexecute]
    rfl
  rw [← hreadings]
  cases done with
  | true =>
      refine ⟨true, _, _, rest, ⟨hround, hw₁, ⟨task, w₁, task', _, hget, hexecute, ?_, rfl⟩,
        ?_⟩, hdone, iff_of_true rfl rfl⟩
      · exact sliceBranch_drops hexecute
      · exact hw₁
  | false =>
      obtain ⟨st', w'', hput, hkeeps, hw'', hlog⟩ :=
        sliceBranch_putsBack hwaits hexecute hw₁ (by omega)
      refine ⟨false, _, w'', rest ++ [st'], ⟨hround, hw₁, ⟨task, w₁, task', _, hget, hexecute,
        hput, st', hkeeps, rfl⟩, hw''⟩, hdone, iff_of_false ?_ Bool.false_ne_true⟩
      rw [hlog]
      intro hsame
      have hlength := congrArg List.length hsame
      simp [World.logged, w₃] at hlength

/-- **The short branch agrees with the sliced branch exactly when the slice
ends with the loop.**  For every CPU task at the head of the queue whose total
time is below the quantum, the round leaves the queue and the log as the
sliced branch would with the total time as its slice, if and only if no clock
reading inside the loop of `execute` reaches the slice and the reading after
the loop does. -/
theorem fast_path_agrees_iff (env : Env) (hwaits : env.WaitsSucceed) {w : World}
    {st : SharedTask} {rest : List SharedTask}
    (h : Quiescent env.capacity w.shm (st :: rest))
    (hvalid : validPriority st.priority = true)
    (htype : st.type = TaskType.cpuIntensiveTask.value) {timeQuantum : Int}
    (hshort : st.remainingTimeMs.toInt < timeQuantum) :
    ∃ done w' w'' q' q'', ShortRound env w rest st.remainingTimeMs.toInt timeQuantum done w'
        w'' q' q'' ∧
      (q' = q'' ∧ w'.log = w''.log ↔
        EndsWithLoop env (w.readings + 2) st.remainingTimeMs.toInt) := by
  obtain ⟨done, w', w'', q'', hround, hdone, hlog⟩ :=
    short_round env hwaits h hvalid htype hshort
  refine ⟨done, w', w'', rest, q'', hround, ?_⟩
  rw [← hdone, ← hlog]
  constructor
  · intro hagree
    exact hagree.2
  · intro hsame
    obtain ⟨task, w₁, task', w₃, -, -, -, hqueue⟩ := hround.sliced
    rw [if_pos (hlog.mp hsame)] at hqueue
    exact ⟨hqueue.symm, hsame⟩

/-- With no time left to work, the two branches agree. -/
theorem fast_path_agrees_at_zero :
    ∃ done w' w'' q' q'', ShortRound envOne (World.begin (Shm.holding (cpuEntry 0))) [] 0 100
        done w' w'' q' q'' ∧ q' = q'' ∧ w'.log = w''.log := by
  have hwaits : envOne.WaitsSucceed := fun _ => rfl
  have hq : Quiescent envOne.capacity (World.begin (Shm.holding (cpuEntry 0))).shm
      [cpuEntry 0] := quiescent_holding _
  have hshort : (cpuEntry 0).remainingTimeMs.toInt < 100 := by decide
  obtain ⟨done, w', w'', q', q'', hround, hiff⟩ :=
    fast_path_agrees_iff envOne hwaits hq (by decide) rfl hshort
  exact ⟨done, w', w'', q', q'', hround, hiff.mpr ⟨fun i hi => absurd hi (Nat.not_lt_zero i),
    le_refl _⟩⟩

/-- With five milliseconds left the loop has no rounds: `execute` returns
false at once, and the round drops the task all the same. -/
theorem fast_path_drops_unfinished :
    ∃ w' w'' q'', ShortRound envOne (World.begin (Shm.holding (cpuEntry 5))) [] 5 100 false
        w' w'' [] q'' ∧ q'' ≠ [] ∧ w'.log ≠ w''.log := by
  have hwaits : envOne.WaitsSucceed := fun _ => rfl
  have hq : Quiescent envOne.capacity (World.begin (Shm.holding (cpuEntry 5))).shm
      [cpuEntry 5] := quiescent_holding _
  have hshort : (cpuEntry 5).remainingTimeMs.toInt < 100 := by decide
  obtain ⟨done, w', w'', q'', hround, hdone, hlog⟩ :=
    short_round envOne hwaits hq (by decide) rfl hshort
  have hnever : ¬ EndsWithLoop envOne 2 5 := fun hend => absurd hend.2 (by decide)
  have hfalse : done = false := Bool.eq_false_iff.mpr fun h => hnever (hdone.mp h)
  subst hfalse
  obtain ⟨task, w₁, task', w₃, -, -, -, hqueue⟩ := hround.sliced
  obtain ⟨st, -, hq''⟩ := hqueue
  exact ⟨w', w'', q'', hround, by simp [hq''], fun hsame => Bool.false_ne_true (hlog.mp hsame)⟩

end TaskSheduler
