import TaskSheduler.RemainingTime

/-!
# Does a pass through the processor make progress?

A CPU entry that is not short is executed for one quantum and put back with
the time it has left: its total time less the milliseconds since its decoding.
`PutsBack` is such a pass, whether or not the `print` of the put-back throws,
and `putsBack_entry` says what the new entry holds.  It holds less time
exactly if a whole millisecond has passed, and `execute` does not see to that:
below ten milliseconds of quantum its loop has no iteration.
-/

namespace TaskSheduler

open Programs FloatArithmetic

/-- A pass of `process_tasks` takes the CPU entry `st` out in state `w` and
ends in `w'`, by returning or by an exception, with `st'` put back. -/
structure PutsBack (env : Env) (timeQuantum : Int) (w : World) (st : SharedTask) (w' : World)
    (st' : SharedTask) : Prop where
  type : st.type = TaskType.cpuIntensiveTask.value
  pass : ∃ rest task w₁ running, Quiescent env.capacity w.shm (st :: rest) ∧
    getNextTask env w = .ok task w₁ ∧
    Ends (processTask env timeQuantum running task) w₁ w' ∧
    Quiescent env.capacity w'.shm (rest ++ [st'])

theorem decoded_arrivalTime (float : FloatArith) (st : SharedTask) (arrival adjusted : Int) :
    (decoded float st arrival adjusted).arrivalTime = arrival := by
  have hfresh : (taskOfType st arrival).arrivalTime = arrival := by
    rw [taskOfType_eq]
    cases classOfTag st.type with
    | unixTask => rfl
    | cpuIntensiveTask => rfl
    | ioBoundTask => rfl
  unfold decoded
  cases st.completed with
  | true => exact hfresh
  | false => exact hfresh

/-- A queue with one entry more is not on the same segment. -/
theorem not_longer {capacity : Nat} {shm : Shm} {q : List SharedTask} {st : SharedTask}
    (h : Quiescent capacity shm q) : ¬ Quiescent capacity shm (q ++ [st]) := by
  intro hlonger
  have hlen := congrArg List.length (h.unique hlonger)
  simp at hlen

section Pass

variable {env : Env} {timeQuantum : Int} {w w' : World} {st st' : SharedTask}
  {rest : List SharedTask} {task : UnixTask}

/-- An `add_task` that ended with one entry more has stored its own. -/
theorem addTask_ends (h : Quiescent env.capacity w.shm rest)
    (hroom : rest.length < env.capacity) (hended : Ends (addTask env task) w w')
    (hback : Quiescent env.capacity w'.shm (rest ++ [st'])) :
    st' = storedEntry env w task ∧ w'.readings = encodedReadings w task := by
  obtain ⟨w₁, -, hread, hcases⟩ := addTask_cases h hroom task
  have hstored : Quiescent env.capacity w₁.shm (rest ++ [storedEntry env w task]) →
      w' = w₁ → st' = storedEntry env w task := by
    intro hdone hsame
    rw [hsame] at hback
    have hlists := hback.unique hdone
    simpa using hlists
  rcases hcases with ⟨-, ⟨message, hthrow⟩, hshm⟩ | ⟨-, hdone, -, hcases⟩
  · obtain rfl := hended.stopped hthrow
    rw [hshm] at hback
    exact absurd hback (not_longer h)
  · rcases hcases with ⟨-, message, hthrow⟩ | ⟨-, hreturn⟩
    · obtain rfl := hended.stopped hthrow
      exact ⟨hstored hdone rfl, hread⟩
    · obtain rfl := hended.returned hreturn
      exact ⟨hstored hdone rfl, hread⟩

/-- The CPU task of a pass: what its entry says, arrived at the first reading. -/
structure Taken (st : SharedTask) (arrival : Int) (task : UnixTask) : Prop where
  kind : task.kind = .cpuIntensiveTask st.remainingTimeMs.toInt st.remainingTimeMs.toInt
  arrivalTime : task.arrivalTime = arrival
  completed : task.completed = st.completed

theorem decoded_taken (float : FloatArith) (htype : st.type = TaskType.cpuIntensiveTask.value)
    (arrival adjusted : Int) : Taken st arrival (decoded float st arrival adjusted) :=
  ⟨decoded_cpu float htype arrival adjusted, decoded_arrivalTime float st arrival adjusted,
    (decoded_decodes float st arrival adjusted).completed⟩

/-- Executing it leaves the queue alone. -/
theorem Taken.execute (env : Env) {arrival : Int} (h : Taken st arrival task) (quantum : Int)
    (w : World) :
    ∃ done task' w' left, task.execute env quantum w = .ok (done, task') w' ∧
      w'.shm = w.shm ∧ task'.arrivalTime = arrival ∧
      task'.kind = .cpuIntensiveTask st.remainingTimeMs.toInt left ∧
      (done = false → task'.completed = st.completed) := by
  obtain ⟨done, task', w', left, hexecute, harrival, hkind, -, hdone⟩ :=
    cpuExecute_deducts env h.kind quantum w
  have hsame : SameQueue w w' :=
    ((execute_spec env quantum task w).returned ⟨rfl, rfl, rfl⟩ hexecute).1
  exact ⟨done, task', w', left, hexecute, hsame.shm, harrival.trans h.arrivalTime, hkind,
    fun hfalse => (hdone hfalse).trans h.completed⟩

/-- A short task is not put back. -/
theorem shortBranch_drops {arrival : Int} (h : Taken st arrival task)
    (hended : Ends (shortBranch env task) w w') : w'.shm = w.shm := by
  have htotal : task.getTotalTime env w = .ok st.remainingTimeMs.toInt w :=
    getTotalTime_cpu h.kind
  obtain ⟨done, task', w₁, left, hexecute, hshm, -⟩ :=
    h.execute env st.remainingTimeMs.toInt w
  have hlogs : Ends (logLine (.completed task'.description)) w₁ w' :=
    (hended.rest htotal).rest hexecute
  rw [hlogs.returned (logLine_apply _ w₁)]
  exact hshm

/-- A task that was put back after its slice. -/
theorem sliceBranch_stores {arrival : Int} (h : Taken st arrival task)
    (hq : Quiescent env.capacity w.shm rest) (hroom : rest.length < env.capacity)
    {running : Bool} (hended : Ends (sliceBranch env timeQuantum running task) w w')
    (hback : Quiescent env.capacity w'.shm (rest ++ [st'])) :
    st'.remainingTimeMs = if st.completed then 0 else
      remainingTime (st.remainingTimeMs.toInt -
        toMilliseconds (env.clock.read (w'.readings - 1) - arrival)) := by
  obtain ⟨done, task', w₁, left, hexecute, hshm, harrival, hkind, hdone⟩ :=
    h.execute env timeQuantum w
  have hrest : Ends (if (!done && running) = true then addTask env task'
      else logLine (.completed task'.description)) w₁ w' := hended.rest hexecute
  by_cases hput : (!done && running) = true
  · rw [if_pos hput] at hrest
    have hfalse : done = false := by
      simp only [Bool.and_eq_true, Bool.not_eq_true'] at hput
      exact hput.1
    have hcompleted := hdone hfalse
    obtain ⟨rfl, hread⟩ := addTask_ends (hshm ▸ hq) hroom hrest hback
    have htotal : task'.totalTimeIn env w₁ = st.remainingTimeMs.toInt := totalTimeIn_cpu hkind
    simp only [storedEntry, encoded, htotal, harrival, hcompleted]
    rw [encodedReadings, hcompleted] at hread
    cases hcomplete : st.completed with
    | true => rw [if_pos rfl, if_pos rfl]
    | false =>
        have hread' : w'.readings = w₁.readings + 1 := by
          simpa [hcomplete] using hread
        have hlast : w'.readings - 1 = w₁.readings := by omega
        rw [if_neg (by decide), if_neg (by decide), hlast]
  · rw [if_neg hput] at hrest
    obtain rfl := hrest.returned (logLine_apply _ w₁)
    exact absurd hback (not_longer (hshm ▸ hq))

/-- **What a pass puts back.**  The entry was not short; the new one has the
time less the milliseconds since the decoding, or none if it was completed. -/
theorem putsBack_entry (h : PutsBack env timeQuantum w st w' st') :
    timeQuantum ≤ st.remainingTimeMs.toInt ∧
      st'.remainingTimeMs = if st.completed then 0 else
        remainingTime (st.remainingTimeMs.toInt -
          toMilliseconds (env.clock.read (w'.readings - 1) - env.clock.read w.readings)) := by
  obtain ⟨rest, task, w₁, running, hq, hget, hended, hback⟩ := h.pass
  obtain ⟨first, others, hcons, hdecoded, hw₁, -⟩ := getNextTask_returned hq hget
  obtain ⟨rfl, rfl⟩ := List.cons.inj hcons
  have hlen := hq.length_le
  rw [List.length_cons] at hlen
  have htaken : Taken st (env.clock.read w.readings) task := by
    rw [hdecoded]
    exact decoded_taken env.float h.type _ _
  have htotal : task.getTotalTime env (w₁.logged (.processing task.description)) =
      .ok st.remainingTimeMs.toInt (w₁.logged (.processing task.description)) :=
    getTotalTime_cpu htaken.kind
  have hbranch : Ends (if st.remainingTimeMs.toInt < timeQuantum then shortBranch env task
      else sliceBranch env timeQuantum running task)
      (w₁.logged (.processing task.description)) w' :=
    (hended.rest (logLine_apply _ w₁)).rest htotal
  by_cases hshort : st.remainingTimeMs.toInt < timeQuantum
  · rw [if_pos hshort] at hbranch
    have hshm := shortBranch_drops htaken hbranch
    rw [hshm] at hback
    exact absurd hback (not_longer hw₁)
  · rw [if_neg hshort] at hbranch
    have hlogged : Quiescent env.capacity
        (w₁.logged (.processing task.description)).shm rest := hw₁
    exact ⟨not_lt.mp hshort, sliceBranch_stores htaken hlogged (by omega) hbranch hback⟩

/-- Deducting `elapsed` from a positive time lowers the stored time exactly if
`elapsed`, in the range of `int`, is positive and does not wrap to the top. -/
theorem remainingTime_lt_iff {time : Int} (elapsed : Int) (hpos : 1 ≤ time)
    (hmax : time < 2 ^ 31) :
    (remainingTime (time - elapsed)).toInt < time ↔
      1 ≤ elapsed % 2 ^ 32 ∧ elapsed % 2 ^ 32 ≤ time + 2 ^ 31 := by
  have hmod : (time - elapsed).bmod (2 ^ 32) % 2 ^ 32 = (time - elapsed) % 2 ^ 32 :=
    Int.bmod_emod
  have hlo : -(2 ^ 31) ≤ (time - elapsed).bmod (2 ^ 32) := Int.le_bmod (by decide)
  have hhi : (time - elapsed).bmod (2 ^ 32) < 2 ^ 31 := Int.bmod_lt (by decide)
  rw [remainingTime_toInt]
  omega

/-- The pass that takes `st` out in state `w` and ends in `w'` takes at least a
whole millisecond, from the decoding to the encoding, and no so long that the
stored `int` wraps to the top again; or the entry was completed. -/
def TakesTime (env : Env) (w : World) (st : SharedTask) (w' : World) : Prop :=
  st.completed = true ∨
    (1 ≤ toMilliseconds (env.clock.read (w'.readings - 1) - env.clock.read w.readings) %
        2 ^ 32 ∧
      toMilliseconds (env.clock.read (w'.readings - 1) - env.clock.read w.readings) %
        2 ^ 32 ≤ st.remainingTimeMs.toInt + 2 ^ 31)

/-- **A pass makes progress exactly if it takes time.** -/
theorem putsBack_progress_iff (hquantum : 1 ≤ timeQuantum)
    (h : PutsBack env timeQuantum w st w' st') :
    st'.remainingTimeMs.toInt < st.remainingTimeMs.toInt ↔ TakesTime env w st w' := by
  obtain ⟨hlong, hstored⟩ := putsBack_entry h
  have hmax : st.remainingTimeMs.toInt < 2 ^ 31 := st.remainingTimeMs.toInt_lt
  have hiff := remainingTime_lt_iff
    (toMilliseconds (env.clock.read (w'.readings - 1) - env.clock.read w.readings))
    (hquantum.trans hlong) hmax
  rw [hstored, TakesTime]
  by_cases hcompleted : st.completed = true
  · have hzero : (0 : Int32).toInt = 0 := rfl
    rw [if_pos hcompleted, hzero]
    exact iff_of_true (by omega) (.inl hcompleted)
  · rw [if_neg hcompleted, hiff]
    constructor
    · intro hmoves
      exact .inr hmoves
    · intro htakes
      exact htakes.resolve_left hcompleted

/-- `n` passes in a row, each of which puts the entry back and takes time. -/
inductive Passes (env : Env) (timeQuantum : Int) : SharedTask → Nat → Prop
  | none {st : SharedTask} : Passes env timeQuantum st 0
  | more {w w' : World} {st st' : SharedTask} {n : Nat}
      (first : PutsBack env timeQuantum w st w' st') (htime : TakesTime env w st w')
      (rest : Passes env timeQuantum st' n) : Passes env timeQuantum st (n + 1)

/-- There are at most as many as the entry has milliseconds. -/
theorem passes_le (hquantum : 1 ≤ timeQuantum) {n : Nat} (h : Passes env timeQuantum st n) :
    (n : Int) ≤ max 0 st.remainingTimeMs.toInt := by
  induction h with
  | none => exact le_max_left _ _
  | more first htime rest ih =>
      have hless := (putsBack_progress_iff hquantum first).mpr htime
      have hlong := (putsBack_entry first).1
      push_cast
      omega

/-- Below ten milliseconds of quantum the loop of `execute` has no iteration:
an entry with more time left than passes between two readings is put back
after five readings of the clock. -/
theorem smallQuantum_putsBack (hwaits : env.WaitsSucceed)
    (h : Quiescent env.capacity w.shm (st :: rest)) (hvalid : validPriority st.priority = true)
    (htype : st.type = TaskType.cpuIntensiveTask.value) (hfresh : st.completed = false)
    (hpos : 0 ≤ timeQuantum) (hsmall : timeQuantum < 10)
    (hlong : timeQuantum ≤ st.remainingTimeMs.toInt)
    (hleft : toMilliseconds (env.clock.read (w.readings + 3) - env.clock.read (w.readings + 2)) <
      st.remainingTimeMs.toInt) :
    ∃ w' st', PutsBack env timeQuantum w st w' st' ∧ w'.readings = w.readings + 5 := by
  have hget := getNextTask_apply h (hwaits _) (hwaits _) hvalid
  have htaken : Taken st _ (decoded env.float st (env.clock.read w.readings)
    (env.clock.read (w.readings + 1))) := decoded_taken env.float htype _ _
  have hq := h.dequeued env.declared
  have hlen := h.length_le
  rw [List.length_cons] at hlen
  generalize hw₁ : ({ w with
    shm := w.shm.dequeued env.capacity
    waits := w.waits + 2
    readings := w.readings + 2 } : World) = w₁ at hget
  have hq₁ : Quiescent env.capacity w₁.shm rest := by
    rw [← hw₁]
    exact hq
  have hread₁ : w₁.readings = w.readings + 2 := by rw [← hw₁]
  generalize decoded env.float st (env.clock.read w.readings)
    (env.clock.read (w.readings + 1)) = task at hget htaken
  let w₂ := w₁.logged (.processing task.description)
  have htotal : task.getTotalTime env w₂ = .ok st.remainingTimeMs.toInt w₂ :=
    getTotalTime_cpu htaken.kind
  have hnone : cpuIterations timeQuantum = 0 := by
    unfold cpuIterations
    rw [Int.tdiv_eq_zero_of_lt hpos hsmall]
    rfl
  have hunfinished : decide (st.remainingTimeMs.toInt - toMilliseconds
      (env.clock.read (w₁.readings + 1) - env.clock.read w₁.readings) ≤ 0) = false := by
    have hnext : w.readings + 2 + 1 = w.readings + 3 := rfl
    rw [hread₁, hnext]
    exact decide_eq_false (by omega)
  obtain ⟨task', hexecute, hcompleted⟩ : ∃ task', task.execute env timeQuantum w₂ =
      .ok (false, task') { w₂ with readings := w₂.readings + 2 } ∧
        task'.completed = task.completed := by
    unfold UnixTask.execute
    rw [htaken.kind]
    simp only [CpuIntensiveTask.execute, hnone, cpuLoop, bind_apply, now_apply, pure_apply]
    have hreadings : w₂.readings = w₁.readings := rfl
    simp only [hreadings, hunfinished]
    exact ⟨_, rfl, rfl⟩
  obtain ⟨w', hadd, hstored, -, hread, -⟩ := addTask_stores
    (w := { w₂ with readings := w₂.readings + 2 }) hq₁ (by omega) (fun k _ => hwaits _) task'
  refine ⟨w', _, ⟨htype, rest, task, w₁, true, h, hget, .inl ⟨(), ?_⟩, hstored⟩, ?_⟩
  · rw [processTask_sliced htotal hlong]
    unfold sliceBranch
    rw [returns hexecute]
    exact hadd
  · rw [hread, encodedReadings, hcompleted, htaken.completed, hfresh]
    show w₁.readings + 2 + 1 = _
    omega

/-- **Every pass makes progress exactly if it takes a millisecond.**  With a
quantum of at least one millisecond, a pass that puts a CPU entry back lowers
its remaining time if and only if it takes time; and of passes that do there
are at most as many as the entry has milliseconds. -/
theorem every_pass_progresses_iff (env : Env) (hquantum : 1 ≤ timeQuantum) :
    (∀ {w w' : World} {st st' : SharedTask}, PutsBack env timeQuantum w st w' st' →
      (st'.remainingTimeMs.toInt < st.remainingTimeMs.toInt ↔ TakesTime env w st w')) ∧
      ∀ {st : SharedTask} {n : Nat}, Passes env timeQuantum st n →
        (n : Int) ≤ max 0 st.remainingTimeMs.toInt :=
  ⟨fun h => putsBack_progress_iff hquantum h, fun h => passes_le hquantum h⟩

end Pass

/-- A pass with a quantum of five milliseconds over an entry of 600. -/
theorem quantumFive_putsBack (env : Env) (hcapacity : env.capacity = 1)
    (hwaits : env.WaitsSucceed)
    (hleft : toMilliseconds (env.clock.read 3 - env.clock.read 2) < 600) :
    ∃ w' st', PutsBack env 5 (World.begin (Shm.holding (cpuEntry 600))) (cpuEntry 600) w' st' ∧
      w'.readings = 5 := by
  have hq : Quiescent env.capacity (World.begin (Shm.holding (cpuEntry 600))).shm
      [cpuEntry 600] := by
    rw [hcapacity]
    exact quiescent_holding _
  exact smallQuantum_putsBack hwaits hq (by decide) rfl rfl (by decide) (by decide) (by decide)
    hleft

/-- A clock that gains a millisecond at each reading makes it progress. -/
theorem every_pass_progresses_ticking :
    ∃ w' st', PutsBack envTicking 5 (World.begin (Shm.holding (cpuEntry 600)))
        (cpuEntry 600) w' st' ∧ st'.remainingTimeMs.toInt < 600 := by
  obtain ⟨w', st', hpass, hread⟩ := quantumFive_putsBack envTicking rfl (fun _ => rfl) (by decide)
  refine ⟨w', st', hpass, ((every_pass_progresses_iff envTicking (by decide)).1 hpass).mpr ?_⟩
  refine .inr ?_
  rw [hread]
  decide

/-- While the clock stands still, the pass puts back an entry with as much time
as before. -/
theorem pass_stalls :
    ∃ w' st', PutsBack envOne 5 (World.begin (Shm.holding (cpuEntry 600)))
        (cpuEntry 600) w' st' ∧ st'.remainingTimeMs = 600 := by
  obtain ⟨w', st', hpass, hread⟩ := quantumFive_putsBack envOne rfl (fun _ => rfl) (by decide)
  obtain ⟨-, hstored⟩ := putsBack_entry hpass
  refine ⟨w', st', hpass, ?_⟩
  rw [hstored]
  show remainingTime (600 - toMilliseconds (0 - 0)) = 600
  decide

end TaskSheduler
