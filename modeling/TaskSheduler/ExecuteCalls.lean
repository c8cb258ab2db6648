import TaskSheduler.Interleaving
import TaskSheduler.TaskProcessor

/-!
# The calls of `execute` in a run of `process_tasks`

A round of `process_tasks` calls `execute` once at most.  `nextDispatch` is the
code before that call, `Dispatch.finish` the code behind it, and
`processTasksRound_eq` says that they and the call make up the round.  The
`processorMachine` goes from round to round and shows the states in which they
start; its runs are the runs of `process_tasks`, and all these states are
quiescent if the first one is.
-/

namespace TaskSheduler

open Programs Interleaving

/-- A task that is about to be executed, its slice, and whether it leaves the
queue whatever `execute` returns. -/
structure Dispatch where
  task : UnixTask
  slice : Int
  short : Bool

/-- What a round does with a task before it calls `execute`. -/
def dispatchTask (env : Env) (timeQuantum : Int) (task : UnixTask) : Program World Dispatch := do
  logLine (.processing task.description)
  if (← task.getTotalTime env) < timeQuantum then
    return { task, slice := ← task.getTotalTime env, short := true }
  else
    return { task, slice := timeQuantum, short := false }

/-- A round up to its call of `execute`, if it gets there. -/
def nextDispatch (env : Env) (timeQuantum : Int) : Program World (Option Dispatch) := do
  if 0 < (← size) then
    return some (← dispatchTask env timeQuantum (← getNextTask env))
  else
    return none

/-- A round after `execute` has returned. -/
def Dispatch.finish (env : Env) (running : Bool) (d : Dispatch) (completed : Bool)
    (task : UnixTask) : Program World Unit :=
  if d.short then
    logLine (.completed task.description)
  else if !completed && running then
    addTask env task
  else
    logLine (.completed task.description)

/-- A round from its call of `execute` on. -/
def Dispatch.run (env : Env) (running : Bool) (d : Dispatch) : Program World Unit := do
  let (completed, task) ← d.task.execute env d.slice
  d.finish env running completed task

/-- **The `try` block** is the code before `execute`, the call, and the code
behind it. -/
theorem processTask_eq (env : Env) (timeQuantum : Int) (running : Bool) (task : UnixTask) :
    processTask env timeQuantum running task =
      dispatchTask env timeQuantum task >>= Dispatch.run env running := by
  unfold processTask dispatchTask
  simp only [bind_assoc]
  refine bind_congr fun _ => bind_congr fun total => ?_
  by_cases hshort : total < timeQuantum
  · rw [if_pos hshort, if_pos hshort, bind_assoc]
    rfl
  · rw [if_neg hshort, if_neg hshort]
    rfl

/-- **A round** is the code before `execute`, the call, and the code behind it. -/
theorem processTasksRound_eq (env : Env) (timeQuantum : Int) (running : Bool) :
    processTasksRound env timeQuantum running =
      catchThrown (nextDispatch env timeQuantum >>= fun
        | none => pure ()
        | some d => d.run env running)
      fun message => logLine (.failed message) := by
  unfold processTasksRound nextDispatch
  congr 1
  simp only [bind_assoc]
  refine bind_congr fun n => ?_
  by_cases hsome : 0 < n
  · rw [if_pos hsome, if_pos hsome]
    simp only [bind_assoc, pure_bind, processTask_eq]
  · rw [if_neg hsome, if_neg hsome, pure_bind]

/-- A call of `execute`, and the state in which it is made. -/
structure ExecuteCall extends Dispatch where
  start : World

/-- The call that a round makes, if it makes one. -/
def roundCalls (env : Env) (timeQuantum : Int) (w : World) : List ExecuteCall :=
  match nextDispatch env timeQuantum w with
  | .ok (some d) w₁ => [{ d with start := w₁ }]
  | _ => []

/-- `process_tasks`, round by round, with any value of `running_` at the
put-back decisions; it shows the state in which a round starts. -/
def processorMachine (env : Env) (timeQuantum : Int) : Machine World Bool World where
  step w running :=
    match processTasksRound env timeQuantum running w with
    | .ok () w' => some (w', [w])
    | .error _ _ => none

/-! ## Which call a round makes -/

variable {env : Env} {timeQuantum : Int} {w w' : World} {task : UnixTask}

theorem mem_roundCalls {call : ExecuteCall} :
    call ∈ roundCalls env timeQuantum w ↔
      nextDispatch env timeQuantum w = .ok (some call.toDispatch) call.start := by
  unfold roundCalls
  split
  · next d w₁ hnext =>
      rw [hnext, List.mem_singleton]
      constructor
      · rintro rfl
        rfl
      · intro h
        cases h
        rfl
  · next hnone =>
      refine iff_of_false List.not_mem_nil fun h => ?_
      exact hnone _ _ h

/-- Before `execute` nothing stops a round that has a task. -/
theorem dispatchTask_returns (env : Env) (timeQuantum : Int) (task : UnixTask) (w : World) :
    ∃ d w', dispatchTask env timeQuantum task w = .ok d w' ∧ w'.shm = w.shm ∧
      w'.readings = w.readings := by
  obtain ⟨total, t, htotal⟩ := getTotalTime_returns env
    { w with log := w.log ++ [.processing task.description] } task
  unfold dispatchTask
  rw [returns (logLine_apply _ w), returns htotal]
  by_cases hshort : total < timeQuantum
  · obtain ⟨slice, t', hslice⟩ := getTotalTime_returns env
      { w with log := w.log ++ [.processing task.description], totals := t } task
    rw [if_pos hshort, returns hslice]
    exact ⟨_, _, rfl, rfl, rfl⟩
  · rw [if_neg hshort]
    exact ⟨_, _, rfl, rfl, rfl⟩

/-- The call is made on the task at hand; a CPU task gets its total time or the
quantum, whichever is less. -/
theorem dispatchTask_returned {d : Dispatch} (h : dispatchTask env timeQuantum task w = .ok d w') :
    d.task = task ∧ ∀ total remaining, task.kind = .cpuIntensiveTask total remaining →
      d.slice = if total < timeQuantum then total else timeQuantum := by
  obtain ⟨-, w₁, -, h⟩ := bind_returned h
  obtain ⟨first, w₂, hfirst, h⟩ := bind_returned h
  have hcpu : ∀ {total remaining t : Int} {s s' : World},
      task.kind = .cpuIntensiveTask total remaining → task.getTotalTime env s = .ok t s' →
        t = total := by
    intro total remaining t s s' hkind ht
    rw [getTotalTime_cpu hkind] at ht
    cases ht
    rfl
  by_cases hshort : first < timeQuantum
  · rw [if_pos hshort] at h
    obtain ⟨slice, w₃, hslice, h⟩ := bind_returned h
    cases h
    refine ⟨rfl, fun total remaining hkind => ?_⟩
    rw [if_pos (hcpu hkind hfirst ▸ hshort)]
    exact hcpu hkind hslice
  · rw [if_neg hshort] at h
    cases h
    refine ⟨rfl, fun total remaining hkind => ?_⟩
    rw [if_neg (hcpu hkind hfirst ▸ hshort)]

/-- A round that calls `execute` has taken the task from the queue. -/
theorem nextDispatch_returned {d : Dispatch}
    (h : nextDispatch env timeQuantum w = .ok (some d) w') :
    ∃ task w₁, getNextTask env w = .ok task w₁ ∧
      dispatchTask env timeQuantum task w₁ = .ok d w' := by
  obtain ⟨n, w₁, hsize, h⟩ := bind_returned h
  cases hsize
  by_cases hsome : 0 < w.shm.count
  · rw [if_pos hsome] at h
    obtain ⟨task, w₂, hget, h⟩ := bind_returned h
    obtain ⟨d', w₃, hdispatch, h⟩ := bind_returned h
    cases h
    exact ⟨task, w₂, hget, hdispatch⟩
  · rw [if_neg hsome] at h
    cases h

/-- On an empty queue a round does not get there. -/
theorem nextDispatch_empty (h : Quiescent env.capacity w.shm []) :
    nextDispatch env timeQuantum w = .ok none w := by
  have hsize : size w = .ok w.shm.count w := rfl
  have hcount : w.shm.count = 0 := h.ring.count_eq
  unfold nextDispatch
  rw [returns hsize, hcount]
  rfl

/-- On a queue that is not empty, what stops the round before `execute` is
`get_next_task`. -/
theorem nextDispatch_apply (hcount : 0 < w.shm.count) :
    nextDispatch env timeQuantum w =
      (getNextTask env >>= fun task => some <$> dispatchTask env timeQuantum task) w := by
  have hsize : size w = .ok w.shm.count w := rfl
  unfold nextDispatch
  rw [returns hsize, if_pos hcount]
  simp only [map_eq_pure_bind]

/-! ## Which entries are executed -/

section Entries

variable {st : SharedTask} {rest : List SharedTask}

/-- The entry that the next `dequeue` takes out. -/
def Shm.head? (shm : Shm) : Option SharedTask :=
  if shm.count = 0 then none else some (shm.tasks shm.front)

theorem Quiescent.head_eq {capacity : Nat} {shm : Shm} {q : List SharedTask}
    (h : Quiescent capacity shm q) : shm.head? = q.head? := by
  unfold Shm.head?
  rw [h.ring.count_eq]
  cases q with
  | nil => rfl
  | cons st rest =>
      rw [List.length_cons, if_neg (Nat.succ_ne_zero _), h.ring.holds.head_slot]
      rfl

/-- The entry at the head of the queue is not decoded: a wait of the `dequeue`
fails, or the decoder rejects its priority. -/
def NotDecoded (env : Env) (w : World) (st : SharedTask) : Prop :=
  env.waitFails w.waits = true ∨ env.waitFails (w.waits + 1) = true ∨
    validPriority st.priority = false

/-- A decoded entry is executed, two readings later. -/
theorem decoded_executed (timeQuantum : Int) (h : Quiescent env.capacity w.shm (st :: rest))
    (hdecoded : ¬ NotDecoded env w st) :
    ∃ call, roundCalls env timeQuantum w = [call] ∧
      call.task = decoded env.float st (env.clock.read w.readings)
        (env.clock.read (w.readings + 1)) ∧
      call.start.readings = w.readings + 2 := by
  simp only [NotDecoded, not_or, Bool.not_eq_true, Bool.not_eq_false] at hdecoded
  obtain ⟨h₀, h₁, hvalid⟩ := hdecoded
  have hget := getNextTask_apply h h₀ h₁ hvalid
  obtain ⟨d, w₂, hdispatch, -, hreadings⟩ := dispatchTask_returns env timeQuantum
    (decoded env.float st (env.clock.read w.readings) (env.clock.read (w.readings + 1)))
    { w with
      shm := w.shm.dequeued env.capacity
      waits := w.waits + 2
      readings := w.readings + 2 }
  have hnext : nextDispatch env timeQuantum w = .ok (some d) w₂ := by
    rw [nextDispatch_apply h.count_pos, returns hget, map_apply, hdispatch]
  refine ⟨{ d with start := w₂ }, ?_, (dispatchTask_returned hdispatch).1, hreadings⟩
  unfold roundCalls
  rw [hnext]

/-- An entry that is not decoded is not executed. -/
theorem notDecoded_not_executed (timeQuantum : Int) (h : Quiescent env.capacity w.shm (st :: rest))
    (hdecoded : NotDecoded env w st) : roundCalls env timeQuantum w = [] := by
  obtain ⟨message, w', hthrow⟩ : ∃ message w', getNextTask env w =
      .error (.thrown message) w' := by
    obtain ⟨w', ⟨-, ⟨message, hthrow⟩, -⟩ | ⟨hwaits, -, -, hends⟩⟩ := getNextTask_cases h
    · exact ⟨message, w', hthrow⟩
    · rcases hends with ⟨-, message, hthrow⟩ | ⟨hvalid, -⟩
      · exact ⟨message, w', hthrow⟩
      · simp [NotDecoded, hwaits.1, hwaits.2, hvalid] at hdecoded
  unfold roundCalls
  rw [nextDispatch_apply h.count_pos, stops hthrow]

/-- Nothing is executed if there is no entry. -/
theorem notQueued_not_executed (h : Quiescent env.capacity w.shm []) :
    roundCalls env timeQuantum w = [] := by
  unfold roundCalls
  rw [nextDispatch_empty h]

end Entries

/-! ## Between the rounds -/

/-- The segment is quiescent. -/
def Rests (env : Env) (s : World) : Prop := ∃ q, Quiescent env.capacity s.shm q

/-- The segment is quiescent and has a free slot. -/
def RestsWithRoom (env : Env) (s : World) : Prop :=
  ∃ q, Quiescent env.capacity s.shm q ∧ q.length < env.capacity

/-- An exception leaves the segment quiescent. -/
def ThrowRests (env : Env) (e : Stop) (s : World) : Prop :=
  ∀ message, e = .thrown message → Rests env s

/-- A task that is about to be executed has left a slot free. -/
theorem nextDispatch_rests (env : Env) (timeQuantum : Int) :
    Triple (Rests env) (nextDispatch env timeQuantum)
      (fun d s => Rests env s ∧ (d.isSome = true → RestsWithRoom env s)) (ThrowRests env) := by
  intro w hrests
  obtain ⟨q, hq⟩ := hrests
  cases q with
  | nil =>
      rw [nextDispatch_empty hq]
      exact ⟨⟨_, hq⟩, fun hsome => nomatch hsome⟩
  | cons st rest =>
      have hlen := hq.length_le
      rw [List.length_cons] at hlen
      rw [nextDispatch_apply hq.count_pos]
      obtain ⟨w', ⟨-, ⟨message, hthrow⟩, hshm⟩ | ⟨-, hrest, -, hends⟩⟩ := getNextTask_cases hq
      · rw [stops hthrow]
        exact fun _ _ => ⟨_, hshm ▸ hq⟩
      · rcases hends with ⟨-, message, hthrow⟩ | ⟨-, hreturn⟩
        · rw [stops hthrow]
          exact fun _ _ => ⟨_, hrest⟩
        · obtain ⟨d, w₁, hdispatch, hshm, -⟩ := dispatchTask_returns env timeQuantum
            (decoded env.float st (env.clock.read w.readings)
              (env.clock.read (w.readings + 1))) w'
          rw [returns hreturn, map_apply, hdispatch]
          rw [← hshm] at hrest
          exact ⟨⟨_, hrest⟩, fun _ => ⟨_, hrest, by omega⟩⟩

/-- The rest of the round uses that slot, if any. -/
theorem Dispatch.run_rests (env : Env) (running : Bool) (d : Dispatch) :
    Triple (RestsWithRoom env) (d.run env running) (fun _ s => Rests env s)
      (ThrowRests env) := by
  have hexecute : Triple (RestsWithRoom env) (d.task.execute env d.slice)
      (fun _ s => RestsWithRoom env s) (ThrowRests env) := by
    intro w hrests
    obtain ⟨q, hq, hroom⟩ := hrests
    refine (execute_spec env d.slice d.task w).weaken ?_ ?_ w ⟨rfl, rfl, rfl⟩
    · intro r s hend
      obtain ⟨hs, -⟩ := hend
      exact ⟨q, hs.shm ▸ hq, hroom⟩
    · intro e s hend message _
      obtain ⟨hs, -⟩ := hend
      exact ⟨q, hs.shm ▸ hq⟩
  have hlog : ∀ entry, Triple (RestsWithRoom env) (logLine entry) (fun _ s => Rests env s)
      (ThrowRests env) := by
    intro entry w hrests
    obtain ⟨q, hq, -⟩ := hrests
    exact ⟨q, hq⟩
  refine hexecute.bind fun r => ?_
  unfold Dispatch.finish
  refine Triple.ite (fun _ => hlog _) fun _ => Triple.ite (fun _ => ?_) fun _ => hlog _
  intro w hrests
  obtain ⟨q, hq, hroom⟩ := hrests
  obtain ⟨w', -, -, ⟨-, ⟨message, hthrow⟩, hshm⟩ | ⟨-, hdone, -, hends⟩⟩ :=
    addTask_cases hq hroom r.2
  · rw [hthrow]
    exact fun _ _ => ⟨q, hshm ▸ hq⟩
  · rcases hends with ⟨-, message, hthrow⟩ | ⟨-, hreturn⟩
    · rw [hthrow]
      exact fun _ _ => ⟨_, hdone⟩
    · rw [hreturn]
      exact ⟨_, hdone⟩

/-- **A round leaves the segment quiescent.** -/
theorem round_rests {running : Bool} (h : Rests env w)
    (hround : processTasksRound env timeQuantum running w = .ok () w') : Rests env w' := by
  have hbody : Triple (Rests env) (nextDispatch env timeQuantum >>= fun
      | none => pure ()
      | some d => d.run env running) (fun _ s => Rests env s) (ThrowRests env) := by
    refine (nextDispatch_rests env timeQuantum).bind fun d => ?_
    cases d with
    | none => exact Triple.pure fun _ hs => hs.1
    | some d => exact fun s hs => d.run_rests env running s (hs.2 rfl)
  rw [processTasksRound_eq] at hround
  unfold catchThrown at hround
  split at hround
  · next message s hthrow =>
      have hs := hbody.stopped h hthrow message rfl
      cases hround
      exact hs
  · next hreturn => exact hbody.returned h hround

/-- Every round of a run starts on a quiescent segment, and so would the next. -/
theorem rounds_rest {start : World} {starts : List World}
    (hrun : Run (processorMachine env timeQuantum) start starts w) (h : Rests env start) :
    ∀ s ∈ starts ++ [w], Rests env s := by
  refine hrun.invariant (fun starts w => ∀ s ∈ starts ++ [w], Rests env s) ?_ ?_
  · simpa using h
  · intro starts s running s' shown hall hstep
    unfold processorMachine at hstep
    simp only at hstep
    split at hstep
    · next hround =>
        cases hstep
        refine List.forall_mem_append.mpr ⟨hall, ?_⟩
        simpa using round_rests (hall s (by simp)) hround
    · cases hstep

end TaskSheduler
