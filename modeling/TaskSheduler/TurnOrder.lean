import TaskSheduler.EntryInvariants
import TaskSheduler.ExecuteCalls
import TaskSheduler.ServiceErrors
import TaskSheduler.TurnRuns

/-!
# The order in which tasks get their turn

Processor, scheduler and clients take turns as in the module on turns, while no
`sem_wait` fails.  A round of the processor takes the first task of the queue
and puts it back behind all others, or not at all; `Scheduler::add_task` puts
its task there too; and `reorder_tasks`, whatever the algorithm makes of the
priorities, puts back what it has taken in the same order (`reorder_turn`,
`round_turn`, `addTask_order`).

So tasks are taken in the order in which they were put into the queue, and a
task with `n` others in front of it waits for `n` rounds of the processor.  The
priorities have no part in it.
-/

namespace TaskSheduler

open Programs Interleaving

/-- What is seen of a turn: a round of the processor, the task that it takes,
and what is put at the end of the queue. -/
inductive TurnEvent
  | round
  | taken (id : Int32)
  | queued (id : Int32)
deriving DecidableEq

/-- The task that is taken. -/
def TurnEvent.taken? : TurnEvent → Option Int32
  | .taken id => some id
  | _ => none

/-- The task that is put at the end. -/
def TurnEvent.queued? : TurnEvent → Option Int32
  | .queued id => some id
  | _ => none

/-- The tasks taken, in that order. -/
def takenIds (trace : List TurnEvent) : List Int32 := trace.filterMap TurnEvent.taken?

/-- The tasks put at the end, in that order. -/
def queuedIds (trace : List TurnEvent) : List Int32 := trace.filterMap TurnEvent.queued?

theorem takenIds_append (left right : List TurnEvent) :
    takenIds (left ++ right) = takenIds left ++ takenIds right := List.filterMap_append

theorem queuedIds_append (left right : List TurnEvent) :
    queuedIds (left ++ right) = queuedIds left ++ queuedIds right := List.filterMap_append

/-- A round that takes a task. -/
theorem takenIds_round (id : Int32) (back : Bool) :
    takenIds (.round :: .taken id :: if back then [.queued id] else []) = [id] := by
  cases back <;> rfl

theorem queuedIds_round (id : Int32) (back : Bool) :
    queuedIds (.round :: .taken id :: if back then [.queued id] else []) =
      if back then [id] else [] := by
  cases back <;> rfl

/-- The rounds of the processor. -/
def rounds (trace : List TurnEvent) : Nat := trace.count .round

theorem rounds_append (left right : List TurnEvent) :
    rounds (left ++ right) = rounds left + rounds right := List.count_append

/-- The put-back of a round after its call of `execute`. -/
def ExecuteCall.putsBack (env : Env) (call : ExecuteCall) : Bool :=
  match call.task.execute env call.slice call.start with
  | .ok (completed, _) _ => !call.short && !completed
  | .error _ _ => false

/-- What a round of the processor does with the queue. -/
def roundEvents (env : Env) (timeQuantum : Int) (w : World) : List TurnEvent :=
  .round :: (roundCalls env timeQuantum w).flatMap fun call =>
    .taken call.task.id :: if call.putsBack env then [.queued call.task.id] else []

/-- What a turn does with the queue. -/
def Turn.events {Client : Type*} (env : Env) (timeQuantum : Int) (w : World) :
    Turn Client → List TurnEvent
  | .processor => roundEvents env timeQuantum w
  | .scheduler => []
  | .addTask _ task => [.queued task.id]

/-- A client adds a coherent task. -/
def Turn.AddsCoherent {Client : Type*} : Turn Client → Prop
  | .addTask _ task => Coherent task
  | _ => True

/-- The turns. -/
def turnMachine (Client : Type*) (env : Env) (timeQuantum : Int)
    (algorithm : SchedulingAlgorithm) (fuel : Nat) : Machine World (Turn Client) TurnEvent where
  step w turn :=
    match turn.program env timeQuantum algorithm fuel w with
    | .ok () w' => some (w', turn.events env timeQuantum w)
    | .error _ _ => none

/-- The tasks that wait in the queue; their entries can be decoded. -/
structure Waiting (env : Env) (shm : Shm) (q : List SharedTask) : Prop where
  quiescent : Quiescent env.capacity shm q
  valid : ValidPriorities q

section Turns

variable {env : Env} {timeQuantum : Int} {algorithm : SchedulingAlgorithm} {fuel : Nat}
  {w w' : World} {q rest : List SharedTask}

/-- `add_task` of a coherent task. -/
theorem addTask_waiting (hwaits : env.WaitsSucceed) (h : Waiting env w.shm q)
    (hroom : q.length < env.capacity) {task : UnixTask} (htask : Coherent task) :
    ∃ st w', addTask env task w = .ok () w' ∧ Waiting env w'.shm (q ++ [st]) ∧
      st.id = task.id := by
  obtain ⟨st, w', hadd, hencodes, hq, -⟩ :=
    addTask_returns h.quiescent hroom (fun k _ => hwaits _) task
  refine ⟨st, w', hadd, ⟨hq, List.forall_mem_append.mpr ⟨h.valid, ?_⟩⟩, hencodes.id⟩
  rw [List.forall_mem_singleton, hencodes.priority]
  exact htask.priority

/-- On a full queue `add_task` blocks. -/
theorem addTask_blocks (hwaits : env.WaitsSucceed) (h : Waiting env w.shm q)
    (hfull : q.length = env.capacity) (task : UnixTask) :
    ∃ w₁, addTask env task w = .error .blocked w₁ := by
  obtain ⟨w₁, hadd, hshm, -⟩ := addTask_apply env w task
  have hnone : w₁.shm.value .enqueueSem = 0 := by
    have hslots := h.quiescent.slots
    show w₁.shm.enqueueSem = 0
    rw [hshm]
    omega
  have hblocked : waitOn env .enqueueSem w₁ = .error .blocked w₁ := by
    simp [waitOn, hwaits _, hnone, semWait]
  have henqueue : enqueue env (storedEntry env w task) w₁ = .error .blocked w₁ := stops hblocked
  exact ⟨w₁, hadd.trans (stops henqueue)⟩

theorem decodedFrom_coherent (env : Env) (q : List SharedTask) (r : Nat) :
    ∀ task ∈ decodedFrom env r q, Coherent task := by
  induction q generalizing r with
  | nil => exact fun task hmem => absurd hmem List.not_mem_nil
  | cons st rest ih => exact List.forall_mem_cons.mpr ⟨decoded_coherent _ st _ _, ih (r + 2)⟩

/-- The entries of coherent tasks can be decoded. -/
theorem encodes_valid {tasks : List UnixTask} {sts : List SharedTask}
    (h : List.Forall₂ Encodes tasks sts) (htasks : ∀ task ∈ tasks, Coherent task) :
    ValidPriorities sts := by
  induction h with
  | nil => exact fun st hmem => absurd hmem List.not_mem_nil
  | cons hst hrest ih =>
      obtain ⟨hfirst, hlater⟩ := List.forall_mem_cons.mp htasks
      refine List.forall_mem_cons.mpr ⟨?_, ih hlater⟩
      rw [hst.priority]
      exact hfirst.priority

/-- **`reorder_tasks` keeps the order**, whatever the algorithm. -/
theorem reorder_turn (hwaits : env.WaitsSucceed) (hfuel : env.capacity < fuel)
    (h : Waiting env w.shm q) (algorithm : SchedulingAlgorithm) :
    ∃ q' w', reorderTasks env algorithm fuel w = .ok () w' ∧ Waiting env w'.shm q' ∧
      q'.map SharedTask.id = q.map SharedTask.id := by
  have hlen : q.length < fuel := lt_of_le_of_lt h.quiescent.length_le hfuel
  obtain ⟨sts, w', hrun, hq, hall, -⟩ :=
    reorderTasks_returns hwaits h.quiescent h.valid hlen algorithm
  have hids : sts.map SharedTask.id = q.map SharedTask.id :=
    ((ids_of_encodes hall).trans (updatedFrom_ids env algorithm _ _)).trans
      (decodedFrom_ids env _ q)
  have hcoherent : ∀ task ∈ updatedFrom env algorithm (w.readings + 2 * q.length)
      (decodedFrom env w.readings q), Coherent task :=
    updatedFrom_holds (closed_coherent env) (decodedFrom_coherent env q w.readings) _
  exact ⟨sts, w', hrun, ⟨hq, encodes_valid hall hcoherent⟩, hids⟩

/-- `Scheduler::add_task`. -/
theorem addTask_order (hwaits : env.WaitsSucceed) (hfuel : env.capacity < fuel)
    (h : Waiting env w.shm q) {task : UnixTask} (htask : Coherent task)
    (hrun : catchThrown (Scheduler.addTask env algorithm fuel task) (fun _ => return ()) w =
      .ok () w') :
    ∃ q', Waiting env w'.shm q' ∧ q'.map SharedTask.id = q.map SharedTask.id ++ [task.id] := by
  by_cases hroom : q.length < env.capacity
  · obtain ⟨st, w₁, hadd, hq₁, hid⟩ := addTask_waiting hwaits h hroom htask
    obtain ⟨q', w₂, hreorder, hq₂, hids⟩ := reorder_turn hwaits hfuel hq₁ algorithm
    have hboth : Scheduler.addTask env algorithm fuel task w = .ok () w₂ :=
      (returns hadd).trans hreorder
    rw [catchThrown_returns hboth] at hrun
    cases hrun
    refine ⟨q', hq₂, ?_⟩
    rw [hids, List.map_append, List.map_singleton, hid]
  · obtain ⟨w₁, hadd⟩ := addTask_blocks hwaits h
      (le_antisymm h.quiescent.length_le (not_lt.mp hroom)) task
    have hboth : Scheduler.addTask env algorithm fuel task w = .error .blocked w₁ := stops hadd
    simp only [catchThrown, hboth] at hrun
    cases hrun

/-! ## A round of the processor -/

/-- What a round does with its task, once it has it. -/
theorem run_turn (hwaits : env.WaitsSucceed) (h : Waiting env w.shm rest)
    (hroom : rest.length < env.capacity) {d : Dispatch} (htask : Coherent d.task)
    (hrun : catchThrown (d.run env true) (fun message => logLine (.failed message)) w =
      .ok () w') :
    ∃ q', Waiting env w'.shm q' ∧ q'.map SharedTask.id = rest.map SharedTask.id ++
      if ExecuteCall.putsBack env { d with start := w } then [d.task.id] else [] := by
  have hspec := execute_spec env d.slice d.task w
  cases hexecute : d.task.execute env d.slice w with
  | error e w₁ =>
      have hsame := (hspec.stopped ⟨rfl, rfl, rfl⟩ hexecute).1
      have hthrow : d.run env true w = .error e w₁ := stops hexecute
      cases e with
      | thrown message =>
          rw [catchThrown_thrown hthrow] at hrun
          cases hrun
          refine ⟨rest, ?_, ?_⟩
          · show Waiting env w₁.shm rest
            rw [hsame.shm]
            exact h
          · simp [ExecuteCall.putsBack, hexecute]
      | blocked =>
          simp only [catchThrown, hthrow] at hrun
          cases hrun
      | outOfFuel =>
          simp only [catchThrown, hthrow] at hrun
          cases hrun
  | ok r w₁ =>
      obtain ⟨completed, after⟩ := r
      obtain ⟨hsame, hid, -⟩ := hspec.returned ⟨rfl, rfl, rfl⟩ hexecute
      have hrest : d.run env true w = d.finish env true completed after w₁ := returns hexecute
      have hq : Waiting env w₁.shm rest := by
        rw [hsame.shm]
        exact h
      have hputs : ExecuteCall.putsBack env { d with start := w } = (!d.short && !completed) := by
        simp [ExecuteCall.putsBack, hexecute]
      rw [hputs]
      by_cases hback : d.short = false ∧ completed = false
      · obtain ⟨hlong, hopen⟩ := hback
        obtain ⟨st, w₂, hadd, hq', hst⟩ := addTask_waiting hwaits hq hroom
          (htask.execute (execute_keeps hexecute))
        have hend : d.run env true w = .ok () w₂ := by
          rw [hrest, Dispatch.finish, hlong, hopen]
          exact hadd
        rw [catchThrown_returns hend] at hrun
        cases hrun
        refine ⟨_, hq', ?_⟩
        rw [List.map_append, List.map_singleton, hst, hlong, hopen]
        exact congrArg _ (congrArg (fun id => [id]) hid)
      · have hlogs : d.run env true w = .ok () (w₁.logged (.completed after.description)) := by
          rw [hrest, Dispatch.finish]
          cases hshort : d.short with
          | true => rfl
          | false =>
              cases hdone : completed with
              | true => rfl
              | false => exact absurd ⟨hshort, hdone⟩ hback
        rw [catchThrown_returns hlogs] at hrun
        cases hrun
        have hnot : (!d.short && !completed) = false := by
          cases hshort : d.short with
          | true => rfl
          | false =>
              cases hdone : completed with
              | true => rfl
              | false => exact absurd ⟨hshort, hdone⟩ hback
        refine ⟨rest, hq, ?_⟩
        rw [hnot]
        exact (List.append_nil _).symm

/-- **A round takes the first task** and puts it back behind all others, or not
at all. -/
theorem round_turn (hwaits : env.WaitsSucceed) (h : Waiting env w.shm q)
    (hrun : processTasksRound env timeQuantum true w = .ok () w') :
    ∃ q', Waiting env w'.shm q' ∧
      q.map SharedTask.id ++ queuedIds (roundEvents env timeQuantum w) =
        takenIds (roundEvents env timeQuantum w) ++ q'.map SharedTask.id ∧
      (takenIds (roundEvents env timeQuantum w)).length = min 1 q.length := by
  rw [processTasksRound_eq] at hrun
  cases q with
  | nil =>
      have hnext : nextDispatch env timeQuantum w = .ok none w := nextDispatch_empty h.quiescent
      have hcalls : roundCalls env timeQuantum w = [] := by simp only [roundCalls, hnext]
      have hevents : roundEvents env timeQuantum w = [.round] := by
        simp only [roundEvents, hcalls, List.flatMap_nil]
      unfold catchThrown at hrun
      rw [returns hnext] at hrun
      cases hrun
      rw [hevents]
      exact ⟨[], h, rfl, rfl⟩
  | cons st rest =>
      obtain ⟨hfirst, hrest⟩ := List.forall_mem_cons.mp h.valid
      obtain ⟨d, w₂, hdispatch, hshm, -⟩ := dispatchTask_returns env timeQuantum
        (decoded env.float st (env.clock.read w.readings) (env.clock.read (w.readings + 1)))
        { w with
          shm := w.shm.dequeued env.capacity
          waits := w.waits + 2
          readings := w.readings + 2 }
      have htask := (dispatchTask_returned hdispatch).1
      have hnext : nextDispatch env timeQuantum w = .ok (some d) w₂ := by
        rw [nextDispatch_apply h.quiescent.count_pos,
          returns (getNextTask_apply h.quiescent (hwaits _) (hwaits _) hfirst), map_apply,
          hdispatch]
      have hq : Waiting env w₂.shm rest := by
        rw [hshm]
        exact ⟨h.quiescent.dequeued env.declared, hrest⟩
      have hlen := h.quiescent.length_le
      rw [List.length_cons] at hlen
      have hcoherent : Coherent d.task := by
        rw [htask]
        exact decoded_coherent _ st _ _
      have hid : d.task.id = st.id := by rw [htask, (decoded_decodes env.float st _ _).id]
      have hcalls : roundCalls env timeQuantum w = [{ d with start := w₂ }] := by
        simp only [roundCalls, hnext]
      have hevents : roundEvents env timeQuantum w = .round :: .taken st.id ::
          if ExecuteCall.putsBack env { d with start := w₂ } then [.queued st.id] else [] := by
        simp only [roundEvents, hcalls, List.flatMap_singleton, hid]
      obtain ⟨q', hq', hids⟩ := run_turn hwaits hq (by omega) hcoherent (by
        rw [← hrun]
        unfold catchThrown
        rw [returns hnext])
      refine ⟨q', hq', ?_, ?_⟩
      · rw [hids, hevents, hid, takenIds_round, queuedIds_round, List.map_cons, List.cons_append]
        rfl
      · rw [hevents, takenIds_round]
        simp

/-! ## Any sequence of turns -/

variable {Client : Type*}

/-- What any sequence of turns keeps: the queue of ids, and that rounds are not
idle while there are tasks from the beginning left. -/
structure InTurn (env : Env) (first : List Int32) (trace : List TurnEvent) (shm : Shm) :
    Prop where
  waiting : ∃ q, Waiting env shm q ∧
    first ++ queuedIds trace = takenIds trace ++ q.map SharedTask.id
  busy : min (rounds trace) first.length ≤ (takenIds trace).length

/-- A turn that takes nothing. -/
theorem InTurn.puts {first : List Int32} {trace es : List TurnEvent} {shm shm' : Shm}
    (h : InTurn env first trace shm) (htaken : takenIds es = []) (hrounds : rounds es = 0)
    (hputs : ∀ q, Waiting env shm q → ∃ q', Waiting env shm' q' ∧
      q'.map SharedTask.id = q.map SharedTask.id ++ queuedIds es) :
    InTurn env first (trace ++ es) shm' := by
  obtain ⟨q, hq, horder⟩ := h.waiting
  obtain ⟨q', hq', hids⟩ := hputs q hq
  refine ⟨⟨q', hq', ?_⟩, ?_⟩
  · rw [queuedIds_append, takenIds_append, htaken, List.append_nil, hids, ← List.append_assoc,
      horder, List.append_assoc]
  · rw [takenIds_append, htaken, List.append_nil, rounds_append, hrounds]
    exact h.busy

/-- A round of the processor. -/
theorem InTurn.round {first : List Int32} {trace : List TurnEvent} (hwaits : env.WaitsSucceed)
    (h : InTurn env first trace w.shm)
    (hrun : processTasksRound env timeQuantum true w = .ok () w') :
    InTurn env first (trace ++ roundEvents env timeQuantum w) w'.shm := by
  obtain ⟨q, hq, horder⟩ := h.waiting
  obtain ⟨q', hq', hround, htakes⟩ := round_turn hwaits hq hrun
  have hlengths := congrArg List.length horder
  rw [List.length_append, List.length_append, List.length_map] at hlengths
  have hrounds : rounds (roundEvents env timeQuantum w) = 1 := by
    have hnone : ∀ calls : List ExecuteCall, (calls.flatMap fun call =>
        .taken call.task.id :: if call.putsBack env then [.queued call.task.id] else []).count
          TurnEvent.round = 0 := by
      intro calls
      refine List.count_eq_zero.mpr fun hmem => ?_
      obtain ⟨call, -, hcall⟩ := List.mem_flatMap.mp hmem
      cases hback : call.putsBack env <;> simp [hback] at hcall
    rw [rounds, roundEvents, List.count_cons_self, hnone]
  refine ⟨⟨q', hq', ?_⟩, ?_⟩
  · calc first ++ queuedIds (trace ++ roundEvents env timeQuantum w)
        = takenIds trace ++ (q.map SharedTask.id ++
            queuedIds (roundEvents env timeQuantum w)) := by
          rw [queuedIds_append, ← List.append_assoc, horder, List.append_assoc]
      _ = takenIds (trace ++ roundEvents env timeQuantum w) ++ q'.map SharedTask.id := by
          rw [hround, takenIds_append, List.append_assoc]
  · have hbusy := h.busy
    rw [takenIds_append, List.length_append, htakes, rounds_append, hrounds]
    omega

/-- **Tasks get their turn in the order in which they were put into the queue**,
whatever their priorities and whatever the algorithm.  Every round of the
processor takes one of the tasks that were waiting at first until it has taken
them all, so that each of them waits for no more rounds than there are tasks in
front of it. -/
theorem turns_in_order (hwaits : env.WaitsSucceed) (hfuel : env.capacity < fuel)
    (hvalid : ValidPriorities q) (h : Quiescent env.capacity w.shm q) {trace : List TurnEvent}
    (hrun : RunWhere (turnMachine Client env timeQuantum algorithm fuel)
      (fun _ turn => turn.AddsCoherent) w trace w') :
    (∃ q', Quiescent env.capacity w'.shm q' ∧
      q.map SharedTask.id ++ queuedIds trace = takenIds trace ++ q'.map SharedTask.id) ∧
    min (rounds trace) q.length ≤ (takenIds trace).length := by
  have hall : InTurn env (q.map SharedTask.id) trace w'.shm := by
    refine hrun.invariant (fun trace w => InTurn env (q.map SharedTask.id) trace w.shm)
      ⟨⟨q, ⟨h, hvalid⟩, by simp [queuedIds, takenIds]⟩, Nat.min_le_left _ _⟩ ?_
    intro trace w turn w' es hinv hadmits hstep
    unfold turnMachine at hstep
    simp only at hstep
    cases hturn : turn.program env timeQuantum algorithm fuel w with
    | error e w₁ =>
        rw [hturn] at hstep
        cases hstep
    | ok u w₁ =>
        rw [hturn] at hstep
        cases hstep
        cases turn with
        | processor => exact hinv.round hwaits hturn
        | scheduler =>
            refine hinv.puts rfl rfl fun q hq => ?_
            obtain ⟨q', w₂, hreorder, hq', hids⟩ := reorder_turn hwaits hfuel hq algorithm
            have hsame : scheduleRound env algorithm fuel w = .ok () w₂ :=
              catchThrown_returns hreorder
            cases hturn.symm.trans hsame
            exact ⟨q', hq', by rw [hids]; exact (List.append_nil _).symm⟩
        | addTask c task =>
            exact hinv.puts rfl rfl fun q hq => addTask_order hwaits hfuel hq hadmits hturn
  obtain ⟨q', hq', horder⟩ := hall.waiting
  have hbusy := hall.busy
  rw [List.length_map] at hbusy
  exact ⟨⟨q', hq'.quiescent, horder⟩, hbusy⟩

end Turns

/-- Only the two loops have a turn. -/
def Turn.ofLoop : Turn Unit → Bool
  | .addTask _ _ => false
  | _ => true

/-- A task of priority -9 waits in front of one of priority 19. -/
def twoWaiting : World := World.begin wrappedRing

/-- Priorities are scheduled. -/
def byPriority : Machine World (Turn Unit) TurnEvent :=
  turnMachine Unit (Env.quiet 2 two_le_countTasks (Clock.still 5)) 1 .priorityScheduling 3

theorem loopTurns_execute :
    (exec byPriority twoWaiting [.scheduler, .processor, .processor]).isSome = true := by
  decide +kernel

theorem turns_in_order_wrapped :
    2 ≤ (takenIds ((exec byPriority twoWaiting [.scheduler, .processor, .processor]).get
      loopTurns_execute).2).length := by
  have hchecked : ∀ (s : World) (turn : Turn Unit), turn.ofLoop = true → turn.AddsCoherent := by
    intro s turn hloop
    cases turn with
    | addTask c task => cases hloop
    | processor => trivial
    | scheduler => trivial
  have hvalid : ValidPriorities [.numbered 2 (-9), .numbered 3 19] := by
    intro st hst
    rcases List.mem_pair.mp hst with rfl | rfl <;> decide
  have hrounds : rounds ((exec byPriority twoWaiting [.scheduler, .processor, .processor]).get
      loopTurns_execute).2 = 2 := by
    decide +kernel
  have hbusy := (turns_in_order (fun _ => rfl) (by decide) hvalid quiescent_wrappedRing
    (exec_runWhere hchecked (exec_get loopTurns_execute) (by decide +kernel))).2
  rw [hrounds] at hbusy
  exact hbusy

end TaskSheduler
