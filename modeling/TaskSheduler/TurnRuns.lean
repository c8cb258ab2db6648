import TaskSheduler.ClientMachine
import TaskSheduler.LoneThread
import TaskSheduler.TaskProcessor

/-!
# Turns

A round of `process_tasks`, a round of `schedule` and a call of
`Scheduler::add_task` are programs when they have the manager to themselves.
The service in which processor, scheduler and clients move at will can do the
same: it lets one thread make its whole round, then the next (`turns_run`).  So
whatever goes wrong when threads take turns can go wrong in the service.

The rounds are put together from the paths of the manager's calls in the module
before this one.
-/

namespace TaskSheduler

open Programs Interleaving

/-- The body of the loop in `schedule`.  It catches what the reordering throws;
its own log is not among the states. -/
def scheduleRound (env : Env) (algorithm : SchedulingAlgorithm) (fuel : Nat) :
    Program World Unit :=
  catchThrown (reorderTasks env algorithm fuel) fun _ => return ()

/-- `Scheduler::add_task`. -/
def Scheduler.addTask (env : Env) (algorithm : SchedulingAlgorithm) (fuel : Nat)
    (task : UnixTask) : Program World Unit := do
  TaskSheduler.addTask env task
  reorderTasks env algorithm fuel

/-! ## Rounds of the loops -/

/-- The system with a loop at this point, over this segment. -/
def System.atPoint (s : System) (t : Loop) (shm : Shm) (pc : LoopPc) : System :=
  { s with shm := shm, pc := Function.update s.pc t pc }

theorem System.atPoint_self {s : System} {t : Loop} {pc : LoopPc} (h : s.pc t = pc) (shm : Shm) :
    s.atPoint t shm pc = { s with shm := shm } := by
  rw [atPoint, ← h, Function.update_eq_self]

section Loops

variable {env : Env} {timeQuantum : Int} {algorithm : SchedulingAlgorithm} {s : System}
  {shm shm' : Shm} {w w' : World}

/-- A step of a loop. -/
theorem atPoint_step {t : Loop} (choice : LoopChoice) {pc pc' : LoopPc} {es : List SystemEvent}
    (h : loopStep env timeQuantum algorithm choice (s.atPoint t shm pc) t = some (shm', pc', es)) :
    Run (systemMachine env timeQuantum algorithm) (s.atPoint t shm pc) es
      (s.atPoint t shm' pc') := by
  refine Run.single (a := .loop t choice) ?_
  simp only [systemMachine]
  rw [h]
  simp only [Option.map_some, System.atPoint, Function.update_idem]

/-- A loop makes the steps of a call of the manager. -/
theorem atPoint_path (t : Loop) {p q : Shm × ManagerPc} (h : ManagerPath env p q) :
    Run (systemMachine env timeQuantum algorithm) (s.atPoint t p.1 (.managing p.2)) []
      (s.atPoint t q.1 (.managing q.2)) := by
  induction h with
  | refl => exact .nil
  | tail _ hlast ih =>
      obtain ⟨choice, hstep⟩ := hlast
      refine ih.append (atPoint_step { choice with executed := .thrown } ?_)
      cases t <;>
        simp only [loopStep, processTasksStep, scheduleStep, System.atPoint, Function.update_self,
          hstep, Option.map_some]

/-- The processor after the reply of its call. -/
def afterReply (pc : ManagerPc) : ManagerReply → LoopPc × List SystemEvent
  | .got task => (.executing task, [])
  | .thrown _ => (.whileTest, [.aborted pc])
  | _ => (.whileTest, [])

theorem processor_call {pc : ManagerPc} {reply : ManagerReply}
    (h : ComesTo env (shm, pc) shm' .idle (some reply)) :
    ∃ last, Run (systemMachine env timeQuantum algorithm)
      (s.atPoint .processor shm (.managing pc)) (afterReply last reply).2
        (s.atPoint .processor shm' (afterReply last reply).1) := by
  obtain ⟨⟨shm₁, last⟩, hpath, choice, hstep⟩ := h
  refine ⟨last, (atPoint_path .processor hpath).append
    (atPoint_step { choice with executed := .thrown } ?_)⟩
  cases reply <;>
    simp only [loopStep, processTasksStep, System.atPoint, Function.update_self, hstep,
      Option.map_some, afterReply]

theorem scheduler_call {pc : ManagerPc} {reply : ManagerReply}
    (h : ComesTo env (shm, pc) shm' .idle (some reply)) :
    ∃ last, Run (systemMachine env timeQuantum algorithm)
      (s.atPoint .scheduler shm (.managing pc)) (afterReply last reply).2
        (s.atPoint .scheduler shm' .whileTest) := by
  obtain ⟨⟨shm₁, last⟩, hpath, choice, hstep⟩ := h
  refine ⟨last, (atPoint_path .scheduler hpath).append
    (atPoint_step { choice with executed := .thrown } ?_)⟩
  cases reply <;>
    simp only [loopStep, scheduleStep, System.atPoint, Function.update_self, hstep,
      Option.map_some, afterReply]

/-- **A round of the scheduler.** -/
theorem scheduler_turn {fuel : Nat} (hrunning : s.running .scheduler = true)
    (h : scheduleRound env algorithm fuel w = .ok () w') :
    ∃ es, Run (systemMachine env timeQuantum algorithm) (s.atPoint .scheduler w.shm .whileTest) es
      (s.atPoint .scheduler w'.shm .whileTest) := by
  obtain ⟨w₁, hends, hlast⟩ := catchThrown_ended h
  obtain rfl : w₁ = w' := by
    rcases hlast with hsame | ⟨message, hsame⟩
    · exact hsame
    · cases hsame
      rfl
  obtain ⟨reply, hattempt⟩ := hends.attempt (fun _ => ManagerReply.reordered) .thrown
  obtain ⟨choice, pc, hstart, hcomes⟩ := reorderTasks_steps hattempt
  have hfirst : Run (systemMachine env timeQuantum algorithm)
      (s.atPoint .scheduler w.shm .whileTest) []
      (s.atPoint .scheduler w.shm (.managing pc)) := by
    refine atPoint_step { choice with executed := .thrown } ?_
    simp only [loopStep, scheduleStep, System.atPoint, Function.update_self, hrunning, if_true,
      hstart, Option.map_some]
  obtain ⟨last, hcall⟩ := scheduler_call hcomes
  exact ⟨_, hfirst.append hcall⟩

variable (timeQuantum algorithm s) in
/-- `execute` on a task that the processor holds, and where it leads. -/
theorem execute_turn {task after : UnixTask} {total slice : Int} {completed : Bool}
    {before during w₁ : World} (htotal : task.getTotalTime env w = .ok total before)
    (hexecute : task.execute env slice during = .ok (completed, after) w₁)
    (hshm : during.shm = w.shm) :
    ∃ es, Run (systemMachine env timeQuantum algorithm)
      (s.atPoint .processor w.shm (.executing task)) es
      (s.atPoint .processor w₁.shm
        (if total < timeQuantum || completed then .whileTest else .keepTest after)) := by
  have hspec := (execute_spec env slice task during).returned ⟨rfl, rfl, rfl⟩ hexecute
  have hsame : ({ after with id := task.id } : UnixTask) = after := by
    have hid : after.id = task.id := hspec.2.1
    rw [← hid]
  have hrun := ((LocalCode.getTotalTime task).run env htotal).1
  rw [hspec.1.shm, hshm]
  refine ⟨if total < timeQuantum || completed then [.finished task.id] else [],
    atPoint_step { w.choice env with executed := .returned completed after } ?_⟩
  simp only [loopStep, processTasksStep, System.atPoint, Function.update_self]
  rw [Option.map_eq_some_iff]
  refine ⟨total, hrun, ?_⟩
  by_cases hdone : (total < timeQuantum || completed) = true
  · simp only [hdone, if_true]
  · simp only [hdone, Bool.false_eq_true, if_false, hsame]

/-- An `execute` that throws. -/
theorem execute_thrown_turn {task : UnixTask} {total slice : Int} {message : String}
    {before during w₁ : World} (htotal : task.getTotalTime env w = .ok total before)
    (hexecute : task.execute env slice during = .error (.thrown message) w₁)
    (hshm : during.shm = w.shm) :
    Run (systemMachine env timeQuantum algorithm)
      (s.atPoint .processor w.shm (.executing task)) [.threw task.id]
      (s.atPoint .processor w₁.shm .whileTest) := by
  have hspec := (execute_spec env slice task during).stopped ⟨rfl, rfl, rfl⟩ hexecute
  have hrun := ((LocalCode.getTotalTime task).run env htotal).1
  rw [hspec.1.shm, hshm]
  refine atPoint_step { w.choice env with executed := .thrown } ?_
  simp only [loopStep, processTasksStep, System.atPoint, Function.update_self]
  rw [Option.map_eq_some_iff]
  exact ⟨total, hrun, rfl⟩

/-- The `add_task` that puts a task back. -/
theorem putBack_turn (hrunning : s.running .processor = true) {task : UnixTask}
    {reply : ManagerReply}
    (h : attempt (fun _ => ManagerReply.added) .thrown (addTask env task) w = .ok reply w') :
    ∃ es, Run (systemMachine env timeQuantum algorithm)
      (s.atPoint .processor w.shm (.keepTest task)) es
      (s.atPoint .processor w'.shm .whileTest) := by
  obtain ⟨choice, pc, hstart, hcomes⟩ := addTask_steps h
  have hfirst : Run (systemMachine env timeQuantum algorithm)
      (s.atPoint .processor w.shm (.keepTest task)) []
      (s.atPoint .processor w.shm (.managing pc)) := by
    refine atPoint_step { choice with executed := .thrown } ?_
    simp only [loopStep, processTasksStep, System.atPoint, Function.update_self, hrunning, if_true,
      hstart, Option.map_some]
  obtain ⟨last, hcall⟩ := processor_call hcomes
  have hends : (afterReply last reply).1 = .whileTest := by
    rcases attempt_ended h with ⟨⟨⟩, -, rfl⟩ | ⟨message, -, rfl⟩ <;> rfl
  rw [hends] at hcall
  exact ⟨_, hfirst.append hcall⟩

/-- A task whose total time is below the quantum. -/
theorem shortBranch_turn {task : UnixTask} {total : Int} {before during : World}
    (htotal : task.getTotalTime env w = .ok total before) (hshort : total < timeQuantum)
    (h : Ends (shortBranch env task) during w') (hshm : during.shm = w.shm) :
    ∃ es, Run (systemMachine env timeQuantum algorithm)
      (s.atPoint .processor w.shm (.executing task)) es
      (s.atPoint .processor w'.shm .whileTest) := by
  obtain ⟨again, t, hagain⟩ := getTotalTime_returns env during task
  have hrest := h.rest hagain
  cases hexecute : task.execute env again { during with totals := t } with
  | ok r w₁ =>
      obtain ⟨completed, after⟩ := r
      have hw' : w' = w₁.logged (.completed after.description) :=
        (hrest.rest hexecute).returned (logLine_apply _ w₁)
      have hturn := execute_turn timeQuantum algorithm s htotal hexecute hshm
      simp only [hshort, decide_true, Bool.true_or, if_true] at hturn
      rw [hw']
      exact hturn
  | error e w₁ =>
      obtain ⟨message, rfl⟩ := hrest.thrown (stops hexecute)
      obtain rfl := hrest.stopped (stops hexecute)
      exact ⟨_, execute_thrown_turn htotal hexecute hshm⟩

/-- A task that gets a slice. -/
theorem sliceBranch_turn (hrunning : s.running .processor = true) {task : UnixTask} {total : Int}
    {before during : World} (htotal : task.getTotalTime env w = .ok total before)
    (hlong : ¬total < timeQuantum) (h : Ends (sliceBranch env timeQuantum true task) during w')
    (hshm : during.shm = w.shm) :
    ∃ es, Run (systemMachine env timeQuantum algorithm)
      (s.atPoint .processor w.shm (.executing task)) es
      (s.atPoint .processor w'.shm .whileTest) := by
  cases hexecute : task.execute env timeQuantum during with
  | ok r w₁ =>
      obtain ⟨completed, after⟩ := r
      have hrest := h.rest hexecute
      have hturn := execute_turn timeQuantum algorithm s htotal hexecute hshm
      cases completed with
      | true =>
          have hw' : w' = w₁.logged (.completed after.description) :=
            hrest.returned (logLine_apply _ w₁)
          simp only [Bool.or_true, if_true] at hturn
          rw [hw']
          exact hturn
      | false =>
          simp only [hlong, decide_false, Bool.or_false, Bool.false_eq_true, if_false] at hturn
          obtain ⟨es, hfirst⟩ := hturn
          obtain ⟨reply, hattempt⟩ := hrest.attempt (fun _ => ManagerReply.added) .thrown
          obtain ⟨es', hlast⟩ := putBack_turn hrunning hattempt
          exact ⟨_, hfirst.append hlast⟩
  | error e w₁ =>
      obtain ⟨message, rfl⟩ := h.thrown (stops hexecute)
      obtain rfl := h.stopped (stops hexecute)
      exact ⟨_, execute_thrown_turn htotal hexecute hshm⟩

/-- The part of a round in which the processor has a task. -/
theorem processTask_turn (hrunning : s.running .processor = true) {task : UnixTask}
    (h : Ends (processTask env timeQuantum true task) w w') :
    ∃ es, Run (systemMachine env timeQuantum algorithm)
      (s.atPoint .processor w.shm (.executing task)) es
      (s.atPoint .processor w'.shm .whileTest) := by
  have hshm : (w.logged (.processing task.description)).shm = w.shm := rfl
  obtain ⟨total, t, htotal⟩ := getTotalTime_returns env (w.logged (.processing task.description))
    task
  rw [← hshm]
  by_cases hshort : total < timeQuantum
  · rw [Ends, processTask_short htotal hshort] at h
    exact shortBranch_turn htotal hshort h rfl
  · rw [Ends, processTask_sliced htotal (not_lt.mp hshort)] at h
    exact sliceBranch_turn hrunning htotal hshort h rfl

/-- **A round of the processor.** -/
theorem processor_turn (hrunning : s.running .processor = true)
    (h : processTasksRound env timeQuantum true w = .ok () w') :
    ∃ es, Run (systemMachine env timeQuantum algorithm) (s.atPoint .processor w.shm .whileTest) es
      (s.atPoint .processor w'.shm .whileTest) := by
  have hgoes : Run (systemMachine env timeQuantum algorithm)
      (s.atPoint .processor w.shm .whileTest) [] (s.atPoint .processor w.shm .countTest) := by
    refine atPoint_step { w.choice env with executed := .thrown } ?_
    simp only [loopStep, processTasksStep, System.atPoint, Function.update_self, hrunning, if_true]
  obtain ⟨w₁, hends, hlast⟩ := catchThrown_ended h
  have hshm : w₁.shm = w'.shm := by
    rcases hlast with rfl | ⟨message, hlog⟩
    · rfl
    · cases hlog
      rfl
  rw [← hshm]
  have hsize : size w = .ok w.shm.count w := rfl
  replace hends := hends.rest hsize
  by_cases hcount : 0 < w.shm.count
  · simp only [hcount, if_true] at hends
    have hstart : Run (systemMachine env timeQuantum algorithm)
        (s.atPoint .processor w.shm .countTest) []
        (s.atPoint .processor w.shm
          (.managing (.inQueue .getting QueueCall.dequeue.entry))) := by
      refine atPoint_step { w.choice env with executed := .thrown } ?_
      simp only [loopStep, processTasksStep, System.atPoint, Function.update_self, hcount, if_true]
      rfl
    have hfirst := hgoes.append hstart
    cases hget : getNextTask env w with
    | ok task w₂ =>
        obtain ⟨choice, pc, hbegins, hcomes⟩ := getNextTask_steps
          (attempt_returned (r := ManagerReply.got) (t := ManagerReply.thrown) hget)
        cases hbegins
        obtain ⟨last, hcall⟩ := processor_call hcomes
        obtain ⟨es, hrest⟩ := processTask_turn hrunning (hends.rest hget)
        exact ⟨_, (hfirst.append hcall).append hrest⟩
    | error e w₂ =>
        obtain ⟨message, rfl⟩ := hends.thrown (stops hget)
        obtain rfl := hends.stopped (stops hget)
        obtain ⟨choice, pc, hbegins, hcomes⟩ := getNextTask_steps
          (attempt_thrown (r := ManagerReply.got) (t := ManagerReply.thrown) hget)
        cases hbegins
        obtain ⟨last, hcall⟩ := processor_call hcomes
        exact ⟨_, hfirst.append hcall⟩
  · simp only [hcount, if_false] at hends
    obtain rfl : w₁ = w := hends.returned rfl
    have hsleeps : Run (systemMachine env timeQuantum algorithm)
        (s.atPoint .processor w₁.shm .countTest) []
        (s.atPoint .processor w₁.shm .whileTest) := by
      refine atPoint_step { w₁.choice env with executed := .thrown } ?_
      simp only [loopStep, processTasksStep, System.atPoint, Function.update_self, hcount, if_false]
    exact ⟨_, hgoes.append hsleeps⟩

end Loops

/-! ## Calls of the clients -/

section Clients

variable {Client : Type*} [DecidableEq Client] {env : Env} {timeQuantum : Int}
  {algorithm : SchedulingAlgorithm} {v : Service Client} {c : Client} {shm shm' : Shm}
  {w w' : World}

/-- The service with a client at this point, over this segment. -/
def Service.atPoint (v : Service Client) (c : Client) (shm : Shm) (pc : ManagerPc) :
    Service Client where
  system := { v.system with shm := shm }
  client := Function.update v.client c pc

/-- A client after the reply of its call. -/
def afterAddTask (algorithm : SchedulingAlgorithm) : ManagerReply → ManagerPc
  | .added => .testing algorithm []
  | _ => .idle

/-- A step of a client. -/
theorem client_step (choice : Choice) {pc pc' : ManagerPc}
    (h : addTaskStep env algorithm choice shm pc = some (shm', pc')) :
    Run (clientMachine Client env timeQuantum algorithm) (v.atPoint c shm pc) []
      (v.atPoint c shm' pc') := by
  refine Run.single (a := .client c choice) ?_
  simp only [clientMachine, Service.atPoint, Function.update_self, h, Option.map_some,
    Function.update_idem]

theorem client_path {p q : Shm × ManagerPc} (h : ManagerPath env p q) :
    Run (clientMachine Client env timeQuantum algorithm) (v.atPoint c p.1 p.2) []
      (v.atPoint c q.1 q.2) := by
  induction h with
  | refl => exact .nil
  | tail _ hlast ih =>
      obtain ⟨choice, hstep⟩ := hlast
      refine ih.append (client_step choice ?_)
      simp only [addTaskStep, hstep, Option.bind_some]

theorem client_call {pc : ManagerPc} {reply : ManagerReply}
    (h : ComesTo env (shm, pc) shm' .idle (some reply)) :
    Run (clientMachine Client env timeQuantum algorithm) (v.atPoint c shm pc) []
      (v.atPoint c shm' (afterAddTask algorithm reply)) := by
  obtain ⟨⟨shm₁, last⟩, hpath, choice, hstep⟩ := h
  refine (client_path hpath).append (client_step choice ?_)
  cases reply <;> simp only [addTaskStep, hstep, Option.bind_some] <;> rfl

/-- **A call of `Scheduler::add_task`.** -/
theorem addTask_turn {fuel : Nat} {task : UnixTask} (hidle : v.client c = .idle)
    (hshm : v.system.shm = w.shm) (h : Ends (Scheduler.addTask env algorithm fuel task) w w') :
    Run (clientMachine Client env timeQuantum algorithm) v [] (v.atPoint c w'.shm .idle) := by
  have hbegins : ∀ choice pc, Choice.run choice w.shm (start env (.addTask task)) = some pc →
      Run (clientMachine Client env timeQuantum algorithm) v [] (v.atPoint c w.shm pc) := by
    intro choice pc hstart
    refine Run.single (a := .addTask c task choice) ?_
    simp only [clientMachine, hidle, hshm, hstart, Option.map_some, Service.atPoint]
    rw [← hshm]
  cases hadd : TaskSheduler.addTask env task w with
  | ok u w₁ =>
      obtain ⟨choice, pc, hstart, hcomes⟩ := addTask_steps
        (attempt_returned (r := fun _ => ManagerReply.added) (t := ManagerReply.thrown) hadd)
      have hadded : Run (clientMachine Client env timeQuantum algorithm) v []
          (v.atPoint c w₁.shm (.testing algorithm [])) :=
        (hbegins choice pc hstart).append (client_call hcomes)
      obtain ⟨reply, hattempt⟩ := (h.rest hadd).attempt (fun _ => ManagerReply.reordered) .thrown
      obtain ⟨choice', pc', hstart', hcomes'⟩ := reorderTasks_steps hattempt
      cases hstart'
      have hends : afterAddTask algorithm reply = .idle := by
        rcases attempt_ended hattempt with ⟨⟨⟩, -, rfl⟩ | ⟨message, -, rfl⟩ <;> rfl
      rw [← hends]
      exact hadded.append (client_call hcomes')
  | error e w₁ =>
      obtain ⟨message, rfl⟩ := h.thrown (stops hadd)
      obtain rfl := h.stopped (stops hadd)
      obtain ⟨choice, pc, hstart, hcomes⟩ := addTask_steps
        (attempt_thrown (r := fun _ => ManagerReply.added) (t := ManagerReply.thrown) hadd)
      exact (hbegins choice pc hstart).append (client_call hcomes)

/-! ## Any sequence of turns -/

/-- What the system does, the service does. -/
theorem system_run {s s' : System} {es : List SystemEvent}
    (h : Run (systemMachine env timeQuantum algorithm) s es s') :
    Run (clientMachine Client env timeQuantum algorithm) { v with system := s } es
      { v with system := s' } := by
  induction h with
  | nil => exact .nil
  | @snoc trace es s s' a before hstep ih =>
      refine ih.snoc (a := .system a) ?_
      simp only [clientMachine, hstep, Option.map_some]

/-- Whose turn it is, and what a client adds. -/
inductive Turn (Client : Type*)
  | processor
  | scheduler
  | addTask (c : Client) (task : UnixTask)

/-- What is done in a turn.  A client that a call has thrown at may call again. -/
def Turn.program (env : Env) (timeQuantum : Int) (algorithm : SchedulingAlgorithm) (fuel : Nat) :
    Turn Client → Program World Unit
  | .processor => processTasksRound env timeQuantum true
  | .scheduler => scheduleRound env algorithm fuel
  | .addTask _ task =>
      catchThrown (Scheduler.addTask env algorithm fuel task) fun _ => return ()

/-- The service between turns: both loops run and are at their `while`, no
client is in a call. -/
structure Service.BetweenTurns (v : Service Client) : Prop where
  running : ∀ t, v.system.running t = true
  loops : ∀ t, v.system.pc t = .whileTest
  clients : ∀ c, v.client c = .idle

/-- The service over another segment. -/
def Service.withShm (v : Service Client) (shm : Shm) : Service Client :=
  { v with system := { v.system with shm := shm } }

/-- One turn. -/
theorem turn_run {fuel : Nat} {turn : Turn Client} (hbetween : v.BetweenTurns)
    (hshm : v.system.shm = w.shm)
    (h : turn.program env timeQuantum algorithm fuel w = .ok () w') :
    ∃ es, Run (clientMachine Client env timeQuantum algorithm) v es (v.withShm w'.shm) := by
  have hself : ∀ t, v.system.atPoint t w.shm .whileTest = v.system := by
    intro t
    rw [System.atPoint_self (hbetween.loops t), ← hshm]
  cases turn with
  | processor =>
      obtain ⟨es, hrun⟩ := processor_turn (hbetween.running .processor) h
      rw [hself, System.atPoint_self (hbetween.loops .processor)] at hrun
      exact ⟨es, system_run hrun⟩
  | scheduler =>
      obtain ⟨es, hrun⟩ := scheduler_turn (hbetween.running .scheduler) h
      rw [hself, System.atPoint_self (hbetween.loops .scheduler)] at hrun
      exact ⟨es, system_run hrun⟩
  | addTask c task =>
      obtain ⟨w₁, hends, hlast⟩ := catchThrown_ended h
      obtain rfl : w₁ = w' := by
        rcases hlast with hsame | ⟨message, hsame⟩
        · exact hsame
        · cases hsame
          rfl
      refine ⟨[], ?_⟩
      have hrun : Run (clientMachine Client env timeQuantum algorithm) v []
          (v.atPoint c w₁.shm .idle) := addTask_turn (hbetween.clients c) hshm hends
      rwa [Service.atPoint, ← hbetween.clients c, Function.update_eq_self] at hrun

/-- **Taking turns is one way to interleave.**  Let processor, scheduler and any
number of clients take turns in any order, each making a whole round of its loop
or a whole call of `Scheduler::add_task`, whatever is returned or thrown in it.
Then the service has a run that does the same to the segment and comes back to
where every thread was. -/
theorem turns_run {fuel : Nat} {turns : List (Turn Client)} (hbetween : v.BetweenTurns)
    (hshm : v.system.shm = w.shm)
    (h : turns.forM (Turn.program env timeQuantum algorithm fuel) w = .ok () w') :
    ∃ es, Run (clientMachine Client env timeQuantum algorithm) v es (v.withShm w'.shm) := by
  induction turns generalizing v w with
  | nil =>
      cases h
      refine ⟨[], ?_⟩
      rw [Service.withShm, ← hshm]
      exact .nil
  | cons turn rest ih =>
      obtain ⟨⟨⟩, w₁, hturn, hrest⟩ := bind_returned h
      obtain ⟨es, hfirst⟩ := turn_run hbetween hshm hturn
      have hnext : (v.withShm w₁.shm).BetweenTurns :=
        ⟨hbetween.running, hbetween.loops, hbetween.clients⟩
      obtain ⟨es', hlater⟩ := ih hnext rfl hrest
      exact ⟨es ++ es', hfirst.append hlater⟩

end Clients

/-- Both loops are running, over an empty segment of one slot. -/
def betweenTurns : Service Unit where
  system := {
    shm := Shm.create 1
    running := fun _ => true
    pc := fun _ => .whileTest
    main := [] }
  client := fun _ => .idle

/-- A client adds a task; the scheduler reorders, the processor executes the
task and puts it back. -/
def threeTurns : List (Turn Unit) :=
  [.addTask () (CpuIntensiveTask.built 7 600 0), .scheduler, .processor]

theorem turns_run_putBack :
    ∃ es shm, Run (clientMachine Unit envOne 0 (.roundRobinScheduling 0)) betweenTurns es
        (betweenTurns.withShm shm) ∧ shm.count = 1 ∧ shm.totalDequeued = 3 := by
  have hresult : (result? (threeTurns.forM (Turn.program envOne 0 (.roundRobinScheduling 0) 3))
      (World.begin (Shm.create 1))).map (fun r => (r.2.shm.count, r.2.shm.totalDequeued)) =
        some (1, 3) := by
    decide +kernel
  obtain ⟨⟨u, w'⟩, hsome, hcounts⟩ := Option.map_eq_some_iff.mp hresult
  have hcount := congrArg Prod.fst hcounts
  have htotal := congrArg Prod.snd hcounts
  obtain ⟨es, hrun⟩ := turns_run (v := betweenTurns) ⟨fun _ => rfl, fun _ => rfl, fun _ => rfl⟩ rfl
    (result?_eq_some.mp hsome)
  exact ⟨es, w'.shm, hrun, hcount, htotal⟩

end TaskSheduler
