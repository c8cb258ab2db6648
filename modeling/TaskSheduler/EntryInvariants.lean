import TaskSheduler.ServiceLedger
import TaskSheduler.TaskHistory

/-!
# What holds of every task in the service

A property of entries and a property of tasks that the conversions, the priority
updates and `execute` carry into each other hold of everything in the service
once they hold of what is put in: of every slot, of every entry and task in the
hands of a thread, in every interleaving (`Everywhere`, `everywhere_step`).

It takes the raw steps rather than `ManagerMove`, which forgets the class that a
task is rebuilt with.
-/

namespace TaskSheduler

open Interleaving Programs

/-- How an `execute` of the task may end. -/
def Execution.Possible (env : Env) (task : UnixTask) : Execution → Prop
  | .returned completed after =>
      ∃ quantum w w', task.execute env quantum w = .ok (completed, after) w'
  | .thrown => ∃ quantum w message w', task.execute env quantum w = .error (.thrown message) w'

/-- The entries that a thread in a queue call holds. -/
def QueuePc.entries : QueuePc → List SharedTask
  | .enqWaitSlot task | .enqWaitMutex task | .enqGiveBackSlot task | .enqLoadRear task
  | .enqStoreTask task _ | .enqStoreRear task _ | .enqAddCount task | .enqAddTotal task
  | .enqPostMutex task => [task]
  | .deqStoreFront _ task | .deqSubCount task | .deqAddTotal task | .deqPostMutex task
  | .deqPostSlot task => [task]
  | _ => []

/-- The tasks that a thread keeps while it is in a queue call. -/
def Purpose.tasks : Purpose → List UnixTask
  | .getting => []
  | .adding task | .printing task => [task]
  | .draining _ tasks => tasks
  | .refilling _ rest | .reprinting _ rest => rest

section Properties

variable (P : SharedTask → Prop) (Q : UnixTask → Prop)

/-- The two properties are carried into each other by everything that the code
does between entries and tasks.  A task that `execute` has completed goes
nowhere. -/
structure Closed (env : Env) : Prop where
  encoded : ∀ w task dst, Q task → P (encoded env w task dst)
  decoded : ∀ st arrival adjusted, P st → Q (decoded env.float st arrival adjusted)
  adjusted : ∀ time task, Q task → Q (task.adjustedAt env.float time)
  executed : ∀ quantum task w after w', Q task →
    task.execute env quantum w = .ok (false, after) w' → Q after

/-- All that a thread in a call of the manager holds. -/
def ManagerPc.Holds : ManagerPc → Prop
  | .idle => True
  | .testing _ tasks => ∀ task ∈ tasks, Q task
  | .inQueue purpose pc => (∀ task ∈ purpose.tasks, Q task) ∧ ∀ st ∈ pc.entries, P st

/-- All that a loop holds. -/
def LoopPc.Holds : LoopPc → Prop
  | .managing pc => pc.Holds P Q
  | .executing task | .keepTest task => Q task
  | _ => True

/-- All that there is in the service. -/
structure Everywhere {Client : Type*} (s : Service Client) : Prop where
  slots : ∀ i, P (s.system.shm.tasks i)
  loops : ∀ t, (s.system.pc t).Holds P Q
  clients : ∀ c, (s.client c).Holds P Q

/-- A client adds a task with the property, and an `execute` ends as one of the
task may end. -/
def ServiceAction.Admissible {Client : Type*} (env : Env) (s : Service Client) :
    ServiceAction Client → Prop
  | .addTask _ task _ => Q task
  | .system (.loop .processor choice) =>
      ∀ task, s.system.pc .processor = .executing task → choice.executed.Possible env task
  | _ => True

end Properties

variable {P : SharedTask → Prop} {Q : UnixTask → Prop} {env : Env}

/-! ## One step -/

/-- A step of a queue call moves entries between the slots and the threads. -/
theorem queueStep_holds {capacity : Nat} {shm shm' : Shm} {pc pc' : QueuePc} {fail : Bool}
    {notes : List Note} (hslots : ∀ i, P (shm.tasks i)) (hheld : ∀ st ∈ pc.entries, P st)
    (h : queueStep capacity shm pc fail = some (shm', pc', notes)) :
    (∀ i, P (shm'.tasks i)) ∧ ∀ st ∈ pc'.entries, P st := by
  have hnone : ∀ st ∈ QueuePc.idle.entries, P st := fun _ hmem => absurd hmem List.not_mem_nil
  cases queueStep_move h with
  | @enqStoreTask task rear =>
      refine ⟨fun i => ?_, hheld⟩
      by_cases hi : i = rear
      · subst hi
        simpa only [Shm.setTask, Function.update_self] using hheld task (List.mem_singleton_self _)
      · simpa only [Shm.setTask, Function.update_of_ne hi] using hslots i
  | @deqLoadTask front =>
      refine ⟨hslots, fun st hmem => ?_⟩
      rw [List.mem_singleton.mp hmem]
      exact hslots front
  | _ => exact ⟨hslots, by first | exact hheld | exact hnone⟩

variable {choice : Choice} {shm shm' : Shm} {pc pc' : ManagerPc} {reply : Option ManagerReply}
  {algorithm : SchedulingAlgorithm}

/-- Entering `add_task` makes an entry of the task. -/
theorem enter_holds (hclosed : Closed P Q env) {purpose : Purpose} {task : UnixTask}
    {w w' : World} (hkept : ∀ task ∈ purpose.tasks, Q task) (htask : Q task)
    (h : enter env purpose task w = .ok pc w') : pc.Holds P Q := by
  obtain ⟨r, t, hencode, -⟩ := convertToSharedTask_apply env { w with locals := w.locals + 1 } task
    (env.uninitialised w.locals)
  rw [enter, returns (anySharedTask_apply env w), returns hencode] at h
  cases h
  refine ⟨hkept, fun st hmem => ?_⟩
  rw [List.mem_singleton.mp hmem]
  exact hclosed.encoded _ task _ htask

/-- So does the refill loop. -/
theorem refill_holds (hclosed : Closed P Q env) {tasks : List UnixTask} {w w' : World}
    (htasks : ∀ task ∈ tasks, Q task)
    (h : refill env algorithm tasks w = .ok (pc, reply) w') :
    pc.Holds P Q ∧ ∀ task, reply ≠ some (.got task) := by
  cases tasks with
  | nil =>
      cases h
      exact ⟨trivial, fun _ hne => by cases hne⟩
  | cons task rest =>
      obtain ⟨pc₁, w₁, henter, h⟩ := bind_returned h
      cases h
      obtain ⟨htask, hrest⟩ := List.forall_mem_cons.mp htasks
      have hkept : ∀ task ∈ (Purpose.refilling algorithm rest).tasks, Q task := hrest
      exact ⟨enter_holds hclosed hkept htask henter, fun _ hne => by cases hne⟩

theorem updatedFrom_holds (hclosed : Closed P Q env) {tasks : List UnixTask}
    (h : ∀ task ∈ tasks, Q task) (r : Nat) :
    ∀ task ∈ updatedFrom env algorithm r tasks, Q task := by
  cases algorithm with
  | roundRobinScheduling i => exact h
  | priorityScheduling =>
      simp only [updatedFrom]
      induction tasks generalizing r with
      | nil => exact h
      | cons task rest ih =>
          obtain ⟨htask, hrest⟩ := List.forall_mem_cons.mp h
          exact List.forall_mem_cons.mpr ⟨hclosed.adjusted _ task htask, ih hrest (r + 1)⟩

/-- An entry with a valid priority is decoded, any other throws. -/
theorem convertFromSharedTask_holds (hclosed : Closed P Q env) {st : SharedTask} {task : UnixTask}
    {w w' : World} (hst : P st) (h : convertFromSharedTask env st w = .ok task w') : Q task := by
  cases hvalid : validPriority st.priority with
  | true =>
      rw [convertFromSharedTask_apply hvalid] at h
      cases h
      exact hclosed.decoded st _ _ hst
  | false =>
      rw [convertFromSharedTask_throws hvalid] at h
      cases h

/-- What follows a queue call. -/
theorem resume_holds (hclosed : Closed P Q env) {purpose : Purpose} {ended : Reply}
    {w w' : World} (hkept : ∀ task ∈ purpose.tasks, Q task)
    (hended : ∀ st, ended = .dequeued st → P st)
    (h : resume env purpose ended w = .ok (pc, reply) w') :
    pc.Holds P Q ∧ ∀ task, reply = some (.got task) → Q task := by
  have hprints : ∀ purpose : Purpose, (∀ task ∈ purpose.tasks, Q task) →
      (ManagerPc.inQueue purpose QueueCall.print.entry).Holds P Q :=
    fun purpose hkept => ⟨hkept, fun _ hmem => absurd hmem List.not_mem_nil⟩
  cases ended with
  | thrown message =>
      have hraise : resume env purpose (.thrown message) = raise message := by
        cases purpose <;> rfl
      rw [hraise] at h
      cases h
  | dequeued st =>
      cases purpose with
      | getting =>
          obtain ⟨task, w₁, hdecode, h⟩ := bind_returned h
          cases h
          refine ⟨trivial, fun task' heq => ?_⟩
          cases heq
          exact convertFromSharedTask_holds hclosed (hended st rfl) hdecode
      | draining algorithm tasks =>
          obtain ⟨task, w₁, hdecode, h⟩ := bind_returned h
          cases h
          refine ⟨fun task' hmem => ?_, fun _ heq => by cases heq⟩
          rcases List.mem_append.mp hmem with hbefore | hlast
          · exact hkept task' hbefore
          · rw [List.mem_singleton.mp hlast]
            exact convertFromSharedTask_holds hclosed (hended st rfl) hdecode
      | _ => cases h
  | enqueued =>
      cases purpose with
      | adding task =>
          cases h
          exact ⟨hprints (.printing task) hkept, fun _ heq => by cases heq⟩
      | refilling algorithm rest =>
          cases h
          exact ⟨hprints (.reprinting algorithm rest) hkept, fun _ heq => by cases heq⟩
      | _ => cases h
  | printed =>
      cases purpose with
      | printing task =>
          cases h
          exact ⟨trivial, fun _ heq => by cases heq⟩
      | reprinting algorithm rest =>
          obtain ⟨hholds, hnot⟩ := refill_holds hclosed hkept h
          exact ⟨hholds, fun task heq => absurd heq (hnot task)⟩
      | _ => cases h

/-- A step of a call of the manager. -/
theorem managerStep_holds (hclosed : Closed P Q env) (hslots : ∀ i, P (shm.tasks i))
    (hpc : pc.Holds P Q) (h : managerStep env choice shm pc = some (shm', pc', reply)) :
    (∀ i, P (shm'.tasks i)) ∧ pc'.Holds P Q ∧ ∀ task, reply = some (.got task) → Q task := by
  cases pc with
  | idle => cases h
  | testing algorithm tasks =>
      simp only [managerStep] at h
      split at h
      · rw [Option.map_eq_some_iff] at h
        obtain ⟨⟨pc₁, reply₁⟩, hrun, heq⟩ := h
        cases heq
        obtain ⟨w, w', hx⟩ := Choice.run_eq hrun
        rw [returns (update_returns env algorithm tasks w)] at hx
        obtain ⟨hholds, hnot⟩ := refill_holds hclosed (updatedFrom_holds hclosed hpc _) hx
        exact ⟨hslots, hholds, fun task heq => absurd heq (hnot task)⟩
      · cases h
        exact ⟨hslots, ⟨hpc, fun _ hmem => absurd hmem List.not_mem_nil⟩, fun _ heq => by cases heq⟩
  | inQueue purpose pc =>
      obtain ⟨hkept, hheld⟩ := hpc
      simp only [managerStep, Option.bind_eq_some_iff] at h
      obtain ⟨⟨shm₁, pc₁, notes⟩, hstep, h⟩ := h
      obtain ⟨hslots', hheld'⟩ := queueStep_holds hslots hheld hstep
      rcases queueStep_reply hstep with ⟨hnone, -⟩ | ⟨ended, hsome, rfl, hends⟩
      · simp only [hnone, Option.some.injEq, Prod.mk.injEq] at h
        obtain ⟨rfl, rfl, rfl⟩ := h
        exact ⟨hslots', ⟨hkept, hheld'⟩, fun _ heq => by cases heq⟩
      · simp only [hsome, Option.map_eq_some_iff] at h
        obtain ⟨⟨pc₂, reply₂⟩, hrun, heq⟩ := h
        cases heq
        obtain ⟨w, w', hx⟩ := Choice.run_eq hrun
        have hended : ∀ st, ended = .dequeued st → P st := by
          intro st heq
          subst heq
          cases hends
          exact hheld st (List.mem_singleton_self _)
        refine ⟨hslots', ?_⟩
        cases hresume : resume env purpose ended w with
        | ok r w₁ =>
            rw [orThrown, catchThrown_returns hresume] at hx
            cases hx
            exact resume_holds hclosed hkept hended hresume
        | error e w₁ =>
            cases e with
            | thrown message =>
                rw [orThrown, catchThrown_thrown hresume] at hx
                cases hx
                exact ⟨trivial, fun _ heq => by cases heq⟩
            | blocked | outOfFuel =>
                simp only [orThrown, catchThrown, hresume] at hx
                cases hx

/-- A call of the manager begins. -/
theorem start_holds (hclosed : Closed P Q env) {call : ManagerCall}
    (hcall : ∀ task, call = .addTask task → Q task)
    (h : choice.run shm (start env call) = some pc) : pc.Holds P Q := by
  obtain ⟨w, w', hrun⟩ := Choice.run_eq h
  cases call with
  | getNextTask =>
      cases hrun
      exact ⟨fun _ hmem => absurd hmem List.not_mem_nil, fun _ hmem => absurd hmem List.not_mem_nil⟩
  | addTask task =>
      have htask := hcall task rfl
      have hkept : ∀ task' ∈ (Purpose.adding task).tasks, Q task' :=
        fun _ hmem => List.mem_singleton.mp hmem ▸ htask
      exact enter_holds hclosed hkept htask hrun
  | reorderTasks algorithm =>
      cases hrun
      exact fun _ hmem => absurd hmem List.not_mem_nil

/-! ## Every run -/

section Loops

variable {timeQuantum : Int} {running : Bool} {loopChoice : LoopChoice} {pc pc' : LoopPc}
  {es : List SystemEvent}

theorem processTasksStep_holds (hclosed : Closed P Q env) (hslots : ∀ i, P (shm.tasks i))
    (hpc : pc.Holds P Q)
    (hpossible : ∀ task, pc = .executing task → loopChoice.executed.Possible env task)
    (h : processTasksStep env timeQuantum loopChoice shm running pc = some (shm', pc', es)) :
    (∀ i, P (shm'.tasks i)) ∧ pc'.Holds P Q := by
  cases pc with
  | whileTest =>
      cases h
      refine ⟨hslots, ?_⟩
      cases running <;> trivial
  | countTest =>
      simp only [processTasksStep] at h
      split at h
      · obtain ⟨pc₁, hstart, heq⟩ := Option.map_eq_some_iff.mp h
        cases heq
        exact ⟨hslots, start_holds hclosed (fun _ heq => by cases heq) hstart⟩
      · cases h
        exact ⟨hslots, trivial⟩
  | managing pc =>
      obtain ⟨⟨shm₁, pc₁, reply⟩, hstep, heq⟩ := Option.map_eq_some_iff.mp h
      obtain ⟨hslots', hpc', hgot⟩ := managerStep_holds hclosed hslots hpc hstep
      cases reply with
      | none =>
          cases heq
          exact ⟨hslots', hpc'⟩
      | some reply =>
          cases reply with
          | got task =>
              cases heq
              exact ⟨hslots', hgot task rfl⟩
          | added | reordered | thrown message =>
              cases heq
              exact ⟨hslots', trivial⟩
  | executing task =>
      obtain ⟨total, -, heq⟩ := Option.map_eq_some_iff.mp h
      have hends := hpossible task rfl
      cases hexecuted : loopChoice.executed with
      | thrown =>
          rw [hexecuted] at heq
          cases heq
          exact ⟨hslots, trivial⟩
      | returned completed after =>
          rw [hexecuted] at heq hends
          obtain ⟨quantum, w, w', hexecute⟩ := hends
          have hsame : ({ after with id := task.id } : UnixTask) = after := by
            rw [← (execute_keeps hexecute).id]
          simp only at heq
          split at heq
          case isTrue =>
            cases heq
            exact ⟨hslots, trivial⟩
          case isFalse hkeeps =>
            cases heq
            rw [hsame]
            obtain rfl : completed = false := by
              cases completed with
              | false => rfl
              | true => exact absurd (Bool.or_true _) hkeeps
            exact ⟨hslots, hclosed.executed quantum task w after w' hpc hexecute⟩
  | keepTest task =>
      simp only [processTasksStep] at h
      split at h
      · obtain ⟨pc₁, hstart, heq⟩ := Option.map_eq_some_iff.mp h
        cases heq
        refine ⟨hslots, start_holds hclosed (fun task' heq => ?_) hstart⟩
        cases heq
        exact hpc
      · cases h
        exact ⟨hslots, trivial⟩
  | off | done => cases h

theorem scheduleStep_holds (hclosed : Closed P Q env) (hslots : ∀ i, P (shm.tasks i))
    (hpc : pc.Holds P Q)
    (h : scheduleStep env algorithm loopChoice shm running pc = some (shm', pc', es)) :
    (∀ i, P (shm'.tasks i)) ∧ pc'.Holds P Q := by
  cases pc with
  | whileTest =>
      simp only [scheduleStep] at h
      split at h
      · obtain ⟨pc₁, hstart, heq⟩ := Option.map_eq_some_iff.mp h
        cases heq
        exact ⟨hslots, start_holds hclosed (fun _ heq => by cases heq) hstart⟩
      · cases h
        exact ⟨hslots, trivial⟩
  | managing pc =>
      obtain ⟨⟨shm₁, pc₁, reply⟩, hstep, heq⟩ := Option.map_eq_some_iff.mp h
      obtain ⟨hslots', hpc', -⟩ := managerStep_holds hclosed hslots hpc hstep
      cases reply with
      | none =>
          cases heq
          exact ⟨hslots', hpc'⟩
      | some reply =>
          cases reply <;> cases heq <;> exact ⟨hslots', trivial⟩
  | off => cases h
  | countTest => cases h
  | executing task => cases h
  | keepTest task => cases h
  | done => cases h

end Loops

section Services

variable {Client : Type*} [DecidableEq Client] {timeQuantum : Int} {s s' : Service Client}
  {a : ServiceAction Client} {es : List SystemEvent}

omit [DecidableEq Client] in
/-- Everything holds at rest, but for the slots. -/
theorem LoopPc.holds_resting {pc : LoopPc} (h : pc.resting = true) : pc.Holds P Q := by
  cases pc <;> trivial

/-- A client goes on. -/
theorem Everywhere.client (h : Everywhere P Q s) {c : Client} {pc : ManagerPc}
    (hpc : pc.Holds P Q) :
    Everywhere P Q { s with client := Function.update s.client c pc } :=
  ⟨h.slots, h.loops,
    (Function.forall_update_iff s.client fun _ pc => pc.Holds P Q).mpr
      ⟨hpc, fun d _ => h.clients d⟩⟩

/-- **What holds everywhere holds after every admissible step.** -/
theorem everywhere_step (hclosed : Closed P Q env) (h : Everywhere P Q s)
    (hfits : ∀ t : Loop, t.Fits (s.system.pc t)) (hadmissible : a.Admissible Q env s)
    (hstep : (clientMachine Client env timeQuantum algorithm).step s a = some (s', es)) :
    Everywhere P Q s' := by
  cases a with
  | system a =>
      simp only [clientMachine, Option.map_eq_some_iff, Prod.mk.injEq] at hstep
      obtain ⟨⟨system', es₁⟩, hsystem, rfl, rfl⟩ := hstep
      cases a with
      | call call | main =>
          cases system_move hfits hsystem with
          | quiet ha hshm hpc =>
              refine ⟨fun i => ?_, fun t => ?_, h.clients⟩
              · rw [hshm]
                exact h.slots i
              · rcases hpc t with hsame | ⟨-, hrests⟩
                · rw [hsame]
                  exact h.loops t
                · exact LoopPc.holds_resting hrests
      | loop t choice =>
          simp only [systemMachine, Option.map_eq_some_iff, Prod.mk.injEq] at hsystem
          obtain ⟨⟨shm', pc', es₂⟩, hloop, rfl, rfl⟩ := hsystem
          have hpart : (∀ i, P (shm'.tasks i)) ∧ pc'.Holds P Q := by
            cases t with
            | processor =>
                exact processTasksStep_holds hclosed h.slots (h.loops _) hadmissible hloop
            | scheduler => exact scheduleStep_holds hclosed h.slots (h.loops _) hloop
          refine ⟨hpart.1, fun u => ?_, h.clients⟩
          by_cases hut : u = t
          · subst hut
            simpa only [Function.update_self] using hpart.2
          · simpa only [Function.update_of_ne hut] using h.loops u
  | addTask c task choice =>
      simp only [clientMachine] at hstep
      split at hstep
      case h_2 => cases hstep
      case h_1 hidle =>
        simp only [Option.map_eq_some_iff, Prod.mk.injEq] at hstep
        obtain ⟨pc, hstart, rfl, rfl⟩ := hstep
        have hpc := start_holds hclosed (fun task' heq => by cases heq; exact hadmissible) hstart
        exact h.client hpc
  | client c choice =>
      simp only [clientMachine, Option.map_eq_some_iff, Prod.mk.injEq] at hstep
      obtain ⟨⟨shm', pc'⟩, hone, rfl, rfl⟩ := hstep
      obtain ⟨middle, reply, hmanager, hgoes⟩ := addTaskStep_move hone
      obtain ⟨hslots', hpc', -⟩ := managerStep_holds hclosed h.slots (h.clients c) hmanager
      have hnext : (pc' : ManagerPc).Holds P Q := by
        rcases hgoes with ⟨-, rfl⟩ | ⟨-, rfl⟩
        · exact fun _ hmem => absurd hmem List.not_mem_nil
        · assumption
      exact ⟨hslots', h.loops, (h.client hnext).clients⟩

omit [DecidableEq Client] in
/-- At first everything is in the slots. -/
theorem everywhere_begin {shm : Shm} (hslots : ∀ i, P (shm.tasks i)) :
    Everywhere P Q (Service.begin Client shm) :=
  ⟨hslots, fun _ => trivial, fun _ => trivial⟩

end Services

end TaskSheduler
