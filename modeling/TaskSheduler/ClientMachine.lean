import TaskSheduler.SchedulerSteps
import Mathlib.Data.Fintype.Sum

/-!
# Clients of the scheduler

Any number of client threads call `Scheduler::add_task` while the processor,
the scheduler and the main thread run: `add_task` of the manager first, and
then a `reorder_tasks` of their own.  A client is an additional thread over
the same manager, so its steps are those of `managerStep`.

`ServiceMove` lists the steps (`client_move`), and `ServiceInv` says that the
segment stays consistent under all of them.
-/

namespace TaskSheduler

open Interleaving Programs

/-- One step of a client in `Scheduler::add_task`.  Once its task is added, it
goes on with `reorder_tasks`. -/
def addTaskStep (env : Env) (algorithm : SchedulingAlgorithm) (choice : Choice)
    (shm : Shm) (pc : ManagerPc) : Option (Shm × ManagerPc) :=
  (managerStep env choice shm pc).bind fun r =>
    match r.2.2 with
    | some .added =>
        (choice.run r.1 (start env (.reorderTasks algorithm))).map fun pc => (r.1, pc)
    | _ => some (r.1, r.2.1)

/-- The system and its clients. -/
structure Service (Client : Type*) where
  system : System
  client : Client → ManagerPc

/-- Before the first call. -/
def Service.begin (Client : Type*) (shm : Shm) : Service Client where
  system := System.begin shm
  client := fun _ => .idle

/-- The queue calls that the loops and the clients are in. -/
def Service.queues {Client : Type*} (s : Service Client) : Loop ⊕ Client → QueuePc :=
  Sum.elim (fun t => (s.system.pc t).manager.queue) fun c => (s.client c).queue

/-- The system takes a step, a client calls `add_task`, or a client goes on. -/
inductive ServiceAction (Client : Type*)
  | system (a : SystemAction)
  | addTask (c : Client) (task : UnixTask) (choice : Choice)
  | client (c : Client) (choice : Choice)

/-- The system with its clients. -/
def clientMachine (Client : Type*) [DecidableEq Client] (env : Env) (timeQuantum : Int)
    (algorithm : SchedulingAlgorithm) :
    Machine (Service Client) (ServiceAction Client) SystemEvent where
  step s
    | .system a =>
        ((systemMachine env timeQuantum algorithm).step s.system a).map fun r =>
          ({ s with system := r.1 }, r.2)
    | .addTask c task choice =>
        match s.client c with
        | .idle => (choice.run s.system.shm (start env (.addTask task))).map fun pc =>
            ({ s with client := Function.update s.client c pc }, [])
        | _ => none
    | .client c choice =>
        (addTaskStep env algorithm choice s.system.shm (s.client c)).map fun r =>
          ({ system := { s.system with shm := r.1 }
             client := Function.update s.client c r.2 }, [])

section Moves

variable {Client : Type*} [DecidableEq Client] {env : Env} {timeQuantum : Int}
  {algorithm : SchedulingAlgorithm} {s s' : Service Client} {a : ServiceAction Client}
  {es : List SystemEvent}

/-- Everything one step can do. -/
inductive ServiceMove (env : Env) (algorithm : SchedulingAlgorithm) (s : Service Client) :
    ServiceAction Client → Service Client → List SystemEvent → Prop
  | system {a : SystemAction} {system' : System} {es : List SystemEvent}
      (hmove : SystemMove env s.system a system' es) :
      ServiceMove env algorithm s (.system a) { s with system := system' } es
  | calls {c : Client} {task : UnixTask} {choice : Choice} {st : SharedTask}
      (hidle : s.client c = .idle) (hkeeps : Encodes task st) :
      ServiceMove env algorithm s (.addTask c task choice)
        { s with client :=
            Function.update s.client c (.inQueue (.adding task) (.enqWaitSlot st)) } []
  | goesOn {c : Client} {choice : Choice} {shm' : Shm} {pc' : ManagerPc}
      {reply : Option ManagerReply}
      (hmove : ManagerMove env choice.fail s.system.shm (s.client c) shm' pc' reply)
      (hreply : reply ≠ some .added) :
      ServiceMove env algorithm s (.client c choice)
        { system := { s.system with shm := shm' }
          client := Function.update s.client c pc' } []
  | reorders {c : Client} {choice : Choice} {shm' : Shm} {pc' : ManagerPc}
      (hmove : ManagerMove env choice.fail s.system.shm (s.client c) shm' pc' (some .added)) :
      ServiceMove env algorithm s (.client c choice)
        { system := { s.system with shm := shm' }
          client := Function.update s.client c (.testing algorithm []) } []

/-- **Every step is on the list.** -/
theorem client_move (hfits : ∀ t : Loop, t.Fits (s.system.pc t))
    (h : (clientMachine Client env timeQuantum algorithm).step s a = some (s', es)) :
    ServiceMove env algorithm s a s' es := by
  cases a with
  | system a =>
      simp only [clientMachine, Option.map_eq_some_iff, Prod.mk.injEq] at h
      obtain ⟨⟨system', es₁⟩, hstep, rfl, rfl⟩ := h
      exact .system (system_move hfits hstep)
  | addTask c task choice =>
      simp only [clientMachine] at h
      split at h
      case h_2 => cases h
      case h_1 hidle =>
        simp only [Option.map_eq_some_iff, Prod.mk.injEq] at h
        obtain ⟨pc, hstart, rfl, rfl⟩ := h
        cases start_begins hstart with
        | addTask hkeeps => exact .calls hidle hkeeps
  | client c choice =>
      simp only [clientMachine, addTaskStep, Option.map_eq_some_iff,
        Option.bind_eq_some_iff, Prod.mk.injEq] at h
      obtain ⟨⟨shm', pc'⟩, ⟨⟨shm₁, pc₁, reply⟩, hstep, hgoes⟩, rfl, rfl⟩ := h
      have hmove := managerStep_move hstep
      cases reply with
      | none =>
          cases hgoes
          exact .goesOn hmove (by simp)
      | some reply =>
          cases reply with
          | added =>
              simp only [Option.map_eq_some_iff, Prod.mk.injEq] at hgoes
              obtain ⟨pc₂, hstart, rfl, rfl⟩ := hgoes
              cases start_begins hstart
              exact .reorders hmove
          | _ =>
              cases hgoes
              exact .goesOn hmove (by simp)

/-- The queue call that a step goes on with. -/
def ServiceAction.queue (s : Service Client) : ServiceAction Client → QueuePc
  | .system (.loop t _) => (s.system.pc t).manager.queue
  | .client c _ => (s.client c).queue
  | _ => .idle

omit [DecidableEq Client] in
/-- A step of the main thread goes on with none. -/
theorem ServiceAction.queue_quiet (s : Service Client) {a : SystemAction}
    (ha : ∀ t choice, a ≠ .loop t choice) : (ServiceAction.system a).queue s = .idle := by
  cases a with
  | loop t choice => exact absurd rfl (ha t choice)
  | _ => rfl

/-- A loop moves. -/
theorem Service.queues_loop (s : Service Client) (t : Loop) (pc' : LoopPc) (shm' : Shm) :
    Service.queues { s with system :=
        { s.system with shm := shm', pc := Function.update s.system.pc t pc' } } =
      Function.update s.queues (.inl t) pc'.manager.queue := by
  unfold Service.queues
  rw [Sum.update_elim_inl]
  congr 1
  funext u
  exact Function.apply_update (fun _ pc => pc.manager.queue) s.system.pc t pc' u

/-- A client moves. -/
theorem Service.queues_client (s : Service Client) (c : Client) (pc' : ManagerPc) (shm' : Shm) :
    Service.queues { system := { s.system with shm := shm' }
                     client := Function.update s.client c pc' } =
      Function.update s.queues (.inr c) pc'.queue := by
  unfold Service.queues
  rw [Sum.update_elim_inr]
  congr 1
  funext u
  exact Function.apply_update (fun _ pc => pc.queue) s.client c pc' u

variable [Fintype Client] {q : List SharedTask}

/-- What every run keeps, with `q` the counted queue. -/
structure ServiceInv (env : Env) (s : Service Client) (q : List SharedTask) : Prop where
  counted : CountedInv env.capacity q ⟨s.system.shm, s.queues⟩
  fits : ∀ t : Loop, t.Fits (s.system.pc t)

omit [DecidableEq Client] in
theorem serviceInv_begin {shm : Shm} (h : Quiescent env.capacity shm q) :
    ServiceInv env (Service.begin Client shm) q := by
  refine ⟨h.countedInv fun u => ?_, fun _ => trivial⟩
  cases u <;> rfl

/-- **Every step keeps the invariant** and changes the counted queue by the
effect of its queue call. -/
theorem serviceInv_step (hinv : ServiceInv env s q) (h : ServiceMove env algorithm s a s' es) :
    ServiceInv env s' ((a.queue s).effect q) := by
  cases h with
  | @system a system' es hmove =>
      cases hmove with
      | @quiet a system' value ha hshm hpc =>
          have hsame : Service.queues { s with system := system' } = s.queues := by
            funext u
            cases u with
            | inr c => rfl
            | inl t => exact congrArg ManagerPc.queue (LoopPc.quiet (hpc t)).1
          rw [ServiceAction.queue_quiet s ha]
          refine ⟨?_, fun t => (LoopPc.quiet (hpc t)).2.2 t (hinv.fits t)⟩
          simp only [hshm, hsame]
          exact hinv.counted.flagged value
      | @loop t choice shm' pc' es hmove =>
          constructor
          · rw [Service.queues_loop]
            exact hmove.countedInv (u := .inl t) rfl hinv.counted
          · rw [Function.forall_update_iff s.system.pc fun (u : Loop) pc => u.Fits pc]
            exact ⟨hmove.fits (hinv.fits t), fun u _ => hinv.fits u⟩
  | @calls c task choice st hidle hkeeps =>
      refine ⟨?_, hinv.fits⟩
      have hqueue : s.queues (.inr c) = .idle := by
        simp only [Service.queues, Sum.elim_inr, hidle]
        rfl
      have hstarts := hinv.counted.starts hqueue (Begins.addTask hkeeps).starts.1
      rw [← Service.queues_client s c _ s.system.shm] at hstarts
      exact hstarts
  | @goesOn c choice shm' pc' reply hmove hreply =>
      refine ⟨?_, hinv.fits⟩
      rw [Service.queues_client]
      exact hmove.countedInv (t := .inr c) rfl hinv.counted
  | @reorders c choice shm' pc' hmove =>
      refine ⟨?_, hinv.fits⟩
      have hidle : pc' = .idle := hmove.replied
      have hkept := hmove.countedInv (t := .inr c) rfl hinv.counted
      rw [hidle] at hkept
      rw [Service.queues_client]
      exact hkept

end Moves

end TaskSheduler
