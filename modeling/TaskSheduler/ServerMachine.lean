import TaskSheduler.ClientMachine
import TaskSheduler.Server

/-!
# The running server

`main` starts the scheduler, adds two tasks of its own, and then accepts
clients; each handler is a thread beside the two loops.  `main` and the
handlers are the callers of `Scheduler::add_task` in the machine of the
previous module, `main` being the caller `none`.  The events are the entries
that `add_task` writes for them.

`ServerMove` lists what a step adds to the events.
-/

namespace TaskSheduler

open Programs Interleaving

/-- The statement of `main` that comes next. -/
inductive MainStatement
  | start
  | firstTask
  | secondTask
  | startServer
deriving DecidableEq

/-- What a handler meets: the bytes sent to it, how they arrive, and what lies
behind its buffer. -/
structure Request where
  sent : List UInt8
  delivery : Delivery sent
  beyond : List UInt8

/-- The command string the handler builds. -/
def Request.text (request : Request) : List UInt8 :=
  Server.commandString (Server.buffer request.delivery) request.beyond

/-- The entry written for a task of `main`, or for a command. -/
inductive ServerEvent
  | fromMain (st : SharedTask)
  | fromClient (command : Command) (st : SharedTask)

/-- The threads, and where `main` is. -/
structure ServerState (Client : Type*) where
  service : Service (Option Client)
  main : MainStatement

/-- Before `main`. -/
def ServerState.begin (Client : Type*) (shm : Shm) : ServerState Client where
  service := Service.begin (Option Client) shm
  main := .start

/-- A thread goes on, `main` comes to its next statement, or a request is
handled. -/
inductive ServerAction (Client : Type*)
  | service (a : ServiceAction (Option Client))
  | main (choice : Choice)
  | handle (c : Client) (request : Request) (choice : Choice)

/-- Make a task and begin to add it. -/
def submit (env : Env) (make : Program World UnixTask) : Program World ManagerPc := do
  let task ← make
  start env (.addTask task)

/-- The entry of an `add_task` that has just written it. -/
def ManagerPc.entry? : ManagerPc → Option SharedTask
  | .inQueue _ (.enqWaitSlot st) => some st
  | _ => none

variable {Client : Type*} [DecidableEq Client]

/-- A caller that is idle makes a task and begins to add it. -/
def Service.submits (s : Service (Option Client)) (env : Env) (c : Option Client)
    (make : Program World UnixTask) (choice : Choice) :
    Option (Service (Option Client) × SharedTask) :=
  match s.client c with
  | .idle =>
      (choice.run s.system.shm (submit env make)).bind fun pc =>
        pc.entry?.map fun st => ({ s with client := Function.update s.client c pc }, st)
  | _ => none

/-- The next statement of `main`. -/
def mainStatement (env : Env) (choice : Choice) (s : ServerState Client) :
    Option (ServerState Client × List ServerEvent) :=
  match s.main with
  | .start =>
      if s.service.system.main.isEmpty then
        some ({
          service := { s.service with
            system := { s.service.system with main := MainCall.schedulerStart.ops } }
          main := .firstTask }, [])
      else none
  | .firstTask =>
      if s.service.system.main.isEmpty then
        (s.service.submits env none (CpuIntensiveTask.construct env 1 1000) choice).map fun r =>
          ({ service := r.1, main := .secondTask }, [.fromMain r.2])
      else none
  | .secondTask =>
      (s.service.submits env none (IoBoundTask.construct env 2 (textBytes "output.txt") 10)
          choice).map fun r =>
        ({ service := r.1, main := .startServer }, [.fromMain r.2])
  | .startServer => none

/-- `handle_client` up to its `enqueue`, once `main` accepts clients. -/
def handleClient (env : Env) (c : Client) (request : Request) (choice : Choice)
    (s : ServerState Client) : Option (ServerState Client × List ServerEvent) :=
  match s.main, s.service.client none, Server.acceptedCommand request.text with
  | .startServer, .idle, some (command, value) =>
      (s.service.submits env (some c) (Server.commandTask env command.operation value)
          choice).map fun r =>
        ({ s with service := r.1 }, [.fromClient command r.2])
  | .startServer, .idle, none => some (s, [])
  | _, _, _ => none

/-- The server. -/
def serverMachine (Client : Type*) [DecidableEq Client] (env : Env) (timeQuantum : Int)
    (algorithm : SchedulingAlgorithm) :
    Machine (ServerState Client) (ServerAction Client) ServerEvent where
  step s
    -- These two are done by the statements of `main` and by the handlers.
    | .service (.addTask _ _ _) | .service (.system (.call _)) => none
    | .service a =>
        ((clientMachine (Option Client) env timeQuantum algorithm).step s.service a).map fun r =>
          ({ s with service := r.1 }, [])
    | .main choice => mainStatement env choice s
    | .handle c request choice => handleClient env c request choice s

/-! ## What a step writes -/

/-- A task of the class `UnixTask` that has not been executed. -/
structure Made (id : Int32) (description : List UInt8) (task : UnixTask) : Prop where
  id : task.id = id
  description : task.description = description
  completed : task.completed = false
  kind : task.kind = .unixTask

/-- What an entry keeps of the operation of its command. -/
structure EntryOf (command : Command) (st : SharedTask) : Prop where
  id : Server.operations.lookup command.operation = some st.id
  description : st.description = storedDescription command.operation
  completed : st.completed = false
  type : st.type = TaskType.unixTask.value

/-- What a step does to `main` and which entries it writes. -/
inductive ServerMove : MainStatement → MainStatement → List ServerEvent → Prop
  | silent {main : MainStatement} : ServerMove main main []
  | starts : ServerMove .start .firstTask []
  | first {st : SharedTask} (hid : st.id = 1) :
      ServerMove .firstTask .secondTask [.fromMain st]
  | second {st : SharedTask} (hid : st.id = 2) :
      ServerMove .secondTask .startServer [.fromMain st]
  | handles {command : Command} {st : SharedTask} (hentry : EntryOf command st) :
      ServerMove .startServer .startServer [.fromClient command st]

section Moves

variable {env : Env}

theorem construct_made {id : Int32} {description : List UInt8} {p : Int32} {task : UnixTask}
    {w w' : World} (h : UnixTask.construct env id description p w = .ok task w') :
    Made id description task := by
  obtain ⟨arrival, w₁, -, h⟩ := bind_returned h
  obtain ⟨checked, w₂, -, h⟩ := bind_returned h
  cases h
  exact ⟨rfl, rfl, rfl, rfl⟩

/-- `set_static_priority` changes none of these members. -/
theorem commandTask_made {operation : List UInt8} {value : Int32} {task : UnixTask}
    {w w' : World} (h : Server.commandTask env operation value w = .ok task w') :
    Made value operation task := by
  obtain ⟨made, w₁, hmade, h⟩ := bind_returned h
  have hbefore := construct_made hmade
  obtain ⟨checked, w₂, -, h⟩ := bind_returned h
  obtain ⟨time, w₃, -, h⟩ := bind_returned h
  cases h
  exact ⟨hbefore.id, hbefore.description, hbefore.completed, hbefore.kind⟩

/-- The entry that a caller begins to add is that of the task it has made. -/
theorem submits_encodes {s : Service (Option Client)} {c : Option Client}
    {make : Program World UnixTask} {choice : Choice} {r : Service (Option Client) × SharedTask}
    (h : s.submits env c make choice = some r) :
    ∃ task w w', make w = .ok task w' ∧ Encodes task r.2 := by
  unfold Service.submits at h
  cases hidle : s.client c with
  | testing algorithm tasks =>
      rw [hidle] at h
      cases h
  | inQueue purpose pc =>
      rw [hidle] at h
      cases h
  | idle =>
      simp only [hidle, Option.bind_eq_some_iff, Option.map_eq_some_iff] at h
      obtain ⟨pc, hrun, st, hst, rfl⟩ := h
      obtain ⟨w, w', hsubmit⟩ := Choice.run_eq hrun
      obtain ⟨task, w₁, hmake, hstart⟩ := bind_returned hsubmit
      obtain ⟨st', w₂, henter, hencodes⟩ := enter_returns env (.adding task) task w₁
      rw [start, henter] at hstart
      cases hstart
      cases hst
      exact ⟨task, w, w₁, hmake, hencodes⟩

variable {timeQuantum : Int} {algorithm : SchedulingAlgorithm} {s s' : ServerState Client}
  {a : ServerAction Client} {es : List ServerEvent}

theorem mainStatement_move {choice : Choice}
    (h : mainStatement env choice s = some (s', es)) : ServerMove s.main s'.main es := by
  unfold mainStatement at h
  cases hmain : s.main with
  | start =>
      simp only [hmain, Option.ite_none_right_eq_some, Option.some.injEq, Prod.mk.injEq] at h
      obtain ⟨-, rfl, rfl⟩ := h
      exact .starts
  | firstTask =>
      simp only [hmain, Option.ite_none_right_eq_some, Option.map_eq_some_iff,
        Prod.mk.injEq] at h
      obtain ⟨-, r, hsubmits, rfl, rfl⟩ := h
      obtain ⟨task, w, w', hmake, hencodes⟩ := submits_encodes hsubmits
      obtain ⟨base, w₁, hbase, hmake⟩ := bind_returned hmake
      cases hmake
      exact .first (hencodes.id.trans (construct_made hbase).id)
  | secondTask =>
      simp only [hmain, Option.map_eq_some_iff, Prod.mk.injEq] at h
      obtain ⟨r, hsubmits, rfl, rfl⟩ := h
      obtain ⟨task, w, w', hmake, hencodes⟩ := submits_encodes hsubmits
      obtain ⟨base, w₁, hbase, hmake⟩ := bind_returned hmake
      cases hmake
      exact .second (hencodes.id.trans (construct_made hbase).id)
  | startServer =>
      rw [hmain] at h
      cases h

/-- The value of an accepted command is that of its operation. -/
theorem acceptedCommand_lookup {text : List UInt8} {command : Command} {value : Int32}
    (h : Server.acceptedCommand text = some (command, value)) :
    Server.operations.lookup command.operation = some value := by
  unfold Server.acceptedCommand at h
  obtain ⟨parsed, -, hrest⟩ := Option.bind_eq_some_iff.mp h
  obtain ⟨found, hfound, heq⟩ := Option.bind_eq_some_iff.mp hrest
  cases heq
  exact hfound

theorem handleClient_move {c : Client} {request : Request} {choice : Choice}
    (h : handleClient env c request choice s = some (s', es)) : ServerMove s.main s'.main es := by
  unfold handleClient at h
  split at h
  case h_1 command value hmain hidle haccepted =>
    simp only [Option.map_eq_some_iff, Prod.mk.injEq] at h
    obtain ⟨r, hsubmits, rfl, rfl⟩ := h
    obtain ⟨task, w, w', hmake, hencodes⟩ := submits_encodes hsubmits
    have hmade := commandTask_made hmake
    simp only [hmain]
    refine .handles ⟨?_, ?_, hencodes.completed.trans hmade.completed, ?_⟩
    · rw [hencodes.id, hmade.id, acceptedCommand_lookup haccepted]
    · rw [hencodes.description, hmade.description]
    · rw [hencodes.type hmade.completed, hmade.kind]
      rfl
  case h_2 hmain hidle haccepted =>
    cases h
    exact .silent
  case h_3 => cases h

/-- **Every step is on the list.** -/
theorem server_move (h : (serverMachine Client env timeQuantum algorithm).step s a =
    some (s', es)) : ServerMove s.main s'.main es := by
  cases a with
  | main choice => exact mainStatement_move h
  | handle c request choice => exact handleClient_move h
  | service a =>
      have hsilent : ∀ {r : Option (Service (Option Client) × List SystemEvent)},
          r.map (fun r => ({ s with service := r.1 }, ([] : List ServerEvent))) = some (s', es) →
            ServerMove s.main s'.main es := by
        intro r hr
        obtain ⟨next, -, heq⟩ := Option.map_eq_some_iff.mp hr
        cases heq
        exact .silent
      cases a with
      | addTask c task choice => cases h
      | client c choice => exact hsilent h
      | system a =>
          cases a with
          | call call => cases h
          | main => exact hsilent h
          | loop t choice => exact hsilent h

end Moves

end TaskSheduler
