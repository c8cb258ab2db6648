import TaskSheduler.ServiceLedger
import TaskSheduler.CommandEntries

/-!
# The books of the server

What `main` and the handlers of accepted commands write is all that ever gets
into the queue of a running server.  Each of these entries is at one place at
most: in the queue, in the hands of one thread, or gone.

The observer of the service keeps its books here too (`serverBooks`), and puts
down every entry written as a submission.  `booked_step` is the law of one
step, `submittedIds_serverEntries` ties the submissions to the entries that the
server shows.
-/

namespace TaskSheduler

open Interleaving Programs

section Books

variable {Client : Type*} [DecidableEq Client] {env : Env} {timeQuantum : Int}
  {algorithm : SchedulingAlgorithm}

/-- What the observer writes down at a step of the server. -/
def serverEntries (env : Env) (timeQuantum : Int) (algorithm : SchedulingAlgorithm)
    (s : ServerState Client) : ServerAction Client → List ServerEvent → List LedgerEntry
  | .service a, _ =>
      ((ledgerMachine (Option Client) env timeQuantum algorithm).step s.service a).elim [] Prod.snd
  | _, es => es.map fun e => .submitted e.entry.id

/-- The server with its books. -/
def serverBooks (Client : Type*) [DecidableEq Client] (env : Env) (timeQuantum : Int)
    (algorithm : SchedulingAlgorithm) :
    Machine (ServerState Client) (ServerAction Client) LedgerEntry :=
  (serverMachine Client env timeQuantum algorithm).watch (serverEntries env timeQuantum algorithm)

/-- A step of the service in the server: it is none by which a task is
submitted, and what the observer of the service notes is noted here. -/
theorem serverMachine_service {s s' : ServerState Client} {a : ServiceAction (Option Client)}
    {es : List ServerEvent}
    (h : (serverMachine Client env timeQuantum algorithm).step s (.service a) = some (s', es)) :
    es = [] ∧ (∀ c task choice, a ≠ .addTask c task choice) ∧
      ∃ service' events,
        (clientMachine (Option Client) env timeQuantum algorithm).step s.service a =
          some (service', events) ∧
        s' = { s with service := service' } ∧
        serverEntries env timeQuantum algorithm s (.service a) es =
          ledgerEntries env s.service a events := by
  have hgoes : (∀ c task choice, a ≠ .addTask c task choice) →
      ((clientMachine (Option Client) env timeQuantum algorithm).step s.service a).map
        (fun r => ({ s with service := r.1 }, ([] : List ServerEvent))) = some (s', es) →
      es = [] ∧ (∀ c task choice, a ≠ .addTask c task choice) ∧
        ∃ service' events,
          (clientMachine (Option Client) env timeQuantum algorithm).step s.service a =
            some (service', events) ∧
          s' = { s with service := service' } ∧
          serverEntries env timeQuantum algorithm s (.service a) es =
            ledgerEntries env s.service a events := by
    intro ha hmap
    obtain ⟨⟨service', events⟩, hclient, heq⟩ := Option.map_eq_some_iff.mp hmap
    cases heq
    refine ⟨rfl, ha, service', events, hclient, rfl, ?_⟩
    simp only [serverEntries, ledgerMachine, Machine.watch, hclient, Option.map_some,
      Option.elim_some]
  cases a with
  | addTask c task choice => cases h
  | client c choice => exact hgoes (fun _ _ _ hne => by cases hne) h
  | system a =>
      cases a with
      | call call => cases h
      | main => exact hgoes (fun _ _ _ hne => by cases hne) h
      | loop t choice => exact hgoes (fun _ _ _ hne => by cases hne) h

/-- A caller that begins to add a task is where `add_task` has written its
entry. -/
theorem submits_calls {s : Service (Option Client)} {c : Option Client}
    {make : Program World UnixTask} {choice : Choice} {r : Service (Option Client) × SharedTask}
    (h : s.submits env c make choice = some r) :
    ∃ task, s.client c = .idle ∧ Encodes task r.2 ∧
      r.1 = { s with client :=
        Function.update s.client c (.inQueue (.adding task) (.enqWaitSlot r.2)) } := by
  unfold Service.submits at h
  split at h
  case h_2 => cases h
  case h_1 hidle =>
    simp only [Option.bind_eq_some_iff, Option.map_eq_some_iff] at h
    obtain ⟨pc, hrun, st, hst, rfl⟩ := h
    obtain ⟨w, w', hsubmit⟩ := Choice.run_eq hrun
    obtain ⟨task, w₁, -, hstart⟩ := bind_returned hsubmit
    obtain ⟨st', w₂, henter, hencodes⟩ := enter_returns env (.adding task) task w₁
    rw [start, henter] at hstart
    cases hstart
    cases hst
    exact ⟨task, hidle, hencodes, rfl⟩

variable [Fintype Client] {s s' : ServerState Client}

/-- The books balance, with `q` the counted queue. -/
def Booked (env : Env) (entries : List LedgerEntry) (s : ServerState Client) : Prop :=
  ∃ q, LedgerInv env 0 entries s.service q

/-- Adding the entry of a caller keeps the balance. -/
theorem Booked.submits {entries : List LedgerEntry} {c : Option Client}
    {make : Program World UnixTask} {choice : Choice}
    {r : Service (Option Client) × SharedTask} (h : Booked env entries s)
    (hsubmits : s.service.submits env c make choice = some r) (main : MainStatement) :
    Booked env (entries ++ [.submitted r.2.id]) ⟨r.1, main⟩ := by
  obtain ⟨q, hinv⟩ := h
  obtain ⟨task, hidle, hencodes, hservice⟩ := submits_calls hsubmits
  refine ⟨q, ?_⟩
  rw [hservice, hencodes.id]
  exact hinv.calls hidle hencodes

/-- So does a step of the service. -/
theorem Booked.service {entries : List LedgerEntry} {a : ServiceAction (Option Client)}
    {service' : Service (Option Client)} {events : List SystemEvent}
    (h : Booked env entries s)
    (hstep : (clientMachine (Option Client) env timeQuantum algorithm).step s.service a =
      some (service', events)) (main : MainStatement) :
    Booked env (entries ++ ledgerEntries env s.service a events) ⟨service', main⟩ := by
  obtain ⟨q, hinv⟩ := h
  have hwatched : (ledgerMachine (Option Client) env timeQuantum algorithm).step s.service a =
      some (service', ledgerEntries env s.service a events) := by
    simp only [ledgerMachine, Machine.watch, hstep, Option.map_some]
  exact ⟨_, serviceLedger_step hinv hwatched⟩

/-- So does a statement of `main`. -/
theorem Booked.mainStatement {entries : List LedgerEntry} {choice : Choice}
    {es : List ServerEvent} (h : Booked env entries s)
    (hstep : TaskSheduler.mainStatement env choice s = some (s', es)) :
    Booked env (entries ++ es.map fun e => .submitted e.entry.id) s' := by
  unfold TaskSheduler.mainStatement at hstep
  cases hmain : s.main with
  | start =>
      simp only [hmain, Option.ite_none_right_eq_some, Option.some.injEq, Prod.mk.injEq] at hstep
      obtain ⟨hidle, rfl, rfl⟩ := hstep
      have hcall : (clientMachine (Option Client) env 0 .priorityScheduling).step s.service
          (.system (.call .schedulerStart)) = some ({ s.service with
            system := { s.service.system with main := MainCall.schedulerStart.ops } }, []) := by
        simp only [clientMachine, systemMachine, hidle, if_true, Option.map_some]
      exact h.service hcall .firstTask
  | firstTask =>
      simp only [hmain, Option.ite_none_right_eq_some, Option.map_eq_some_iff,
        Prod.mk.injEq] at hstep
      obtain ⟨-, r, hsubmits, rfl, rfl⟩ := hstep
      exact h.submits hsubmits .secondTask
  | secondTask =>
      simp only [hmain, Option.map_eq_some_iff, Prod.mk.injEq] at hstep
      obtain ⟨r, hsubmits, rfl, rfl⟩ := hstep
      exact h.submits hsubmits .startServer
  | startServer =>
      rw [hmain] at hstep
      cases hstep

/-- So does a handler. -/
theorem Booked.handleClient {entries : List LedgerEntry} {c : Client} {request : Request}
    {choice : Choice} {es : List ServerEvent} (h : Booked env entries s)
    (hstep : TaskSheduler.handleClient env c request choice s = some (s', es)) :
    Booked env (entries ++ es.map fun e => .submitted e.entry.id) s' := by
  unfold TaskSheduler.handleClient at hstep
  split at hstep
  case h_1 command value hmain hidle haccepted =>
    simp only [Option.map_eq_some_iff, Prod.mk.injEq] at hstep
    obtain ⟨r, hsubmits, rfl, rfl⟩ := hstep
    exact h.submits hsubmits s.main
  case h_2 hmain hidle haccepted =>
    cases hstep
    rw [List.map_nil, List.append_nil]
    exact h
  case h_3 => cases hstep

omit [DecidableEq Client] in
/-- At first the books are empty. -/
theorem booked_begin (hpos : 0 < env.capacity) :
    Booked env [] (.begin Client (Shm.create env.capacity)) :=
  ⟨[], ledgerInv_begin (quiescent_create hpos)⟩

end Books

/-- The scheduler has both tasks of `main` in its hands when a command comes
in; the processor takes that, and `execute` throws. -/
def commandTaken : List (ServerAction Bool) :=
  untilServing ++ List.replicate 23 (.service (.system (.loop .scheduler
      { Choice.quiet with executed := .thrown }))) ++
    [.handle true mulRequest Choice.quiet] ++
    List.replicate 9 (.service (.client (some true) Choice.quiet)) ++
    List.replicate 13 (.service (.system (.loop .processor
      { Choice.quiet with executed := .thrown })))

end TaskSheduler
