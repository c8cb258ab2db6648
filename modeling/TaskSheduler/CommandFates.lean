import TaskSheduler.EntryInvariants
import TaskSheduler.ServerLedger
import TaskSheduler.TaskProcessor

/-!
# What becomes of a command

The task made for a command is a plain `UnixTask`, and it stays one through
every conversion and every reordering, in whoever's hands it is.  `execute`
throws on it, so no command is ever executed or put back.  The tasks of `main`
stay of a class that implements `execute`, so nothing else is lost to that
exception.

The books are those of `serverBooks`, and what is said of a task goes by its
id.
-/

namespace TaskSheduler

open Programs Interleaving

/-- The ids that the tasks of commands have. -/
def commandIds : List Int32 := Server.operations.map Prod.snd

/-- What an entry in the server is like. -/
structure SharedTask.Tagged (st : SharedTask) : Prop where
  pending : st.completed = false
  command : st.id ∈ commandIds → st.executable = false
  own : st.id ∈ MainStatement.startServer.added → st.executable = true

/-- What a task in the server is like. -/
structure UnixTask.Classed (task : UnixTask) : Prop where
  pending : task.completed = false
  command : task.id ∈ commandIds → task.kind = .unixTask
  own : task.id ∈ MainStatement.startServer.added → task.kind ≠ .unixTask

/-! ## Classes are kept -/

/-- The tag of an entry for a pending task tells whether its class implements
`execute`. -/
theorem encoded_executable (env : Env) (w : World) {task : UnixTask} (dst : SharedTask)
    (h : task.completed = false) :
    (encoded env w task dst).executable = true ↔ task.kind ≠ .unixTask := by
  have htype := (encoded_encodes env w task dst).type h
  rw [SharedTask.executable, htype]
  cases task.kind <;> simp [TaskKind.type, TaskType.value]

/-- `execute` does not mark a task that it does not report as completed. -/
theorem execute_pending {env : Env} {quantum : Int} {task after : UnixTask} {w w' : World}
    (hpending : task.completed = false)
    (h : task.execute env quantum w = .ok (false, after) w') : after.completed = false := by
  unfold UnixTask.execute at h
  cases hkind : task.kind with
  | unixTask =>
      rw [hkind] at h
      cases h
  | cpuIntensiveTask totalWork remainingWork =>
      simp only [hkind, CpuIntensiveTask.execute] at h
      obtain ⟨start, w₁, -, h⟩ := bind_returned h
      obtain ⟨result, w₂, -, h⟩ := bind_returned h
      cases result with
      | some time =>
          cases h
          exact hpending
      | none =>
          obtain ⟨finish, w₃, -, h⟩ := bind_returned h
          simp only [pure_apply, EStateM.Result.ok.injEq, Prod.mk.injEq] at h
          obtain ⟨⟨hcompleted, rfl⟩, -⟩ := h
          rw [hcompleted]
          exact hpending
  | ioBoundTask filePath operations =>
      simp only [hkind, IoBoundTask.execute] at h
      obtain ⟨start, w₁, -, h⟩ := bind_returned h
      obtain ⟨opened, w₂, -, h⟩ := bind_returned h
      cases opened with
      | false => cases h
      | true =>
          simp only [if_true] at h
          obtain ⟨-, w₃, -, h⟩ := bind_returned h
          obtain ⟨-, w₄, -, h⟩ := bind_returned h
          obtain ⟨finish, w₅, -, h⟩ := bind_returned h
          simp only [pure_apply, EStateM.Result.ok.injEq, Prod.mk.injEq] at h
          obtain ⟨⟨hcompleted, rfl⟩, -⟩ := h
          rw [hcompleted]
          exact hpending

/-- A task on which `execute` has returned is of a class that implements it. -/
theorem Execution.Possible.implemented {env : Env} {task after : UnixTask} {completed : Bool}
    (h : (Execution.returned completed after).Possible env task) :
    task.kind ≠ .unixTask ∧ after.kind ≠ .unixTask := by
  obtain ⟨quantum, w, w', hexecute⟩ := h
  have hkind := ((execute_spec env quantum task w).returned ⟨rfl, rfl, rfl⟩ hexecute).2.2
  refine ⟨hkind, fun hafter => hkind ?_⟩
  have htype := (execute_keeps hexecute).type
  rw [hafter] at htype
  cases hbefore : task.kind with
  | unixTask => rfl
  | _ =>
      rw [hbefore] at htype
      cases htype

/-- A task on which `execute` has thrown is a plain `UnixTask`. -/
theorem Execution.Possible.plain {env : Env} {task : UnixTask}
    (h : Execution.thrown.Possible env task) : task.kind = .unixTask := by
  obtain ⟨quantum, w, message, w', hexecute⟩ := h
  exact ((execute_spec env quantum task w).stopped ⟨rfl, rfl, rfl⟩ hexecute).2 message rfl

/-- **Commands stay plain tasks, and the tasks of `main` stay what they are.** -/
theorem closed_classed (env : Env) : Closed SharedTask.Tagged UnixTask.Classed env where
  encoded w task dst h := by
    have hiff := encoded_executable env w dst h.pending
    refine ⟨h.pending, fun hid => ?_, fun hid => hiff.mpr (h.own hid)⟩
    exact Bool.eq_false_iff.mpr fun hexecutable => hiff.mp hexecutable (h.command hid)
  decoded st arrival adjusted h := by
    have hkept := decoded_decodes env.float st arrival adjusted
    have hiff := decoded_executable env.float st arrival adjusted
    refine ⟨hkept.completed.trans h.pending, fun hid => ?_, fun hid => ?_⟩
    · rw [hkept.id] at hid
      by_contra hkind
      exact Bool.eq_false_iff.mp (h.command hid) (hiff.mp hkind)
    · rw [hkept.id] at hid
      exact hiff.mpr (h.own hid)
  adjusted _ _ h := ⟨h.pending, h.command, h.own⟩
  executed quantum task w after w' h hexecute := by
    obtain ⟨hkind, hafter⟩ := Execution.Possible.implemented ⟨quantum, w, w', hexecute⟩
    have hid := (execute_keeps hexecute).id
    refine ⟨execute_pending h.pending hexecute, fun hcommand => ?_, fun _ => hafter⟩
    rw [hid] at hcommand
    exact absurd (h.command hcommand) hkind

/-! ## The tasks that are made -/

/-- No task of `main` has the id of a command. -/
theorem commandIds_not_added {id : Int32} (h : id ∈ commandIds) :
    id ∉ MainStatement.startServer.added := by
  have hall : ∀ p ∈ Server.operations, p.2 ∉ MainStatement.startServer.added := by decide
  obtain ⟨p, hp, rfl⟩ := List.mem_map.mp h
  exact hall p hp

/-- The task of a command. -/
theorem Made.classed {id : Int32} {description : List UInt8} {task : UnixTask}
    (h : Made id description task) (hid : id ∈ commandIds) : task.Classed := by
  refine ⟨h.completed, fun _ => h.kind, fun hadded => ?_⟩
  rw [h.id] at hadded
  exact absurd hadded (commandIds_not_added hid)

/-- A task of `main`. -/
theorem Made.own_classed {id : Int32} {description : List UInt8} {base : UnixTask}
    (h : Made id description base) (hid : id ∈ MainStatement.startServer.added)
    {kind : TaskKind} (hkind : kind ≠ .unixTask) (ioBound : Bool) :
    ({ base with kind := kind, isIoBound := ioBound } : UnixTask).Classed := by
  refine ⟨h.completed, fun hcommand => ?_, fun _ => hkind⟩
  rw [← h.id] at hid
  exact absurd hid (commandIds_not_added hcommand)

theorem added_classed {env : Env} {task : UnixTask} {w w' : World}
    (h : CpuIntensiveTask.construct env 1 1000 w = .ok task w' ∨
      IoBoundTask.construct env 2 (textBytes "output.txt") 10 w = .ok task w') :
    task.Classed := by
  rcases h with h | h
  · obtain ⟨base, w₁, hbase, hmade⟩ := bind_returned h
    cases hmade
    exact (construct_made hbase).own_classed (by decide) TaskKind.noConfusion false
  · obtain ⟨base, w₁, hbase, hmade⟩ := bind_returned h
    cases hmade
    exact (construct_made hbase).own_classed (by decide) TaskKind.noConfusion true

/-- The value of an accepted command is the id of a command. -/
theorem accepted_mem {text : List UInt8} {command : Command} {value : Int32}
    (h : Server.acceptedCommand text = some (command, value)) : value ∈ commandIds :=
  List.mem_map_of_mem (f := Prod.snd) (mem_operations (acceptedCommand_lookup h))

/-! ## What the loops do with them -/

/-- What may be seen of a task. -/
def SystemEvent.Fated : SystemEvent → Prop
  | .finished id | .dropped id => id ∉ commandIds
  | .threw id => id ∉ MainStatement.startServer.added
  | .aborted _ => True

/-- A task that waits for the last look at `running_` is of a class that
implements `execute`. -/
def LoopPc.KeepsImplemented (pc : LoopPc) : Prop :=
  ∀ task, pc = .keepTest task → task.kind ≠ .unixTask

section Loops

variable {env : Env} {timeQuantum : Int} {algorithm : SchedulingAlgorithm} {choice : LoopChoice}
  {shm shm' : Shm} {running : Bool} {pc pc' : LoopPc} {es : List SystemEvent}

theorem processTasksStep_fated (hpc : pc.Holds SharedTask.Tagged UnixTask.Classed)
    (hkeeps : pc.KeepsImplemented)
    (hpossible : ∀ task, pc = .executing task → choice.executed.Possible env task)
    (h : processTasksStep env timeQuantum choice shm running pc = some (shm', pc', es)) :
    (∀ e ∈ es, e.Fated) ∧ pc'.KeepsImplemented := by
  have hnone : ∀ e ∈ ([] : List SystemEvent), e.Fated := fun _ hmem => absurd hmem List.not_mem_nil
  cases pc with
  | whileTest =>
      cases h
      refine ⟨hnone, ?_⟩
      cases running <;> exact fun _ heq => by cases heq
  | countTest =>
      simp only [processTasksStep] at h
      split at h
      · obtain ⟨pc₁, -, heq⟩ := Option.map_eq_some_iff.mp h
        cases heq
        exact ⟨hnone, fun _ heq => by cases heq⟩
      · cases h
        exact ⟨hnone, fun _ heq => by cases heq⟩
  | managing pc =>
      obtain ⟨⟨shm₁, pc₁, reply⟩, -, heq⟩ := Option.map_eq_some_iff.mp h
      cases reply with
      | none =>
          cases heq
          exact ⟨hnone, fun _ heq => by cases heq⟩
      | some reply =>
          cases reply with
          | thrown message =>
              cases heq
              refine ⟨fun e hmem => ?_, fun _ heq => by cases heq⟩
              rw [List.mem_singleton.mp hmem]
              trivial
          | got task | added | reordered =>
              cases heq
              exact ⟨hnone, fun _ heq => by cases heq⟩
  | executing task =>
      obtain ⟨total, -, heq⟩ := Option.map_eq_some_iff.mp h
      have hends := hpossible task rfl
      cases hexecuted : choice.executed with
      | thrown =>
          rw [hexecuted] at heq hends
          cases heq
          refine ⟨fun e hmem => ?_, fun _ heq => by cases heq⟩
          rw [List.mem_singleton.mp hmem]
          exact fun hadded => hpc.own hadded hends.plain
      | returned completed after =>
          rw [hexecuted] at heq hends
          obtain ⟨hkind, hafter⟩ := hends.implemented
          simp only at heq
          split at heq
          · cases heq
            refine ⟨fun e hmem => ?_, fun _ heq => by cases heq⟩
            rw [List.mem_singleton.mp hmem]
            exact fun hcommand => hkind (hpc.command hcommand)
          · cases heq
            refine ⟨hnone, fun task' heq => ?_⟩
            cases heq
            exact hafter
  | keepTest task =>
      simp only [processTasksStep] at h
      split at h
      · obtain ⟨pc₁, -, heq⟩ := Option.map_eq_some_iff.mp h
        cases heq
        exact ⟨hnone, fun _ heq => by cases heq⟩
      · cases h
        refine ⟨fun e hmem => ?_, fun _ heq => by cases heq⟩
        rw [List.mem_singleton.mp hmem]
        exact fun hcommand => hkeeps task rfl (hpc.command hcommand)
  | off | done => cases h

theorem scheduleStep_fated
    (h : scheduleStep env algorithm choice shm running pc = some (shm', pc', es)) :
    ∀ e ∈ es, e.Fated := by
  cases pc with
  | whileTest =>
      simp only [scheduleStep] at h
      split at h
      · obtain ⟨pc₁, -, heq⟩ := Option.map_eq_some_iff.mp h
        cases heq
        exact fun _ hmem => absurd hmem List.not_mem_nil
      · cases h
        exact fun _ hmem => absurd hmem List.not_mem_nil
  | managing pc =>
      obtain ⟨⟨shm₁, pc₁, reply⟩, -, heq⟩ := Option.map_eq_some_iff.mp h
      intro e hmem
      rcases reply with _ | _ | _ | _ <;> cases heq <;>
        first | exact absurd hmem List.not_mem_nil | exact List.mem_singleton.mp hmem ▸ trivial
  | off => cases h
  | countTest => cases h
  | executing task => cases h
  | keepTest task => cases h
  | done => cases h

end Loops

/-! ## The books of a run -/

section Books

variable {Client : Type*} [DecidableEq Client] {env : Env} {timeQuantum : Int}
  {algorithm : SchedulingAlgorithm}

/-- An `execute` in the server ends as one of the task may end. -/
def ServerAction.Executes (env : Env) (s : ServerState Client) : ServerAction Client → Prop
  | .service (.system (.loop .processor choice)) =>
      ∀ task, s.service.system.pc .processor = .executing task →
        choice.executed.Possible env task
  | _ => True

omit [DecidableEq Client] in
/-- What is put down for a loop has been shown by one. -/
theorem mem_ledgerEntries_loop {s : Service Client} {a : ServiceAction Client}
    {es : List SystemEvent} {e : SystemEvent} (h : .loop e ∈ ledgerEntries env s a es) :
    e ∈ es := by
  cases a with
  | system b =>
      obtain ⟨e', hmem, heq⟩ := List.mem_map.mp h
      cases heq
      exact hmem
  | addTask c task choice => cases List.mem_singleton.mp h
  | client c choice =>
      simp only [ledgerEntries] at h
      split at h
      case h_1 reply hmanager =>
        rcases reply with _ | _ | _ | _ | _ <;>
          first | exact absurd h List.not_mem_nil | cases List.mem_singleton.mp h
      case h_2 => exact absurd h List.not_mem_nil

omit [DecidableEq Client] in
/-- What is at rest keeps nothing. -/
theorem LoopPc.keepsImplemented_resting {pc : LoopPc} (h : pc.resting = true) :
    pc.KeepsImplemented := by
  rintro task rfl
  cases h

/-- What a step of the service shows, and what it leaves the processor with. -/
theorem clientMachine_fated {s s' : Service Client} {a : ServiceAction Client}
    {es : List SystemEvent} (heverywhere : Everywhere SharedTask.Tagged UnixTask.Classed s)
    (hkeeps : (s.system.pc .processor).KeepsImplemented)
    (hfits : ∀ t : Loop, t.Fits (s.system.pc t))
    (hadmissible : a.Admissible UnixTask.Classed env s)
    (hstep : (clientMachine Client env timeQuantum algorithm).step s a = some (s', es)) :
    (∀ e ∈ es, e.Fated) ∧ (s'.system.pc .processor).KeepsImplemented := by
  have hnone : ∀ e ∈ ([] : List SystemEvent), e.Fated := fun _ hmem => absurd hmem List.not_mem_nil
  cases a with
  | system a =>
      simp only [clientMachine, Option.map_eq_some_iff, Prod.mk.injEq] at hstep
      obtain ⟨⟨system', es₁⟩, hsystem, rfl, rfl⟩ := hstep
      cases a with
      | call call | main =>
          cases system_move hfits hsystem with
          | quiet ha hshm hpc =>
              refine ⟨hnone, ?_⟩
              rcases hpc .processor with hsame | ⟨-, hrests⟩
              · rw [hsame]
                exact hkeeps
              · exact LoopPc.keepsImplemented_resting hrests
      | loop t choice =>
          simp only [systemMachine, Option.map_eq_some_iff, Prod.mk.injEq] at hsystem
          obtain ⟨⟨shm', pc', es₂⟩, hloop, rfl, rfl⟩ := hsystem
          cases t with
          | processor =>
              have hboth := processTasksStep_fated (heverywhere.loops _) hkeeps hadmissible hloop
              simpa only [Function.update_self] using hboth
          | scheduler => exact ⟨scheduleStep_fated hloop, hkeeps⟩
  | addTask c task choice =>
      simp only [clientMachine] at hstep
      split at hstep
      case h_2 => cases hstep
      case h_1 hidle =>
        simp only [Option.map_eq_some_iff, Prod.mk.injEq] at hstep
        obtain ⟨pc, hstart, rfl, rfl⟩ := hstep
        exact ⟨hnone, hkeeps⟩
  | client c choice =>
      simp only [clientMachine, Option.map_eq_some_iff, Prod.mk.injEq] at hstep
      obtain ⟨⟨shm', pc'⟩, hone, rfl, rfl⟩ := hstep
      exact ⟨hnone, hkeeps⟩

/-- A caller that begins to add a task with the property. -/
theorem submits_everywhere {P : SharedTask → Prop} {Q : UnixTask → Prop}
    (hclosed : Closed P Q env) {s : Service (Option Client)} {c : Option Client}
    {make : Program World UnixTask} {choice : Choice} {r : Service (Option Client) × SharedTask}
    (h : Everywhere P Q s) (hmake : ∀ task w w', make w = .ok task w' → Q task)
    (hsubmits : s.submits env c make choice = some r) :
    Everywhere P Q r.1 ∧ r.1.system = s.system := by
  unfold Service.submits at hsubmits
  split at hsubmits
  case h_2 => cases hsubmits
  case h_1 hidle =>
    simp only [Option.bind_eq_some_iff, Option.map_eq_some_iff] at hsubmits
    obtain ⟨pc, hrun, st, -, rfl⟩ := hsubmits
    obtain ⟨w, w', hsubmit⟩ := Choice.run_eq hrun
    obtain ⟨task, w₁, hmade, hstart⟩ := bind_returned hsubmit
    have htask := hmake task w w₁ hmade
    have hkept : ∀ task' ∈ (Purpose.adding task).tasks, Q task' :=
      fun _ hmem => List.mem_singleton.mp hmem ▸ htask
    have hpc : pc.Holds P Q := enter_holds hclosed hkept htask hstart
    exact ⟨h.client hpc, rfl⟩

/-- The ids of the tasks that the server makes. -/
def Known (id : Int32) : Prop := id ∈ MainStatement.startServer.added ∨ id ∈ commandIds

variable [Fintype Client]

/-- What every run keeps. -/
structure FateInv (env : Env) (entries : List LedgerEntry) (s : ServerState Client) : Prop where
  books : Booked env entries s
  everywhere : Everywhere SharedTask.Tagged UnixTask.Classed s.service
  keeps : (s.service.system.pc .processor).KeepsImplemented
  known : ∀ id ∈ submittedIds entries, Known id
  fated : ∀ e, .loop e ∈ entries → e.Fated

/-- A task of a known id that is submitted. -/
theorem FateInv.submits {entries : List LedgerEntry} {s : ServerState Client}
    {c : Option Client} {make : Program World UnixTask} {choice : Choice}
    {r : Service (Option Client) × SharedTask} (h : FateInv env entries s)
    (hmake : ∀ task w w', make w = .ok task w' → task.Classed ∧ Known task.id)
    (hsubmits : s.service.submits env c make choice = some r) (main : MainStatement) :
    FateInv env (entries ++ [.submitted r.2.id]) ⟨r.1, main⟩ := by
  obtain ⟨heverywhere, hsystem⟩ := submits_everywhere (closed_classed env) h.everywhere
    (fun task w w' hmade => (hmake task w w' hmade).1) hsubmits
  refine ⟨h.books.submits hsubmits main, heverywhere, ?_, ?_, ?_⟩
  · rw [hsystem]
    exact h.keeps
  · intro id hmem
    rw [submittedIds_append] at hmem
    rcases Multiset.mem_add.mp hmem with hbefore | hnow
    · exact h.known id hbefore
    · obtain ⟨task, w, w', hmade, hencodes⟩ := submits_encodes hsubmits
      have hid : id = r.2.id := by simpa [submittedIds, LedgerEntry.submits] using hnow
      rw [hid, hencodes.id]
      exact (hmake task w w' hmade).2
  · intro e hmem
    rcases List.mem_append.mp hmem with hbefore | hnow
    · exact h.fated e hbefore
    · cases List.mem_singleton.mp hnow

/-- A step of the service, none of which makes a task. -/
theorem FateInv.service {entries : List LedgerEntry} {s : ServerState Client}
    {a : ServiceAction (Option Client)} {service' : Service (Option Client)}
    {events : List SystemEvent} (h : FateInv env entries s)
    (ha : ∀ c task choice, a ≠ .addTask c task choice)
    (hadmissible : a.Admissible UnixTask.Classed env s.service)
    (hstep : (clientMachine (Option Client) env timeQuantum algorithm).step s.service a =
      some (service', events)) (main : MainStatement) :
    FateInv env (entries ++ ledgerEntries env s.service a events) ⟨service', main⟩ := by
  obtain ⟨q, hbooks⟩ := h.books
  have hfits := hbooks.service.fits
  obtain ⟨hfated, hkeeps⟩ := clientMachine_fated h.everywhere h.keeps hfits hadmissible hstep
  refine ⟨h.books.service hstep main,
    everywhere_step (closed_classed env) h.everywhere hfits hadmissible hstep, hkeeps, ?_, ?_⟩
  · rw [submittedIds_append, submittedIds_ledgerEntries ha, add_zero]
    exact h.known
  · intro e hmem
    rcases List.mem_append.mp hmem with hbefore | hnow
    · exact h.fated e hbefore
    · exact hfated e (mem_ledgerEntries_loop hnow)

/-- A statement of `main`. -/
theorem FateInv.mainStatement {entries : List LedgerEntry} {s s' : ServerState Client}
    {choice : Choice} {es : List ServerEvent} (h : FateInv env entries s)
    (hstep : TaskSheduler.mainStatement env choice s = some (s', es)) :
    FateInv env (entries ++ es.map fun e => .submitted e.entry.id) s' := by
  unfold TaskSheduler.mainStatement at hstep
  cases hmain : s.main with
  | start =>
      simp only [hmain, Option.ite_none_right_eq_some, Option.some.injEq, Prod.mk.injEq] at hstep
      obtain ⟨hidle, rfl, rfl⟩ := hstep
      have hcall : (clientMachine (Option Client) env 0 .priorityScheduling).step s.service
          (.system (.call .schedulerStart)) = some ({ s.service with
            system := { s.service.system with main := MainCall.schedulerStart.ops } }, []) := by
        simp only [clientMachine, systemMachine, hidle, if_true, Option.map_some]
      have hadmits : (ServiceAction.system (.call .schedulerStart)).Admissible UnixTask.Classed
          env s.service := trivial
      exact h.service (fun _ _ _ hne => by cases hne) hadmits hcall .firstTask
  | firstTask =>
      simp only [hmain, Option.ite_none_right_eq_some, Option.map_eq_some_iff,
        Prod.mk.injEq] at hstep
      obtain ⟨-, r, hsubmits, rfl, rfl⟩ := hstep
      refine h.submits (fun task w w' hmake => ⟨added_classed (.inl hmake), .inl ?_⟩) hsubmits _
      obtain ⟨base, w₁, hbase, hmade⟩ := bind_returned hmake
      cases hmade
      rw [(construct_made hbase).id]
      decide
  | secondTask =>
      simp only [hmain, Option.map_eq_some_iff, Prod.mk.injEq] at hstep
      obtain ⟨r, hsubmits, rfl, rfl⟩ := hstep
      refine h.submits (fun task w w' hmake => ⟨added_classed (.inr hmake), .inl ?_⟩) hsubmits _
      obtain ⟨base, w₁, hbase, hmade⟩ := bind_returned hmake
      cases hmade
      rw [(construct_made hbase).id]
      decide
  | startServer =>
      rw [hmain] at hstep
      cases hstep

/-- A handler. -/
theorem FateInv.handleClient {entries : List LedgerEntry} {s s' : ServerState Client}
    {c : Client} {request : Request} {choice : Choice} {es : List ServerEvent}
    (h : FateInv env entries s)
    (hstep : TaskSheduler.handleClient env c request choice s = some (s', es)) :
    FateInv env (entries ++ es.map fun e => .submitted e.entry.id) s' := by
  unfold TaskSheduler.handleClient at hstep
  split at hstep
  case h_1 command value hmain hidle haccepted =>
    simp only [Option.map_eq_some_iff, Prod.mk.injEq] at hstep
    obtain ⟨r, hsubmits, rfl, rfl⟩ := hstep
    have hmem := accepted_mem haccepted
    refine h.submits (fun task w w' hmake => ?_) hsubmits s.main
    have hmade := commandTask_made hmake
    refine ⟨hmade.classed hmem, .inr ?_⟩
    rw [hmade.id]
    exact hmem
  case h_2 hmain hidle haccepted =>
    cases hstep
    rw [List.map_nil, List.append_nil]
    exact h
  case h_3 => cases hstep

/-- **Every step of the server keeps it.** -/
theorem fateInv_step {entries es : List LedgerEntry} {s s' : ServerState Client}
    {a : ServerAction Client} (h : FateInv env entries s) (hexecutes : a.Executes env s)
    (hstep : (serverBooks Client env timeQuantum algorithm).step s a = some (s', es)) :
    FateInv env (entries ++ es) s' := by
  obtain ⟨events, hserver, rfl⟩ := watch_step hstep
  cases a with
  | main choice => exact h.mainStatement hserver
  | handle c request choice => exact h.handleClient hserver
  | service a =>
      obtain ⟨-, ha, service', shown, hclient, rfl, hentries⟩ := serverMachine_service hserver
      have hadmissible : a.Admissible UnixTask.Classed env s.service := by
        cases a with
        | addTask c task choice => exact absurd rfl (ha c task choice)
        | client c choice => trivial
        | system a =>
            cases a with
            | call call | main => trivial
            | loop t choice =>
                cases t with
                | processor => exact hexecutes
                | scheduler => trivial
      rw [hentries]
      exact h.service ha hadmissible hclient s.main

omit [DecidableEq Client] in
/-- What is in hands, or has left, was put in. -/
theorem FateInv.mem_known {entries : List LedgerEntry} {s : ServerState Client}
    (h : FateInv env entries s) {id : Int32}
    (hmem : id ∈ s.service.inHands ∨ id ∈ departedIds entries) : Known id := by
  obtain ⟨q, hbooks⟩ := h.books
  have hbalance := hbooks.balance
  rw [zero_add] at hbalance
  refine h.known id ?_
  rw [← hbalance, add_assoc]
  exact Multiset.mem_add.mpr (.inr (Multiset.mem_add.mpr hmem))

omit [DecidableEq Client] [Fintype Client] in
/-- What an event says has left is in the books. -/
theorem mem_departedIds {entries : List LedgerEntry} {e : SystemEvent}
    (hmem : .loop e ∈ entries) {id : Int32} (hgone : id ∈ e.gone) : id ∈ departedIds entries := by
  have hle : e.gone ≤ departedIds entries :=
    List.single_le_sum (fun _ _ => Multiset.zero_le _) _
      (List.mem_map_of_mem (f := LedgerEntry.departs) hmem)
  exact Multiset.mem_of_le hle hgone

omit [DecidableEq Client] in
/-- What an event of a loop says has left was put in. -/
theorem FateInv.gone_known {entries : List LedgerEntry} {s : ServerState Client}
    (h : FateInv env entries s) {e : SystemEvent} (hmem : .loop e ∈ entries) {id : Int32}
    (hgone : id ∈ e.gone) : Known id :=
  h.mem_known (.inr (mem_departedIds hmem hgone))

omit [DecidableEq Client] in
/-- A task in the hands of a loop. -/
theorem mem_inHands {s : Service Client} {t : Loop} {id : Int32}
    (hmem : id ∈ (s.system.pc t).owned) : id ∈ s.inHands := by
  have hle : (s.system.pc t).owned ≤ ∑ u, (s.system.pc u).owned :=
    Finset.single_le_sum (f := fun u => (s.system.pc u).owned) (fun _ _ => Multiset.zero_le _)
      (Finset.mem_univ t)
  exact Multiset.mem_add.mpr (.inl (Multiset.mem_of_le hle hmem))

/-- **No command is ever executed.**  In every run of the server from an empty
segment, with any number of clients, any commands and any failing waits, and
each `execute` ending as one of its task may end: every entry and every task of
a command, wherever it is and however often it was converted or reordered, is
still a plain `UnixTask`, and those of `main` are not; what has been executed,
or dropped when `running_` was found false, and what the processor is about to
put back, is one of the two tasks of `main`; and what an exception of `execute`
has cost its place is a command. -/
theorem commands_never_run {entries : List LedgerEntry} {s : ServerState Client}
    (hpos : 0 < env.capacity)
    (hrun : RunWhere (serverBooks Client env timeQuantum algorithm) (fun s a => a.Executes env s)
      (.begin Client (Shm.create env.capacity)) entries s) :
    Everywhere SharedTask.Tagged UnixTask.Classed s.service ∧
    (∀ id, .loop (.finished id) ∈ entries ∨ .loop (.dropped id) ∈ entries →
      id ∈ MainStatement.startServer.added) ∧
    (∀ task, s.service.system.pc .processor = .keepTest task →
      task.id ∈ MainStatement.startServer.added) ∧
    ∀ id, .loop (.threw id) ∈ entries → id ∈ commandIds := by
  have hinv : FateInv env entries s := by
    refine hrun.invariant (FateInv env) ?_ fun _ _ _ _ _ hinv hadmits hstep =>
      fateInv_step hinv hadmits hstep
    have hcommand : (0 : Int32) ∉ commandIds := by decide +kernel
    have hown : (0 : Int32) ∉ MainStatement.startServer.added := by decide
    have hslot : ((Shm.create env.capacity).tasks 0).Tagged :=
      ⟨rfl, fun hmem => absurd hmem hcommand, fun hmem => absurd hmem hown⟩
    exact ⟨booked_begin hpos, everywhere_begin (fun _ => hslot),
      LoopPc.keepsImplemented_resting rfl, fun _ hmem => absurd hmem (Multiset.notMem_zero _),
      fun _ hmem => absurd hmem List.not_mem_nil⟩
  refine ⟨hinv.everywhere, fun id hmem => ?_, fun task hpc => ?_, fun id hmem => ?_⟩
  · rcases hmem with hmem | hmem
    · have hknown := hinv.gone_known hmem (Multiset.mem_singleton_self id)
      exact hknown.resolve_right (hinv.fated _ hmem)
    · have hknown := hinv.gone_known hmem (Multiset.mem_singleton_self id)
      exact hknown.resolve_right (hinv.fated _ hmem)
  · have howned : task.id ∈ (s.service.system.pc .processor).owned := by
      rw [hpc]
      exact Multiset.mem_singleton_self _
    have hclassed : UnixTask.Classed task := by
      have hholds := hinv.everywhere.loops .processor
      rw [hpc] at hholds
      exact hholds
    refine (hinv.mem_known (.inl (mem_inHands howned))).resolve_right fun hcommand => ?_
    exact hinv.keeps task hpc (hclassed.command hcommand)
  · have hknown := hinv.gone_known hmem (Multiset.mem_singleton_self id)
    exact hknown.resolve_left (hinv.fated _ hmem)

end Books

/-- `execute` throws. -/
def Execution.throws : Execution → Bool
  | .thrown => true
  | .returned _ _ => false

/-- A check of the condition, for runs in which every `execute` throws. -/
def ServerAction.throwsPlain (s : ServerState Bool) : ServerAction Bool → Bool
  | .service (.system (.loop .processor choice)) =>
      match s.service.system.pc .processor with
      | .executing task => choice.executed.throws && task.kind.type == .unixTask
      | _ => true
  | _ => true

/-- A plain task may throw. -/
theorem thrown_possible (env : Env) {task : UnixTask} (h : task.kind.type = .unixTask) :
    Execution.thrown.Possible env task := by
  have hkind : task.kind = .unixTask := by
    cases hkind : task.kind with
    | unixTask => rfl
    | _ =>
        rw [hkind] at h
        cases h
  have hraises : task.execute env 0 = raise "Execute method not implemented" := by
    rw [UnixTask.execute, hkind]
  exact ⟨0, World.begin (Shm.create 0), _, _, by rw [hraises]; rfl⟩

theorem throwsPlain_executes (env : Env) (s : ServerState Bool) (a : ServerAction Bool)
    (h : a.throwsPlain s = true) : a.Executes env s := by
  cases a with
  | main choice => trivial
  | handle c request choice => trivial
  | service a =>
      cases a with
      | addTask c task choice => trivial
      | client c choice => trivial
      | system a =>
          cases a with
          | call call => trivial
          | main => trivial
          | loop t choice =>
              cases t with
              | scheduler => trivial
              | processor =>
                  intro task htask
                  simp only [ServerAction.throwsPlain, htask, Bool.and_eq_true, beq_iff_eq] at h
                  obtain ⟨hthrows, htype⟩ := h
                  cases hexecuted : choice.executed with
                  | thrown => exact thrown_possible env htype
                  | returned completed after =>
                      rw [hexecuted] at hthrows
                      cases hthrows

/-- The processor takes a command, and has lost it. -/
theorem commands_never_run_taken :
    ∃ s entries, RunWhere (serverBooks Bool envTwo 500 (.roundRobinScheduling 0))
        (fun s a => a.Executes envTwo s) (.begin Bool (Shm.create 2)) entries s ∧
      departedIds entries = {15} ∧ Everywhere SharedTask.Tagged UnixTask.Classed s.service ∧
      ∀ id, .loop (.threw id) ∈ entries → id ∈ commandIds := by
  have hexec : (exec (serverBooks Bool envTwo 500 (.roundRobinScheduling 0))
      (.begin Bool (Shm.create 2)) commandTaken).map (fun r => departedIds r.2) = some {15} := by
    decide +kernel
  have halong : along (serverBooks Bool envTwo 500 (.roundRobinScheduling 0))
      (fun s a => a.throwsPlain s) (.begin Bool (Shm.create 2)) commandTaken = true := by
    decide +kernel
  obtain ⟨⟨s, entries⟩, hrun, hgone⟩ := Option.map_eq_some_iff.mp hexec
  have hadmitted := exec_runWhere (throwsPlain_executes envTwo) hrun halong
  obtain ⟨heverywhere, -, -, hlost⟩ := commands_never_run (by decide) hadmitted
  exact ⟨s, entries, hadmitted, hgone, heverywhere, hlost⟩

end TaskSheduler
