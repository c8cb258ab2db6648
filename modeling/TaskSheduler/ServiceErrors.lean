import TaskSheduler.EntryInvariants

/-!
# No exception without a failing wait

While no `sem_wait` fails, no call of the manager throws: not `get_next_task`,
not `add_task`, not `reorder_tasks`, of whichever loop or client, in whatever
interleaving.  The exceptions the code provides for besides are out of reach.
"Queue is empty" is, since a taken item token stands for an entry that is there
(`CountedInv`), and the rejected priority is, since every entry in the service
has been written for a task with a valid one (`Everywhere`).

So the only way in which a task is lost is the one through `execute` or `stop`.
-/

namespace TaskSheduler

open Interleaving Programs

/-- The priority of an entry that the decoder accepts. -/
def SharedTask.Acceptable (st : SharedTask) : Prop := validPriority st.priority = true

/-- Coherent tasks and acceptable entries are made of each other. -/
theorem closed_coherent (env : Env) : Closed SharedTask.Acceptable Coherent env where
  encoded _ _ _ h := h.priority
  decoded st arrival adjusted _ := decoded_coherent env.float st arrival adjusted
  adjusted time _ h := h.adjustedAt env.float time
  executed _ _ _ _ _ h hexecute := h.execute (execute_keeps hexecute)

section Moves

variable {env : Env} {shm shm' : Shm}

/-- A call whose thread is not at the point of throwing does not throw, unless
it decodes an entry with another priority. -/
theorem ManagerMove.not_thrown {Q : UnixTask → Prop} {pc pc' : ManagerPc} {message : String}
    (h : ManagerMove env false shm pc shm' pc' (some (.thrown message)))
    (hhealthy : pc.queue.failing = false) : ¬ pc.Holds SharedTask.Acceptable Q := by
  intro hholds
  cases h with
  | foundEmpty _ hrefill => rcases hrefill.call_eq with ⟨hne, -⟩ | ⟨hne, -⟩ <;> cases hne
  | @finished purpose pc shm' notes ended pc' reply hstep hends hresume =>
      have hrejects : ∀ st, Finishes false pc (.dequeued st) →
          validPriority st.priority ≠ false := by
        intro st hends hinvalid
        cases hends
        have hvalid : validPriority st.priority = true :=
          hholds.2 st (List.mem_singleton_self _)
        rw [hvalid] at hinvalid
        cases hinvalid
      cases hresume with
      | thrown =>
          cases hends with
          | thrown hthrows =>
              rcases (QueuePc.throws_silent hthrows).2.2 with hfail | hfailing
              · cases hfail
              · exact Bool.noConfusion (hhealthy.symm.trans hfailing)
      | rejected hinvalid => exact hrejects _ hends hinvalid
      | drainRejected hinvalid => exact hrejects _ hends hinvalid
      | reprinted hrefill => rcases hrefill.call_eq with ⟨hne, -⟩ | ⟨hne, -⟩ <;> cases hne

/-- A loop whose waits succeed does not come to the point of throwing. -/
theorem LoopMove.healthy {choice : LoopChoice} {running : Bool} {t : Loop} {pc pc' : LoopPc}
    {es : List SystemEvent} (h : LoopMove env choice shm running t pc shm' pc' es)
    (hfail : choice.fail = false) (hhealthy : pc.manager.queue.failing = false)
    (hcount : pc.manager.queue.heldItems ≤ shm.count) :
    pc'.manager.queue.failing = false := by
  cases h with
  | manages hmove =>
      rw [hfail] at hmove
      exact hmove.healthy hhealthy hcount
  | _ => rfl

end Moves

/-- Whether a `sem_wait` fails at this step. -/
def ServiceAction.waitFails {Client : Type*} : ServiceAction Client → Bool
  | .system (.loop _ choice) => choice.fail
  | .client _ choice => choice.fail
  | _ => false

section Runs

variable {Client : Type*} [DecidableEq Client] [Fintype Client] {env : Env} {timeQuantum : Int}
  {algorithm : SchedulingAlgorithm} {s s' : Service Client} {a : ServiceAction Client}

omit [DecidableEq Client] [Fintype Client] in
theorem healthy_update {Tid : Type*} [DecidableEq Tid] {queues : Tid → QueuePc}
    (h : ∀ u, (queues u).failing = false) {t : Tid} {next : QueuePc}
    (hnext : next.failing = false) : ∀ u, (Function.update queues t next u).failing = false :=
  (Function.forall_update_iff queues fun _ pc => pc.failing = false).mpr ⟨hnext, fun u _ => h u⟩

/-- What every run without failing waits keeps. -/
structure Unfailing (env : Env) (s : Service Client) : Prop where
  service : ∃ q, ServiceInv env s q
  everywhere : Everywhere SharedTask.Acceptable Coherent s
  healthy : ∀ u, (s.queues u).failing = false

/-- No step leads to the point of throwing. -/
theorem Unfailing.stays (h : Unfailing env s) {es : List SystemEvent}
    (hadmissible : a.Admissible Coherent env s) (hwaits : a.waitFails = false)
    (hstep : (clientMachine Client env timeQuantum algorithm).step s a = some (s', es)) :
    Unfailing env s' := by
  obtain ⟨q, hinv⟩ := h.service
  have hmove := client_move hinv.fits hstep
  refine ⟨⟨_, serviceInv_step hinv hmove⟩,
    everywhere_step (closed_coherent env) h.everywhere hinv.fits hadmissible hstep, ?_⟩
  have hclaims : ∀ u, (s.queues u).heldItems ≤ s.system.shm.count := hinv.counted.claim_le
  cases hmove with
  | @system a system' es hmove =>
      cases hmove with
      | quiet ha hshm hpc =>
          intro u
          cases u with
          | inr c => exact h.healthy (.inr c)
          | inl t =>
              have hsame := congrArg ManagerPc.queue (LoopPc.quiet (hpc t)).1
              exact (congrArg QueuePc.failing hsame).trans (h.healthy (.inl t))
      | @loop t choice shm' pc' es hloop =>
          rw [Service.queues_loop]
          exact healthy_update h.healthy
            (hloop.healthy hwaits (h.healthy (.inl t)) (hclaims (.inl t)))
  | calls hidle hkeeps =>
      rw [Service.queues_client s _ _ s.system.shm]
      exact healthy_update h.healthy rfl
  | @goesOn c choice shm' pc' reply hmove hreply =>
      have hfail : choice.fail = false := hwaits
      rw [hfail] at hmove
      rw [Service.queues_client]
      exact healthy_update h.healthy
        (hmove.healthy (h.healthy (.inr c)) (hclaims (.inr c)))
  | reorders hmove =>
      rw [Service.queues_client]
      exact healthy_update h.healthy rfl

/-- An entry in the books that says that a call of the manager has thrown. -/
def LedgerEntry.throws : LedgerEntry → Bool
  | .loop (.aborted _) | .abandoned _ => true
  | _ => false

/-- The step of a loop that aborts is one that throws. -/
theorem loopMove_aborts {choice : LoopChoice} {running : Bool} {t : Loop} {shm shm' : Shm}
    {pc pc' : LoopPc} {es : List SystemEvent}
    (h : LoopMove env choice shm running t pc shm' pc' es) (hfail : choice.fail = false)
    (hhealthy : pc.manager.queue.failing = false)
    (hholds : pc.Holds SharedTask.Acceptable Coherent) :
    ∀ e ∈ es, (LedgerEntry.loop e).throws = false := by
  cases h with
  | aborts hmove =>
      rw [hfail] at hmove
      exact absurd hholds (hmove.not_thrown hhealthy)
  | _ => simp [LedgerEntry.throws]

/-- No step puts down that a call has thrown. -/
theorem Unfailing.silent (h : Unfailing env s) {entries : List LedgerEntry}
    (hwaits : a.waitFails = false)
    (hstep : (ledgerMachine Client env timeQuantum algorithm).step s a = some (s', entries)) :
    ∀ e ∈ entries, e.throws = false := by
  obtain ⟨q, hinv⟩ := h.service
  obtain ⟨es, hclient, rfl⟩ := watch_step hstep
  cases a with
  | system a =>
      have hall : ∀ e ∈ es, (LedgerEntry.loop e).throws = false := by
        cases client_move hinv.fits hclient with
        | system hmove =>
            cases hmove with
            | quiet ha hshm hpc => exact fun _ hmem => absurd hmem List.not_mem_nil
            | loop hloop =>
                exact loopMove_aborts hloop hwaits (h.healthy (.inl _)) (h.everywhere.loops _)
      intro e hmem
      obtain ⟨e', hmem', rfl⟩ := List.mem_map.mp hmem
      exact hall e' hmem'
  | addTask c task choice =>
      intro e hmem
      rw [List.mem_singleton.mp hmem]
      rfl
  | client c choice =>
      simp only [ledgerEntries]
      have hfail : choice.fail = false := hwaits
      cases hmanager : managerStep env choice s.system.shm (s.client c) with
      | none => exact fun _ hmem => absurd hmem List.not_mem_nil
      | some r =>
          obtain ⟨shm', pc', reply⟩ := r
          have hmove := managerStep_move hmanager
          rw [hfail] at hmove
          cases reply with
          | none => exact fun _ hmem => absurd hmem List.not_mem_nil
          | some reply =>
              cases reply with
              | thrown message =>
                  exact absurd (h.everywhere.clients c) (hmove.not_thrown (h.healthy (.inr c)))
              | _ => exact fun _ hmem => absurd hmem List.not_mem_nil

/-- **Without a failing wait no call throws.**  Processor, scheduler, main thread
and any number of clients run in any interleaving from a quiescent segment whose
slots hold acceptable entries; the clients add coherent tasks, as all tasks of
all histories are, each `execute` ends as one of its task may end, and no
`sem_wait` fails.  Then no call of the manager ever throws, and what has left
the service has been executed, or dropped by `stop`. -/
theorem calls_never_throw {shm : Shm} {q : List SharedTask} {entries : List LedgerEntry}
    (h : Quiescent env.capacity shm q)
    (hslots : ∀ i, validPriority (shm.tasks i).priority = true)
    (hrun : RunWhere (ledgerMachine Client env timeQuantum algorithm)
      (fun s a => a.Admissible Coherent env s ∧ a.waitFails = false)
      (Service.begin Client shm) entries s) :
    ∀ e ∈ entries, e.throws = false := by
  have hboth : Unfailing env s ∧ ∀ e ∈ entries, e.throws = false := by
    refine hrun.invariant (fun entries s => Unfailing env s ∧ ∀ e ∈ entries, e.throws = false)
      ⟨⟨⟨q, serviceInv_begin h⟩, everywhere_begin hslots, fun u => ?_⟩, by simp⟩ ?_
    · cases u <;> rfl
    · intro entries s a s' es hinv hadmits hstep
      obtain ⟨hunfailing, hsilent⟩ := hinv
      obtain ⟨events, hclient, -⟩ := watch_step hstep
      refine ⟨hunfailing.stays hadmits.1 hadmits.2 hclient, fun e hmem => ?_⟩
      rcases List.mem_append.mp hmem with hbefore | hnow
      · exact hsilent e hbefore
      · exact hunfailing.silent hadmits.2 hstep e hnow
  exact hboth.2

end Runs

/-- In `execute`. -/
def LoopPc.executes : LoopPc → Bool
  | .executing _ => true
  | _ => false

/-- A check of the condition, for steps that execute nothing. -/
def ServiceAction.plainly (s : Service Unit) (a : ServiceAction Unit) : Bool :=
  !a.waitFails &&
    match a with
    | .addTask _ task _ =>
        validPriority task.dynamicPriority && task.isIoBound == (task.kind.type == .ioBoundTask)
    | .system (.loop .processor _) => !(s.system.pc .processor).executes
    | _ => true

theorem plainly_admits (env : Env) (s : Service Unit) (a : ServiceAction Unit)
    (h : a.plainly s = true) : a.Admissible Coherent env s ∧ a.waitFails = false := by
  simp only [ServiceAction.plainly, Bool.and_eq_true, Bool.not_eq_true'] at h
  refine ⟨?_, h.1⟩
  cases a with
  | addTask c task choice =>
      have hcoherent := h.2
      simp only [Bool.and_eq_true, beq_iff_eq] at hcoherent
      exact ⟨hcoherent.1, hcoherent.2⟩
  | client c choice => trivial
  | system a =>
      cases a with
      | call call => trivial
      | main => trivial
      | loop t choice =>
          cases t with
          | scheduler => trivial
          | processor =>
              intro task htask
              have hnot := h.2
              simp only [htask, LoopPc.executes] at hnot
              cases hnot

/-- The scheduler drains the one task; the client adds another, which the
processor takes, and a third. -/
def drained : List (ServiceAction Unit) :=
  starts ++ runs .scheduler 13 ++ adds 8 44 ++ runs .processor 12 ++ adds 9 44

theorem calls_never_throw_drained :
    ∃ s entries, RunWhere (ledgerMachine Unit envOne 500 (.roundRobinScheduling 0))
        (fun s a => a.Admissible Coherent envOne s ∧ a.waitFails = false) oneTask entries s ∧
      Multiset.card (submittedIds entries) = 2 ∧ ∀ e ∈ entries, e.throws = false := by
  have hexec : (exec (ledgerMachine Unit envOne 500 (.roundRobinScheduling 0)) oneTask
      drained).map (fun r => Multiset.card (submittedIds r.2)) = some 2 := by
    decide +kernel
  have halong : along (ledgerMachine Unit envOne 500 (.roundRobinScheduling 0))
      (fun s a => a.plainly s) oneTask drained = true := by
    decide +kernel
  obtain ⟨⟨s, entries⟩, hrun, hcard⟩ := Option.map_eq_some_iff.mp hexec
  have hadmitted := exec_runWhere (plainly_admits envOne) hrun halong
  have hslots : ∀ i, validPriority ((Shm.holding (cpuEntry 600)).tasks i).priority = true := by
    intro i
    cases i with
    | zero => decide
    | succ i => rfl
  exact ⟨s, entries, hadmitted, hcard,
    calls_never_throw (quiescent_holding (cpuEntry 600)) hslots hadmitted⟩

end TaskSheduler
