import TaskSheduler.SchedulerSteps

/-!
# When a stop loses no unfinished task

Processor and scheduler are started and stopped any number of times, together
or the processor alone, and no `execute` throws.  Between two rounds, when the
threads have been joined, every id that was queued at the start is accounted
for: it is queued, it belongs to a task that is done with
(`SystemEvent.done`), or an event says that it was lost (`SystemEvent.lost`).

Only two kinds of steps lose a task (`putsBack`): the decision whether to put
it back, when `execute` has returned false and `running_` is false by then, and
a call of the manager that throws while it holds tasks.
-/

namespace TaskSheduler

open Interleaving

/-- The ids of the tasks that a call of the manager holds and has not stored. -/
def ManagerPc.unstored : ManagerPc → Multiset Int32
  | .idle => 0
  | .testing _ tasks => taskIds tasks
  | .inQueue purpose pc => taskIds purpose.kept + entryIds pc.toStore.toList

/-- The ids of tasks that are done with: executed for the last time, or rejected
by the decoder. -/
def SystemEvent.done : SystemEvent → Multiset Int32
  | .finished id => {id}
  | .aborted pc => entryIds pc.queue.taken.toList
  | _ => 0

/-- The ids of tasks that are gone and were not done with. -/
def SystemEvent.lost : SystemEvent → Multiset Int32
  | .threw id | .dropped id => {id}
  | .aborted pc => pc.unstored
  | _ => 0

theorem SystemEvent.gone_eq (e : SystemEvent) : e.gone = e.done + e.lost := by
  cases e with
  | finished id => rfl
  | threw id => rfl
  | dropped id => rfl
  | aborted pc =>
      cases pc with
      | idle => rfl
      | testing algorithm tasks => exact (zero_add _).symm
      | inQueue purpose pc =>
          simp only [SystemEvent.gone, SystemEvent.done, SystemEvent.lost, ManagerPc.owned,
            ManagerPc.queue, ManagerPc.unstored, entryIds_append]
          abel

/-- The ids of the tasks that the events say are done with. -/
def doneIds (trace : List SystemEvent) : Multiset Int32 := (trace.map SystemEvent.done).sum

/-- The ids of the tasks that the events say are lost. -/
def lostIds (trace : List SystemEvent) : Multiset Int32 := (trace.map SystemEvent.lost).sum

theorem goneIds_eq (trace : List SystemEvent) : goneIds trace = doneIds trace + lostIds trace := by
  induction trace with
  | nil => rfl
  | cons e rest ih =>
      have hgone : goneIds (e :: rest) = e.gone + goneIds rest := List.sum_cons
      have hdone : doneIds (e :: rest) = e.done + doneIds rest := List.sum_cons
      have hlost : lostIds (e :: rest) = e.lost + lostIds rest := List.sum_cons
      rw [hgone, hdone, hlost, ih, e.gone_eq]
      abel

theorem lostIds_eq_zero {trace : List SystemEvent} :
    lostIds trace = 0 ↔ ∀ e ∈ trace, e.lost = 0 := by
  rw [lostIds, List.sum_eq_zero_iff]
  simp

/-- Every task that was queued at the start and is not done with is queued. -/
def KeepsUnfinished (q : List SharedTask) (trace : List SystemEvent)
    (q' : List SharedTask) : Prop :=
  entryIds q' + doneIds trace = entryIds q

/-- No `execute` throws. -/
def executeReturns (s : System) : SystemAction → Bool
  | .loop t choice =>
      match s.pc t, choice.executed with
      | .executing _, .thrown => false
      | _, _ => true
  | _ => true

/-- The decoder is about to reject the entry that a `dequeue` returns. -/
def QueuePc.rejects : QueuePc → Bool
  | .deqPostSlot st => !validPriority st.priority
  | _ => false

/-- With this flag and this outcome of its `sem_wait`, a loop does not lose a
task that it holds. -/
def LoopPc.putsBack (running fail : Bool) : LoopPc → Bool
  | .keepTest _ => running
  | .managing pc =>
      !(pc.queue.throws fail || pc.queue.rejects) || decide (pc.unstored = 0)
  | _ => true

/-- The step does not lose a task that a loop holds. -/
def putsBack (s : System) : SystemAction → Bool
  | .loop t choice => (s.pc t).putsBack (s.running t) choice.fail
  | _ => true

section Run

variable {env : Env} {timeQuantum : Int} {algorithm : SchedulingAlgorithm} {s s' : System}
  {a : SystemAction} {trace es : List SystemEvent} {shm : Shm} {q : List SharedTask}

/-! ## Which steps lose a task -/

/-- A call of the manager throws at a step exactly if its `sem_wait` fails
there, or the decoder rejects the entry. -/
theorem ManagerMove.throws_iff {fail : Bool} {pc pc' : ManagerPc} {shm' : Shm}
    {reply : Option ManagerReply} (h : ManagerMove env fail shm pc shm' pc' reply) :
    (∃ message, reply = some (.thrown message)) ↔
      (pc.queue.throws fail || pc.queue.rejects) = true := by
  cases h with
  | found => exact iff_of_false (fun ⟨_, hne⟩ => nomatch hne) Bool.false_ne_true
  | foundEmpty _ hrefill =>
      refine iff_of_false ?_ Bool.false_ne_true
      rintro ⟨message, rfl⟩
      rcases hrefill.call_eq with ⟨hne, -⟩ | ⟨hne, -⟩ <;> cases hne
  | @inside purpose qpc qpc' shm' notes hstep hne =>
      have hthrows : qpc.throws fail = false := by
        rw [← Bool.not_eq_true]
        exact fun hthrows => hne (queueStep_throws hstep hthrows)
      have hrejects : qpc.rejects = false := by
        cases qpc with
        | deqPostSlot st =>
            cases hstep
            exact absurd rfl hne
        | _ => rfl
      simp [ManagerPc.queue, hthrows, hrejects]
  | finished hstep hends hresume =>
      cases hends with
      | thrown hthrows =>
          cases hresume
          exact iff_of_true ⟨_, rfl⟩ (by simp [ManagerPc.queue, hthrows])
      | dequeued st =>
          cases hresume with
          | got hvalid => simp [ManagerPc.queue, QueuePc.throws, QueuePc.rejects, hvalid]
          | drained hvalid => simp [ManagerPc.queue, QueuePc.throws, QueuePc.rejects, hvalid]
          | rejected hvalid => simp [ManagerPc.queue, QueuePc.throws, QueuePc.rejects, hvalid]
          | drainRejected hvalid =>
              simp [ManagerPc.queue, QueuePc.throws, QueuePc.rejects, hvalid]
      | enqueued => cases hresume <;> simp [ManagerPc.queue, QueuePc.throws, QueuePc.rejects]
      | printed lines =>
          refine iff_of_false ?_ (by simp [ManagerPc.queue, QueuePc.throws, QueuePc.rejects])
          rintro ⟨message, rfl⟩
          cases hresume with
          | reprinted hrefill => cases hrefill

/-- A call of the manager that does not throw loses nothing. -/
theorem ManagerMove.putsBack {fail : Bool} {pc pc' : ManagerPc} {shm' : Shm}
    {reply : Option ManagerReply} (h : ManagerMove env fail shm pc shm' pc' reply)
    (hreply : ∀ message, reply ≠ some (.thrown message)) (running : Bool) :
    (LoopPc.managing pc).putsBack running fail = true := by
  have hquiet : (pc.queue.throws fail || pc.queue.rejects) = false := by
    rw [← Bool.not_eq_true, ← h.throws_iff]
    rintro ⟨message, hthrown⟩
    exact hreply message hthrown
  simp only [LoopPc.putsBack, hquiet, Bool.not_false, Bool.true_or]

/-- **A step loses a task exactly if it does not put it back.** -/
theorem putsBack_iff (hreturns : executeReturns s a = true) (hmove : SystemMove env s a s' es) :
    putsBack s a = true ↔ ∀ e ∈ es, e.lost = 0 := by
  cases hmove with
  | quiet ha =>
      have hback : putsBack s a = true := by
        cases a with
        | loop t choice => exact absurd rfl (ha t choice)
        | _ => rfl
      exact iff_of_true hback (by simp)
  | @loop t choice shm' pc' es hmove =>
      simp only [putsBack]
      simp only [executeReturns] at hreturns
      generalize s.pc t = pc at hmove hreturns ⊢
      cases hmove with
      | manages hmove =>
          exact iff_of_true (hmove.putsBack (fun _ hne => nomatch hne) _) (by simp)
      | got hmove =>
          exact iff_of_true (hmove.putsBack (fun _ hne => by cases hne) _) (by simp)
      | returns hmove hreply =>
          have hback := hmove.putsBack (by rcases hreply with rfl | rfl <;> simp)
          exact iff_of_true (hback _) (by simp)
      | aborts hmove =>
          have hthrows := hmove.throws_iff.mp ⟨_, rfl⟩
          simp [LoopPc.putsBack, hthrows, SystemEvent.lost]
      | throws hthrown => simp [hthrown] at hreturns
      | keeps hrunning => exact iff_of_true hrunning (by simp)
      | @drops task hrunning =>
          refine iff_of_false (by simp [LoopPc.putsBack, hrunning]) ?_
          simp [SystemEvent.lost]
      | finishes => exact iff_of_true rfl (by simp [SystemEvent.lost])
      | _ => exact iff_of_true rfl (by simp)

/-! ## Any number of rounds -/

variable {schedule : List SystemAction}

/-- The steps at which nothing is lost are those that put a task back. -/
theorem along_putsBack_iff (h : Quiescent env.capacity shm q)
    (hexec : exec (systemMachine env timeQuantum algorithm) (System.begin shm) schedule =
      some (s, trace))
    (hreturns : along (systemMachine env timeQuantum algorithm) executeReturns
      (System.begin shm) schedule = true) :
    along (systemMachine env timeQuantum algorithm) putsBack (System.begin shm) schedule =
      true ↔ lostIds trace = 0 := by
  rw [lostIds_eq_zero]
  refine along_iff_events (fun s => ∃ initial trace q', SystemInv env initial trace s q')
    (fun s a s' es hI hreturns hstep => ?_) hexec hreturns ⟨_, _, _, systemInv_begin h⟩
  obtain ⟨initial, before, q₁, hinv⟩ := hI
  have hmove := system_move hinv.fits hstep
  obtain ⟨q₂, hinv'⟩ := systemInv_step hinv hmove
  exact ⟨⟨_, _, q₂, hinv'⟩, putsBack_iff hreturns hmove⟩

/-- Once the threads are joined, what is not queued is done with or lost. -/
theorem joined_accounts (h : Quiescent env.capacity shm q)
    (hexec : exec (systemMachine env timeQuantum algorithm) (System.begin shm) schedule =
      some (s, trace))
    (hjoined : ∀ t, (s.pc t).joinable = false) :
    ∃ q', Quiescent env.capacity s.shm q' ∧
      (KeepsUnfinished q trace q' ↔ lostIds trace = 0) := by
  obtain ⟨q', hinv⟩ := (exec_run hexec).invariant
    (fun trace s => ∃ q', SystemInv env (entryIds q) trace s q') ⟨q, systemInv_begin h⟩
    fun _ _ _ _ _ hI hstep => hI.elim fun _ hinv =>
      systemInv_step hinv (system_move hinv.fits hstep)
  have hidle : ∀ t, s.pc t = .off := fun t => LoopPc.eq_off (hjoined t)
  refine ⟨q', hinv.counted.quiescent fun t => ?_, ?_⟩
  · simp only [hidle t]
    rfl
  · have haccount : entryIds q' + doneIds trace + lostIds trace = entryIds q := by
      have hids := hinv.ids
      have hnone : ∑ t, (s.pc t).owned = 0 := by simp [hidle, LoopPc.owned]
      rw [hnone, goneIds_eq] at hids
      rw [← hids]
      abel
    rw [KeepsUnfinished, ← haccount, left_eq_add]

/-- **Stopping loses no unfinished task if and only if** no step of the rounds
loses one: at no put-back decision `running_` is false, and no call of the
manager throws while it holds tasks. -/
theorem stop_keeps_unfinished_iff (h : Quiescent env.capacity shm q)
    (hexec : exec (systemMachine env timeQuantum algorithm) (System.begin shm) schedule =
      some (s, trace))
    (hreturns : along (systemMachine env timeQuantum algorithm) executeReturns
      (System.begin shm) schedule = true)
    (hjoined : ∀ t, (s.pc t).joinable = false) :
    ∃ q', Quiescent env.capacity s.shm q' ∧
      (KeepsUnfinished q trace q' ↔
        along (systemMachine env timeQuantum algorithm) putsBack (System.begin shm) schedule =
          true) := by
  obtain ⟨q', hq', hkeeps⟩ := joined_accounts h hexec hjoined
  refine ⟨q', hq', ?_⟩
  rw [hkeeps, along_putsBack_iff h hexec hreturns]

end Run

/-! ## Two rounds with one task -/

/-- `execute` returns false: 100 of the 600 milliseconds are left. -/
def unfinishedChoice : LoopChoice :=
  { Choice.quiet with
    executed := .returned false { CpuIntensiveTask.built 7 600 0 with
      kind := .cpuIntensiveTask 600 100 } }

/-- The processor takes `n` steps. -/
def processorSteps (n : Nat) : List SystemAction :=
  List.replicate n (.loop .processor unfinishedChoice)

/-- `start`, and the processor up to the decision whether to put the task back. -/
def startedRound : List SystemAction :=
  [.call .processorStart, .main, .main] ++ processorSteps 13

/-- `stop` is called after the task has been put back. -/
def stopAfterPutBack : List SystemAction :=
  startedRound ++ processorSteps 17 ++ [.call .processorStop, .main] ++ processorSteps 1 ++
    [.main]

/-- `stop` clears `running_` right before the decision. -/
def stopBeforePutBack : List SystemAction :=
  startedRound ++ [.call .processorStop, .main] ++ processorSteps 2 ++ [.main]

/-- The system with a task of 600 milliseconds in the queue and a quantum of
500. -/
def oneTaskMachine : Machine System SystemAction SystemEvent :=
  systemMachine envOne 500 (.roundRobinScheduling 0)

theorem stopAfterPutBack_executes :
    (exec oneTaskMachine (System.begin (Shm.holding (cpuEntry 600)))
      stopAfterPutBack).isSome = true := by
  decide +kernel

/-- Nothing is lost when the stop comes later. -/
theorem stop_keeps_put_back :
    ∃ s trace q', exec oneTaskMachine (System.begin (Shm.holding (cpuEntry 600)))
        stopAfterPutBack = some (s, trace) ∧
      Quiescent 1 s.shm q' ∧ KeepsUnfinished [cpuEntry 600] trace q' := by
  have hq : Quiescent envOne.capacity (Shm.holding (cpuEntry 600)) [cpuEntry 600] :=
    quiescent_holding _
  have hreturns : along oneTaskMachine executeReturns
      (System.begin (Shm.holding (cpuEntry 600))) stopAfterPutBack = true := by
    decide +kernel
  have hback : along oneTaskMachine putsBack
      (System.begin (Shm.holding (cpuEntry 600))) stopAfterPutBack = true := by
    decide +kernel
  have hjoined : ∀ t, (((exec oneTaskMachine (System.begin (Shm.holding (cpuEntry 600)))
      stopAfterPutBack).get stopAfterPutBack_executes).1.pc t).joinable = false := by
    decide +kernel
  obtain ⟨q', hq', hiff⟩ :=
    stop_keeps_unfinished_iff hq (exec_get stopAfterPutBack_executes) hreturns hjoined
  exact ⟨_, _, q', exec_get stopAfterPutBack_executes, hq', hiff.mpr hback⟩

theorem stopBeforePutBack_executes :
    (exec oneTaskMachine (System.begin (Shm.holding (cpuEntry 600)))
      stopBeforePutBack).isSome = true := by
  decide +kernel

/-- **A stop loses the task** that `execute` has not finished. -/
theorem stop_loses_unfinished :
    ∃ s trace q', exec oneTaskMachine (System.begin (Shm.holding (cpuEntry 600)))
        stopBeforePutBack = some (s, trace) ∧
      along oneTaskMachine executeReturns (System.begin (Shm.holding (cpuEntry 600)))
        stopBeforePutBack = true ∧
      (∀ t, (s.pc t).joinable = false) ∧ Quiescent 1 s.shm q' ∧
      ¬ KeepsUnfinished [cpuEntry 600] trace q' := by
  have hq : Quiescent envOne.capacity (Shm.holding (cpuEntry 600)) [cpuEntry 600] :=
    quiescent_holding _
  have hreturns : along oneTaskMachine executeReturns
      (System.begin (Shm.holding (cpuEntry 600))) stopBeforePutBack = true := by
    decide +kernel
  have hlost : lostIds ((exec oneTaskMachine (System.begin (Shm.holding (cpuEntry 600)))
      stopBeforePutBack).get stopBeforePutBack_executes).2 ≠ 0 := by
    decide +kernel
  have hjoined : ∀ t, (((exec oneTaskMachine (System.begin (Shm.holding (cpuEntry 600)))
      stopBeforePutBack).get stopBeforePutBack_executes).1.pc t).joinable = false := by
    decide +kernel
  obtain ⟨q', hq', hiff⟩ :=
    joined_accounts hq (exec_get stopBeforePutBack_executes) hjoined
  exact ⟨_, _, q', exec_get stopBeforePutBack_executes, hreturns, hjoined, hq',
    fun hkeeps => hlost (hiff.mp hkeeps)⟩

end TaskSheduler
