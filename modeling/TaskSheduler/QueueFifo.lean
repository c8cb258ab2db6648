import TaskSheduler.QueueInvariant
import Mathlib.Data.List.Infix

/-!
# The shared queue is a FIFO queue under every interleaving

The events of a run of `queueMachine` say which critical sections were left,
in which order and with what effect, and what the calls returned.  From the
invariant `QueueInv` every run keeps these facts about its events:

* the tasks enqueued are the tasks dequeued followed by the logical queue
  (`RunInv.order`), so dequeues come out as a prefix of enqueues;
* what a thread's `dequeue` calls return is what its sections took out
  (`RunInv.returns`), and its `enqueue` calls return once for each section
  (`RunInv.stored`);
* what its sections put in is what it has passed to `enqueue`, but for the
  calls that throw (`exec_storing`);
* every `print` has listed the logical queue of its moment (`RunInv.prints`).
-/

namespace TaskSheduler

open Interleaving RingBuffer

/-- The task a critical section of `enqueue` has stored. -/
def Note.enqueued? : Note → Option SharedTask
  | .left (.enqueued task) => some task
  | _ => none

/-- The task a critical section of `dequeue` has taken out. -/
def Note.dequeued? : Note → Option SharedTask
  | .left (.dequeued task) => some task
  | _ => none

/-- The task a call of `dequeue` returns. -/
def Note.returned? : Note → Option SharedTask
  | .finished (.dequeued task) => some task
  | _ => none

/-- The note says that a call of `enqueue` returns. -/
def Note.returnsEnqueue : Note → Bool
  | .finished .enqueued => true
  | _ => false

/-- The task passed to the `enqueue` call that begins. -/
def QueueAction.passed? {Tid : Type*} [DecidableEq Tid] (t : Tid) :
    QueueAction Tid → Option SharedTask
  | .call u (.enqueue task) => if u = t then some task else none
  | _ => none

section Trace

variable {Tid : Type*}

/-- The tasks passed to `enqueue`, in the order of their critical sections. -/
def enqueuedTasks (trace : List (Tid × Note)) : List SharedTask :=
  trace.filterMap fun e => e.2.enqueued?

/-- The tasks `dequeue` takes out, in the order of its critical sections. -/
def dequeuedTasks (trace : List (Tid × Note)) : List SharedTask :=
  trace.filterMap fun e => e.2.dequeued?

/-- The tasks taken out by the critical sections of thread `t`. -/
def dequeuedBy [DecidableEq Tid] (t : Tid) (trace : List (Tid × Note)) : List SharedTask :=
  trace.filterMap fun e => if e.1 = t then e.2.dequeued? else none

/-- The tasks returned by the `dequeue` calls of thread `t`. -/
def returnedBy [DecidableEq Tid] (t : Tid) (trace : List (Tid × Note)) : List SharedTask :=
  trace.filterMap fun e => if e.1 = t then e.2.returned? else none

/-- The tasks put in by the critical sections of thread `t`. -/
def enqueuedBy [DecidableEq Tid] (t : Tid) (trace : List (Tid × Note)) : List SharedTask :=
  trace.filterMap fun e => if e.1 = t then e.2.enqueued? else none

/-- How many `enqueue` calls of thread `t` have returned. -/
def enqueueReturns [DecidableEq Tid] (t : Tid) (trace : List (Tid × Note)) : Nat :=
  trace.countP fun e => decide (e.1 = t) && e.2.returnsEnqueue

/-- The tasks that thread `t` passes to `enqueue` in a schedule. -/
def passedBy [DecidableEq Tid] (t : Tid) (schedule : List (QueueAction Tid)) : List SharedTask :=
  schedule.filterMap (QueueAction.passed? t)

/-- The tasks enqueued and not yet dequeued, oldest first. -/
def pendingTasks (trace : List (Tid × Note)) : List SharedTask :=
  (enqueuedTasks trace).drop (dequeuedTasks trace).length

/-- Every `print` so far has listed exactly the tasks then pending. -/
def PrintsOk (trace : List (Tid × Note)) : Prop :=
  ∀ before t lines after, trace = before ++ (t, .left (.printed lines)) :: after →
    lines = (pendingTasks before).map SharedTask.line

/-- The logical queue after the events `trace`. -/
def queueAfter (trace : List (Tid × Note)) : List SharedTask :=
  trace.foldl (fun q e => afterNote q e.2) []

theorem enqueuedTasks_snoc (trace : List (Tid × Note)) (t : Tid) (n : Note) :
    enqueuedTasks (trace ++ [(t, n)]) = enqueuedTasks trace ++ n.enqueued?.toList := by
  cases h : n.enqueued? <;> simp [enqueuedTasks, h]

theorem dequeuedTasks_snoc (trace : List (Tid × Note)) (t : Tid) (n : Note) :
    dequeuedTasks (trace ++ [(t, n)]) = dequeuedTasks trace ++ n.dequeued?.toList := by
  cases h : n.dequeued? <;> simp [dequeuedTasks, h]

/-- Appending one event extends `PrintsOk` by the claim about that event. -/
theorem PrintsOk.snoc {trace : List (Tid × Note)} (h : PrintsOk trace) {t : Tid} {n : Note}
    (hn : ∀ lines, n = .left (.printed lines) →
      lines = (pendingTasks trace).map SharedTask.line) :
    PrintsOk (trace ++ [(t, n)]) := by
  intro before u lines after heq
  rcases List.eq_nil_or_concat after with rfl | ⟨rest, last, rfl⟩
  · obtain ⟨rfl, hlast⟩ := List.append_inj' heq rfl
    simp only [List.cons.injEq, Prod.mk.injEq, and_true] at hlast
    exact hn lines hlast.2
  · rw [List.concat_eq_append, ← List.cons_append, ← List.append_assoc] at heq
    obtain ⟨htrace, -⟩ := List.append_inj' heq rfl
    exact h before u lines rest htrace

/-- The facts every run keeps about its events, as far as they concern the
order of tasks. -/
structure OrderInv (q : List SharedTask) (trace : List (Tid × Note)) : Prop where
  order : enqueuedTasks trace = dequeuedTasks trace ++ q
  prints : PrintsOk trace

theorem OrderInv.pending {q : List SharedTask} {trace : List (Tid × Note)}
    (h : OrderInv q trace) : pendingTasks trace = q := by
  rw [pendingTasks, h.order, List.drop_left]

/-- A justified event keeps the order of tasks. -/
theorem OrderInv.note {q : List SharedTask} {trace : List (Tid × Note)}
    (h : OrderInv q trace) (t : Tid) {n : Note} (hn : NoteOk q n) :
    OrderInv (afterNote q n) (trace ++ [(t, n)]) := by
  have hprints : ∀ lines, n = .left (.printed lines) →
      lines = (pendingTasks trace).map SharedTask.line := by
    rintro lines rfl
    rw [h.pending]
    exact hn
  refine ⟨?_, h.prints.snoc hprints⟩
  rw [enqueuedTasks_snoc, dequeuedTasks_snoc, h.order]
  rcases n with ⟨_ | _ | _ | _⟩ | reply
  case left.enqueued task => simp [Note.enqueued?, Note.dequeued?, afterNote]
  case left.dequeued task =>
    obtain ⟨rest, rfl⟩ := hn
    simp [Note.enqueued?, Note.dequeued?, afterNote]
  case left.printed lines => simp [Note.enqueued?, Note.dequeued?, afterNote]
  case left.foundEmpty => exact hn.elim
  case finished => simp [Note.enqueued?, Note.dequeued?, afterNote]

/-- A step's events keep the order of tasks. -/
theorem OrderInv.notes {q : List SharedTask} {trace : List (Tid × Note)}
    (h : OrderInv q trace) (t : Tid) {notes : List Note} (hnotes : NotesOk q notes) :
    OrderInv (notes.foldl afterNote q) (trace ++ notes.map (t, ·)) := by
  induction notes generalizing q trace with
  | nil => simpa using h
  | cons n rest ih =>
      obtain ⟨hn, hrest⟩ := hnotes
      have := ih (h.note t hn) hrest
      simpa using this

end Trace

/-- The task a thread carries from its critical section to its `return`. -/
def QueuePc.carried : QueuePc → List SharedTask
  | .deqPostSlot task => [task]
  | _ => []

/-- One step hands on the carried task: what a section takes out is returned. -/
theorem queueStep_carried {capacity : Nat} {shm shm' : Shm} {pc pc' : QueuePc}
    {fail : Bool} {notes : List Note}
    (h : queueStep capacity shm pc fail = some (shm', pc', notes)) :
    pc.carried ++ notes.filterMap Note.dequeued? =
      notes.filterMap Note.returned? ++ pc'.carried := by
  cases queueStep_move h <;> rfl

/-- The task of an `enqueue` that has not left its critical section. -/
def QueuePc.storing : QueuePc → List SharedTask
  | .enqWaitSlot task | .enqWaitMutex task | .enqGiveBackSlot task | .enqLoadRear task
  | .enqStoreTask task _ | .enqStoreRear task _ | .enqAddCount task | .enqAddTotal task
  | .enqPostMutex task => [task]
  | _ => []

/-- Whether an `enqueue` has left its critical section and not returned yet. -/
def QueuePc.stored : QueuePc → Nat
  | .enqPostItem => 1
  | _ => 0

/-- An `enqueue` that has left its critical section returns. -/
theorem queueStep_stored {capacity : Nat} {shm shm' : Shm} {pc pc' : QueuePc}
    {fail : Bool} {notes : List Note}
    (h : queueStep capacity shm pc fail = some (shm', pc', notes)) :
    (notes.filterMap Note.enqueued?).length + pc.stored =
      notes.countP Note.returnsEnqueue + pc'.stored := by
  cases queueStep_move h <;> rfl

/-- One step puts in the task of the call, or keeps it for later, unless the
call throws. -/
theorem queueStep_storing {capacity : Nat} {shm shm' : Shm} {pc pc' : QueuePc}
    {fail : Bool} {notes : List Note}
    (h : queueStep capacity shm pc fail = some (shm', pc', notes)) :
    notes.filterMap Note.enqueued? ++ pc'.storing = pc.storing ∨
      notes.filterMap Note.enqueued? ++ pc'.storing = [] ∧
        ∃ message, .finished (.thrown message) ∈ notes := by
  cases queueStep_move h
  case enqSlotFails | enqGiveBackSlot => exact .inr ⟨rfl, _, List.mem_singleton_self _⟩
  all_goals exact .inl rfl

section Calls

variable {Tid : Type*} [DecidableEq Tid] {capacity : Nat} {t u : Tid}

@[simp] theorem enqueuedBy_append (left right : List (Tid × Note)) :
    enqueuedBy t (left ++ right) = enqueuedBy t left ++ enqueuedBy t right :=
  List.filterMap_append

/-- The sections of one's own step. -/
theorem enqueuedBy_own (t : Tid) (notes : List Note) :
    enqueuedBy t (notes.map (t, ·)) = notes.filterMap Note.enqueued? := by
  simp [enqueuedBy, List.filterMap_map]

/-- Those of another thread's step. -/
theorem enqueuedBy_other (h : u ≠ t) (notes : List Note) :
    enqueuedBy t (notes.map (u, ·)) = [] := by
  simp [enqueuedBy, List.filterMap_map, h]

/-- **What one step of anyone does to the enqueues of thread `t`.**  A task that
has been passed is put in or still to be put in, once, and it is lost only if
the call throws. -/
theorem machine_storing {s s' : QueueState Tid} {a : QueueAction Tid} {es : List (Tid × Note)}
    (t : Tid) (h : (queueMachine Tid capacity).step s a = some (s', es)) :
    (enqueuedBy t es ++ (s'.pc t).storing).Sublist ((s.pc t).storing ++ passedBy t [a]) ∧
      ((∀ message, (t, .finished (.thrown message)) ∉ es) →
        enqueuedBy t es ++ (s'.pc t).storing = (s.pc t).storing ++ passedBy t [a]) := by
  cases a with
  | call u call =>
      obtain ⟨hidle, rfl, rfl⟩ := queueMachine_call h
      have hsame : enqueuedBy t [] ++ (Function.update s.pc u call.entry t).storing =
          (s.pc t).storing ++ passedBy t [.call u call] := by
        by_cases hu : u = t
        · subst hu
          rw [hidle, Function.update_self]
          cases call <;> simp [passedBy, QueueAction.passed?, QueueCall.entry, QueuePc.storing,
            enqueuedBy]
        · rw [Function.update_of_ne (Ne.symm hu)]
          cases call <;> simp [passedBy, QueueAction.passed?, enqueuedBy, hu]
      exact ⟨hsame ▸ List.Sublist.refl _, fun _ => hsame⟩
  | step u fail =>
      obtain ⟨shm', pc', notes, hq, rfl, rfl⟩ := queueMachine_step h
      have hpassed : passedBy t [QueueAction.step u fail] = [] := rfl
      rw [hpassed, List.append_nil]
      by_cases hu : u = t
      · subst hu
        simp only [enqueuedBy_own, Function.update_self]
        rcases queueStep_storing hq with hsame | ⟨hnone, message, hthrown⟩
        · exact ⟨hsame ▸ List.Sublist.refl _, fun _ => hsame⟩
        · rw [hnone]
          exact ⟨List.nil_sublist _, fun hnot =>
            absurd (List.mem_map_of_mem hthrown) (hnot message)⟩
      · have hsame : enqueuedBy t (notes.map (u, ·)) ++ (Function.update s.pc u pc' t).storing =
            (s.pc t).storing := by
          rw [enqueuedBy_other hu, Function.update_of_ne (Ne.symm hu), List.nil_append]
        exact ⟨hsame ▸ List.Sublist.refl _, fun _ => hsame⟩

/-- **What thread `t` puts in is what it has passed**, in this order and each
task once, but for the calls that throw and the one under way. -/
theorem exec_storing {schedule : List (QueueAction Tid)} {s s' : QueueState Tid}
    {es : List (Tid × Note)} (t : Tid)
    (h : exec (queueMachine Tid capacity) s schedule = some (s', es)) :
    (enqueuedBy t es ++ (s'.pc t).storing).Sublist ((s.pc t).storing ++ passedBy t schedule) ∧
      ((∀ message, (t, .finished (.thrown message)) ∉ es) →
        enqueuedBy t es ++ (s'.pc t).storing = (s.pc t).storing ++ passedBy t schedule) := by
  induction schedule generalizing s es with
  | nil =>
      obtain ⟨rfl, rfl⟩ := exec_nil h
      have hsame : enqueuedBy t [] ++ (s'.pc t).storing =
          (s'.pc t).storing ++ passedBy t [] := (List.append_nil _).symm
      exact ⟨hsame ▸ List.Sublist.refl _, fun _ => hsame⟩
  | cons a rest ih =>
      obtain ⟨middle, left, right, hfirst, hrest, rfl⟩ := exec_cons h
      obtain ⟨hstep, hstepSame⟩ := machine_storing t hfirst
      obtain ⟨hlater, hlaterSame⟩ := ih hrest
      have hpassed : passedBy t (a :: rest) = passedBy t [a] ++ passedBy t rest :=
        List.filterMap_append (l := [a])
      rw [hpassed, enqueuedBy_append, List.append_assoc, ← List.append_assoc (s.pc t).storing]
      constructor
      · refine (hlater.append_left _).trans ?_
        rw [← List.append_assoc]
        exact hstep.append_right _
      · intro hnot
        have hleft : ∀ message, (t, .finished (.thrown message)) ∉ left :=
          fun message hmem => hnot message (List.mem_append_left _ hmem)
        have hright : ∀ message, (t, .finished (.thrown message)) ∉ right :=
          fun message hmem => hnot message (List.mem_append_right _ hmem)
        rw [hlaterSame hright, ← List.append_assoc, hstepSame hleft]

end Calls

section Run

variable {Tid : Type*} [Fintype Tid] [DecidableEq Tid] {capacity : Nat}

/-- The invariant of a run: the segment, the order of tasks, the returns. -/
structure RunInv (capacity : Nat) (trace : List (Tid × Note)) (s : QueueState Tid) : Prop where
  queue : QueueInv capacity (queueAfter trace) s
  order : OrderInv (queueAfter trace) trace
  returns : ∀ t, dequeuedBy t trace = returnedBy t trace ++ (s.pc t).carried
  stored : ∀ t, (enqueuedBy t trace).length = enqueueReturns t trace + (s.pc t).stored

theorem runInv_created (hpos : 0 < capacity) :
    RunInv capacity [] (QueueState.created Tid capacity) := by
  refine ⟨queueInv_created hpos, ⟨rfl, ?_⟩, fun t => rfl, fun t => rfl⟩
  intro before t lines after h
  simp at h

/-- Every step of every thread preserves the invariant of the run. -/
theorem runInv_step (hcap : capacity + 1 < 2 ^ 64) {trace es : List (Tid × Note)}
    {s s' : QueueState Tid} {a : QueueAction Tid} (h : RunInv capacity trace s)
    (hstep : (queueMachine Tid capacity).step s a = some (s', es)) :
    RunInv capacity (trace ++ es) s' := by
  cases a with
  | call t call =>
      obtain ⟨hidle, rfl, rfl⟩ := queueMachine_call hstep
      rw [List.append_nil]
      refine ⟨h.queue.call hidle call, h.order, fun u => ?_, fun u => ?_⟩
      · by_cases hu : u = t
        · subst hu
          have hentry : call.entry.carried = [] := by cases call <;> rfl
          have hret := h.returns u
          rw [hidle] at hret
          simp only [Function.update_self, hentry, hret]
          rfl
        · simpa only [Function.update_of_ne hu] using h.returns u
      · by_cases hu : u = t
        · subst hu
          have hentry : call.entry.stored = 0 := by cases call <;> rfl
          have hstored := h.stored u
          rw [hidle] at hstored
          simp only [Function.update_self, hentry, hstored]
          rfl
        · simpa only [Function.update_of_ne hu] using h.stored u
  | step t fail =>
      obtain ⟨shm', pc', notes, hq, rfl, rfl⟩ := queueMachine_step hstep
      obtain ⟨hnotes, hinv⟩ := h.queue.move hcap hq
      have hafter : queueAfter (trace ++ notes.map (t, ·)) =
          notes.foldl afterNote (queueAfter trace) := by
        simp [queueAfter, List.foldl_append, List.foldl_map]
      refine ⟨hafter ▸ hinv, hafter ▸ h.order.notes t hnotes, fun u => ?_, fun u => ?_⟩
      · have hret := h.returns u
        simp only [dequeuedBy, returnedBy, List.filterMap_append, List.filterMap_map] at hret ⊢
        by_cases hu : u = t
        · subst hu
          have hcarried := queueStep_carried hq
          simp only [Function.comp_def, ↓reduceIte, Function.update_self, hret,
            List.append_assoc] at hcarried ⊢
          rw [hcarried]
        · simp [Ne.symm hu, Function.update_of_ne hu, hret]
      · have hbefore := h.stored u
        simp only [enqueueReturns] at hbefore ⊢
        rw [enqueuedBy_append, List.length_append, List.countP_append, List.countP_map]
        by_cases hu : u = t
        · subst hu
          have hcount : notes.countP ((fun e : Tid × Note => decide (e.1 = u) &&
              e.2.returnsEnqueue) ∘ (u, ·)) = notes.countP Note.returnsEnqueue :=
            List.countP_congr fun _ _ => by simp
          have hstored := queueStep_stored hq
          rw [enqueuedBy_own, Function.update_self, hcount]
          omega
        · simp [enqueuedBy_other (Ne.symm hu), Function.comp_def, Ne.symm hu,
            Function.update_of_ne hu, hbefore]

/-- The invariant holds after every run from a created segment. -/
theorem runInv_run (hpos : 0 < capacity) (hcap : capacity + 1 < 2 ^ 64)
    {trace : List (Tid × Note)} {s : QueueState Tid}
    (h : Run (queueMachine Tid capacity) (QueueState.created Tid capacity) trace s) :
    RunInv capacity trace s :=
  h.invariant (RunInv capacity) (runInv_created hpos)
    fun _ _ _ _ _ hinv hstep => runInv_step hcap hinv hstep

/-- **FIFO under any interleaving.**  At most one thread is in a critical
section; the tasks taken out by `dequeue` are a prefix of the tasks put in by
`enqueue`, both in the order of their critical sections; each thread's
`dequeue` calls return what its sections took out, its `enqueue` calls return
once for each task its sections put in, and these are the tasks that it has
passed, in its order, without those of calls that throw; every `print` lists
exactly the tasks then pending, oldest first. -/
theorem queue_is_fifo (hpos : 1 ≤ capacity) (hcap : capacity ≤ countTasks)
    {trace : List (Tid × Note)} {s : QueueState Tid}
    (h : Run (queueMachine Tid capacity) (QueueState.created Tid capacity) trace s) :
    (∀ t u, (s.pc t).inCritical = true → (s.pc u).inCritical = true → t = u) ∧
    dequeuedTasks trace <+: enqueuedTasks trace ∧
    (∀ t, returnedBy t trace <+: dequeuedBy t trace ∧
      (s.pc t = .idle → returnedBy t trace = dequeuedBy t trace)) ∧
    PrintsOk trace ∧
    (∀ t, enqueueReturns t trace ≤ (enqueuedBy t trace).length ∧
      (s.pc t = .idle → enqueueReturns t trace = (enqueuedBy t trace).length)) ∧
    ∀ schedule, exec (queueMachine Tid capacity) (QueueState.created Tid capacity) schedule =
        some (s, trace) →
      ∀ t, (enqueuedBy t trace).Sublist (passedBy t schedule) ∧
        (s.pc t = .idle → (∀ message, (t, .finished (.thrown message)) ∉ trace) →
          enqueuedBy t trace = passedBy t schedule) := by
  have hinv := runInv_run hpos (by simp only [countTasks] at hcap; omega) h
  refine ⟨fun t u ht hu => hinv.queue.exclusive ht hu, ?_, fun t => ⟨?_, ?_⟩,
    hinv.order.prints, fun t => ⟨?_, ?_⟩, fun schedule hexec t => ?_⟩
  · exact ⟨_, hinv.order.order.symm⟩
  · exact ⟨_, (hinv.returns t).symm⟩
  · intro hidle
    have := hinv.returns t
    rw [hidle] at this
    simpa [QueuePc.carried] using this.symm
  · rw [hinv.stored t]
    exact Nat.le_add_right _ _
  · intro hidle
    rw [hinv.stored t, hidle]
    rfl
  · obtain ⟨hpassed, hsame⟩ := exec_storing t hexec
    refine ⟨(List.sublist_append_left _ _).trans hpassed, fun hidle hnot => ?_⟩
    have hstart : ((QueueState.created Tid capacity).pc t).storing = [] := rfl
    have hall := hsame hnot
    rw [hidle, hstart, List.nil_append] at hall
    exact (List.append_nil _).symm.trans hall

end Run

/-- Two threads on a one-slot queue: thread 1 starts its `dequeue` before
thread 0 has enqueued anything, and waits for the item, which thread 0 prints
before. -/
def handoverSchedule (task : SharedTask) : List (QueueAction (Fin 2)) :=
  [.call 0 (.enqueue task), .call 1 .dequeue] ++ List.replicate 9 (.step 0 false) ++
    [.call 0 .print] ++ List.replicate 7 (.step 0 false) ++ List.replicate 10 (.step 1 false)

/-- What the handover shows. -/
theorem handover_shows (task : SharedTask) :
    (exec (queueMachine (Fin 2) 1) (QueueState.created (Fin 2) 1) (handoverSchedule task)).map
      Prod.snd =
    some [(0, .left (.enqueued task)), (0, .finished .enqueued),
      (0, .left (.printed [task.line])), (0, .finished .printed),
      (1, .left (.dequeued task)), (1, .finished (.dequeued task))] :=
  rfl

/-- The handover is a run, to which `queue_is_fifo` applies; it lists and
dequeues the task that was enqueued. -/
theorem queue_is_fifo_handover :
    ∃ trace s task, Run (queueMachine (Fin 2) 1) (QueueState.created (Fin 2) 1) trace s ∧
      task.id = 7 ∧ trace = [(0, .left (.enqueued task)), (0, .finished .enqueued),
        (0, .left (.printed [task.line])), (0, .finished .printed),
        (1, .left (.dequeued task)), (1, .finished (.dequeued task))] ∧
      dequeuedTasks trace <+: enqueuedTasks trace ∧ PrintsOk trace ∧
      (enqueuedBy 0 trace).Sublist (passedBy 0 (handoverSchedule task)) := by
  obtain ⟨⟨s, trace⟩, hexec, hshows⟩ := Option.map_eq_some_iff.mp
    (handover_shows { SharedTask.zeroed with id := 7 })
  obtain ⟨-, hfifo, -, hprints, -, hpassed⟩ :=
    queue_is_fifo (by decide) (by decide) (exec_run hexec)
  exact ⟨trace, s, _, exec_run hexec, rfl, hshows, hfifo, hprints, (hpassed _ hexec 0).1⟩

end TaskSheduler
