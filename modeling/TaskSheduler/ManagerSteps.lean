import TaskSheduler.ManagerMachine
import Mathlib.Data.Multiset.AddSub
import Mathlib.Tactic.Abel

/-!
# What a step of a manager call can do

`ManagerMove` is the list of everything `managerStep` can do
(`managerStep_move`): a test of `reorder_tasks` that found tasks or found the
queue empty, a step inside a queue call, or the end of a queue call with what
follows it (`Resumes`).  The lemmas about it are what later invariants use: a
move keeps the segment consistent (`ManagerMove.countedInv`), stays in the
call it belongs to (`ManagerMove.call_eq`), and loses no id unless the call
throws (`ManagerMove.ids`).
-/

namespace TaskSheduler

open Interleaving Programs FloatArithmetic

/-! ## The moves -/

/-- The next step of the queue call throws, if its `sem_wait` has the outcome
`fail`. -/
def QueuePc.throws (fail : Bool) : QueuePc → Bool
  | .enqWaitSlot _ | .deqWaitItem | .prnWaitMutex => fail
  | .enqGiveBackSlot _ | .deqGiveBackItem | .deqEmptyPostItem => true
  | _ => false

/-- The program points that only a failed `sem_wait`, or a count of zero under
the mutex, leads to: the call is about to throw. -/
def QueuePc.failing : QueuePc → Bool
  | .enqGiveBackSlot _ | .deqGiveBackItem | .deqEmptyPostMutex | .deqEmptyPostItem => true
  | _ => false

/-- A step that throws has no effect on the counted queue, and its thread has
taken nothing out. -/
theorem QueuePc.throws_silent {fail : Bool} {pc : QueuePc} (h : pc.throws fail = true) :
    (∀ q, pc.effect q = q) ∧ pc.taken = none ∧ (fail = true ∨ pc.failing = true) := by
  cases pc <;> simp only [QueuePc.throws, Bool.false_eq_true] at h <;>
    exact ⟨fun _ => rfl, rfl, by simp [QueuePc.failing, h]⟩

/-- A step that throws ends the call. -/
theorem queueStep_throws {capacity : Nat} {shm shm' : Shm} {pc pc' : QueuePc} {fail : Bool}
    {notes : List Note} (h : queueStep capacity shm pc fail = some (shm', pc', notes))
    (hthrows : pc.throws fail = true) : pc' = .idle := by
  cases queueStep_move h with
  | enqSlotFails => rfl
  | enqGiveBackSlot => rfl
  | deqItemFails => rfl
  | deqGiveBackItem => rfl
  | deqEmptyPostItem => rfl
  | prnMutexFails => rfl
  | enqTakesSlot hfail => exact absurd hthrows (by simp [QueuePc.throws, hfail])
  | deqTakesItem hfail => exact absurd hthrows (by simp [QueuePc.throws, hfail])
  | prnTakesMutex hfail => exact absurd hthrows (by simp [QueuePc.throws, hfail])
  | _ => cases hthrows

/-- The end of a queue call, with the reply it gives; `fail` is the outcome of
the `sem_wait` at its last step, if that is one. -/
inductive Finishes (fail : Bool) : QueuePc → Reply → Prop
  | enqueued : Finishes fail .enqPostItem .enqueued
  | dequeued (st : SharedTask) : Finishes fail (.deqPostSlot st) (.dequeued st)
  | printed (lines : List String) : Finishes fail (.prnPostMutex lines) .printed
  | thrown {pc : QueuePc} {message : String} (hthrows : pc.throws fail = true) :
      Finishes fail pc (.thrown message)

/-- The first program point of a call. -/
inductive Begins : ManagerCall → ManagerPc → Prop
  | getNextTask : Begins .getNextTask (.inQueue .getting QueueCall.dequeue.entry)
  | addTask {task : UnixTask} {st : SharedTask} (h : Encodes task st) :
      Begins (.addTask task) (.inQueue (.adding task) (.enqWaitSlot st))
  | reorderTasks {algorithm : SchedulingAlgorithm} :
      Begins (.reorderTasks algorithm) (.testing algorithm [])

/-- What the refill loop does next, with its tasks still to be added. -/
inductive Refills (algorithm : SchedulingAlgorithm) :
    List UnixTask → ManagerPc → Option ManagerReply → Prop
  | done : Refills algorithm [] .idle (some .reordered)
  | next {task : UnixTask} {rest : List UnixTask} {st : SharedTask} (h : Encodes task st) :
      Refills algorithm (task :: rest)
        (.inQueue (.refilling algorithm rest) (.enqWaitSlot st)) none

/-- What follows a queue call. -/
inductive Resumes (env : Env) : Purpose → Reply → ManagerPc → Option ManagerReply → Prop
  | thrown {purpose : Purpose} {message : String} :
      Resumes env purpose (.thrown message) .idle (some (.thrown message))
  | got {st : SharedTask} {task : UnixTask} {time : Int}
      (hvalid : validPriority st.priority = true) (h : Decodes env.float st time task) :
      Resumes env .getting (.dequeued st) .idle (some (.got task))
  | rejected {st : SharedTask} {message : String}
      (hvalid : validPriority st.priority = false) :
      Resumes env .getting (.dequeued st) .idle (some (.thrown message))
  | stored {task : UnixTask} :
      Resumes env (.adding task) .enqueued
        (.inQueue (.printing task) QueueCall.print.entry) none
  | added {task : UnixTask} : Resumes env (.printing task) .printed .idle (some .added)
  | drained {algorithm : SchedulingAlgorithm} {tasks : List UnixTask} {st : SharedTask}
      {task : UnixTask} {time : Int} (hvalid : validPriority st.priority = true)
      (h : Decodes env.float st time task) :
      Resumes env (.draining algorithm tasks) (.dequeued st)
        (.testing algorithm (tasks ++ [task])) none
  | drainRejected {algorithm : SchedulingAlgorithm} {tasks : List UnixTask} {st : SharedTask}
      {message : String} (hvalid : validPriority st.priority = false) :
      Resumes env (.draining algorithm tasks) (.dequeued st) .idle (some (.thrown message))
  | refilled {algorithm : SchedulingAlgorithm} {rest : List UnixTask} :
      Resumes env (.refilling algorithm rest) .enqueued
        (.inQueue (.reprinting algorithm rest) QueueCall.print.entry) none
  | reprinted {algorithm : SchedulingAlgorithm} {rest : List UnixTask} {pc : ManagerPc}
      {reply : Option ManagerReply} (h : Refills algorithm rest pc reply) :
      Resumes env (.reprinting algorithm rest) .printed pc reply

/-- Everything one step of a manager call can do; `fail` is the outcome of its
`sem_wait`, if it has one. -/
inductive ManagerMove (env : Env) (fail : Bool) (shm : Shm) :
    ManagerPc → Shm → ManagerPc → Option ManagerReply → Prop
  | found {algorithm : SchedulingAlgorithm} {tasks : List UnixTask} (h : shm.count ≠ 0) :
      ManagerMove env fail shm (.testing algorithm tasks) shm
        (.inQueue (.draining algorithm tasks) QueueCall.dequeue.entry) none
  | foundEmpty {algorithm : SchedulingAlgorithm} {tasks : List UnixTask} {r : Nat}
      {pc' : ManagerPc} {reply : Option ManagerReply} (h : shm.count = 0)
      (hrefill : Refills algorithm (updatedFrom env algorithm r tasks) pc' reply) :
      ManagerMove env fail shm (.testing algorithm tasks) shm pc' reply
  | inside {purpose : Purpose} {pc pc' : QueuePc} {shm' : Shm} {notes : List Note}
      (hstep : queueStep env.capacity shm pc fail = some (shm', pc', notes))
      (hne : pc' ≠ .idle) :
      ManagerMove env fail shm (.inQueue purpose pc) shm' (.inQueue purpose pc') none
  | finished {purpose : Purpose} {pc : QueuePc} {shm' : Shm} {notes : List Note}
      {ended : Reply} {pc' : ManagerPc} {reply : Option ManagerReply}
      (hstep : queueStep env.capacity shm pc fail = some (shm', .idle, notes))
      (hends : Finishes fail pc ended) (hresume : Resumes env purpose ended pc' reply) :
      ManagerMove env fail shm (.inQueue purpose pc) shm' pc' reply

/-- A step of a queue call either stays in it or ends it with its reply. -/
theorem queueStep_reply {capacity : Nat} {shm shm' : Shm} {pc pc' : QueuePc} {fail : Bool}
    {notes : List Note} (h : queueStep capacity shm pc fail = some (shm', pc', notes)) :
    (notes.findSome? Note.reply? = none ∧ pc' ≠ .idle) ∨
      ∃ ended, notes.findSome? Note.reply? = some ended ∧ pc' = .idle ∧
        Finishes fail pc ended := by
  cases queueStep_move h with
  | enqPostItem => exact .inr ⟨_, rfl, rfl, .enqueued⟩
  | deqPostSlot => exact .inr ⟨_, rfl, rfl, .dequeued _⟩
  | prnPostMutex => exact .inr ⟨_, rfl, rfl, .printed _⟩
  | enqSlotFails hfail => exact .inr ⟨_, rfl, rfl, .thrown hfail⟩
  | deqItemFails hfail => exact .inr ⟨_, rfl, rfl, .thrown hfail⟩
  | prnMutexFails hfail => exact .inr ⟨_, rfl, rfl, .thrown hfail⟩
  | enqGiveBackSlot => exact .inr ⟨_, rfl, rfl, .thrown rfl⟩
  | deqGiveBackItem => exact .inr ⟨_, rfl, rfl, .thrown rfl⟩
  | deqEmptyPostItem => exact .inr ⟨_, rfl, rfl, .thrown rfl⟩
  | _ => exact .inl ⟨rfl, by simp⟩

/-- The calls on a queue, without their arguments. -/
inductive QueueKind
  | enqueue
  | dequeue
  | print
deriving DecidableEq

/-- The queue call that a program point is in. -/
def QueuePc.kind : QueuePc → Option QueueKind
  | .idle => none
  | .enqWaitSlot _ | .enqWaitMutex _ | .enqGiveBackSlot _ | .enqLoadRear _
  | .enqStoreTask _ _ | .enqStoreRear _ _ | .enqAddCount _ | .enqAddTotal _
  | .enqPostMutex _ | .enqPostItem => some .enqueue
  | .deqWaitItem | .deqWaitMutex | .deqGiveBackItem | .deqLoadFront | .deqLoadCount _
  | .deqEmptyPostMutex | .deqEmptyPostItem | .deqLoadTask _ | .deqStoreFront _ _
  | .deqSubCount _ | .deqAddTotal _ | .deqPostMutex _ | .deqPostSlot _ => some .dequeue
  | .prnWaitMutex | .prnLoadFront | .prnLoadRear _ | .prnLoadCount _
  | .prnLoadTask _ _ _ | .prnPostMutex _ => some .print

/-- The queue call that is made for a purpose. -/
def Purpose.kind : Purpose → QueueKind
  | .getting | .draining _ _ => .dequeue
  | .adding _ | .refilling _ _ => .enqueue
  | .printing _ | .reprinting _ _ => .print

/-- The reply is one of the queue call that is made for the purpose. -/
def Reply.answers (purpose : Purpose) : Reply → Prop
  | .enqueued => purpose.kind = .enqueue
  | .dequeued _ => purpose.kind = .dequeue
  | .printed => purpose.kind = .print
  | .thrown _ => True

section Local

variable {env : Env} {choice : Choice} {shm : Shm}

/-- Local code that returned, returned from some world. -/
theorem Choice.run_eq {α : Type} {x : Program World α} {a : α}
    (h : choice.run shm x = some a) : ∃ w w', x w = .ok a w' := by
  unfold Choice.run at h
  cases hx : x { World.begin shm with
      readings := choice.readings, totals := choice.totals, locals := choice.locals } with
  | ok b w' =>
      rw [hx] at h
      cases h
      exact ⟨_, w', hx⟩
  | error e w' =>
      rw [hx] at h
      cases h

/-- Entering `add_task` never stops; it leads to the `enqueue` of an entry
that encodes the task. -/
theorem enter_returns (env : Env) (purpose : Purpose) (task : UnixTask) (w : World) :
    ∃ st w', enter env purpose task w = .ok (.inQueue purpose (.enqWaitSlot st)) w' ∧
      Encodes task st := by
  obtain ⟨st, r, t, hencode, hkeeps, -⟩ := convertToSharedTask_returns env
    { w with locals := w.locals + 1 } task (env.uninitialised w.locals)
  refine ⟨st, { w with readings := r, totals := t, locals := w.locals + 1 }, ?_, hkeeps⟩
  unfold enter
  rw [returns (anySharedTask_apply env w), returns hencode]
  rfl

/-- The refill loop never stops between two queue calls. -/
theorem refill_moves (env : Env) (algorithm : SchedulingAlgorithm) (tasks : List UnixTask)
    (w : World) :
    ∃ pc reply w', refill env algorithm tasks w = .ok (pc, reply) w' ∧
      Refills algorithm tasks pc reply := by
  cases tasks with
  | nil => exact ⟨_, _, w, rfl, .done⟩
  | cons task rest =>
      obtain ⟨st, w', henter, hkeeps⟩ := enter_returns env (.refilling algorithm rest) task w
      refine ⟨_, _, w', ?_, .next hkeeps⟩
      rw [refill, returns henter]
      rfl

/-- A call begins at its first shared action. -/
theorem start_begins {call : ManagerCall} {pc : ManagerPc}
    (h : choice.run shm (start env call) = some pc) : Begins call pc := by
  obtain ⟨w, w', hrun⟩ := Choice.run_eq h
  cases call with
  | getNextTask =>
      cases hrun
      exact .getNextTask
  | addTask task =>
      obtain ⟨st, w₁, henter, hkeeps⟩ := enter_returns env (.adding task) task w
      rw [start, henter] at hrun
      cases hrun
      exact .addTask hkeeps
  | reorderTasks algorithm =>
      cases hrun
      exact .reorderTasks

/-- An entry that was dequeued is decoded, or rejected with an exception. -/
theorem convertFromSharedTask_cases (env : Env) (st : SharedTask) (w : World) :
    (validPriority st.priority = true ∧ ∃ task time w',
      convertFromSharedTask env st w = .ok task w' ∧ Decodes env.float st time task) ∨
    (validPriority st.priority = false ∧ ∃ message w',
      convertFromSharedTask env st w = .error (.thrown message) w') := by
  cases hvalid : validPriority st.priority with
  | true =>
      exact .inl ⟨rfl, _, _, _, convertFromSharedTask_apply hvalid, decoded_decodes _ _ _ _⟩
  | false => exact .inr ⟨rfl, _, _, convertFromSharedTask_throws hvalid⟩

/-- What follows a queue call returns, and it is on the list: an exception ends
the call of the manager. -/
theorem resume_returns {purpose : Purpose} {ended : Reply} (h : ended.answers purpose)
    (w : World) :
    ∃ pc reply w', orThrown (resume env purpose ended) w = .ok (pc, reply) w' ∧
      Resumes env purpose ended pc reply := by
  have hreturned : ∀ {pc reply w'}, resume env purpose ended w = .ok (pc, reply) w' →
      Resumes env purpose ended pc reply →
        ∃ pc reply w', orThrown (resume env purpose ended) w = .ok (pc, reply) w' ∧
          Resumes env purpose ended pc reply :=
    fun hr hresumes => ⟨_, _, _, catchThrown_returns hr, hresumes⟩
  have hraised : ∀ {message w'}, resume env purpose ended w = .error (.thrown message) w' →
      Resumes env purpose ended .idle (some (.thrown message)) →
        ∃ pc reply w', orThrown (resume env purpose ended) w = .ok (pc, reply) w' ∧
          Resumes env purpose ended pc reply :=
    fun hr hresumes => ⟨_, _, _, (catchThrown_thrown hr).trans rfl, hresumes⟩
  cases ended with
  | thrown message =>
      have hraise : resume env purpose (.thrown message) = raise message := by
        cases purpose <;> rfl
      exact hraised (by rw [hraise]; rfl) .thrown
  | dequeued st =>
      cases purpose with
      | getting =>
          rcases convertFromSharedTask_cases env st w with
            ⟨hvalid, task, time, w₁, hdecode, hkeeps⟩ | ⟨hvalid, message, w₁, hdecode⟩
          · exact hreturned (by rw [resume, returns hdecode]; rfl) (.got hvalid hkeeps)
          · exact hraised (by rw [resume, stops hdecode]) (.rejected hvalid)
      | draining algorithm tasks =>
          rcases convertFromSharedTask_cases env st w with
            ⟨hvalid, task, time, w₁, hdecode, hkeeps⟩ | ⟨hvalid, message, w₁, hdecode⟩
          · exact hreturned (by rw [resume, returns hdecode]; rfl) (.drained hvalid hkeeps)
          · exact hraised (by rw [resume, stops hdecode]) (.drainRejected hvalid)
      | _ => cases h
  | enqueued =>
      cases purpose with
      | adding task => exact hreturned rfl .stored
      | refilling algorithm rest => exact hreturned rfl .refilled
      | _ => cases h
  | printed =>
      cases purpose with
      | printing task => exact hreturned rfl .added
      | reprinting algorithm rest =>
          obtain ⟨pc, reply, w₁, hrefill, hmoves⟩ := refill_moves env algorithm rest w
          exact hreturned hrefill (.reprinted hmoves)
      | _ => cases h

/-- What follows a queue call is on the list. -/
theorem resume_resumes {purpose : Purpose} {ended : Reply} {pc' : ManagerPc}
    {reply : Option ManagerReply}
    (h : choice.run shm (orThrown (resume env purpose ended)) = some (pc', reply)) :
    Resumes env purpose ended pc' reply := by
  obtain ⟨w, w', hrun⟩ := Choice.run_eq h
  by_cases hanswers : ended.answers purpose
  · obtain ⟨pc, out, w₁, hreturns, hresumes⟩ := resume_returns hanswers w
    rw [hreturns] at hrun
    cases hrun
    exact hresumes
  · have hstuck : resume env purpose ended = throw .blocked := by
      cases ended <;> cases purpose <;> first | rfl | exact absurd trivial hanswers |
        exact absurd rfl hanswers
    rw [orThrown, hstuck] at hrun
    cases hrun

end Local

/-- **Every step of a manager call is on the list.** -/
theorem managerStep_move {env : Env} {choice : Choice} {shm shm' : Shm} {pc pc' : ManagerPc}
    {reply : Option ManagerReply}
    (h : managerStep env choice shm pc = some (shm', pc', reply)) :
    ManagerMove env choice.fail shm pc shm' pc' reply := by
  cases pc with
  | idle => cases h
  | testing algorithm tasks =>
      simp only [managerStep] at h
      by_cases hcount : shm.count = 0
      · rw [if_pos hcount, Option.map_eq_some_iff] at h
        obtain ⟨⟨pc, out⟩, hrun, heq⟩ := h
        cases heq
        obtain ⟨w, w', hx⟩ := Choice.run_eq hrun
        rw [returns (update_returns env algorithm tasks w)] at hx
        obtain ⟨pc₁, out₁, w₁, hrefill, hmoves⟩ := refill_moves env algorithm
          (updatedFrom env algorithm w.readings tasks)
          { w with readings := w.readings + algorithm.readings tasks.length }
        rw [hrefill] at hx
        cases hx
        exact .foundEmpty hcount hmoves
      · rw [if_neg hcount] at h
        cases h
        exact .found hcount
  | inQueue purpose pc =>
      simp only [managerStep, Option.bind_eq_some_iff] at h
      obtain ⟨⟨shm₁, pc₁, notes⟩, hstep, h⟩ := h
      rcases queueStep_reply hstep with ⟨hnone, hne⟩ | ⟨ended, hsome, rfl, hends⟩
      · simp only [hnone, Option.some.injEq, Prod.mk.injEq] at h
        obtain ⟨rfl, rfl, rfl⟩ := h
        exact .inside hstep hne
      · simp only [hsome, Option.map_eq_some_iff] at h
        obtain ⟨⟨pc₂, out⟩, hrun, heq⟩ := h
        cases heq
        exact .finished hstep hends (resume_resumes hrun)

/-! ## What moves keep -/

/-- A thread is in the queue call that its purpose asks for. -/
def ManagerPc.Fits : ManagerPc → Prop
  | .inQueue purpose pc => pc.kind = some purpose.kind
  | _ => True

/-- A step inside a queue call stays in that call. -/
theorem queueStep_kind {capacity : Nat} {shm shm' : Shm} {pc pc' : QueuePc} {fail : Bool}
    {notes : List Note} (h : queueStep capacity shm pc fail = some (shm', pc', notes))
    (hne : pc' ≠ .idle) : pc'.kind = pc.kind := by
  cases queueStep_move h <;> first | rfl | exact absurd rfl hne

/-- A step inside a queue call hands on the entry the thread holds: only the
two updates of the count change that. -/
theorem queueStep_inHand {capacity : Nat} {shm shm' : Shm} {pc pc' : QueuePc} {fail : Bool}
    {notes : List Note} (h : queueStep capacity shm pc fail = some (shm', pc', notes))
    (hne : pc' ≠ .idle) :
    (pc'.toStore = pc.toStore ∧ pc'.taken = pc.taken ∧ ∀ q, pc.effect q = q) ∨
      (∃ task, pc = .enqAddCount task ∧ pc' = .enqAddTotal task) ∨
        ∃ task, pc = .deqSubCount task ∧ pc' = .deqAddTotal task := by
  cases queueStep_move h with
  | enqAddCount => exact .inr (.inl ⟨_, rfl, rfl⟩)
  | deqSubCount => exact .inr (.inr ⟨_, rfl, rfl⟩)
  | _ => first | exact .inl ⟨rfl, rfl, fun _ => rfl⟩ | exact absurd rfl hne

/-- While no `sem_wait` fails and the count stays positive for a dequeue that
has claimed an item, no call comes to the point of throwing. -/
theorem queueStep_failing {capacity : Nat} {shm shm' : Shm} {pc pc' : QueuePc}
    {notes : List Note} (h : queueStep capacity shm pc false = some (shm', pc', notes))
    (hfailing : pc.failing = false) (hcount : pc.heldItems ≤ shm.count) :
    pc'.failing = false := by
  cases queueStep_move h with
  | deqFindsNone hnone =>
      simp only [QueuePc.heldItems, hnone] at hcount
      omega
  | enqMutexFails hfail => cases hfail
  | deqMutexFails hfail => cases hfail
  | deqEmptyPostMutex => cases hfailing
  | _ => rfl

section Moves

variable {env : Env} {fail : Bool} {shm shm' : Shm} {pc pc' : ManagerPc}
  {reply : Option ManagerReply}

/-- A thread between two queue calls, or at the first step of one. -/
def ManagerPc.Starts (pc : ManagerPc) : Prop :=
  pc.queue = .idle ∨ ∃ call : QueueCall, pc.queue = call.entry

theorem Begins.starts {call : ManagerCall} (h : Begins call pc) : pc.Starts ∧ pc.Fits := by
  cases h with
  | getNextTask => exact ⟨.inr ⟨.dequeue, rfl⟩, rfl⟩
  | @addTask task st _ => exact ⟨.inr ⟨.enqueue st, rfl⟩, rfl⟩
  | reorderTasks => exact ⟨.inl rfl, trivial⟩

theorem Refills.starts {algorithm : SchedulingAlgorithm} {tasks : List UnixTask}
    (h : Refills algorithm tasks pc reply) : pc.Starts ∧ pc.Fits := by
  cases h with
  | done => exact ⟨.inl rfl, trivial⟩
  | @next task rest st hkeeps => exact ⟨.inr ⟨.enqueue st, rfl⟩, rfl⟩

theorem Resumes.starts {purpose : Purpose} {ended : Reply}
    (h : Resumes env purpose ended pc reply) : pc.Starts ∧ pc.Fits := by
  cases h with
  | stored => exact ⟨.inr ⟨.print, rfl⟩, rfl⟩
  | refilled => exact ⟨.inr ⟨.print, rfl⟩, rfl⟩
  | reprinted hrefill => exact hrefill.starts
  | _ => exact ⟨.inl rfl, trivial⟩

/-- The purpose of a queue call always fits it. -/
theorem ManagerMove.fits (h : ManagerMove env fail shm pc shm' pc' reply) (hfits : pc.Fits) :
    pc'.Fits := by
  cases h with
  | found => rfl
  | foundEmpty _ hrefill => exact hrefill.starts.2
  | inside hstep hne => exact (queueStep_kind hstep hne).trans hfits
  | finished _ _ hresume => exact hresume.starts.2

theorem ManagerPc.Starts.healthy (h : pc.Starts) : pc.queue.failing = false := by
  rcases h with hidle | ⟨call, hcall⟩
  · rw [hidle]
    rfl
  · rw [hcall]
    cases call <;> rfl

/-- While no `sem_wait` fails, no call comes to the point of throwing. -/
theorem ManagerMove.healthy (h : ManagerMove env false shm pc shm' pc' reply)
    (hhealthy : pc.queue.failing = false) (hcount : pc.queue.heldItems ≤ shm.count) :
    pc'.queue.failing = false := by
  cases h with
  | found => rfl
  | foundEmpty _ hrefill => exact hrefill.starts.1.healthy
  | inside hstep _ => exact queueStep_failing hstep hhealthy hcount
  | finished _ _ hresume => exact hresume.starts.1.healthy

theorem Refills.call_eq {algorithm : SchedulingAlgorithm} {tasks : List UnixTask}
    (h : Refills algorithm tasks pc reply) :
    (reply = none ∧ pc.call = some (.reorderTasks algorithm)) ∨
      (reply = some .reordered ∧ pc = .idle ∧ tasks = []) := by
  cases h with
  | done => exact .inr ⟨rfl, rfl, rfl⟩
  | next => exact .inl ⟨rfl, rfl⟩

theorem Resumes.call_eq {purpose : Purpose} {ended : Reply}
    (h : Resumes env purpose ended pc reply) :
    (reply = none ∧ pc.call = some purpose.call) ∨ (reply.isSome = true ∧ pc = .idle) := by
  cases h with
  | stored => exact .inl ⟨rfl, rfl⟩
  | drained => exact .inl ⟨rfl, rfl⟩
  | refilled => exact .inl ⟨rfl, rfl⟩
  | reprinted hrefill =>
      rcases hrefill.call_eq with hgoes | ⟨rfl, hidle, -⟩
      · exact .inl hgoes
      · exact .inr ⟨rfl, hidle⟩
  | _ => exact .inr ⟨rfl, rfl⟩

/-- A thread stays in its call until the call replies. -/
theorem ManagerMove.call_eq (h : ManagerMove env fail shm pc shm' pc' reply) :
    (reply = none ∧ pc'.call = pc.call) ∨ (reply.isSome = true ∧ pc' = .idle) := by
  cases h with
  | found => exact .inl ⟨rfl, rfl⟩
  | foundEmpty _ hrefill =>
      rcases hrefill.call_eq with hgoes | ⟨rfl, hidle, -⟩
      · exact .inl hgoes
      · exact .inr ⟨rfl, hidle⟩
  | inside => exact .inl ⟨rfl, rfl⟩
  | finished _ _ hresume => exact hresume.call_eq

section Counted

variable {Tid : Type*} [Fintype Tid] [DecidableEq Tid] {q : List SharedTask}
  {queues : Tid → QueuePc} {t : Tid}

/-- Coming to the first step of a queue call keeps the segment consistent. -/
theorem CountedInv.starts {capacity : Nat} (hinv : CountedInv capacity q ⟨shm, queues⟩)
    (hidle : queues t = .idle) (hstarts : pc'.Starts) :
    CountedInv capacity q ⟨shm, Function.update queues t pc'.queue⟩ := by
  rcases hstarts with hqueue | ⟨call, hqueue⟩
  · have hsame : Function.update queues t pc'.queue = queues := by
      rw [hqueue, ← hidle, Function.update_eq_self]
    rw [hsame]
    exact hinv
  · rw [hqueue]
    exact hinv.call hidle call

/-- **A move keeps the segment consistent** and changes the counted queue by
the effect of its queue step. -/
theorem ManagerMove.countedInv (h : ManagerMove env fail shm pc shm' pc' reply)
    (ht : queues t = pc.queue) (hinv : CountedInv env.capacity q ⟨shm, queues⟩) :
    CountedInv env.capacity (pc.queue.effect q)
      ⟨shm', Function.update queues t pc'.queue⟩ := by
  have hcap : env.capacity + 1 < 2 ^ 64 := by
    have hdeclared := env.declared
    simp only [countTasks] at hdeclared
    omega
  have hmove : ∀ {pc₁ pc₂ : QueuePc} {shm₁ : Shm} {notes : List Note}, queues t = pc₁ →
      queueStep env.capacity shm pc₁ fail = some (shm₁, pc₂, notes) →
        CountedInv env.capacity (pc₁.effect q) ⟨shm₁, Function.update queues t pc₂⟩ := by
    rintro _ pc₂ shm₁ notes rfl hstep
    exact hinv.move hcap hstep
  cases h with
  | found => exact hinv.starts ht (.inr ⟨.dequeue, rfl⟩)
  | foundEmpty _ hrefill => exact hinv.starts ht hrefill.starts.1
  | inside hstep _ => exact hmove ht hstep
  | finished hstep _ hresume =>
      have hdone := (hmove ht hstep).starts (Function.update_self ..) hresume.starts.1
      rw [Function.update_idem] at hdone
      exact hdone

end Counted

/-! ## Ids in the hands of a thread -/

/-- The ids of the entries of a queue. -/
def entryIds (q : List SharedTask) : Multiset Int32 := q.map SharedTask.id

/-- The ids of the tasks of a vector. -/
def taskIds (tasks : List UnixTask) : Multiset Int32 := tasks.map UnixTask.id

@[simp] theorem entryIds_nil : entryIds [] = 0 := rfl

/-- A queue has as many ids as entries. -/
@[simp] theorem card_entryIds (q : List SharedTask) : Multiset.card (entryIds q) = q.length := by
  simp [entryIds]

@[simp] theorem taskIds_nil : taskIds [] = 0 := rfl

@[simp] theorem entryIds_append (q r : List SharedTask) :
    entryIds (q ++ r) = entryIds q + entryIds r := by
  simp [entryIds]

@[simp] theorem taskIds_append (tasks rest : List UnixTask) :
    taskIds (tasks ++ rest) = taskIds tasks + taskIds rest := by
  simp [taskIds]

@[simp] theorem entryIds_cons (st : SharedTask) (q : List SharedTask) :
    entryIds (st :: q) = {st.id} + entryIds q := rfl

@[simp] theorem taskIds_cons (task : UnixTask) (rest : List UnixTask) :
    taskIds (task :: rest) = {task.id} + taskIds rest := rfl

/-- The tasks that `reorder_tasks` keeps in its vector during a queue call. -/
def Purpose.kept : Purpose → List UnixTask
  | .draining _ tasks => tasks
  | .refilling _ rest | .reprinting _ rest => rest
  | _ => []

/-- The ids of the tasks that are in a thread's hands, and not in the queue. -/
def ManagerPc.owned : ManagerPc → Multiset Int32
  | .idle => 0
  | .testing _ tasks => taskIds tasks
  | .inQueue purpose pc =>
      taskIds purpose.kept + entryIds (pc.toStore.toList ++ pc.taken.toList)

/-- The id of the task that a reply hands to the caller. -/
def repliedIds : Option ManagerReply → Multiset Int32
  | some (.got task) => {task.id}
  | _ => 0

theorem Refills.ids {algorithm : SchedulingAlgorithm} {tasks : List UnixTask}
    (h : Refills algorithm tasks pc reply) :
    pc.owned + repliedIds reply = taskIds tasks := by
  cases h with
  | done => rfl
  | next hkeeps =>
      simp only [ManagerPc.owned, Purpose.kept, QueuePc.toStore, QueuePc.taken,
        Option.toList_some, Option.toList_none, List.append_nil, entryIds_cons, entryIds_nil,
        repliedIds, taskIds_cons, hkeeps.id]
      abel

/-- A call that throws has no effect at that step. -/
theorem ManagerMove.thrown {message : String}
    (h : ManagerMove env fail shm pc shm' pc' (some (.thrown message))) (q : List SharedTask) :
    pc' = .idle ∧ pc.queue.effect q = q := by
  cases h with
  | foundEmpty _ hrefill => rcases hrefill.call_eq with ⟨hne, -⟩ | ⟨hne, -⟩ <;> cases hne
  | finished hstep hends hresume =>
      cases hends with
      | thrown hthrows =>
          cases hresume
          exact ⟨rfl, (QueuePc.throws_silent hthrows).1 q⟩
      | dequeued st => cases hresume <;> exact ⟨rfl, rfl⟩
      | enqueued => cases hresume
      | printed lines =>
          cases hresume with
          | reprinted hrefill => cases hrefill

/-- **A move loses no task** and makes none, unless the call throws. -/
theorem ManagerMove.ids {q : List SharedTask}
    (h : ManagerMove env fail shm pc shm' pc' reply)
    (hreply : ∀ message, reply ≠ some (.thrown message))
    (hhead : ∀ task, pc.queue = .deqSubCount task → q = task :: q.tail) :
    entryIds (pc.queue.effect q) + (pc'.owned + repliedIds reply) =
      entryIds q + pc.owned := by
  cases h with
  | found =>
      simp [ManagerPc.queue, QueuePc.effect, ManagerPc.owned, Purpose.kept, QueueCall.entry,
        QueuePc.toStore, QueuePc.taken, repliedIds]
  | @foundEmpty algorithm tasks r pc' reply hcount hrefill =>
      have hsame : taskIds (updatedFrom env algorithm r tasks) = taskIds tasks :=
        congrArg (fun ids : List Int32 => (ids : Multiset Int32))
          (updatedFrom_ids env algorithm r tasks)
      rw [hrefill.ids, hsame]
      rfl
  | @inside purpose pc pc' shm' notes hstep hne =>
      simp only [ManagerPc.queue, ManagerPc.owned, repliedIds, add_zero] at hhead ⊢
      rcases queueStep_inHand hstep hne with ⟨hstore, htaken, heffect⟩ | ⟨task, rfl, rfl⟩ |
        ⟨task, rfl, rfl⟩
      · rw [hstore, htaken, heffect]
      · simp only [QueuePc.effect, QueuePc.toStore, QueuePc.taken, Option.toList_some,
          Option.toList_none, List.append_nil, entryIds_append, entryIds_cons, entryIds_nil]
        abel
      · rw [hhead task rfl]
        simp only [QueuePc.effect, QueuePc.toStore, QueuePc.taken, Option.toList_some,
          Option.toList_none, List.nil_append, List.tail_cons, entryIds_cons, entryIds_nil]
        abel
  | finished hstep hends hresume =>
      cases hends with
      | thrown hthrows =>
          cases hresume
          exact absurd rfl (hreply _)
      | dequeued st =>
          cases hresume with
          | got hvalid hkeeps =>
              simp [ManagerPc.queue, QueuePc.effect, ManagerPc.owned, Purpose.kept,
                QueuePc.toStore, QueuePc.taken, repliedIds, hkeeps.id]
          | drained hvalid hkeeps =>
              simp [ManagerPc.queue, QueuePc.effect, ManagerPc.owned, Purpose.kept,
                QueuePc.toStore, QueuePc.taken, repliedIds, hkeeps.id]
          | rejected hvalid => exact absurd rfl (hreply _)
          | drainRejected hvalid => exact absurd rfl (hreply _)
      | enqueued =>
          cases hresume with
          | stored => rfl
          | refilled => exact congrArg (entryIds q + ·) (add_zero _)
      | printed lines =>
          cases hresume with
          | added => rfl
          | reprinted hrefill =>
              rw [hrefill.ids]
              simp [ManagerPc.queue, QueuePc.effect, ManagerPc.owned, Purpose.kept,
                QueuePc.toStore, QueuePc.taken]

/-- Only `get_next_task` hands out a task. -/
theorem ManagerMove.got_call {task : UnixTask}
    (h : ManagerMove env fail shm pc shm' pc' (some (.got task))) :
    pc.call = some .getNextTask := by
  cases h with
  | foundEmpty _ hrefill => rcases hrefill.call_eq with ⟨hne, -⟩ | ⟨hne, -⟩ <;> cases hne
  | finished hstep hends hresume =>
      cases hresume with
      | got => rfl
      | reprinted hrefill => cases hrefill

end Moves

end TaskSheduler
