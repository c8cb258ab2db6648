import TaskSheduler.SharedTask
import TaskSheduler.Interleaving

/-!
# PosixSharedMemory: one step of a queue call

The mapped segment and the three semaphores form the state `Shm`; a thread
inside `enqueue`, `dequeue` or `print` is at a program point `QueuePc`, named
after the shared action it performs next.  `queueStep` performs that action:
one `sem_wait`, `sem_post`, load, store or atomic update.  Logging touches no
shared state and has no step of its own.

`sem_wait` blocks while the semaphore is zero; `fail` makes it return -1.
A finished call reports its `Reply`: what it returns, or the text of the
exception it throws.  A thread leaving a critical section reports what the
section did.
-/

namespace TaskSheduler

open Interleaving

/-- `COUNT_TASKS`: the declared number of slots. -/
def countTasks : Nat := 100

/-- `THROW_VALUE`: the largest capacity the constructor accepts. -/
def throwValue : Nat := 10000

/-- The capacities the constructor accepts. -/
def validCapacity (capacity : Nat) : Bool :=
  !(capacity == 0 || decide (capacity > throwValue))

/-- Addition on `size_t`. -/
def sizeAdd (x y : Nat) : Nat := (x + y) % 2 ^ 64

/-- `fetch_sub(1)` on `size_t`. -/
def sizePred (x : Nat) : Nat := (x + (2 ^ 64 - 1)) % 2 ^ 64

theorem sizeAdd_one {n : Nat} (h : n + 1 < 2 ^ 64) : sizeAdd n 1 = n + 1 :=
  Nat.mod_eq_of_lt h

theorem sizePred_pos {n : Nat} (h : n < 2 ^ 64) (hpos : 0 < n) : sizePred n = n - 1 := by
  unfold sizePred
  omega

theorem sizeAdd_mod (x y : Nat) : sizeAdd x y % 2 ^ 64 = sizeAdd x y :=
  Nat.mod_mod _ _

theorem sizeAdd_mod_capacity (x y capacity : Nat) :
    sizeAdd x y % capacity % 2 ^ 64 = sizeAdd x y % capacity := by
  have hlt : sizeAdd x y < 2 ^ 64 := Nat.mod_lt _ (by decide)
  exact Nat.mod_eq_of_lt (Nat.lt_of_le_of_lt (Nat.mod_le _ _) hlt)

theorem sizePred_mod (x : Nat) : sizePred x % 2 ^ 64 = sizePred x :=
  Nat.mod_mod _ _

/-- The mapped `SharedMemoryLayout` and the three semaphore values.  The slots
are indexed from zero; the layout declares the first `COUNT_TASKS`. -/
structure Shm where
  front : Nat
  rear : Nat
  count : Nat
  schedulerRunning : Bool
  tasks : Nat → SharedTask
  totalEnqueued : Nat
  totalDequeued : Nat
  enqueueSem : Nat
  dequeueSem : Nat
  mutexSem : Nat

/-- The segment as `create` leaves it: zero-filled by `ftruncate`, all indices
and counters zero, `capacity` free slots, no items, mutex open. -/
def Shm.create (capacity : Nat) : Shm where
  front := 0
  rear := 0
  count := 0
  schedulerRunning := false
  tasks := fun _ => SharedTask.zeroed
  totalEnqueued := 0
  totalDequeued := 0
  enqueueSem := capacity
  dequeueSem := 0
  mutexSem := 1

/-- Write slot `i`. -/
def Shm.setTask (shm : Shm) (i : Nat) (task : SharedTask) : Shm :=
  { shm with tasks := Function.update shm.tasks i task }

/-- `sem_wait`: blocks at zero, otherwise takes a token. -/
def semWait : Nat → Option Nat
  | 0 => none
  | n + 1 => some n

theorem semWait_some {n m : Nat} (h : semWait n = some m) : n = m + 1 := by
  cases n with
  | zero => simp [semWait] at h
  | succ k =>
      simp only [semWait, Option.some.injEq] at h
      omega

/-- What a finished queue call hands back. -/
inductive Reply
  | enqueued
  | dequeued (task : SharedTask)
  | printed
  | thrown (message : String)

/-- What the critical section just left has done. -/
inductive Section
  | enqueued (task : SharedTask)
  | dequeued (task : SharedTask)
  | printed (lines : List String)
  | foundEmpty

/-- What a step of a queue call shows: leaving the critical section, or
finishing the call. -/
inductive Note
  | left (section_ : Section)
  | finished (reply : Reply)

/-- Where a thread is in a queue call; `idle` between calls. -/
inductive QueuePc
  | idle
  | enqWaitSlot (task : SharedTask)
  | enqWaitMutex (task : SharedTask)
  | enqGiveBackSlot (task : SharedTask)
  | enqLoadRear (task : SharedTask)
  | enqStoreTask (task : SharedTask) (rear : Nat)
  | enqStoreRear (task : SharedTask) (rear : Nat)
  | enqAddCount (task : SharedTask)
  | enqAddTotal (task : SharedTask)
  | enqPostMutex (task : SharedTask)
  | enqPostItem
  | deqWaitItem
  | deqWaitMutex
  | deqGiveBackItem
  | deqLoadFront
  | deqLoadCount (front : Nat)
  | deqEmptyPostMutex
  | deqEmptyPostItem
  | deqLoadTask (front : Nat)
  | deqStoreFront (front : Nat) (task : SharedTask)
  | deqSubCount (task : SharedTask)
  | deqAddTotal (task : SharedTask)
  | deqPostMutex (task : SharedTask)
  | deqPostSlot (task : SharedTask)
  | prnWaitMutex
  | prnLoadFront
  | prnLoadRear (front : Nat)
  | prnLoadCount (front : Nat)
  | prnLoadTask (index left : Nat) (lines : List String)
  | prnPostMutex (lines : List String)

/-- The public calls on the queue. -/
inductive QueueCall
  | enqueue (task : SharedTask)
  | dequeue
  | print

/-- The first program point of a call. -/
def QueueCall.entry : QueueCall → QueuePc
  | .enqueue task => .enqWaitSlot task
  | .dequeue => .deqWaitItem
  | .print => .prnWaitMutex

/-- One step of `enqueue`, `dequeue` or `print` on a segment of the given
capacity.  `fail` is the outcome of a `sem_wait`; other steps ignore it. -/
def queueStep (capacity : Nat) (shm : Shm) (pc : QueuePc) (fail : Bool) :
    Option (Shm × QueuePc × List Note) :=
  match pc with
  | .idle => none
  | .enqWaitSlot task =>
      if fail then
        some (shm, .idle, [.finished (.thrown "Enqueue semaphore wait failed")])
      else (semWait shm.enqueueSem).map fun n =>
        ({ shm with enqueueSem := n }, .enqWaitMutex task, [])
  | .enqWaitMutex task =>
      if fail then some (shm, .enqGiveBackSlot task, [])
      else (semWait shm.mutexSem).map fun n =>
        ({ shm with mutexSem := n }, .enqLoadRear task, [])
  | .enqGiveBackSlot _ =>
      some ({ shm with enqueueSem := shm.enqueueSem + 1 }, .idle,
        [.finished (.thrown "Mutex semaphore wait failed")])
  | .enqLoadRear task => some (shm, .enqStoreTask task shm.rear, [])
  | .enqStoreTask task rear => some (shm.setTask rear task, .enqStoreRear task rear, [])
  | .enqStoreRear task rear =>
      some ({ shm with rear := sizeAdd rear 1 % capacity }, .enqAddCount task, [])
  | .enqAddCount task =>
      some ({ shm with count := sizeAdd shm.count 1 }, .enqAddTotal task, [])
  | .enqAddTotal task =>
      some ({ shm with totalEnqueued := sizeAdd shm.totalEnqueued 1 }, .enqPostMutex task, [])
  | .enqPostMutex task =>
      some ({ shm with mutexSem := shm.mutexSem + 1 }, .enqPostItem,
        [.left (.enqueued task)])
  | .enqPostItem =>
      some ({ shm with dequeueSem := shm.dequeueSem + 1 }, .idle, [.finished .enqueued])
  | .deqWaitItem =>
      if fail then
        some (shm, .idle, [.finished (.thrown "Dequeue semaphore wait failed")])
      else (semWait shm.dequeueSem).map fun n =>
        ({ shm with dequeueSem := n }, .deqWaitMutex, [])
  | .deqWaitMutex =>
      if fail then some (shm, .deqGiveBackItem, [])
      else (semWait shm.mutexSem).map fun n =>
        ({ shm with mutexSem := n }, .deqLoadFront, [])
  | .deqGiveBackItem =>
      some ({ shm with dequeueSem := shm.dequeueSem + 1 }, .idle,
        [.finished (.thrown "Mutex semaphore wait failed")])
  | .deqLoadFront => some (shm, .deqLoadCount shm.front, [])
  | .deqLoadCount front =>
      if shm.count = 0 then some (shm, .deqEmptyPostMutex, [])
      else some (shm, .deqLoadTask front, [])
  | .deqEmptyPostMutex =>
      some ({ shm with mutexSem := shm.mutexSem + 1 }, .deqEmptyPostItem,
        [.left .foundEmpty])
  | .deqEmptyPostItem =>
      some ({ shm with dequeueSem := shm.dequeueSem + 1 }, .idle,
        [.finished (.thrown "Queue is empty")])
  | .deqLoadTask front => some (shm, .deqStoreFront front (shm.tasks front), [])
  | .deqStoreFront front task =>
      some ({ shm with front := sizeAdd front 1 % capacity }, .deqSubCount task, [])
  | .deqSubCount task =>
      some ({ shm with count := sizePred shm.count }, .deqAddTotal task, [])
  | .deqAddTotal task =>
      some ({ shm with totalDequeued := sizeAdd shm.totalDequeued 1 }, .deqPostMutex task, [])
  | .deqPostMutex task =>
      some ({ shm with mutexSem := shm.mutexSem + 1 }, .deqPostSlot task,
        [.left (.dequeued task)])
  | .deqPostSlot task =>
      some ({ shm with enqueueSem := shm.enqueueSem + 1 }, .idle,
        [.finished (.dequeued task)])
  | .prnWaitMutex =>
      if fail then
        some (shm, .idle, [.finished (.thrown "Mutex semaphore wait failed during print")])
      else (semWait shm.mutexSem).map fun n =>
        ({ shm with mutexSem := n }, .prnLoadFront, [])
  -- `validate` passes: the segment of a created object is mapped.
  | .prnLoadFront => some (shm, .prnLoadRear shm.front, [])
  | .prnLoadRear front => some (shm, .prnLoadCount front, [])
  | .prnLoadCount front => some (shm, .prnLoadTask front shm.count [], [])
  | .prnLoadTask _ 0 lines => some (shm, .prnPostMutex lines, [])
  | .prnLoadTask index (left + 1) lines =>
      some (shm, .prnLoadTask (sizeAdd index 1 % capacity) left
        (lines ++ [(shm.tasks index).line]), [])
  | .prnPostMutex lines =>
      some ({ shm with mutexSem := shm.mutexSem + 1 }, .idle,
        [.left (.printed lines), .finished .printed])

/-- Everything one step of a queue call can do; `fail` is the outcome of its
`sem_wait`, if it has one. -/
inductive QueueMove (capacity : Nat) (shm : Shm) (fail : Bool) :
    QueuePc → Shm → QueuePc → List Note → Prop
  | enqSlotFails {task : SharedTask} {message : String} (hfail : fail = true) :
      QueueMove capacity shm fail (.enqWaitSlot task) shm .idle [.finished (.thrown message)]
  | enqTakesSlot {task : SharedTask} {n : Nat} (hfail : fail = false)
      (hwait : shm.enqueueSem = n + 1) :
      QueueMove capacity shm fail (.enqWaitSlot task) { shm with enqueueSem := n }
        (.enqWaitMutex task) []
  | enqMutexFails {task : SharedTask} (hfail : fail = true) :
      QueueMove capacity shm fail (.enqWaitMutex task) shm (.enqGiveBackSlot task) []
  | enqTakesMutex {task : SharedTask} {n : Nat} (hfail : fail = false)
      (hwait : shm.mutexSem = n + 1) :
      QueueMove capacity shm fail (.enqWaitMutex task) { shm with mutexSem := n }
        (.enqLoadRear task) []
  | enqGiveBackSlot {task : SharedTask} {message : String} :
      QueueMove capacity shm fail (.enqGiveBackSlot task)
        { shm with enqueueSem := shm.enqueueSem + 1 } .idle [.finished (.thrown message)]
  | enqLoadRear {task : SharedTask} :
      QueueMove capacity shm fail (.enqLoadRear task) shm (.enqStoreTask task shm.rear) []
  | enqStoreTask {task : SharedTask} {rear : Nat} :
      QueueMove capacity shm fail (.enqStoreTask task rear) (shm.setTask rear task)
        (.enqStoreRear task rear) []
  | enqStoreRear {task : SharedTask} {rear : Nat} :
      QueueMove capacity shm fail (.enqStoreRear task rear)
        { shm with rear := sizeAdd rear 1 % capacity } (.enqAddCount task) []
  | enqAddCount {task : SharedTask} :
      QueueMove capacity shm fail (.enqAddCount task)
        { shm with count := sizeAdd shm.count 1 } (.enqAddTotal task) []
  | enqAddTotal {task : SharedTask} :
      QueueMove capacity shm fail (.enqAddTotal task)
        { shm with totalEnqueued := sizeAdd shm.totalEnqueued 1 } (.enqPostMutex task) []
  | enqPostMutex {task : SharedTask} :
      QueueMove capacity shm fail (.enqPostMutex task)
        { shm with mutexSem := shm.mutexSem + 1 } .enqPostItem [.left (.enqueued task)]
  | enqPostItem :
      QueueMove capacity shm fail .enqPostItem { shm with dequeueSem := shm.dequeueSem + 1 }
        .idle [.finished .enqueued]
  | deqItemFails {message : String} (hfail : fail = true) :
      QueueMove capacity shm fail .deqWaitItem shm .idle [.finished (.thrown message)]
  | deqTakesItem {n : Nat} (hfail : fail = false) (hwait : shm.dequeueSem = n + 1) :
      QueueMove capacity shm fail .deqWaitItem { shm with dequeueSem := n } .deqWaitMutex []
  | deqMutexFails (hfail : fail = true) :
      QueueMove capacity shm fail .deqWaitMutex shm .deqGiveBackItem []
  | deqTakesMutex {n : Nat} (hfail : fail = false) (hwait : shm.mutexSem = n + 1) :
      QueueMove capacity shm fail .deqWaitMutex { shm with mutexSem := n } .deqLoadFront []
  | deqGiveBackItem {message : String} :
      QueueMove capacity shm fail .deqGiveBackItem
        { shm with dequeueSem := shm.dequeueSem + 1 } .idle [.finished (.thrown message)]
  | deqLoadFront :
      QueueMove capacity shm fail .deqLoadFront shm (.deqLoadCount shm.front) []
  | deqFindsNone {front : Nat} (hcount : shm.count = 0) :
      QueueMove capacity shm fail (.deqLoadCount front) shm .deqEmptyPostMutex []
  | deqFinds {front : Nat} (hcount : shm.count ≠ 0) :
      QueueMove capacity shm fail (.deqLoadCount front) shm (.deqLoadTask front) []
  | deqEmptyPostMutex :
      QueueMove capacity shm fail .deqEmptyPostMutex { shm with mutexSem := shm.mutexSem + 1 }
        .deqEmptyPostItem [.left .foundEmpty]
  | deqEmptyPostItem {message : String} :
      QueueMove capacity shm fail .deqEmptyPostItem
        { shm with dequeueSem := shm.dequeueSem + 1 } .idle [.finished (.thrown message)]
  | deqLoadTask {front : Nat} :
      QueueMove capacity shm fail (.deqLoadTask front) shm
        (.deqStoreFront front (shm.tasks front)) []
  | deqStoreFront {front : Nat} {task : SharedTask} :
      QueueMove capacity shm fail (.deqStoreFront front task)
        { shm with front := sizeAdd front 1 % capacity } (.deqSubCount task) []
  | deqSubCount {task : SharedTask} :
      QueueMove capacity shm fail (.deqSubCount task)
        { shm with count := sizePred shm.count } (.deqAddTotal task) []
  | deqAddTotal {task : SharedTask} :
      QueueMove capacity shm fail (.deqAddTotal task)
        { shm with totalDequeued := sizeAdd shm.totalDequeued 1 } (.deqPostMutex task) []
  | deqPostMutex {task : SharedTask} :
      QueueMove capacity shm fail (.deqPostMutex task)
        { shm with mutexSem := shm.mutexSem + 1 } (.deqPostSlot task) [.left (.dequeued task)]
  | deqPostSlot {task : SharedTask} :
      QueueMove capacity shm fail (.deqPostSlot task)
        { shm with enqueueSem := shm.enqueueSem + 1 } .idle [.finished (.dequeued task)]
  | prnMutexFails {message : String} (hfail : fail = true) :
      QueueMove capacity shm fail .prnWaitMutex shm .idle [.finished (.thrown message)]
  | prnTakesMutex {n : Nat} (hfail : fail = false) (hwait : shm.mutexSem = n + 1) :
      QueueMove capacity shm fail .prnWaitMutex { shm with mutexSem := n } .prnLoadFront []
  | prnLoadFront :
      QueueMove capacity shm fail .prnLoadFront shm (.prnLoadRear shm.front) []
  | prnLoadRear {front : Nat} :
      QueueMove capacity shm fail (.prnLoadRear front) shm (.prnLoadCount front) []
  | prnLoadCount {front : Nat} :
      QueueMove capacity shm fail (.prnLoadCount front) shm
        (.prnLoadTask front shm.count []) []
  | prnEnds {index : Nat} {lines : List String} :
      QueueMove capacity shm fail (.prnLoadTask index 0 lines) shm (.prnPostMutex lines) []
  | prnLoadTask {index left : Nat} {lines : List String} :
      QueueMove capacity shm fail (.prnLoadTask index (left + 1) lines) shm
        (.prnLoadTask (sizeAdd index 1 % capacity) left
          (lines ++ [(shm.tasks index).line])) []
  | prnPostMutex {lines : List String} :
      QueueMove capacity shm fail (.prnPostMutex lines)
        { shm with mutexSem := shm.mutexSem + 1 } .idle
        [.left (.printed lines), .finished .printed]

/-- A `sem_wait` fails, or takes a token. -/
theorem wait_cases {β : Type*} {fail : Bool} {x : Nat} {failed r : β} {next : Nat → β}
    (h : (if fail then some failed else (semWait x).map next) = some r) :
    (fail = true ∧ failed = r) ∨ ∃ n, fail = false ∧ x = n + 1 ∧ next n = r := by
  cases fail with
  | true => exact .inl ⟨rfl, Option.some.inj h⟩
  | false =>
      rw [if_neg Bool.false_ne_true, Option.map_eq_some_iff] at h
      obtain ⟨n, hn, hr⟩ := h
      exact .inr ⟨n, rfl, semWait_some hn, hr⟩

/-- **Every step of a queue call is on the list.** -/
theorem queueStep_move {capacity : Nat} {shm shm' : Shm} {pc pc' : QueuePc} {fail : Bool}
    {notes : List Note} (h : queueStep capacity shm pc fail = some (shm', pc', notes)) :
    QueueMove capacity shm fail pc shm' pc' notes := by
  cases pc with
  | idle => cases h
  | enqWaitSlot task =>
      rcases wait_cases h with ⟨hfail, heq⟩ | ⟨n, hfail, hwait, heq⟩ <;> cases heq
      · exact .enqSlotFails hfail
      · exact .enqTakesSlot hfail hwait
  | enqWaitMutex task =>
      rcases wait_cases h with ⟨hfail, heq⟩ | ⟨n, hfail, hwait, heq⟩ <;> cases heq
      · exact .enqMutexFails hfail
      · exact .enqTakesMutex hfail hwait
  | deqWaitItem =>
      rcases wait_cases h with ⟨hfail, heq⟩ | ⟨n, hfail, hwait, heq⟩ <;> cases heq
      · exact .deqItemFails hfail
      · exact .deqTakesItem hfail hwait
  | deqWaitMutex =>
      rcases wait_cases h with ⟨hfail, heq⟩ | ⟨n, hfail, hwait, heq⟩ <;> cases heq
      · exact .deqMutexFails hfail
      · exact .deqTakesMutex hfail hwait
  | prnWaitMutex =>
      rcases wait_cases h with ⟨hfail, heq⟩ | ⟨n, hfail, hwait, heq⟩ <;> cases heq
      · exact .prnMutexFails hfail
      · exact .prnTakesMutex hfail hwait
  | deqLoadCount front =>
      simp only [queueStep] at h
      by_cases hcount : shm.count = 0
      · rw [if_pos hcount] at h
        cases h
        exact .deqFindsNone hcount
      · rw [if_neg hcount] at h
        cases h
        exact .deqFinds hcount
  | prnLoadTask index left lines =>
      cases left with
      | zero =>
          cases h
          exact .prnEnds
      | succ left =>
          cases h
          exact .prnLoadTask
  | _ =>
      cases h
      constructor

/-- A created segment and the threads that share it. -/
structure QueueState (Tid : Type*) where
  shm : Shm
  pc : Tid → QueuePc

/-- A thread starts a call, or performs the next action of the one it is in. -/
inductive QueueAction (Tid : Type*)
  | call (t : Tid) (call : QueueCall)
  | step (t : Tid) (fail : Bool)

/-- Nobody is in a call on a freshly created segment. -/
def QueueState.created (Tid : Type*) (capacity : Nat) : QueueState Tid where
  shm := Shm.create capacity
  pc := fun _ => .idle

/-- Any number of threads sharing one `PosixSharedMemory` after `create`. -/
def queueMachine (Tid : Type*) [DecidableEq Tid] (capacity : Nat) :
    Machine (QueueState Tid) (QueueAction Tid) (Tid × Note) where
  step s
    | .call t call =>
        match s.pc t with
        | .idle => some ({ s with pc := Function.update s.pc t call.entry }, [])
        | _ => none
    | .step t fail =>
        (queueStep capacity s.shm (s.pc t) fail).map fun r =>
          ({ shm := r.1, pc := Function.update s.pc t r.2.1 }, r.2.2.map (t, ·))

section Machine

variable {Tid : Type*} [DecidableEq Tid] {capacity : Nat} {t : Tid}

/-- A step of the machine is one of `queueStep`. -/
theorem queueMachine_step {s s' : QueueState Tid} {fail : Bool} {es : List (Tid × Note)}
    (h : (queueMachine Tid capacity).step s (.step t fail) = some (s', es)) :
    ∃ shm' pc' notes, queueStep capacity s.shm (s.pc t) fail = some (shm', pc', notes) ∧
      s' = ⟨shm', Function.update s.pc t pc'⟩ ∧ es = notes.map (t, ·) := by
  simp only [queueMachine, Option.map_eq_some_iff] at h
  obtain ⟨⟨shm', pc', notes⟩, hq, heq⟩ := h
  simp only [Prod.mk.injEq] at heq
  exact ⟨shm', pc', notes, hq, heq.1.symm, heq.2.symm⟩

/-- A call starts in a thread that is in none. -/
theorem queueMachine_call {s s' : QueueState Tid} {call : QueueCall} {es : List (Tid × Note)}
    (h : (queueMachine Tid capacity).step s (.call t call) = some (s', es)) :
    s.pc t = .idle ∧ s' = { s with pc := Function.update s.pc t call.entry } ∧ es = [] := by
  simp only [queueMachine] at h
  split at h
  case h_2 => cases h
  case h_1 hidle =>
    simp only [Option.some.injEq, Prod.mk.injEq] at h
    exact ⟨hidle, h.1.symm, h.2.symm⟩

/-- A thread that is in no call can start one. -/
theorem queueMachine_calls {s : QueueState Tid} (hidle : s.pc t = .idle) (call : QueueCall) :
    (queueMachine Tid capacity).step s (.call t call) =
      some ({ s with pc := Function.update s.pc t call.entry }, []) := by
  simp only [queueMachine, hidle]

end Machine

end TaskSheduler
