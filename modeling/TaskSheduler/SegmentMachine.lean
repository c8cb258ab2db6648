import TaskSheduler.SegmentLayout

/-!
# PosixSharedMemory on the bytes of the segment

`queueMachine` treats a slot as one variable.  Here the threads share nothing
but the mapping, byte by byte, and the three semaphores: `front_`, `rear_`,
`count_`, the flag and the totals are atomic and take one step each, while the
struct copies `data_->tasks_[rear] = task` and `SharedTask task =
data_->tasks_[front]`, and the reads of `print`, take one step for every byte.
The order of these bytes is the compiler's; a `CopyPlan` is any order that
reaches every byte of a field.

The calls that take no semaphore, `size`, `set_scheduler_running` and
`is_scheduler_running`, are part of the machine.
-/

namespace TaskSheduler

open Interleaving ByteMemory

/-- The byte at offset `k` of an entry belongs to a field; the others are
padding. -/
def fieldByte (k : Nat) : Bool := decide (k < 269) || decide (272 ≤ k)

/-- How an entry is copied: the offsets in the order they are copied, and what
the padding of a caller's struct holds. -/
structure CopyPlan where
  order : List Nat
  padding : Memory
  inside : ∀ k ∈ order, k < sizeofSharedTask
  covers : ∀ k < sizeofSharedTask, fieldByte k = true → k ∈ order

/-- The bytes of a caller's struct. -/
def CopyPlan.image (plan : CopyPlan) (task : SharedTask) : Memory :=
  storeTask plan.padding 0 task

/-- Where a thread is: at a point of a queue call, or in the middle of a copy,
with the offsets still to come. -/
inductive SegmentPc
  | call (pc : QueuePc)
  | storing (task : SharedTask) (rear : Nat) (left : List Nat)
  | fetching (front : Nat) (copy : Memory) (left : List Nat)
  | listing (index todo : Nat) (lines : List String) (copy : Memory) (left : List Nat)

/-- One step of `enqueue`, `dequeue` or `print` on the bytes of the segment.
`fail` is the outcome of a `sem_wait`; other steps ignore it. -/
def segmentStep (plan : CopyPlan) (capacity : Nat) (seg : Segment) (pc : SegmentPc)
    (fail : Bool) : Option (Segment × SegmentPc × List Note) :=
  match pc with
  | .call .idle => none
  | .call (.enqWaitSlot task) =>
      if fail then
        some (seg, .call .idle, [.finished (.thrown "Enqueue semaphore wait failed")])
      else (semWait seg.enqueueSem).map fun n =>
        ({ seg with enqueueSem := n }, .call (.enqWaitMutex task), [])
  | .call (.enqWaitMutex task) =>
      if fail then some (seg, .call (.enqGiveBackSlot task), [])
      else (semWait seg.mutexSem).map fun n =>
        ({ seg with mutexSem := n }, .call (.enqLoadRear task), [])
  | .call (.enqGiveBackSlot _) =>
      some ({ seg with enqueueSem := seg.enqueueSem + 1 }, .call .idle,
        [.finished (.thrown "Mutex semaphore wait failed")])
  | .call (.enqLoadRear task) =>
      some (seg, .call (.enqStoreTask task (loadSize seg.mem rearAt)), [])
  | .call (.enqStoreTask task rear) => some (seg, .storing task rear plan.order, [])
  | .storing task rear (k :: left) =>
      some ({ seg with mem := store seg.mem (slotAt rear + k) [plan.image task k] },
        .storing task rear left, [])
  | .storing task rear [] => some (seg, .call (.enqStoreRear task rear), [])
  | .call (.enqStoreRear task rear) =>
      some ({ seg with mem := storeSize seg.mem rearAt (sizeAdd rear 1 % capacity) },
        .call (.enqAddCount task), [])
  | .call (.enqAddCount task) =>
      some ({ seg with mem := storeSize seg.mem countAt (sizeAdd (loadSize seg.mem countAt) 1) },
        .call (.enqAddTotal task), [])
  | .call (.enqAddTotal task) =>
      some ({ seg with mem :=
                storeSize seg.mem totalEnqueuedAt (sizeAdd (loadSize seg.mem totalEnqueuedAt) 1) },
        .call (.enqPostMutex task), [])
  | .call (.enqPostMutex task) =>
      some ({ seg with mutexSem := seg.mutexSem + 1 }, .call .enqPostItem,
        [.left (.enqueued task)])
  | .call .enqPostItem =>
      some ({ seg with dequeueSem := seg.dequeueSem + 1 }, .call .idle, [.finished .enqueued])
  | .call .deqWaitItem =>
      if fail then
        some (seg, .call .idle, [.finished (.thrown "Dequeue semaphore wait failed")])
      else (semWait seg.dequeueSem).map fun n =>
        ({ seg with dequeueSem := n }, .call .deqWaitMutex, [])
  | .call .deqWaitMutex =>
      if fail then some (seg, .call .deqGiveBackItem, [])
      else (semWait seg.mutexSem).map fun n =>
        ({ seg with mutexSem := n }, .call .deqLoadFront, [])
  | .call .deqGiveBackItem =>
      some ({ seg with dequeueSem := seg.dequeueSem + 1 }, .call .idle,
        [.finished (.thrown "Mutex semaphore wait failed")])
  | .call .deqLoadFront => some (seg, .call (.deqLoadCount (loadSize seg.mem frontAt)), [])
  | .call (.deqLoadCount front) =>
      if loadSize seg.mem countAt = 0 then some (seg, .call .deqEmptyPostMutex, [])
      else some (seg, .call (.deqLoadTask front), [])
  | .call .deqEmptyPostMutex =>
      some ({ seg with mutexSem := seg.mutexSem + 1 }, .call .deqEmptyPostItem,
        [.left .foundEmpty])
  | .call .deqEmptyPostItem =>
      some ({ seg with dequeueSem := seg.dequeueSem + 1 }, .call .idle,
        [.finished (.thrown "Queue is empty")])
  | .call (.deqLoadTask front) => some (seg, .fetching front plan.padding plan.order, [])
  | .fetching front copy (k :: left) =>
      some (seg, .fetching front (store copy k [seg.mem (slotAt front + k)]) left, [])
  | .fetching front copy [] => some (seg, .call (.deqStoreFront front (loadTask copy 0)), [])
  | .call (.deqStoreFront front task) =>
      some ({ seg with mem := storeSize seg.mem frontAt (sizeAdd front 1 % capacity) },
        .call (.deqSubCount task), [])
  | .call (.deqSubCount task) =>
      some ({ seg with mem := storeSize seg.mem countAt (sizePred (loadSize seg.mem countAt)) },
        .call (.deqAddTotal task), [])
  | .call (.deqAddTotal task) =>
      some ({ seg with mem :=
                storeSize seg.mem totalDequeuedAt (sizeAdd (loadSize seg.mem totalDequeuedAt) 1) },
        .call (.deqPostMutex task), [])
  | .call (.deqPostMutex task) =>
      some ({ seg with mutexSem := seg.mutexSem + 1 }, .call (.deqPostSlot task),
        [.left (.dequeued task)])
  | .call (.deqPostSlot task) =>
      some ({ seg with enqueueSem := seg.enqueueSem + 1 }, .call .idle,
        [.finished (.dequeued task)])
  | .call .prnWaitMutex =>
      if fail then
        some (seg, .call .idle, [.finished (.thrown "Mutex semaphore wait failed during print")])
      else (semWait seg.mutexSem).map fun n =>
        ({ seg with mutexSem := n }, .call .prnLoadFront, [])
  | .call .prnLoadFront => some (seg, .call (.prnLoadRear (loadSize seg.mem frontAt)), [])
  | .call (.prnLoadRear front) => some (seg, .call (.prnLoadCount front), [])
  | .call (.prnLoadCount front) =>
      some (seg, .call (.prnLoadTask front (loadSize seg.mem countAt) []), [])
  | .call (.prnLoadTask _ 0 lines) => some (seg, .call (.prnPostMutex lines), [])
  | .call (.prnLoadTask index (todo + 1) lines) =>
      some (seg, .listing index todo lines plan.padding plan.order, [])
  | .listing index todo lines copy (k :: left) =>
      some (seg, .listing index todo lines (store copy k [seg.mem (slotAt index + k)]) left, [])
  | .listing index todo lines copy [] =>
      some (seg, .call (.prnLoadTask (sizeAdd index 1 % capacity) todo
        (lines ++ [(loadTask copy 0).line])), [])
  | .call (.prnPostMutex lines) =>
      some ({ seg with mutexSem := seg.mutexSem + 1 }, .call .idle,
        [.left (.printed lines), .finished .printed])

/-- `scheduler_running_.store`. -/
def Segment.storeRunning (seg : Segment) (running : Bool) : Segment :=
  { seg with mem := store seg.mem runningAt [if running then 1 else 0] }

/-- `scheduler_running_.load`. -/
def Segment.loadRunning (seg : Segment) : Bool := seg.mem runningAt != 0

/-- The segment and the threads that share it. -/
structure SegmentState (Tid : Type*) where
  seg : Segment
  pc : Tid → SegmentPc

/-- A thread starts a queue call or takes its next step, or makes one of the
calls that are a single atomic access. -/
inductive SegmentAction (Tid : Type*)
  | call (t : Tid) (call : QueueCall)
  | step (t : Tid) (fail : Bool)
  | size (t : Tid)
  | setSchedulerRunning (t : Tid) (running : Bool)
  | isSchedulerRunning (t : Tid)

/-- What a step shows: the notes of the queue calls, and what the atomic
accesses returned or stored. -/
inductive SegmentEvent
  | noted (note : Note)
  | sized (count : Nat)
  | flagStored (running : Bool)
  | flagLoaded (running : Bool)

/-- Nobody is in a call on a freshly created segment. -/
def SegmentState.created (Tid : Type*) (capacity : Nat) : SegmentState Tid where
  seg := Segment.create capacity
  pc := fun _ => .call .idle

/-- Any number of threads sharing the bytes of one created segment. -/
def segmentMachine (Tid : Type*) [DecidableEq Tid] (plan : CopyPlan) (capacity : Nat) :
    Machine (SegmentState Tid) (SegmentAction Tid) (Tid × SegmentEvent) where
  step s
    | .call t call =>
        match s.pc t with
        | .call .idle => some ({ s with pc := Function.update s.pc t (.call call.entry) }, [])
        | _ => none
    | .step t fail =>
        (segmentStep plan capacity s.seg (s.pc t) fail).map fun r =>
          ({ seg := r.1, pc := Function.update s.pc t r.2.1 },
            r.2.2.map fun n => (t, .noted n))
    | .size t =>
        match s.pc t with
        | .call .idle => some (s, [(t, .sized (loadSize s.seg.mem countAt))])
        | _ => none
    | .setSchedulerRunning t running =>
        match s.pc t with
        | .call .idle =>
            some ({ s with seg := s.seg.storeRunning running }, [(t, .flagStored running)])
        | _ => none
    | .isSchedulerRunning t =>
        match s.pc t with
        | .call .idle => some (s, [(t, .flagLoaded s.seg.loadRunning)])
        | _ => none

end TaskSheduler
