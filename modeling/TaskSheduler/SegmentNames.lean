import TaskSheduler.PosixSharedMemory
import TaskSheduler.ShmLifecycle

/-!
# Objects that share a name, one system call per step

Several processes may construct a `PosixSharedMemory` with the same name, and
nothing keeps their `create`, `attach`, `detach` and `destroy` apart.  Here each
of these calls advances by one system call or one store at a time, over the
table that says what a name is bound to.  Unlinking frees a name; what has been
opened or mapped stays as it is.

`namedMachine` runs any number of objects with any names and capacities, each
with any number of threads that call `enqueue`, `dequeue` and `print` on it.  A
system call may fail at will, and `shm_open` and `sem_open` with `O_EXCL` fail
when the name is bound.

A queue call is made on an object whose `create` has returned, and no other call
on the object begins before it has finished.  Descriptor numbers and addresses
of semaphores are taken not to be reused: one that is closed names nothing, and
to close it again, as `destroy` may after a failed `ftruncate`, hits nobody.

The slots of a `Layout` never reach its totals.  In the source that is so for
capacities up to `COUNT_TASKS`, which what is said of the queues asks for.
-/

namespace TaskSheduler

open Interleaving

/-- The three semaphores, by the ends of their names. -/
inductive SemName
  | enq
  | deq
  | mutex
deriving DecidableEq

/-- The order in which they are unlinked, opened and closed. -/
def SemName.next : SemName → Option SemName
  | .enq => some .deq
  | .deq => some .mutex
  | .mutex => none

/-- The value `create` opens a semaphore with. -/
def SemName.initial (capacity : Nat) : SemName → Nat
  | .enq => capacity
  | .deq => 0
  | .mutex => 1

/-- What the names of an object are bound to. -/
inductive NamedKind
  | segment
  | semaphore (which : SemName)
deriving DecidableEq

/-- The atomic members of the layout that `create` stores to, in this order. -/
inductive LayoutField
  | front
  | rear
  | count
  | schedulerRunning
  | totalEnqueued
  | totalDequeued
deriving DecidableEq

def LayoutField.next : LayoutField → Option LayoutField
  | .front => some .rear
  | .rear => some .count
  | .count => some .schedulerRunning
  | .schedulerRunning => some .totalEnqueued
  | .totalEnqueued => some .totalDequeued
  | .totalDequeued => none

/-- A `SharedMemoryLayout`. -/
structure Layout where
  front : Nat
  rear : Nat
  count : Nat
  schedulerRunning : Bool
  tasks : Nat → SharedTask
  totalEnqueued : Nat
  totalDequeued : Nat

/-- A segment that has just been made. -/
def Layout.zeroed : Layout where
  front := 0
  rear := 0
  count := 0
  schedulerRunning := false
  tasks := fun _ => SharedTask.zeroed
  totalEnqueued := 0
  totalDequeued := 0

/-- A layout and the values of three semaphores. -/
def Layout.shm (layout : Layout) (enqueueSem dequeueSem mutexSem : Nat) : Shm where
  front := layout.front
  rear := layout.rear
  count := layout.count
  schedulerRunning := layout.schedulerRunning
  tasks := layout.tasks
  totalEnqueued := layout.totalEnqueued
  totalDequeued := layout.totalDequeued
  enqueueSem := enqueueSem
  dequeueSem := dequeueSem
  mutexSem := mutexSem

/-- The layout without the semaphores. -/
def Shm.layout (shm : Shm) : Layout where
  front := shm.front
  rear := shm.rear
  count := shm.count
  schedulerRunning := shm.schedulerRunning
  tasks := shm.tasks
  totalEnqueued := shm.totalEnqueued
  totalDequeued := shm.totalDequeued

/-- A store of zero, or of `false`. -/
def Layout.reset (layout : Layout) : LayoutField → Layout
  | .front => { layout with front := 0 }
  | .rear => { layout with rear := 0 }
  | .count => { layout with count := 0 }
  | .schedulerRunning => { layout with schedulerRunning := false }
  | .totalEnqueued => { layout with totalEnqueued := 0 }
  | .totalDequeued => { layout with totalDequeued := 0 }

/-! ## The kernel and the objects -/

/-- What has been made so far, by which object and as what; what the names are
bound to; and the contents of segments and semaphores.  Things are numbered in
the order in which they were made; the maker is `none` for those that are older
than the objects. -/
structure NamedKernel (ι Name : Type*) where
  things : List (Option ι × NamedKind)
  bound : Name × NamedKind → Option Nat
  segment : Nat → Layout
  semaphore : Nat → Nat

/-- What `fd_` holds: -1, or a descriptor, which may have been closed. -/
inductive Descriptor
  | none
  | opened (n : Nat)
  | closed
deriving DecidableEq

/-- What `data_` holds: `nullptr`, `MAP_FAILED`, or a mapping. -/
inductive Mapping
  | null
  | failed
  | mapped (n : Nat)
deriving DecidableEq

/-- What the pointer to a semaphore holds: `SEM_FAILED`, or a semaphore, which
may have been closed. -/
inductive SemHandle
  | failed
  | opened (n : Nat)
  | closed
deriving DecidableEq

/-- The members of a `PosixSharedMemory` that name things of the kernel. -/
structure NamedObject where
  fd : Descriptor
  data : Mapping
  sem : SemName → SemHandle

/-- An object as the constructor leaves it. -/
def NamedObject.constructed : NamedObject where
  fd := .none
  data := .null
  sem := fun _ => .failed

/-- The things an object that can be used works on. -/
structure Handles where
  data : Nat
  enqueueSem : Nat
  dequeueSem : Nat
  mutexSem : Nat

/-- The semaphores among the handles. -/
def Handles.sem (h : Handles) : SemName → Nat
  | .enq => h.enqueueSem
  | .deq => h.dequeueSem
  | .mutex => h.mutexSem

/-- The handles of an object, if it has all of them. -/
def NamedObject.handles? (o : NamedObject) : Option Handles :=
  match o.data, o.sem .enq, o.sem .deq, o.sem .mutex with
  | .mapped data, .opened enqueueSem, .opened dequeueSem, .opened mutexSem =>
      some ⟨data, enqueueSem, dequeueSem, mutexSem⟩
  | _, _, _, _ => none

/-- An object has handles if it is mapped and has all three semaphores. -/
theorem handles?_eq_some_iff {o : NamedObject} {h : Handles} :
    o.handles? = some h ↔
      o.data = .mapped h.data ∧ ∀ which, o.sem which = .opened (h.sem which) := by
  constructor
  · intro hsome
    unfold NamedObject.handles? at hsome
    split at hsome
    case h_2 => cases hsome
    case h_1 data enqueueSem dequeueSem mutexSem hdata henq hdeq hmut =>
      cases hsome
      refine ⟨hdata, fun which => ?_⟩
      cases which with
      | enq => exact henq
      | deq => exact hdeq
      | mutex => exact hmut
  · intro hall
    obtain ⟨hdata, hsem⟩ := hall
    simp only [NamedObject.handles?, hdata, hsem]
    rfl

section Kernel

variable {ι Name : Type*}

/-- What the calls on the queue see through the handles. -/
def NamedKernel.view (k : NamedKernel ι Name) (h : Handles) : Shm :=
  (k.segment h.data).shm (k.semaphore h.enqueueSem) (k.semaphore h.dequeueSem)
    (k.semaphore h.mutexSem)

/-- What the calls on the queue leave behind. -/
def NamedKernel.put (k : NamedKernel ι Name) (h : Handles) (shm : Shm) : NamedKernel ι Name :=
  { k with
    segment := Function.update k.segment h.data shm.layout
    semaphore :=
      Function.update (Function.update (Function.update k.semaphore
        h.enqueueSem shm.enqueueSem) h.dequeueSem shm.dequeueSem) h.mutexSem shm.mutexSem }

/-- A store to the mapped segment. -/
def NamedKernel.store (k : NamedKernel ι Name) (n : Nat) (write : Layout → Layout) :
    NamedKernel ι Name :=
  { k with segment := Function.update k.segment n (write (k.segment n)) }

theorem NamedKernel.store_self (k : NamedKernel ι Name) (n : Nat) (write : Layout → Layout) :
    (k.store n write).segment n = write (k.segment n) :=
  Function.update_self ..

theorem NamedKernel.store_of_ne (k : NamedKernel ι Name) {m n : Nat} (write : Layout → Layout)
    (h : m ≠ n) : (k.store n write).segment m = k.segment m :=
  Function.update_of_ne h ..

theorem NamedKernel.put_segment_of_ne (k : NamedKernel ι Name) {h : Handles} (shm : Shm) {n : Nat}
    (hne : n ≠ h.data) : (k.put h shm).segment n = k.segment n :=
  Function.update_of_ne hne ..

theorem NamedKernel.put_semaphore_of_ne (k : NamedKernel ι Name) {h : Handles} (shm : Shm)
    {n : Nat} (hne : ∀ which, n ≠ h.sem which) : (k.put h shm).semaphore n = k.semaphore n := by
  have hmut : n ≠ h.mutexSem := hne .mutex
  have hdeq : n ≠ h.dequeueSem := hne .deq
  have henq : n ≠ h.enqueueSem := hne .enq
  simp only [NamedKernel.put, Function.update_of_ne hmut, Function.update_of_ne hdeq,
    Function.update_of_ne henq]

/-- What has been put through different handles is what one sees through them. -/
theorem NamedKernel.view_put (k : NamedKernel ι Name) {h : Handles} (shm : Shm)
    (hne : ∀ which other, which ≠ other → h.sem which ≠ h.sem other) :
    (k.put h shm).view h = shm := by
  have henqDeq : h.enqueueSem ≠ h.dequeueSem := hne .enq .deq (by decide)
  have henqMut : h.enqueueSem ≠ h.mutexSem := hne .enq .mutex (by decide)
  have hdeqMut : h.dequeueSem ≠ h.mutexSem := hne .deq .mutex (by decide)
  simp only [NamedKernel.view, NamedKernel.put, Function.update_self,
    Function.update_of_ne henqDeq, Function.update_of_ne henqMut, Function.update_of_ne hdeqMut]
  rfl

variable [DecidableEq Name]

/-- `shm_unlink` and `sem_unlink`. -/
def NamedKernel.unlink (k : NamedKernel ι Name) (name : Name) (kind : NamedKind) :
    NamedKernel ι Name :=
  { k with bound := Function.update k.bound (name, kind) none }

/-- `shm_open` with `O_CREAT | O_EXCL`, of a name that is free. -/
def NamedKernel.makeSegment (k : NamedKernel ι Name) (i : ι) (name : Name) : NamedKernel ι Name :=
  { k with
    things := k.things ++ [(some i, .segment)]
    bound := Function.update k.bound (name, .segment) (some k.things.length)
    segment := Function.update k.segment k.things.length Layout.zeroed }

/-- `sem_open` with `O_CREAT | O_EXCL`, of a name that is free. -/
def NamedKernel.makeSemaphore (k : NamedKernel ι Name) (i : ι) (name : Name) (which : SemName)
    (value : Nat) : NamedKernel ι Name :=
  { k with
    things := k.things ++ [(some i, .semaphore which)]
    bound := Function.update k.bound (name, .semaphore which) (some k.things.length)
    semaphore := Function.update k.semaphore k.things.length value }

/-- What a thing was made as, and by whom. -/
def NamedKernel.label (k : NamedKernel ι Name) (n : Nat) : Option (Option ι × NamedKind) :=
  k.things[n]?

end Kernel

/-! ## The steps of the calls -/

/-- Where an object is in one of these calls; between calls it is `created` if
the last call was a `create` that returned, and `idle` otherwise. -/
inductive LifePc
  | idle
  | created
  | crtUnlinkSem (which : SemName)
  | crtUnlinkShm
  | crtOpenShm
  | crtTruncate
  | crtMap
  | crtStore (field : LayoutField)
  | crtOpenSem (which : SemName)
  | crtCheck
  | attOpenShm
  | attMap
  | detUnmap
  | dstUnmap
  | dstClose
  | dstUnlinkShm
  | dstCloseSem (which : SemName)
  | dstUnlinkSem (which : SemName)
deriving DecidableEq

/-- The first step of a call. -/
def LifeCall.entry : LifeCall → LifePc
  | .create => .crtUnlinkSem .enq
  | .attach => .attOpenShm
  | .detach => .detUnmap
  | .destroy => .dstUnmap

/-- No such call is under way. -/
def LifePc.rests : LifePc → Bool
  | .idle | .created => true
  | _ => false

/-- What the surroundings do to a system call. -/
structure SystemOutcome where
  fails : Bool
  strerror : String

/-- How one of these calls ends. -/
inductive LifeNote
  | returned (call : LifeCall)
  | thrown (message : String)

/-- `mmap` of the descriptor of the object. -/
def NamedObject.mmap (o : NamedObject) (out : SystemOutcome) : Mapping :=
  match out.fails, o.fd with
  | false, .opened n => .mapped n
  | _, _ => .failed

/-- `sem_close`, unless the pointer is `SEM_FAILED`. -/
def SemHandle.close : SemHandle → SemHandle
  | .failed => .failed
  | .opened _ | .closed => .closed

/-- One step of a call on object `i`. -/
def lifeStep {ι Name : Type*} [DecidableEq Name] (i : ι) (name : Name) (capacity : Nat)
    (out : SystemOutcome) (k : NamedKernel ι Name) (o : NamedObject) :
    LifePc → Option (NamedKernel ι Name × NamedObject × LifePc × List LifeNote)
  | .idle | .created => none
  -- `create`
  | .crtUnlinkSem which =>
      some (k.unlink name (.semaphore which), o,
        which.next.elim .crtUnlinkShm .crtUnlinkSem, [])
  | .crtUnlinkShm => some (k.unlink name .segment, o, .crtOpenShm, [])
  | .crtOpenShm =>
      if out.fails || (k.bound (name, .segment)).isSome then
        some (k, { o with fd := .none }, .idle,
          [.thrown ("Failed to create shared memory: " ++ out.strerror)])
      else
        some (k.makeSegment i name, { o with fd := .opened k.things.length }, .crtTruncate, [])
  | .crtTruncate =>
      if out.fails then
        some (k, { o with fd := .closed }, .idle,
          [.thrown ("Ftruncate failed: " ++ out.strerror)])
      else
        some (k, o, .crtMap, [])
  -- `attach`, which `create` calls with a descriptor that is not -1
  | .crtMap =>
      if o.mmap out = .failed then
        some (k, { o with data := .failed }, .idle, [.thrown ("mmap failed: " ++ out.strerror)])
      else
        some (k, { o with data := o.mmap out }, .crtStore .front, [])
  | .crtStore field =>
      match o.data with
      | .mapped n =>
          some (k.store n (·.reset field), o,
            field.next.elim (.crtOpenSem .enq) .crtStore, [])
      | _ => none
  | .crtOpenSem which =>
      if out.fails || (k.bound (name, .semaphore which)).isSome then
        some (k, { o with sem := Function.update o.sem which .failed },
          which.next.elim .crtCheck .crtOpenSem, [])
      else
        some (k.makeSemaphore i name which (which.initial capacity),
          { o with sem := Function.update o.sem which (.opened k.things.length) },
          which.next.elim .crtCheck .crtOpenSem, [])
  | .crtCheck =>
      if o.sem .enq = .failed ∨ o.sem .deq = .failed ∨ o.sem .mutex = .failed then
        some (k, o, .idle, [.thrown "Failed to create semaphores"])
      else
        some (k, o, .created, [.returned .create])
  -- `attach`
  | .attOpenShm =>
      if o.fd = .none then
        match out.fails, k.bound (name, .segment) with
        | false, some n => some (k, { o with fd := .opened n }, .attMap, [])
        | _, _ => some (k, o, .idle, [.thrown ("shm_open failed: " ++ out.strerror)])
      else
        some (k, o, .attMap, [])
  | .attMap =>
      if o.mmap out = .failed then
        some (k, { o with data := .failed }, .idle, [.thrown ("mmap failed: " ++ out.strerror)])
      else
        some (k, { o with data := o.mmap out }, .idle, [.returned .attach])
  -- `detach`
  | .detUnmap => some (k, { o with data := .null }, .idle, [.returned .detach])
  -- `destroy`
  | .dstUnmap => some (k, { o with data := .null }, .dstClose, [])
  | .dstClose =>
      if o.fd = .none then
        some (k, o, .dstCloseSem .enq, [])
      else
        some (k, { o with fd := .closed }, .dstUnlinkShm, [])
  | .dstUnlinkShm =>
      some (k.unlink name .segment, { o with fd := .none }, .dstCloseSem .enq, [])
  | .dstCloseSem which =>
      some (k, { o with sem := Function.update o.sem which (o.sem which).close },
        which.next.elim (.dstUnlinkSem .enq) .dstCloseSem, [])
  | .dstUnlinkSem which =>
      some (k.unlink name (.semaphore which), o, which.next.elim .idle .dstUnlinkSem,
        if which.next = none then [.returned .destroy] else [])

/-! ## The machine -/

/-- All objects, and where they and their threads are. -/
structure NamedState (ι Tid Name : Type*) where
  kernel : NamedKernel ι Name
  object : ι → NamedObject
  life : ι → LifePc
  pc : ι → Tid → QueuePc

/-- The objects have been constructed; there may be things and bindings that
others have left behind. -/
def NamedState.begin {ι Name : Type*} (Tid : Type*) (kernel : NamedKernel ι Name) :
    NamedState ι Tid Name where
  kernel := kernel
  object := fun _ => .constructed
  life := fun _ => .idle
  pc := fun _ _ => .idle

/-- What can happen to object `i`. -/
inductive NamedAction (ι Tid : Type*)
  | lifeCall (i : ι) (call : LifeCall)
  | lifeStep (i : ι) (out : SystemOutcome)
  | queueCall (i : ι) (t : Tid) (call : QueueCall)
  | queueStep (i : ι) (t : Tid) (fail : Bool)
  | setSchedulerRunning (i : ι) (running : Bool)

/-- What can be seen of object `i`. -/
inductive NamedEvent (ι Tid : Type*)
  | lifeNoted (i : ι) (note : LifeNote)
  | queueNoted (i : ι) (t : Tid) (note : Note)

/-- No call on the queue of this object is under way. -/
def QueuePc.rests : QueuePc → Bool
  | .idle => true
  | _ => false

/-- Any number of objects, with these names and capacities.  The queue calls are
those of the source for capacities up to `countTasks`. -/
def namedMachine (ι Tid : Type*) {Name : Type*} [DecidableEq ι] [DecidableEq Tid] [Fintype Tid]
    [DecidableEq Name] (name : ι → Name) (capacity : ι → Nat) :
    Machine (NamedState ι Tid Name) (NamedAction ι Tid) (NamedEvent ι Tid) where
  step s
    | .lifeCall i call =>
        if (s.life i).rests ∧ ∀ t, (s.pc i t).rests then
          some ({ s with life := Function.update s.life i call.entry }, [])
        else none
    | .lifeStep i out =>
        (lifeStep i (name i) (capacity i) out s.kernel (s.object i) (s.life i)).map fun r =>
          ({ kernel := r.1
             object := Function.update s.object i r.2.1
             life := Function.update s.life i r.2.2.1
             pc := s.pc }, r.2.2.2.map (.lifeNoted i ·))
    | .queueCall i t call =>
        if s.life i = .created ∧ (s.pc i t).rests then
          some ({ s with
            pc := Function.update s.pc i (Function.update (s.pc i) t call.entry) }, [])
        else none
    | .queueStep i t fail =>
        (s.object i).handles?.bind fun h =>
          (queueStep (capacity i) (s.kernel.view h) (s.pc i t) fail).map fun r =>
            ({ s with
              kernel := s.kernel.put h r.1
              pc := Function.update s.pc i (Function.update (s.pc i) t r.2.1) },
            r.2.2.map (.queueNoted i t ·))
    | .setSchedulerRunning i running =>
        match (s.object i).data with
        | .mapped n =>
            some ({ s with
              kernel := s.kernel.store n ({ · with schedulerRunning := running }) }, [])
        | .null => some (s, [])
        | .failed => none

end TaskSheduler
