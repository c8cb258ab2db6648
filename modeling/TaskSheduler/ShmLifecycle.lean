import TaskSheduler.HandleCustody
import TaskSheduler.Program

/-!
# The life of a PosixSharedMemory object

Beside the queue calls an object has `create`, `attach`, `detach`, `destroy`
and a destructor, and these obtain and give back a file descriptor, a mapping
and three semaphores.  A `PosixSharedMemory` here is what its members hold;
all objects have the same name.  `Kernel` is what the process has been given,
and each call notes what it does with which handle, also when the value of the
member is one of the constants that name nothing.

A system call fails if its flag in `Failures` is set.  The queue calls are
followed as far as the handles they touch: what a call does after touching a
handle that is not open is undefined, and only the touch is recorded.
-/

namespace TaskSheduler

open Programs HandleCustody Interleaving

/-- What a member of an object can hold. -/
inductive Handle
  | descriptor (n : Nat)
  | mapping (n : Nat)
  | semaphore (n : Nat)
  /-- `-1` -/
  | noDescriptor
  /-- `nullptr` -/
  | nullMapping
  /-- `MAP_FAILED` -/
  | mapFailed
  /-- `SEM_FAILED` -/
  | semFailed
deriving DecidableEq

/-- The number a handle was given, if it names something. -/
def Handle.number? : Handle → Option Nat
  | .descriptor n | .mapping n | .semaphore n => some n
  | _ => none

/-- The members of a `PosixSharedMemory` that hold handles. -/
structure PosixSharedMemory where
  fd : Handle
  data : Handle
  enqueueSem : Handle
  dequeueSem : Handle
  mutexSem : Handle
deriving DecidableEq

/-- What the process has been given: how many handles so far, what has become of
each, and whether a segment has the name of the objects. -/
structure Kernel where
  handedOut : Nat
  linked : Bool
  status : Handle → Status

/-- A process that has been given nothing yet. -/
def Kernel.begin : Kernel where
  handedOut := 0
  linked := false
  status := fun _ => .unopened

/-- A call on an object: the object, the kernel, and what the call has done. -/
structure Frame where
  this : PosixSharedMemory
  kernel : Kernel
  events : List (HandleEvent Handle)

/-! ## System calls -/

/-- Which system calls fail, and the text of `errno`. -/
structure Failures where
  shmOpen : Bool
  ftruncate : Bool
  mmap : Bool
  enqueueSemOpen : Bool
  dequeueSemOpen : Bool
  mutexSemOpen : Bool
  strerror : String

/-- All system calls succeed. -/
def Failures.none : Failures := ⟨false, false, false, false, false, false, ""⟩

/-- Note what is done with a handle. -/
def note (e : HandleEvent Handle) : Program Frame Unit :=
  modify fun f => { f with
    kernel := { f.kernel with status := e.after f.kernel.status }
    events := f.events ++ [e] }

/-- The kernel hands out a new handle. -/
def handOut (make : Nat → Handle) : Program Frame Handle := do
  let n := (← get).kernel.handedOut
  modify fun f => { f with kernel := { f.kernel with handedOut := n + 1 } }
  note (.opened (make n))
  return make n

/-- `shm_unlink`. -/
def shmUnlink : Program Frame Unit :=
  modify fun f => { f with kernel := { f.kernel with linked := false } }

/-- `shm_open` with `O_CREAT | O_EXCL`. -/
def shmOpenNew (fails : Failures) : Program Frame Handle := do
  if fails.shmOpen then
    return .noDescriptor
  else
    modify fun f => { f with kernel := { f.kernel with linked := true } }
    handOut .descriptor

/-- `shm_open` of an existing segment. -/
def shmOpenExisting (fails : Failures) : Program Frame Handle := do
  if fails.shmOpen || !(← get).kernel.linked then
    return .noDescriptor
  else
    handOut .descriptor

/-- `mmap`. -/
def mmap (fails : Failures) (fd : Handle) : Program Frame Handle := do
  note (.used fd)
  if fails.mmap then return .mapFailed else handOut .mapping

/-- `sem_open`. -/
def semOpen (fails : Bool) : Program Frame Handle := do
  if fails then return .semFailed else handOut .semaphore

namespace PosixSharedMemory

/-! ## Construction, creation, destruction -/

/-- An object as the constructor leaves it. -/
def constructed : PosixSharedMemory where
  fd := .noDescriptor
  data := .nullMapping
  enqueueSem := .semFailed
  dequeueSem := .semFailed
  mutexSem := .semFailed

/-- The members of the object a call is made on. -/
def this : Program Frame PosixSharedMemory := fun f => .ok f.this f

/-- Assign to members of the object a call is made on. -/
def assign (write : PosixSharedMemory → PosixSharedMemory) : Program Frame Unit :=
  modify fun f => { f with this := write f.this }

/-- `PosixSharedMemory::attach`. -/
def attach (fails : Failures) : Program Frame Unit := do
  if (← this).fd = .noDescriptor then
    let fd ← shmOpenExisting fails
    assign fun o => { o with fd := fd }
    if fd = .noDescriptor then
      raise ("shm_open failed: " ++ fails.strerror)
  let data ← mmap fails (← this).fd
  assign fun o => { o with data := data }
  if data = .mapFailed then
    raise ("mmap failed: " ++ fails.strerror)

/-- `PosixSharedMemory::create`. -/
def create (fails : Failures) : Program Frame Unit := do
  shmUnlink
  let fd ← shmOpenNew fails
  assign fun o => { o with fd := fd }
  if fd = .noDescriptor then
    raise ("Failed to create shared memory: " ++ fails.strerror)
  note (.used fd)
  if fails.ftruncate then
    note (.released fd)
    raise ("Ftruncate failed: " ++ fails.strerror)
  attach fails
  note (.used (← this).data)
  let enqueueSem ← semOpen fails.enqueueSemOpen
  assign fun o => { o with enqueueSem := enqueueSem }
  let dequeueSem ← semOpen fails.dequeueSemOpen
  assign fun o => { o with dequeueSem := dequeueSem }
  let mutexSem ← semOpen fails.mutexSemOpen
  assign fun o => { o with mutexSem := mutexSem }
  if enqueueSem = .semFailed ∨ dequeueSem = .semFailed ∨ mutexSem = .semFailed then
    raise "Failed to create semaphores"

/-- `PosixSharedMemory::detach`. -/
def detach : Program Frame Unit := do
  let data := (← this).data
  if data ≠ .nullMapping then
    note (.released data)
    assign fun o => { o with data := .nullMapping }

/-- The part of `destroy` that closes the descriptor. -/
def closeDescriptor : Program Frame Unit := do
  let fd := (← this).fd
  if fd ≠ .noDescriptor then
    note (.released fd)
    shmUnlink
    assign fun o => { o with fd := .noDescriptor }

/-- The part of `destroy` that closes one of the semaphores. -/
def closeSem (sem : Handle) : Program Frame Unit := do
  if sem ≠ .semFailed then
    note (.released sem)

/-- `PosixSharedMemory::destroy`. -/
def destroy : Program Frame Unit := do
  detach
  closeDescriptor
  let o ← this
  closeSem o.enqueueSem
  closeSem o.dequeueSem
  closeSem o.mutexSem

/-- The destructor: `cleanup`, which logs what `destroy` throws. -/
def destruct : Program Frame Unit :=
  catchThrown destroy fun _ => return

/-- `set_scheduler_running`. -/
def setSchedulerRunning : Program Frame Unit := do
  let data := (← this).data
  if data ≠ .nullMapping then
    note (.used data)

/-- `is_scheduler_running`. -/
def isSchedulerRunning (flag : Bool) : Program Frame Bool := do
  let data := (← this).data
  if data ≠ .nullMapping then
    note (.used data)
    return flag
  else
    return false

/-! ## The queue calls, as far as they touch handles -/

/-- How a `sem_wait` ends. -/
inductive WaitOutcome
  | taken
  | failed
  | blocked

/-- What a queue call meets: how its waits end, and the `count_` it reads. -/
structure CallOutcome where
  first : WaitOutcome
  second : WaitOutcome
  count : Nat

/-- `sem_wait`: whether it succeeded. -/
def waitFor (sem : Handle) (outcome : WaitOutcome) : Program Frame Bool := do
  note (.used sem)
  match outcome with
  | .taken => return true
  | .failed => return false
  | .blocked => throw .blocked

/-- `PosixSharedMemory::enqueue`. -/
def enqueue (outcome : CallOutcome) : Program Frame Unit := do
  let o ← this
  if ← waitFor o.enqueueSem outcome.first then
    if ← waitFor o.mutexSem outcome.second then
      note (.used o.data)
      note (.used o.mutexSem)
      note (.used o.dequeueSem)
    else
      note (.used o.enqueueSem)
      raise "Mutex semaphore wait failed"
  else
    raise "Enqueue semaphore wait failed"

/-- `PosixSharedMemory::dequeue`. -/
def dequeue (outcome : CallOutcome) : Program Frame Unit := do
  let o ← this
  if ← waitFor o.dequeueSem outcome.first then
    if ← waitFor o.mutexSem outcome.second then
      note (.used o.data)
      note (.used o.mutexSem)
      if outcome.count = 0 then
        note (.used o.dequeueSem)
        raise "Queue is empty"
      else
        note (.used o.enqueueSem)
    else
      note (.used o.dequeueSem)
      raise "Mutex semaphore wait failed"
  else
    raise "Dequeue semaphore wait failed"

/-- `PosixSharedMemory::print`, with the test of `validate`. -/
def print (outcome : CallOutcome) : Program Frame Unit := do
  let o ← this
  if ← waitFor o.mutexSem outcome.first then
    if o.data = .nullMapping then
      note (.used o.mutexSem)
      raise "Shared memory not attached"
    else
      note (.used o.data)
      note (.used o.mutexSem)
  else
    raise "Mutex semaphore wait failed during print"

/-- `PosixSharedMemory::size`. -/
def size (outcome : CallOutcome) : Program Frame Nat := do
  note (.used (← this).data)
  return outcome.count

end PosixSharedMemory

/-- The calls on the queue. -/
inductive QueueOperation
  | enqueue
  | dequeue
  | print
  | size

/-- Run a call on the queue. -/
def QueueOperation.run (outcome : PosixSharedMemory.CallOutcome) :
    QueueOperation → Program Frame Unit
  | .enqueue => PosixSharedMemory.enqueue outcome
  | .dequeue => PosixSharedMemory.dequeue outcome
  | .print => PosixSharedMemory.print outcome
  | .size => do
      let _ ← PosixSharedMemory.size outcome

/-! ## Any number of objects -/

/-- The calls that change what an object holds. -/
inductive LifeCall
  | create
  | attach
  | detach
  | destroy

/-- Run such a call with all its system calls succeeding. -/
def LifeCall.run : LifeCall → Program Frame Unit
  | .create => PosixSharedMemory.create .none
  | .attach => PosixSharedMemory.attach .none
  | .detach => PosixSharedMemory.detach
  | .destroy => PosixSharedMemory.destroy

/-- What can happen to the objects of a program. -/
inductive LifeAction (ι : Type*)
  | construct (i : ι)
  /-- The copy constructor, as `TaskQueueManager(PosixSharedMemory&)` calls it. -/
  | copy (i j : ι)
  | call (i : ι) (call : LifeCall)
  | destruct (i : ι)

/-- The objects there are, and the kernel. -/
structure ShmSystem (ι : Type*) where
  objects : ι → Option PosixSharedMemory
  kernel : Kernel

/-- No objects yet. -/
def ShmSystem.begin (ι : Type*) : ShmSystem ι where
  objects := fun _ => none
  kernel := .begin

variable {ι : Type*} [DecidableEq ι]

/-- A call on object `i`; `after` says what is left of the object. -/
def ShmSystem.onObject (s : ShmSystem ι) (i : ι) (call : Program Frame Unit)
    (after : PosixSharedMemory → Option PosixSharedMemory) :
    Option (ShmSystem ι × List (HandleEvent Handle)) :=
  match s.objects i with
  | none => none
  | some o =>
      match call ⟨o, s.kernel, []⟩ with
      | .error _ _ => none
      | .ok _ f => some (⟨Function.update s.objects i (after f.this), f.kernel⟩, f.events)

/-- The machine whose runs are the sequences of calls that all succeed. -/
def lifeMachine (ι : Type*) [DecidableEq ι] :
    Machine (ShmSystem ι) (LifeAction ι) (HandleEvent Handle) where
  step s
    | .construct i =>
        match s.objects i with
        | some _ => none
        | none =>
            some ({ s with objects := Function.update s.objects i (some .constructed) }, [])
    | .copy i j =>
        match s.objects i, s.objects j with
        | some o, none => some ({ s with objects := Function.update s.objects j (some o) }, [])
        | _, _ => none
    | .call i call => s.onObject i call.run some
    | .destruct i => s.onObject i PosixSharedMemory.destruct fun _ => none

end TaskSheduler
