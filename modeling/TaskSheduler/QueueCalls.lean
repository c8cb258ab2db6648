import TaskSheduler.World
import TaskSheduler.QueueFifo

/-!
# The queue calls as sequential programs

`enqueue`, `dequeue` and `print` as a thread that is alone executes them, in
the order of the source.  `finish` instead performs the steps of `queueStep`
until the call is over; `finish_enqueue`, `finish_dequeue` and
`finish_print` say that both agree, so what is proved here of the sequential
programs is about the same calls as the results on interleavings.

`Quiescent` is the state of the segment between calls.  Every call returns
from it, unless a `sem_wait` fails, and then it throws and leaves the segment
as it was.
-/

namespace TaskSheduler

open Interleaving RingBuffer Programs

/-- The three semaphores of a segment. -/
inductive Semaphore
  | enqueueSem
  | dequeueSem
  | mutexSem

/-- The value of a semaphore. -/
def Shm.value (shm : Shm) : Semaphore → Nat
  | .enqueueSem => shm.enqueueSem
  | .dequeueSem => shm.dequeueSem
  | .mutexSem => shm.mutexSem

/-- The segment with a semaphore set to `n`. -/
def Shm.setValue (shm : Shm) (n : Nat) : Semaphore → Shm
  | .enqueueSem => { shm with enqueueSem := n }
  | .dequeueSem => { shm with dequeueSem := n }
  | .mutexSem => { shm with mutexSem := n }

/-- `sem_wait(sem)`: whether it succeeded. -/
def waitOn (env : Env) (sem : Semaphore) : Program World Bool := fun w =>
  if env.waitFails w.waits then
    .ok false { w with waits := w.waits + 1 }
  else match semWait (w.shm.value sem) with
    | none => .error .blocked w
    | some n => .ok true { w with shm := w.shm.setValue n sem, waits := w.waits + 1 }

/-- `sem_post(sem)`. -/
def post (sem : Semaphore) : Program World Unit :=
  modify fun w => { w with shm := w.shm.setValue (w.shm.value sem + 1) sem }

/-- A load from the segment. -/
def load {α : Type} (read : Shm → α) : Program World α := fun w => .ok (read w.shm) w

/-- A store to the segment. -/
def store (write : Shm → Shm) : Program World Unit :=
  modify fun w => { w with shm := write w.shm }

/-- `PosixSharedMemory::enqueue`. -/
def enqueue (env : Env) (task : SharedTask) : Program World Unit := do
  if ← waitOn env .enqueueSem then
    if ← waitOn env .mutexSem then
      let rear ← load (·.rear)
      store (·.setTask rear task)
      store fun shm => { shm with rear := sizeAdd rear 1 % env.capacity }
      store fun shm => { shm with count := sizeAdd shm.count 1 }
      store fun shm => { shm with totalEnqueued := sizeAdd shm.totalEnqueued 1 }
      post .mutexSem
      post .dequeueSem
    else
      post .enqueueSem
      raise "Mutex semaphore wait failed"
  else
    raise "Enqueue semaphore wait failed"

/-- `PosixSharedMemory::dequeue`. -/
def dequeue (env : Env) : Program World SharedTask := do
  if ← waitOn env .dequeueSem then
    if ← waitOn env .mutexSem then
      let front ← load (·.front)
      if (← load (·.count)) = 0 then
        post .mutexSem
        post .dequeueSem
        raise "Queue is empty"
      else
        let task ← load fun shm => shm.tasks front
        store fun shm => { shm with front := sizeAdd front 1 % env.capacity }
        store fun shm => { shm with count := sizePred shm.count }
        store fun shm => { shm with totalDequeued := sizeAdd shm.totalDequeued 1 }
        post .mutexSem
        post .enqueueSem
        return task
    else
      post .dequeueSem
      raise "Mutex semaphore wait failed"
  else
    raise "Dequeue semaphore wait failed"

/-- The loop of `print` over the `left` entries from slot `index` on. -/
def printLines (capacity : Nat) (tasks : Nat → SharedTask) : Nat → Nat → List String
  | _, 0 => []
  | index, left + 1 =>
      (tasks index).line :: printLines capacity tasks (sizeAdd index 1 % capacity) left

/-- What `print` writes, given the lines of the entries. -/
def printed (lines : List String) : List String :=
  if lines = [] then ["  [Empty]"] else lines

/-- `PosixSharedMemory::print`. -/
def print (env : Env) : Program World Unit := do
  if ← waitOn env .mutexSem then
    let front ← load (·.front)
    let _rear ← load (·.rear)
    let count ← load (·.count)
    let lines ← load fun shm => printLines env.capacity shm.tasks front count
    writeOutput (printed lines)
    post .mutexSem
  else
    raise "Mutex semaphore wait failed during print"

/-- `size`. -/
def size : Program World Nat := load (·.count)

/-- `empty`. -/
def empty : Program World Bool := do return (← size) == 0

/-! ## Agreement with the steps of a call -/

/-- The program points at which a thread calls `sem_wait`. -/
def QueuePc.isWait : QueuePc → Bool
  | .enqWaitSlot _ | .enqWaitMutex _ | .deqWaitItem | .deqWaitMutex | .prnWaitMutex => true
  | _ => false

/-- The standard output after a note. -/
def outputAfter (output : List String) : Note → List String
  | .left (.printed lines) => output ++ printed lines
  | _ => output

/-- The reply a note announces. -/
def Note.reply? : Note → Option Reply
  | .finished reply => some reply
  | _ => none

/-- A thread that is alone performs one step of the call it is in. -/
def advance (env : Env) (pc : QueuePc) : Program World (QueuePc × Option Reply) := fun w =>
  match queueStep env.capacity w.shm pc (env.waitFails w.waits) with
  | none => .error .blocked w
  | some (shm, pc', notes) => .ok (pc', notes.findSome? Note.reply?) { w with
      shm := shm
      waits := if pc.isWait then w.waits + 1 else w.waits
      output := notes.foldl outputAfter w.output }

/-- A thread that is alone performs the steps of the call it is in. -/
def finish (env : Env) : Nat → QueuePc → Program World Reply
  | 0, _ => throw .outOfFuel
  | fuel + 1, pc => do
      match ← advance env pc with
      | (pc', none) => finish env fuel pc'
      | (_, some (.thrown message)) => raise message
      | (_, some reply) => return reply

section Apply

variable {env : Env} {w : World}

@[simp] theorem load_apply {α : Type} (read : Shm → α) : load read w = .ok (read w.shm) w := rfl

@[simp] theorem store_apply (write : Shm → Shm) :
    store write w = .ok () { w with shm := write w.shm } := rfl

@[simp] theorem post_apply (sem : Semaphore) :
    post sem w = .ok () { w with shm := w.shm.setValue (w.shm.value sem + 1) sem } := rfl

theorem waitOn_fails (sem : Semaphore) (h : env.waitFails w.waits = true) :
    waitOn env sem w = .ok false { w with waits := w.waits + 1 } := by
  rw [waitOn, if_pos h]

theorem waitOn_takes (sem : Semaphore) {n : Nat} (h : env.waitFails w.waits = false)
    (hn : w.shm.value sem = n + 1) :
    waitOn env sem w =
      .ok true { w with shm := w.shm.setValue n sem, waits := w.waits + 1 } := by
  rw [waitOn, if_neg (by simp [h]), hn]
  rfl

/-- The segment after an `enqueue`. -/
def Shm.enqueued (capacity : Nat) (task : SharedTask) (shm : Shm) : Shm :=
  { shm.setTask shm.rear task with
    rear := sizeAdd shm.rear 1 % capacity
    count := sizeAdd shm.count 1
    totalEnqueued := sizeAdd shm.totalEnqueued 1
    enqueueSem := shm.enqueueSem - 1
    dequeueSem := shm.dequeueSem + 1 }

/-- The segment after a `dequeue`. -/
def Shm.dequeued (capacity : Nat) (shm : Shm) : Shm :=
  { shm with
    front := sizeAdd shm.front 1 % capacity
    count := sizePred shm.count
    totalDequeued := sizeAdd shm.totalDequeued 1
    enqueueSem := shm.enqueueSem + 1
    dequeueSem := shm.dequeueSem - 1 }

/-- An `enqueue` whose two waits succeed. -/
theorem enqueue_apply (task : SharedTask) (h₀ : env.waitFails w.waits = false)
    (h₁ : env.waitFails (w.waits + 1) = false) (hslot : 0 < w.shm.enqueueSem)
    (hmutex : 0 < w.shm.mutexSem) :
    enqueue env task w =
      .ok () { w with shm := w.shm.enqueued env.capacity task, waits := w.waits + 2 } := by
  obtain ⟨n, hn⟩ : ∃ n, w.shm.enqueueSem = n + 1 := ⟨w.shm.enqueueSem - 1, by omega⟩
  obtain ⟨m, hm⟩ : ∃ m, w.shm.mutexSem = m + 1 := ⟨w.shm.mutexSem - 1, by omega⟩
  have hlock : waitOn env .mutexSem
      { w with shm := w.shm.setValue n .enqueueSem, waits := w.waits + 1 } =
        .ok true { w with shm := (w.shm.setValue n .enqueueSem).setValue m .mutexSem
                          waits := w.waits + 2 } :=
    waitOn_takes .mutexSem h₁ hm
  unfold enqueue
  rw [returns (waitOn_takes .enqueueSem h₀ hn), if_pos rfl, returns hlock, if_pos rfl]
  simp only [bind_apply, load_apply, store_apply, post_apply, Shm.value, Shm.setValue,
    Shm.setTask, Shm.enqueued, hn, hm, Nat.add_sub_cancel]

/-- An `enqueue` one of whose waits fails throws and leaves the segment alone. -/
theorem enqueue_throws (task : SharedTask) (hslot : 0 < w.shm.enqueueSem)
    (h : env.waitFails w.waits = true ∨ env.waitFails (w.waits + 1) = true) :
    ∃ message k, enqueue env task w = .error (.thrown message) { w with waits := k } := by
  obtain ⟨n, hn⟩ : ∃ n, w.shm.enqueueSem = n + 1 := ⟨w.shm.enqueueSem - 1, by omega⟩
  unfold enqueue
  by_cases h₀ : env.waitFails w.waits = true
  · rw [returns (waitOn_fails .enqueueSem h₀), if_neg (by decide)]
    exact ⟨_, _, rfl⟩
  · have h₁ : env.waitFails (w.waits + 1) = true := h.resolve_left h₀
    have hlock : waitOn env .mutexSem
        { w with shm := w.shm.setValue n .enqueueSem, waits := w.waits + 1 } =
          .ok false { w with shm := w.shm.setValue n .enqueueSem, waits := w.waits + 2 } :=
      waitOn_fails .mutexSem h₁
    rw [Bool.not_eq_true] at h₀
    rw [returns (waitOn_takes .enqueueSem h₀ hn), if_pos rfl, returns hlock,
      if_neg (by decide)]
    refine ⟨"Mutex semaphore wait failed", w.waits + 2, ?_⟩
    simp only [bind_apply, post_apply, raise_apply, Shm.value, Shm.setValue, ← hn]

/-- A `dequeue` whose two waits succeed, on a queue that is not empty. -/
theorem dequeue_apply (h₀ : env.waitFails w.waits = false)
    (h₁ : env.waitFails (w.waits + 1) = false) (hitem : 0 < w.shm.dequeueSem)
    (hmutex : 0 < w.shm.mutexSem) (hcount : w.shm.count ≠ 0) :
    dequeue env w = .ok (w.shm.tasks w.shm.front)
      { w with shm := w.shm.dequeued env.capacity, waits := w.waits + 2 } := by
  obtain ⟨n, hn⟩ : ∃ n, w.shm.dequeueSem = n + 1 := ⟨w.shm.dequeueSem - 1, by omega⟩
  obtain ⟨m, hm⟩ : ∃ m, w.shm.mutexSem = m + 1 := ⟨w.shm.mutexSem - 1, by omega⟩
  have hlock : waitOn env .mutexSem
      { w with shm := w.shm.setValue n .dequeueSem, waits := w.waits + 1 } =
        .ok true { w with shm := (w.shm.setValue n .dequeueSem).setValue m .mutexSem
                          waits := w.waits + 2 } :=
    waitOn_takes .mutexSem h₁ hm
  unfold dequeue
  rw [returns (waitOn_takes .dequeueSem h₀ hn), if_pos rfl, returns hlock, if_pos rfl]
  simp only [bind_apply, load_apply, store_apply, post_apply, Shm.value, Shm.setValue,
    Shm.dequeued, hn, hm, hcount, ↓reduceIte, Nat.add_sub_cancel, pure_apply]

/-- A `dequeue` one of whose waits fails throws and leaves the segment alone. -/
theorem dequeue_throws (hitem : 0 < w.shm.dequeueSem)
    (h : env.waitFails w.waits = true ∨ env.waitFails (w.waits + 1) = true) :
    ∃ message k, dequeue env w = .error (.thrown message) { w with waits := k } := by
  obtain ⟨n, hn⟩ : ∃ n, w.shm.dequeueSem = n + 1 := ⟨w.shm.dequeueSem - 1, by omega⟩
  unfold dequeue
  by_cases h₀ : env.waitFails w.waits = true
  · rw [returns (waitOn_fails .dequeueSem h₀), if_neg (by decide)]
    exact ⟨_, _, rfl⟩
  · have h₁ : env.waitFails (w.waits + 1) = true := h.resolve_left h₀
    have hlock : waitOn env .mutexSem
        { w with shm := w.shm.setValue n .dequeueSem, waits := w.waits + 1 } =
          .ok false { w with shm := w.shm.setValue n .dequeueSem, waits := w.waits + 2 } :=
      waitOn_fails .mutexSem h₁
    rw [Bool.not_eq_true] at h₀
    rw [returns (waitOn_takes .dequeueSem h₀ hn), if_pos rfl, returns hlock,
      if_neg (by decide)]
    refine ⟨"Mutex semaphore wait failed", w.waits + 2, ?_⟩
    simp only [bind_apply, post_apply, raise_apply, Shm.value, Shm.setValue, ← hn]

/-- A `print` whose wait succeeds leaves the segment as it was. -/
theorem print_apply (h₀ : env.waitFails w.waits = false) (hmutex : 0 < w.shm.mutexSem) :
    print env w = .ok ()
      { w with
        waits := w.waits + 1
        output := w.output ++
          printed (printLines env.capacity w.shm.tasks w.shm.front w.shm.count) } := by
  obtain ⟨m, hm⟩ : ∃ m, w.shm.mutexSem = m + 1 := ⟨w.shm.mutexSem - 1, by omega⟩
  unfold print
  rw [returns (waitOn_takes .mutexSem h₀ hm), if_pos rfl]
  simp only [bind_apply, load_apply, post_apply, writeOutput_apply, Shm.value, Shm.setValue,
    ← hm]

/-- A `print` whose wait fails throws and leaves the segment alone. -/
theorem print_throws (h : env.waitFails w.waits = true) :
    print env w = .error (.thrown "Mutex semaphore wait failed during print")
      { w with waits := w.waits + 1 } := by
  unfold print
  rw [returns (waitOn_fails .mutexSem h), if_neg (by decide)]
  rfl

end Apply

section Agreement

/-- One step of a lone thread that does not end the call. -/
theorem finish_step {env : Env} {w w' : World} {pc pc' : QueuePc} {fuel : Nat}
    (h : advance env pc w = .ok (pc', none) w') :
    finish env (fuel + 1) pc w = finish env fuel pc' w' := by
  rw [finish, returns h]

variable (env : Env) (w : World)

attribute [local simp] bind_apply map_apply finish advance queueStep waitOn semWait Note.reply?
  outputAfter QueuePc.isWait Shm.value Shm.setValue QueueCall.entry

/-- **`enqueue` is the run of its steps.** -/
theorem finish_enqueue (task : SharedTask) :
    finish env 10 (QueueCall.enqueue task).entry w =
      (enqueue env task >>= fun _ => pure Reply.enqueued) w := by
  unfold enqueue
  cases h₀ : env.waitFails w.waits with
  | true => simp [h₀]
  | false =>
      cases hslot : w.shm.enqueueSem with
      | zero => simp [h₀, hslot]
      | succ n =>
          cases h₁ : env.waitFails (w.waits + 1) with
          | true => simp [h₀, hslot, h₁]
          | false => cases hmutex : w.shm.mutexSem <;> simp [h₀, hslot, h₁, hmutex, Shm.setTask]

/-- **`dequeue` is the run of its steps.** -/
theorem finish_dequeue :
    finish env 10 QueueCall.dequeue.entry w =
      (dequeue env >>= fun task => pure (Reply.dequeued task)) w := by
  unfold dequeue
  cases h₀ : env.waitFails w.waits with
  | true => simp [h₀]
  | false =>
      cases hitem : w.shm.dequeueSem with
      | zero => simp [h₀, hitem]
      | succ n =>
          cases h₁ : env.waitFails (w.waits + 1) with
          | true => simp [h₀, hitem, h₁]
          | false =>
              cases hmutex : w.shm.mutexSem with
              | zero => simp [h₀, hitem, h₁, hmutex]
              | succ m =>
                  by_cases hcount : w.shm.count = 0 <;>
                    simp [h₀, hitem, h₁, hmutex, hcount]

/-- The loop of `print`, from slot `index` on, and the end of the call. -/
theorem finish_printLoop (index left : Nat) (lines : List String) :
    finish env (left + 2) (.prnLoadTask index left lines) w = .ok .printed { w with
      shm := { w.shm with mutexSem := w.shm.mutexSem + 1 }
      output := w.output ++
        printed (lines ++ printLines env.capacity w.shm.tasks index left) } := by
  induction left generalizing index lines with
  | zero =>
      have hempty : lines ++ printLines env.capacity w.shm.tasks index 0 = lines :=
        List.append_nil lines
      rw [hempty]
      rfl
  | succ left ih =>
      have hline : lines ++ printLines env.capacity w.shm.tasks index (left + 1) =
          (lines ++ [(w.shm.tasks index).line]) ++
            printLines env.capacity w.shm.tasks (sizeAdd index 1 % env.capacity) left := by
        rw [printLines, List.append_assoc]
        rfl
      have hstep : advance env (.prnLoadTask index (left + 1) lines) w =
          .ok (.prnLoadTask (sizeAdd index 1 % env.capacity) left
            (lines ++ [(w.shm.tasks index).line]), none) w := rfl
      rw [finish_step hstep, hline]
      exact ih _ _

/-- **`print` is the run of its steps.** -/
theorem finish_print :
    finish env (w.shm.count + 6) QueueCall.print.entry w =
      (print env >>= fun _ => pure Reply.printed) w := by
  unfold print
  cases h₀ : env.waitFails w.waits with
  | true => simp [h₀]
  | false =>
      cases hmutex : w.shm.mutexSem with
      | zero => simp [h₀, hmutex]
      | succ m =>
          let w₁ : World :=
            { w with shm := { w.shm with mutexSem := m }, waits := w.waits + 1 }
          have hwait : advance env .prnWaitMutex w = .ok (.prnLoadFront, none) w₁ := by
            simp [h₀, hmutex, w₁]
          have hfront : advance env .prnLoadFront w₁ =
              .ok (.prnLoadRear w.shm.front, none) w₁ := rfl
          have hrear : advance env (.prnLoadRear w.shm.front) w₁ =
              .ok (.prnLoadCount w.shm.front, none) w₁ := rfl
          have hcount : advance env (.prnLoadCount w.shm.front) w₁ =
              .ok (.prnLoadTask w.shm.front w.shm.count [], none) w₁ := rfl
          have hsteps : finish env (w.shm.count + 6) .prnWaitMutex w =
              finish env (w.shm.count + 2) (.prnLoadTask w.shm.front w.shm.count []) w₁ := by
            rw [finish_step hwait, finish_step hfront, finish_step hrear, finish_step hcount]
          rw [QueueCall.entry, hsteps, finish_printLoop]
          simp [h₀, hmutex, w₁]

end Agreement

/-! ## The segment between calls -/

/-- Between calls: the segment represents `q`, and the semaphores count its
free slots and its items. -/
structure Quiescent (capacity : Nat) (shm : Shm) (q : List SharedTask) : Prop where
  ring : Represents capacity shm q
  slots : shm.enqueueSem + q.length = capacity
  items : shm.dequeueSem = q.length
  mutex : shm.mutexSem = 1

/-- When no thread is in a call, a shared segment is quiescent. -/
theorem QueueInv.quiescent {Tid : Type*} [Fintype Tid] {capacity : Nat}
    {q : List SharedTask} {s : QueueState Tid} (h : QueueInv capacity q s)
    (hidle : ∀ t, s.pc t = .idle) : Quiescent capacity s.shm q := by
  have hring : Represents capacity s.shm q := h.ring fun t => by rw [hidle t]; rfl
  have hmutex := h.mutex
  have hslots := h.slots
  have hitems := h.items
  simp only [hidle, QueuePc.idle_heldMutex, QueuePc.idle_heldSlots, QueuePc.idle_heldItems,
    Finset.sum_const_zero, Nat.add_zero] at hmutex hslots hitems
  rw [hring.count_eq] at hslots hitems
  exact ⟨hring, hslots, hitems, hmutex⟩

/-- **The ring states between calls.**  Whatever calls any number of threads
have made, when none is in a call the segment is quiescent, and it holds the
tasks enqueued and not yet dequeued. -/
theorem quiescent_of_run {Tid : Type*} [Fintype Tid] [DecidableEq Tid] {capacity : Nat}
    (hpos : 1 ≤ capacity) (hcap : capacity ≤ countTasks) {trace : List (Tid × Note)}
    {s : QueueState Tid}
    (h : Run (queueMachine Tid capacity) (QueueState.created Tid capacity) trace s)
    (hidle : ∀ t, s.pc t = .idle) : Quiescent capacity s.shm (queueAfter trace) :=
  (runInv_run hpos (by simp only [countTasks] at hcap; omega) h).queue.quiescent hidle

/-- A created segment is quiescent and empty. -/
theorem quiescent_create {capacity : Nat} (hpos : 0 < capacity) :
    Quiescent capacity (Shm.create capacity) [] :=
  ⟨⟨Holds.empty hpos _, rfl⟩, rfl, rfl, rfl⟩

namespace Quiescent

variable {capacity : Nat} {shm : Shm} {q : List SharedTask} {task : SharedTask}

theorem length_le (h : Quiescent capacity shm q) : q.length ≤ capacity :=
  h.ring.holds.length_le

/-- A segment between calls represents one queue. -/
theorem unique {q' : List SharedTask} (h : Quiescent capacity shm q)
    (h' : Quiescent capacity shm q') : q = q' := by
  apply h.ring.holds.unique h'.ring.holds
  rw [← h.items, ← h'.items]

/-- A queue with room has a free slot. -/
theorem slot_pos (h : Quiescent capacity shm q) (hroom : q.length < capacity) :
    0 < shm.enqueueSem := by
  have := h.slots
  omega

theorem mutex_pos (h : Quiescent capacity shm q) : 0 < shm.mutexSem := by
  rw [h.mutex]
  exact Nat.one_pos

/-- A queue that is not empty has an item. -/
theorem item_pos (h : Quiescent capacity shm (task :: q)) : 0 < shm.dequeueSem := by
  rw [h.items]
  exact Nat.succ_pos _

theorem count_pos (h : Quiescent capacity shm (task :: q)) : 0 < shm.count := by
  rw [h.ring.count_eq]
  exact Nat.succ_pos _

/-- `enqueue` appends its task. -/
theorem enqueued (h : Quiescent capacity shm q) (hcap : capacity ≤ countTasks)
    (hroom : q.length < capacity) (task : SharedTask) :
    Quiescent capacity (shm.enqueued capacity task) (q ++ [task]) := by
  have hbound : countTasks = 100 := rfl
  have hrear := h.ring.holds.rear_lt
  have hslots := h.slots
  have hlen : (q ++ [task]).length = q.length + 1 := by simp
  have hheld : Holds capacity shm.front shm.rear (shm.setTask shm.rear task).tasks q :=
    h.ring.holds.write_rear hroom task
  have hslot : (shm.setTask shm.rear task).tasks shm.rear = task := by simp [Shm.setTask]
  have hpush := hheld.push hroom hslot
  constructor
  · refine ⟨?_, ?_⟩
    · show Holds capacity shm.front (sizeAdd shm.rear 1 % capacity) _ _
      rw [sizeAdd_one (by omega)]
      exact hpush
    · show sizeAdd shm.count 1 = _
      rw [h.ring.count_eq, sizeAdd_one (by omega), hlen]
  · show shm.enqueueSem - 1 + _ = _
    rw [hlen]
    omega
  · show shm.dequeueSem + 1 = _
    rw [hlen, h.items]
  · exact h.mutex

/-- `dequeue` takes the oldest task. -/
theorem dequeued (h : Quiescent capacity shm (task :: q)) (hcap : capacity ≤ countTasks) :
    Quiescent capacity (shm.dequeued capacity) q := by
  have hbound : countTasks = 100 := rfl
  have hfront := h.ring.holds.front_lt
  have hslots := h.slots
  have hlen : (task :: q).length = q.length + 1 := rfl
  have hle := h.length_le
  rw [hlen] at hslots hle
  constructor
  · refine ⟨?_, ?_⟩
    · show Holds capacity (sizeAdd shm.front 1 % capacity) shm.rear shm.tasks q
      rw [sizeAdd_one (by omega)]
      exact h.ring.holds.pop
    · show sizePred shm.count = _
      rw [h.ring.count_eq, hlen, sizePred_pos (by omega) (Nat.succ_pos _)]
      rfl
  · show shm.enqueueSem + 1 + _ = _
    omega
  · show shm.dequeueSem - 1 = _
    rw [h.items]
    rfl
  · exact h.mutex

end Quiescent

/-- A one-slot segment that holds one entry. -/
def Shm.holding (task : SharedTask) : Shm := (Shm.create 1).enqueued 1 task

theorem quiescent_holding (task : SharedTask) : Quiescent 1 (Shm.holding task) [task] :=
  (quiescent_create Nat.one_pos).enqueued (by decide) Nat.one_pos task

/-- A two-slot segment that holds two entries. -/
def Shm.holdingTwo (first second : SharedTask) : Shm :=
  ((Shm.create 2).enqueued 2 first).enqueued 2 second

theorem quiescent_holdingTwo (first second : SharedTask) :
    Quiescent 2 (Shm.holdingTwo first second) [first, second] :=
  ((quiescent_create Nat.two_pos).enqueued (by decide) Nat.two_pos first).enqueued (by decide)
    Nat.one_lt_two second

end TaskSheduler
