import TaskSheduler.PosixSharedMemory
import TaskSheduler.ByteMemory
import TaskSheduler.RingBuffer

/-!
# The segment as bytes

`SharedMemoryLayout` is packed: three 8-byte indices, one flag byte,
`COUNT_TASKS` entries of 276 bytes and two 8-byte totals, in this order.
`create` maps the struct plus `capacity - 1` further entries, and the slot
`tasks_[i]` is addressed from the start of the array whatever `i` is.

`Segment` is the mapping with the three semaphores; `enqueue` and `dequeue`
act on its bytes.  One slot past the declared array shares its bytes with the
totals, so the picture of separate fields is right exactly for the capacities
up to `COUNT_TASKS`: `slots_and_counters_iff`.
-/

namespace TaskSheduler

open ByteMemory RingBuffer

/-! ## Offsets and sizes -/

/-- `sizeof(SharedTask)`: id, priority, description, type, flag, padding,
remaining time. -/
def sizeofSharedTask : Nat := 4 + 4 + maxPath + 4 + 1 + 3 + 4

def frontAt : Nat := 0
def rearAt : Nat := 8
def countAt : Nat := 16
def runningAt : Nat := 24
def tasksAt : Nat := 25

/-- The offset of `tasks_[i]`. -/
def slotAt (i : Nat) : Nat := tasksAt + i * sizeofSharedTask

def totalEnqueuedAt : Nat := tasksAt + countTasks * sizeofSharedTask
def totalDequeuedAt : Nat := totalEnqueuedAt + 8

/-- `sizeof(SharedMemoryLayout)`. -/
def sizeofLayout : Nat := totalDequeuedAt + 8

/-- The `total_size` that `create` maps. -/
def totalSize (capacity : Nat) : Nat := sizeofLayout + (capacity - 1) * sizeofSharedTask

/-- The bytes of slot `i`. -/
def slotSpan (i : Nat) : Span := ⟨slotAt i, sizeofSharedTask⟩

/-- The bytes of `front_`, `rear_`, `count_`, `scheduler_running_`,
`total_enqueued_` and `total_dequeued_`. -/
def controlSpans : List Span :=
  [⟨frontAt, 8⟩, ⟨rearAt, 8⟩, ⟨countAt, 8⟩, ⟨runningAt, 1⟩, ⟨totalEnqueuedAt, 8⟩,
    ⟨totalDequeuedAt, 8⟩]

/-- Every slot below the capacity lies inside the mapping and shares no byte
with a control field. -/
def SlotsClear (capacity : Nat) : Prop :=
  ∀ i < capacity, (slotSpan i).Within (totalSize capacity) ∧
    ∀ field ∈ controlSpans, (slotSpan i).Apart field

/-! ## Fields in memory -/

/-- Read a `size_t`. -/
def loadSize (mem : Memory) (off : Nat) : Nat := loadNat mem off 8

/-- Write a `size_t`. -/
def storeSize (mem : Memory) (off value : Nat) : Memory := storeNat mem off 8 value

/-- Read an `int`. -/
def loadInt (mem : Memory) (off : Nat) : Int32 :=
  (UInt32.ofNat (loadNat mem off 4)).toInt32

/-- Write an `int`. -/
def storeInt (mem : Memory) (off : Nat) (value : Int32) : Memory :=
  storeNat mem off 4 value.toUInt32.toNat

/-- Read the entry at `off`. -/
def loadTask (mem : Memory) (off : Nat) : SharedTask where
  id := loadInt mem off
  priority := loadInt mem (off + 4)
  description := ⟨load mem (off + 8) maxPath, load_length _ _ _⟩
  type := loadInt mem (off + 264)
  completed := mem (off + 268) != 0
  remainingTimeMs := loadInt mem (off + 272)

/-- Write an entry at `off`, field by field; padding keeps its bytes. -/
def storeTask (mem : Memory) (off : Nat) (task : SharedTask) : Memory :=
  let mem := storeInt mem off task.id
  let mem := storeInt mem (off + 4) task.priority
  let mem := store mem (off + 8) task.description.toList
  let mem := storeInt mem (off + 264) task.type
  let mem := store mem (off + 268) [if task.completed then 1 else 0]
  storeInt mem (off + 272) task.remainingTimeMs

theorem loadSize_storeSize_same (mem : Memory) (off value : Nat) :
    loadSize (storeSize mem off value) off = value % 2 ^ 64 :=
  loadNat_storeNat_same mem off 8 value

theorem loadInt_storeInt_same (mem : Memory) (off : Nat) (value : Int32) :
    loadInt (storeInt mem off value) off = value := by
  unfold loadInt storeInt
  rw [loadNat_storeNat_same]
  have hlt : value.toUInt32.toNat < 256 ^ 4 := value.toUInt32.toNat_lt
  rw [Nat.mod_eq_of_lt hlt, UInt32.ofNat_toNat]
  rfl

theorem storeInt_outside {mem : Memory} {off b : Nat} {value : Int32}
    (h : b < off ∨ off + 4 ≤ b) : storeInt mem off value b = mem b :=
  storeNat_outside h

theorem loadInt_congr {mem mem' : Memory} {off : Nat}
    (h : ∀ b, off ≤ b → b < off + 4 → mem b = mem' b) : loadInt mem off = loadInt mem' off := by
  rw [loadInt, loadNat_congr h, loadInt]

theorem loadSize_congr {mem mem' : Memory} {off : Nat}
    (h : ∀ b, off ≤ b → b < off + 8 → mem b = mem' b) :
    loadSize mem off = loadSize mem' off :=
  loadNat_congr h

/-- `storeTask` writes no byte outside its entry. -/
theorem storeTask_outside {mem : Memory} {off b : Nat} {task : SharedTask}
    (h : b < off ∨ off + sizeofSharedTask ≤ b) : storeTask mem off task b = mem b := by
  have hsize : sizeofSharedTask = 276 := rfl
  have hdesc : task.description.toList.length = 256 := task.description.toList_length
  unfold storeTask
  rw [storeInt_outside (by omega), store_outside (by simp only [List.length_singleton]; omega),
    storeInt_outside (by omega), store_outside (by omega), storeInt_outside (by omega),
    storeInt_outside (by omega)]

/-- An entry just written reads back, field for field. -/
theorem loadTask_storeTask_same (mem : Memory) (off : Nat) (task : SharedTask) :
    loadTask (storeTask mem off task) off = task := by
  have hdesc : task.description.toList.length = 256 := task.description.toList_length
  have hid : loadInt (storeTask mem off task) off = task.id := by
    rw [← loadInt_storeInt_same mem off task.id]
    apply loadInt_congr
    intro b hlo hhi
    unfold storeTask
    rw [storeInt_outside (by omega), store_outside (by simp only [List.length_singleton]; omega),
      storeInt_outside (by omega), store_outside (by omega), storeInt_outside (by omega)]
  have hpriority : loadInt (storeTask mem off task) (off + 4) = task.priority := by
    rw [← loadInt_storeInt_same (storeInt mem off task.id) (off + 4) task.priority]
    apply loadInt_congr
    intro b hlo hhi
    unfold storeTask
    rw [storeInt_outside (by omega), store_outside (by simp only [List.length_singleton]; omega),
      storeInt_outside (by omega), store_outside (by omega)]
  have hdescription : load (storeTask mem off task) (off + 8) maxPath =
      task.description.toList := by
    have hsame := load_store_same (storeInt (storeInt mem off task.id) (off + 4) task.priority)
      (off + 8) task.description.toList
    rw [hdesc] at hsame
    rw [← hsame]
    apply load_congr
    intro b hlo hhi
    simp only [maxPath] at hhi
    unfold storeTask
    rw [storeInt_outside (by omega), store_outside (by simp only [List.length_singleton]; omega),
      storeInt_outside (by omega)]
  have htype : loadInt (storeTask mem off task) (off + 264) = task.type := by
    rw [← loadInt_storeInt_same (store (storeInt (storeInt mem off task.id) (off + 4)
      task.priority) (off + 8) task.description.toList) (off + 264) task.type]
    apply loadInt_congr
    intro b hlo hhi
    unfold storeTask
    rw [storeInt_outside (by omega), store_outside (by simp only [List.length_singleton]; omega)]
  have hcompleted : (storeTask mem off task (off + 268) != 0) = task.completed := by
    unfold storeTask
    rw [storeInt_outside (by omega)]
    cases task.completed <;> simp [store]
  have hremaining : loadInt (storeTask mem off task) (off + 272) = task.remainingTimeMs :=
    loadInt_storeInt_same _ _ _
  exact SharedTask.ext hid hpriority (Subtype.ext hdescription) htype hcompleted hremaining

/-- Reading an entry depends on its own bytes only. -/
theorem loadTask_congr {mem mem' : Memory} {off : Nat}
    (h : ∀ b, off ≤ b → b < off + sizeofSharedTask → mem b = mem' b) :
    loadTask mem off = loadTask mem' off := by
  have hsize : sizeofSharedTask = 276 := rfl
  apply SharedTask.ext
  case id => exact loadInt_congr fun b hlo hhi => h b (by omega) (by omega)
  case priority => exact loadInt_congr fun b hlo hhi => h b (by omega) (by omega)
  case description =>
    refine Subtype.ext (load_congr fun b hlo hhi => h b (by omega) ?_)
    simp only [maxPath] at hhi
    omega
  case type => exact loadInt_congr fun b hlo hhi => h b (by omega) (by omega)
  case completed =>
    simp only [loadTask]
    rw [h (off + 268) (by omega) (by omega)]
  case remainingTimeMs => exact loadInt_congr fun b hlo hhi => h b (by omega) (by omega)

/-! ## The calls on bytes -/

/-- The mapping and the three semaphores. -/
structure Segment where
  mem : Memory
  enqueueSem : Nat
  dequeueSem : Nat
  mutexSem : Nat

/-- `create`: the mapping is zero-filled, then the fields are stored. -/
def Segment.create (capacity : Nat) : Segment where
  mem :=
    let mem : Memory := fun _ => 0
    let mem := storeSize mem frontAt 0
    let mem := storeSize mem rearAt 0
    let mem := storeSize mem countAt 0
    let mem := store mem runningAt [0]
    let mem := storeSize mem totalEnqueuedAt 0
    storeSize mem totalDequeuedAt 0
  enqueueSem := capacity
  dequeueSem := 0
  mutexSem := 1

/-- `enqueue` on bytes; `none` when a `sem_wait` blocks. -/
def Segment.enqueue (capacity : Nat) (seg : Segment) (task : SharedTask) : Option Segment := do
  let enqueueSem ← semWait seg.enqueueSem
  let mutexSem ← semWait seg.mutexSem
  let mem := seg.mem
  let rear := loadSize mem rearAt
  let mem := storeTask mem (slotAt rear) task
  let mem := storeSize mem rearAt (sizeAdd rear 1 % capacity)
  let mem := storeSize mem countAt (sizeAdd (loadSize mem countAt) 1)
  let mem := storeSize mem totalEnqueuedAt (sizeAdd (loadSize mem totalEnqueuedAt) 1)
  return ⟨mem, enqueueSem, seg.dequeueSem + 1, mutexSem + 1⟩

/-- `dequeue` on bytes; `none` when a `sem_wait` blocks, no task when it throws
"Queue is empty". -/
def Segment.dequeue (capacity : Nat) (seg : Segment) :
    Option (Option SharedTask × Segment) := do
  let dequeueSem ← semWait seg.dequeueSem
  let mutexSem ← semWait seg.mutexSem
  let mem := seg.mem
  let front := loadSize mem frontAt
  if loadSize mem countAt = 0 then
    return (none, ⟨mem, seg.enqueueSem, dequeueSem + 1, mutexSem + 1⟩)
  else
    let task := loadTask mem (slotAt front)
    let mem := storeSize mem frontAt (sizeAdd front 1 % capacity)
    let mem := storeSize mem countAt (sizePred (loadSize mem countAt))
    let mem := storeSize mem totalDequeuedAt (sizeAdd (loadSize mem totalDequeuedAt) 1)
    return (some task, ⟨mem, seg.enqueueSem + 1, dequeueSem, mutexSem + 1⟩)

/-- The calls of one thread on the segment. -/
inductive RingCall
  | enqueue (task : SharedTask)
  | dequeue

/-- A sequence of calls, with the results of the dequeues; `none` as soon as a
call blocks. -/
def Segment.run (capacity : Nat) :
    Segment → List RingCall → Option (List (Option SharedTask) × Segment)
  | seg, [] => some ([], seg)
  | seg, .enqueue task :: rest =>
      (seg.enqueue capacity task).bind fun next => Segment.run capacity next rest
  | seg, .dequeue :: rest =>
      (seg.dequeue capacity).bind fun r =>
        (Segment.run capacity r.2 rest).map fun q => (r.1 :: q.1, q.2)

/-- The tasks passed to `enqueue` in a sequence of calls. -/
def enqueuesIn : List RingCall → List SharedTask
  | [] => []
  | .enqueue task :: rest => task :: enqueuesIn rest
  | .dequeue :: rest => enqueuesIn rest

/-- The number of `dequeue` calls in a sequence. -/
def dequeuesIn : List RingCall → Nat
  | [] => 0
  | .enqueue _ :: rest => dequeuesIn rest
  | .dequeue :: rest => dequeuesIn rest + 1

/-- After every sequence of completed calls on a created segment, the dequeues
have returned the first enqueued tasks, field for field, and the two totals
equal the numbers of completed calls (as `size_t` values). -/
def CallsExact (capacity : Nat) : Prop :=
  ∀ calls results seg, (Segment.create capacity).run capacity calls = some (results, seg) →
    results = ((enqueuesIn calls).take (dequeuesIn calls)).map some ∧
      loadSize seg.mem totalEnqueuedAt = (enqueuesIn calls).length % 2 ^ 64 ∧
      loadSize seg.mem totalDequeuedAt = dequeuesIn calls % 2 ^ 64

/-! ## The layout, slot by slot -/

/-- **Slots and control fields.**  They are apart exactly for the declared
number of slots. -/
theorem slotsClear_iff (capacity : Nat) : SlotsClear capacity ↔ capacity ≤ countTasks := by
  constructor
  · intro h
    by_contra hbig
    obtain ⟨-, hapart⟩ := h countTasks (by omega)
    refine hapart ⟨totalEnqueuedAt, 8⟩ (by simp [controlSpans]) totalEnqueuedAt ⟨?_, ?_⟩
    · exact ⟨Nat.le_refl _, by decide⟩
    · exact ⟨Nat.le_refl _, by decide⟩
  · intro h i hi
    simp only [countTasks] at h
    refine ⟨?_, ?_⟩
    · simp only [Span.Within, slotSpan, slotAt, tasksAt, totalSize, sizeofLayout,
        totalDequeuedAt, totalEnqueuedAt, countTasks, sizeofSharedTask, maxPath]
      omega
    · intro field hfield
      apply Span.apart_of_le
      simp only [controlSpans, List.mem_cons, List.not_mem_nil, or_false] at hfield
      rcases hfield with rfl | rfl | rfl | rfl | rfl | rfl <;>
        simp only [slotSpan, slotAt, tasksAt, frontAt, rearAt, countAt, runningAt,
          totalDequeuedAt, totalEnqueuedAt, countTasks, sizeofSharedTask, maxPath] <;>
        omega

end TaskSheduler
