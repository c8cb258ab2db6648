import TaskSheduler.PosixSharedMemory
import TaskSheduler.RingBuffer

/-!
# The invariant of the shared queue

For any number of threads sharing one created segment, `QueueInv` ties the
three semaphores, the threads in flight, the indices, the count and the slots
to one logical queue `q`.

* Tokens.  `heldMutex`, `heldSlots` and `heldItems` say how many tokens of the
  mutex, of free slots and of items a program point holds; each is conserved
  by every step (`queueStep_mutex`, `queueStep_slots`, `queueStep_items`).
* Ring.  While nobody is in a critical section the segment `Represents` the
  logical queue; inside one, `SectionOk` says how far the section has got.

`queueInv_step` is the step lemma; `NoteOk` records what a step shows, so that
a run can be read off from its events.
-/

namespace TaskSheduler

open Interleaving RingBuffer

/-- Between a successful `sem_wait(mutex_sem_)` and its `sem_post`. -/
def QueuePc.inCritical : QueuePc → Bool
  | .enqLoadRear _ | .enqStoreTask _ _ | .enqStoreRear _ _ | .enqAddCount _
  | .enqAddTotal _ | .enqPostMutex _ => true
  | .deqLoadFront | .deqLoadCount _ | .deqEmptyPostMutex | .deqLoadTask _
  | .deqStoreFront _ _ | .deqSubCount _ | .deqAddTotal _ | .deqPostMutex _ => true
  | .prnLoadFront | .prnLoadRear _ | .prnLoadCount _ | .prnLoadTask _ _ _
  | .prnPostMutex _ => true
  | _ => false

/-- The mutex tokens a thread holds. -/
def QueuePc.heldMutex (pc : QueuePc) : Nat := if pc.inCritical then 1 else 0

/-- The free-slot tokens a thread holds: an enqueue that has reserved a slot
and not counted it yet, a dequeue that has uncounted one and not freed it. -/
def QueuePc.heldSlots : QueuePc → Nat
  | .enqWaitMutex _ | .enqGiveBackSlot _ | .enqLoadRear _ | .enqStoreTask _ _
  | .enqStoreRear _ _ | .enqAddCount _ => 1
  | .deqAddTotal _ | .deqPostMutex _ | .deqPostSlot _ => 1
  | _ => 0

/-- The item tokens a thread holds: a dequeue that has claimed an item and not
uncounted it yet, an enqueue that has counted one and not announced it. -/
def QueuePc.heldItems : QueuePc → Nat
  | .deqWaitMutex | .deqGiveBackItem | .deqLoadFront | .deqLoadCount _
  | .deqEmptyPostMutex | .deqEmptyPostItem | .deqLoadTask _ | .deqStoreFront _ _
  | .deqSubCount _ => 1
  | .enqAddTotal _ | .enqPostMutex _ | .enqPostItem => 1
  | _ => 0

/-- The segment represents the queue `q` and counts its elements. -/
structure Represents (capacity : Nat) (shm : Shm) (q : List SharedTask) : Prop where
  holds : Holds capacity shm.front shm.rear shm.tasks q
  count_eq : shm.count = q.length

/-- What a thread in its critical section has established, with `q` the queue
at the moment it entered. -/
def SectionOk (capacity : Nat) (shm : Shm) (q : List SharedTask) : QueuePc → Prop
  | .enqLoadRear _ => Represents capacity shm q ∧ q.length < capacity
  | .enqStoreTask _ rear =>
      Represents capacity shm q ∧ q.length < capacity ∧ rear = shm.rear
  | .enqStoreRear task rear =>
      Represents capacity shm q ∧ q.length < capacity ∧ rear = shm.rear ∧
        shm.tasks rear = task
  | .enqAddCount task =>
      Holds capacity shm.front shm.rear shm.tasks (q ++ [task]) ∧ shm.count = q.length
  | .enqAddTotal task | .enqPostMutex task => Represents capacity shm (q ++ [task])
  | .deqLoadFront => Represents capacity shm q ∧ q ≠ []
  | .deqLoadCount front | .deqLoadTask front =>
      Represents capacity shm q ∧ q ≠ [] ∧ front = shm.front
  | .deqEmptyPostMutex => False
  | .deqStoreFront front task =>
      Represents capacity shm q ∧ front = shm.front ∧ ∃ rest, q = task :: rest
  | .deqSubCount task => ∃ rest, q = task :: rest ∧
      Holds capacity shm.front shm.rear shm.tasks rest ∧ shm.count = q.length ∧
        q.length ≤ capacity
  | .deqAddTotal task | .deqPostMutex task =>
      ∃ rest, q = task :: rest ∧ Represents capacity shm rest
  | .prnLoadFront => Represents capacity shm q
  | .prnLoadRear front | .prnLoadCount front =>
      Represents capacity shm q ∧ front = shm.front
  | .prnLoadTask index left lines => Represents capacity shm q ∧ ∃ k,
      k + left = q.length ∧ index = (shm.front + k) % capacity ∧
        lines = (q.take k).map SharedTask.line
  | .prnPostMutex lines => Represents capacity shm q ∧ lines = q.map SharedTask.line
  | _ => True

/-- What leaving a critical section does to the logical queue. -/
def afterNote (q : List SharedTask) : Note → List SharedTask
  | .left (.enqueued task) => q ++ [task]
  | .left (.dequeued _) => q.tail
  | _ => q

/-- What a step may show when the logical queue is `q`. -/
def NoteOk (q : List SharedTask) : Note → Prop
  | .left (.dequeued task) => ∃ rest, q = task :: rest
  | .left (.printed lines) => lines = q.map SharedTask.line
  | .left .foundEmpty => False
  | _ => True

/-- The notes of one step, each justified by the logical queue it meets. -/
def NotesOk : List SharedTask → List Note → Prop
  | _, [] => True
  | q, n :: rest => NoteOk q n ∧ NotesOk (afterNote q n) rest

/-! ## Token conservation, one thread at a time -/

@[simp] theorem QueuePc.idle_heldMutex : QueuePc.idle.heldMutex = 0 := rfl

@[simp] theorem QueuePc.idle_heldSlots : QueuePc.idle.heldSlots = 0 := rfl

@[simp] theorem QueuePc.idle_heldItems : QueuePc.idle.heldItems = 0 := rfl

@[simp] theorem QueueCall.entry_inCritical (call : QueueCall) :
    call.entry.inCritical = false := by
  cases call <;> rfl

@[simp] theorem QueueCall.entry_heldMutex (call : QueueCall) : call.entry.heldMutex = 0 := by
  cases call <;> rfl

@[simp] theorem QueueCall.entry_heldSlots (call : QueueCall) : call.entry.heldSlots = 0 := by
  cases call <;> rfl

@[simp] theorem QueueCall.entry_heldItems (call : QueueCall) : call.entry.heldItems = 0 := by
  cases call <;> rfl

/-- Finishing a call does not touch the logical queue. -/
theorem notes_finished {q : List SharedTask} {notes : List Note}
    (h : ∀ n ∈ notes, ∃ reply, n = .finished reply) :
    NotesOk q notes ∧ notes.foldl afterNote q = q := by
  induction notes with
  | nil => exact ⟨trivial, rfl⟩
  | cons n rest ih =>
      obtain ⟨reply, rfl⟩ := h _ List.mem_cons_self
      obtain ⟨hok, hfold⟩ := ih fun m hm => h m (List.mem_cons_of_mem _ hm)
      exact ⟨⟨trivial, hok⟩, hfold⟩

section Step

variable {capacity : Nat} {shm shm' : Shm} {pc pc' : QueuePc} {fail : Bool}
  {notes : List Note}

/-- A step conserves all three kinds of tokens: what leaves a semaphore or
the count is held by the thread, and back. -/
structure TokensKept (shm shm' : Shm) (pc pc' : QueuePc) : Prop where
  mutex : shm'.mutexSem + pc'.heldMutex = shm.mutexSem + pc.heldMutex
  slots : shm'.enqueueSem + shm'.count + pc'.heldSlots =
    shm.enqueueSem + shm.count + pc.heldSlots
  items : shm'.dequeueSem + pc'.heldItems + shm.count =
    shm.dequeueSem + pc.heldItems + shm'.count

/-- Every step conserves tokens, as long as the count neither overflows nor
falls below the items claimed by the thread. -/
theorem queueStep_tokens (h : queueStep capacity shm pc fail = some (shm', pc', notes))
    (hroom : shm.count + 1 < 2 ^ 64) (hclaim : pc.heldItems ≤ shm.count) :
    TokensKept shm shm' pc pc' := by
  cases queueStep_move h with
  | enqAddCount =>
      rw [sizeAdd_one hroom]
      constructor <;> simp [QueuePc.heldMutex, QueuePc.inCritical, QueuePc.heldSlots,
        QueuePc.heldItems] <;> omega
  | deqSubCount =>
      simp only [QueuePc.heldItems] at hclaim
      rw [sizePred_pos (by omega) hclaim]
      constructor <;> simp [QueuePc.heldMutex, QueuePc.inCritical, QueuePc.heldSlots,
        QueuePc.heldItems] <;> omega
  | _ =>
      constructor <;> simp [QueuePc.heldMutex, QueuePc.inCritical, QueuePc.heldSlots,
        QueuePc.heldItems, Shm.setTask] <;> omega

/-- The fields of the segment that only a critical section writes. -/
structure SameRing (shm shm' : Shm) : Prop where
  front : shm'.front = shm.front
  rear : shm'.rear = shm.rear
  count : shm'.count = shm.count
  tasks : shm'.tasks = shm.tasks
  totalEnqueued : shm'.totalEnqueued = shm.totalEnqueued
  totalDequeued : shm'.totalDequeued = shm.totalDequeued

theorem SameRing.represents {q : List SharedTask} (h : SameRing shm shm')
    (hq : Represents capacity shm q) : Represents capacity shm' q := by
  refine ⟨?_, h.count.trans hq.count_eq⟩
  rw [h.front, h.rear, h.tasks]
  exact hq.holds

/-- Outside its critical section a thread writes no ring field and leaves no
section; it can only enter one, at its first load. -/
theorem queueStep_outside (h : queueStep capacity shm pc fail = some (shm', pc', notes))
    (hout : pc.inCritical = false) :
    SameRing shm shm' ∧ (∀ n ∈ notes, ∃ reply, n = .finished reply) ∧
      (pc'.inCritical = true →
        (∃ task, pc' = .enqLoadRear task ∧ pc.heldSlots = 1) ∨
        (pc' = .deqLoadFront ∧ pc.heldItems = 1) ∨ pc' = .prnLoadFront) := by
  cases queueStep_move h <;> simp only [QueuePc.inCritical, reduceCtorEq] at hout
  all_goals refine ⟨⟨rfl, rfl, rfl, rfl, rfl, rfl⟩, by simp, ?_⟩
  all_goals simp [QueuePc.inCritical, QueuePc.heldSlots, QueuePc.heldItems]

/-- **One step inside a critical section.**  It keeps what the section has
established, or leaves the section with the segment representing the queue
that its note announces. -/
theorem queueStep_section (h : queueStep capacity shm pc fail = some (shm', pc', notes))
    (hcap : capacity < 2 ^ 64) {q : List SharedTask} (hin : pc.inCritical = true)
    (hok : SectionOk capacity shm q pc) :
    NotesOk q notes ∧
      ((pc'.inCritical = true ∧ notes = [] ∧ SectionOk capacity shm' q pc') ∨
        (pc'.inCritical = false ∧ Represents capacity shm' (notes.foldl afterNote q))) := by
  cases queueStep_move h <;> simp only [QueuePc.inCritical, reduceCtorEq] at hin
  case enqLoadRear task =>
    exact ⟨trivial, .inl ⟨rfl, rfl, hok.1, hok.2, rfl⟩⟩
  case enqStoreTask task rear =>
    obtain ⟨hq, hroom, rfl⟩ := hok
    refine ⟨trivial, .inl ⟨rfl, rfl, ⟨?_, hq.count_eq⟩, hroom, rfl, ?_⟩⟩
    · exact hq.holds.write_rear hroom task
    · simp [Shm.setTask]
  case enqStoreRear task rear =>
    obtain ⟨hq, hroom, rfl, htask⟩ := hok
    have hrear := hq.holds.rear_lt
    refine ⟨trivial, .inl ⟨rfl, rfl, ?_, hq.count_eq⟩⟩
    rw [sizeAdd_one (by omega)]
    exact hq.holds.push hroom htask
  case enqAddCount task =>
    obtain ⟨hq, hcount⟩ := hok
    have hlen := hq.length_le
    simp only [List.length_append, List.length_singleton] at hlen
    refine ⟨trivial, .inl ⟨rfl, rfl, hq, ?_⟩⟩
    rw [sizeAdd_one (by omega), hcount]
    simp
  case enqAddTotal task =>
    exact ⟨trivial, .inl ⟨rfl, rfl, hok.holds, hok.count_eq⟩⟩
  case enqPostMutex task =>
    exact ⟨⟨trivial, trivial⟩, .inr ⟨rfl, hok.holds, hok.count_eq⟩⟩
  case deqLoadFront =>
    exact ⟨trivial, .inl ⟨rfl, rfl, hok.1, hok.2, rfl⟩⟩
  case deqFindsNone front hcount =>
    obtain ⟨hq, hne, -⟩ := hok
    rw [hq.count_eq] at hcount
    exact absurd (List.eq_nil_of_length_eq_zero hcount) hne
  case deqFinds front hcount =>
    obtain ⟨hq, hne, rfl⟩ := hok
    exact ⟨trivial, .inl ⟨rfl, rfl, hq, hne, rfl⟩⟩
  case deqEmptyPostMutex => exact hok.elim
  case deqLoadTask front =>
    obtain ⟨hq, hne, rfl⟩ := hok
    obtain ⟨task, rest, rfl⟩ := List.exists_cons_of_ne_nil hne
    refine ⟨trivial, .inl ⟨rfl, rfl, hq, rfl, rest, ?_⟩⟩
    rw [hq.holds.head_slot]
  case deqStoreFront front task =>
    obtain ⟨hq, rfl, rest, rfl⟩ := hok
    have hfront := hq.holds.front_lt
    refine ⟨trivial, .inl ⟨rfl, rfl, rest, rfl, ?_, hq.count_eq, hq.holds.length_le⟩⟩
    rw [sizeAdd_one (by omega)]
    exact hq.holds.pop
  case deqSubCount task =>
    obtain ⟨rest, rfl, hq, hcount, hlen⟩ := hok
    simp only [List.length_cons] at hcount hlen
    refine ⟨trivial, .inl ⟨rfl, rfl, rest, rfl, hq, ?_⟩⟩
    rw [sizePred_pos (by omega) (by omega)]
    simp only [hcount]
    omega
  case deqAddTotal task =>
    obtain ⟨rest, rfl, hq⟩ := hok
    exact ⟨trivial, .inl ⟨rfl, rfl, rest, rfl, hq.holds, hq.count_eq⟩⟩
  case deqPostMutex task =>
    obtain ⟨rest, rfl, hq⟩ := hok
    exact ⟨⟨⟨rest, rfl⟩, trivial⟩, .inr ⟨rfl, hq.holds, hq.count_eq⟩⟩
  case prnLoadFront =>
    exact ⟨trivial, .inl ⟨rfl, rfl, hok, rfl⟩⟩
  case prnLoadRear front =>
    exact ⟨trivial, .inl ⟨rfl, rfl, hok⟩⟩
  case prnLoadCount front =>
    obtain ⟨hq, rfl⟩ := hok
    refine ⟨trivial, .inl ⟨rfl, rfl, hq, 0, ?_, ?_, ?_⟩⟩
    · rw [hq.count_eq, Nat.zero_add]
    · exact (Nat.mod_eq_of_lt hq.holds.front_lt).symm
    · simp
  case prnEnds index lines =>
    obtain ⟨hq, k, hk, -, hlines⟩ := hok
    refine ⟨trivial, .inl ⟨rfl, rfl, hq, ?_⟩⟩
    rw [hlines, List.take_of_length_le (by omega)]
  case prnLoadTask index left lines =>
    obtain ⟨hq, k, hk, hindex, hlines⟩ := hok
    have hlt : k < q.length := by omega
    have hfront := hq.holds.front_lt
    refine ⟨trivial, .inl ⟨rfl, rfl, hq, k + 1, by omega, ?_, ?_⟩⟩
    · have hbound : index < capacity := hindex ▸ Nat.mod_lt _ (by omega)
      rw [sizeAdd_one (by omega), hindex, Nat.mod_add_mod, Nat.add_assoc]
    · rw [hq.holds.walk hlt hindex, hlines, ← List.take_append_getElem hlt]
      simp only [List.map_append, List.map_cons, List.map_nil]
  case prnPostMutex lines =>
    obtain ⟨hq, hlines⟩ := hok
    exact ⟨⟨hlines, trivial, trivial⟩, .inr ⟨rfl, hq.holds, hq.count_eq⟩⟩

theorem SameRing.sectionOk {q : List SharedTask} (h : SameRing shm shm')
    (hok : SectionOk capacity shm q pc) : SectionOk capacity shm' q pc := by
  have hrep : ∀ {r}, Represents capacity shm r → Represents capacity shm' r :=
    fun hr => h.represents hr
  cases pc <;> simp only [SectionOk, h.front, h.rear, h.tasks, h.count] at hok ⊢ <;>
    first
      | trivial
      | exact hrep hok
      | exact hok
      | exact ⟨hrep hok.1, hok.2⟩
      | exact hok.imp fun rest hrest => ⟨hrest.1, hrep hrest.2⟩

end Step

/-! ## The invariant of the whole machine -/

section Machine

variable {Tid : Type*} [Fintype Tid]

/-- The invariant of a shared segment, with `q` its logical queue. -/
structure QueueInv (capacity : Nat) (q : List SharedTask) (s : QueueState Tid) : Prop where
  mutex : s.shm.mutexSem + ∑ t, (s.pc t).heldMutex = 1
  slots : s.shm.enqueueSem + s.shm.count + ∑ t, (s.pc t).heldSlots = capacity
  items : s.shm.dequeueSem + ∑ t, (s.pc t).heldItems = s.shm.count
  ring : (∀ t, (s.pc t).inCritical = false) → Represents capacity s.shm q
  sections : ∀ t, (s.pc t).inCritical = true → SectionOk capacity s.shm q (s.pc t)

/-- A freshly created segment is empty and nobody is in it. -/
theorem queueInv_created {capacity : Nat} (hpos : 0 < capacity) :
    QueueInv capacity [] (QueueState.created Tid capacity) := by
  constructor
  · simp [QueueState.created, Shm.create, QueuePc.heldMutex, QueuePc.inCritical]
  · simp [QueueState.created, Shm.create, QueuePc.heldSlots]
  · simp [QueueState.created, Shm.create, QueuePc.heldItems]
  · intro _
    exact ⟨Holds.empty hpos _, rfl⟩
  · intro t ht
    simp [QueueState.created, QueuePc.inCritical] at ht

namespace QueueInv

variable {capacity : Nat} {q : List SharedTask} {s : QueueState Tid}

/-- **Mutual exclusion.** -/
theorem exclusive [DecidableEq Tid] (h : QueueInv capacity q s) {t u : Tid}
    (ht : (s.pc t).inCritical = true) (hu : (s.pc u).inCritical = true) : t = u := by
  by_contra hne
  have hpair := weight_pair_le_sum QueuePc.heldMutex s.pc hne
  have hsum := h.mutex
  simp only [QueuePc.heldMutex, ht, hu, ↓reduceIte] at hpair hsum
  omega

/-- Nobody is in a critical section while the mutex is open. -/
theorem outside_of_open (h : QueueInv capacity q s) (hopen : 0 < s.shm.mutexSem) (t : Tid) :
    (s.pc t).inCritical = false := by
  have hle := weight_le_sum QueuePc.heldMutex s.pc t
  have hsum := h.mutex
  cases hc : (s.pc t).inCritical with
  | false => rfl
  | true =>
      simp only [QueuePc.heldMutex, hc, ↓reduceIte] at hle hsum
      omega

/-- The count never exceeds the capacity. -/
theorem count_le (h : QueueInv capacity q s) : s.shm.count ≤ capacity := by
  have := h.slots
  omega

/-- A thread that has claimed items is covered by the count. -/
theorem claim_le (h : QueueInv capacity q s) (t : Tid) :
    (s.pc t).heldItems ≤ s.shm.count := by
  have hle := weight_le_sum QueuePc.heldItems s.pc t
  have := h.items
  omega

/-- A thread that has just entered its critical section finds the segment
representing the queue, with room or an item according to the token it holds. -/
theorem entered (h : QueueInv capacity q s) {t : Tid} {shm' : Shm} {pc' : QueuePc}
    (htok : TokensKept s.shm shm' (s.pc t) pc') (hring : SameRing s.shm shm')
    (henter : (∃ task, pc' = .enqLoadRear task ∧ (s.pc t).heldSlots = 1) ∨
      (pc' = .deqLoadFront ∧ (s.pc t).heldItems = 1) ∨ pc' = .prnLoadFront)
    (hout : (s.pc t).inCritical = false) (hin : pc'.inCritical = true) :
    SectionOk capacity shm' q pc' := by
  have hopen : 0 < s.shm.mutexSem := by
    have hmutex := htok.mutex
    simp only [QueuePc.heldMutex, hin, hout, ↓reduceIte, Bool.false_eq_true] at hmutex
    omega
  have hrep : Represents capacity s.shm q := h.ring (h.outside_of_open hopen)
  rcases henter with ⟨task, rfl, hslot⟩ | ⟨rfl, hitem⟩ | rfl
  · refine ⟨hring.represents hrep, ?_⟩
    have hle := weight_le_sum QueuePc.heldSlots s.pc t
    have hslots := h.slots
    have hcount := hrep.count_eq
    omega
  · refine ⟨hring.represents hrep, ?_⟩
    have hle := h.claim_le t
    rw [hrep.count_eq, hitem] at hle
    exact List.ne_nil_of_length_pos hle
  · exact hring.represents hrep

variable [DecidableEq Tid]

/-- Starting a call changes nothing: its first point holds no token. -/
theorem call (h : QueueInv capacity q s) {t : Tid} (hidle : s.pc t = .idle)
    (call : QueueCall) :
    QueueInv capacity q { s with pc := Function.update s.pc t call.entry } := by
  have hmutex := sum_moved QueuePc.heldMutex s.pc t call.entry
  have hslots := sum_moved QueuePc.heldSlots s.pc t call.entry
  have hitems := sum_moved QueuePc.heldItems s.pc t call.entry
  have hsame : ∀ u, (Function.update s.pc t call.entry u).inCritical =
      (s.pc u).inCritical := by
    intro u
    by_cases hu : u = t
    · subst hu
      rw [Function.update_self, QueueCall.entry_inCritical, hidle]
      rfl
    · rw [Function.update_of_ne hu]
  simp only [hidle, QueuePc.idle_heldMutex, QueuePc.idle_heldSlots, QueuePc.idle_heldItems,
    QueueCall.entry_heldMutex, QueueCall.entry_heldSlots, QueueCall.entry_heldItems,
    Nat.add_zero] at hmutex hslots hitems
  refine ⟨?_, ?_, ?_, fun hall => h.ring fun u => hsame u ▸ hall u, ?_⟩
  · simpa only [hmutex] using h.mutex
  · simpa only [hslots] using h.slots
  · simpa only [hitems] using h.items
  · intro u hu
    rw [hsame u] at hu
    have hne : u ≠ t := by
      rintro rfl
      rw [hidle] at hu
      cases hu
    simp only [Function.update_of_ne hne]
    exact h.sections u hu

/-- **One step of one thread preserves the invariant**, and shows only what
the logical queue justifies. -/
theorem move (h : QueueInv capacity q s) (hcap : capacity + 1 < 2 ^ 64) {t : Tid}
    {fail : Bool} {shm' : Shm} {pc' : QueuePc} {notes : List Note}
    (hstep : queueStep capacity s.shm (s.pc t) fail = some (shm', pc', notes)) :
    NotesOk q notes ∧
      QueueInv capacity (notes.foldl afterNote q) ⟨shm', Function.update s.pc t pc'⟩ := by
  have htok := queueStep_tokens hstep (by have := h.count_le; omega) (h.claim_le t)
  have hmutex := sum_moved QueuePc.heldMutex s.pc t pc'
  have hslots := sum_moved QueuePc.heldSlots s.pc t pc'
  have hitems := sum_moved QueuePc.heldItems s.pc t pc'
  have hm : shm'.mutexSem + ∑ u, (Function.update s.pc t pc' u).heldMutex = 1 := by
    have := h.mutex
    have := htok.mutex
    omega
  have hs : shm'.enqueueSem + shm'.count +
      ∑ u, (Function.update s.pc t pc' u).heldSlots = capacity := by
    have := h.slots
    have := htok.slots
    omega
  have hi : shm'.dequeueSem + ∑ u, (Function.update s.pc t pc' u).heldItems =
      shm'.count := by
    have := h.items
    have := htok.items
    omega
  cases hin : (s.pc t).inCritical with
  | true =>
      obtain ⟨hnotes, hcase⟩ := queueStep_section hstep (by omega) hin (h.sections t hin)
      have hothers : ∀ u, u ≠ t → (s.pc u).inCritical = false := by
        intro u hu
        cases hc : (s.pc u).inCritical with
        | false => rfl
        | true => exact absurd (h.exclusive hc hin) hu
      refine ⟨hnotes, hm, hs, hi, ?_, ?_⟩
      · intro hall
        rcases hcase with ⟨hstill, -, -⟩ | ⟨-, hrep⟩
        · have := hall t
          simp [hstill] at this
        · exact hrep
      · intro u hu
        by_cases hut : u = t
        · subst hut
          simp only [Function.update_self] at hu ⊢
          rcases hcase with ⟨-, rfl, hok⟩ | ⟨hleft, -⟩
          · exact hok
          · simp [hleft] at hu
        · simp only [Function.update_of_ne hut, hothers u hut] at hu
          cases hu
  | false =>
      obtain ⟨hring, hfin, henter⟩ := queueStep_outside hstep hin
      obtain ⟨hnotes, hq⟩ := notes_finished (q := q) hfin
      rw [hq]
      refine ⟨hnotes, hm, hs, hi, ?_, ?_⟩
      · intro hall
        refine hring.represents (h.ring fun u => ?_)
        by_cases hut : u = t
        · exact hut ▸ hin
        · simpa only [Function.update_of_ne hut] using hall u
      · intro u hu
        by_cases hut : u = t
        · subst hut
          simp only [Function.update_self] at hu ⊢
          exact h.entered htok hring (henter hu) hin hu
        · simp only [Function.update_of_ne hut] at hu ⊢
          exact hring.sectionOk (h.sections u hu)

end QueueInv

end Machine

end TaskSheduler
