import TaskSheduler.SegmentMachine
import TaskSheduler.SegmentExact
import TaskSheduler.QueueInvariant

/-!
# One step on bytes, one step on entries

`segmentMachine` copies entries byte by byte; `queueMachine` moves them whole.
The two are tied by `Shows`: the control fields read the same, and so does every
slot below the capacity except one that is being written.  A copy in progress
agrees with its source on the bytes copied so far (`CopyOk`).

* `segmentStep_outside` and `segmentStep_section`: one step of one thread,
  outside and inside its critical section.  A byte of a copy changes nothing in
  the abstract state; the end of the copy is the abstract step.
* `segmentStep_possible`: where the abstract step is possible, the bytes can
  move.
-/

namespace TaskSheduler

open ByteMemory

/-! ## Entries as bytes -/

/-- Two entries whose field bytes agree are equal, wherever they lie. -/
theorem loadTask_agree {mem mem' : Memory} {off off' : Nat}
    (h : ∀ k < sizeofSharedTask, fieldByte k = true → mem (off + k) = mem' (off' + k)) :
    loadTask mem off = loadTask mem' off' := by
  have hsize : sizeofSharedTask = 276 := rfl
  have hfield : ∀ start len, start + len ≤ 269 ∨ 272 ≤ start ∧ start + len ≤ 276 →
      load mem (off + start) len = load mem' (off' + start) len := by
    intro start len hrange
    refine load_agree fun k hk => ?_
    rw [Nat.add_assoc, Nat.add_assoc]
    refine h (start + k) (by omega) ?_
    simp only [fieldByte, Bool.or_eq_true, decide_eq_true_eq]
    omega
  have hint : ∀ start, start + 4 ≤ 269 ∨ 272 ≤ start ∧ start + 4 ≤ 276 →
      loadInt mem (off + start) = loadInt mem' (off' + start) := by
    intro start hrange
    rw [loadInt, loadNat, hfield start 4 hrange, loadInt, loadNat]
  apply SharedTask.ext
  case id => exact hint 0 (by omega)
  case priority => exact hint 4 (by omega)
  case description => exact Subtype.ext (hfield 8 maxPath (by simp only [maxPath]; omega))
  case type => exact hint 264 (by omega)
  case completed =>
    simp only [loadTask]
    rw [h 268 (by omega) rfl]
  case remainingTimeMs => exact hint 272 (by omega)

/-- The bytes of a caller's struct are those of its task. -/
theorem CopyPlan.loadTask_image (plan : CopyPlan) (task : SharedTask) :
    loadTask (plan.image task) 0 = task :=
  loadTask_storeTask_same plan.padding 0 task

theorem store_byte_same (mem : Memory) (off : Nat) (b : UInt8) : store mem off [b] off = b := by
  simp [store]

theorem store_byte_of_ne {mem : Memory} {off i : Nat} {b : UInt8} (h : i ≠ off) :
    store mem off [b] i = mem i :=
  store_outside (by simp only [List.length_singleton]; omega)

/-! ## A copy in progress -/

/-- The offsets not in `left` have been copied from `source` to `target`. -/
structure Copied (plan : CopyPlan) (source target : Nat → UInt8) (left : List Nat) : Prop where
  sub : left ⊆ plan.order
  same : ∀ k ∈ plan.order, k ∈ left ∨ target k = source k

namespace Copied

variable {plan : CopyPlan} {source target target' : Nat → UInt8} {k : Nat} {left : List Nat}

theorem start : Copied plan source target plan.order :=
  ⟨fun _ => id, fun _ => .inl⟩

/-- The next byte of a copy lies within the entry. -/
theorem inside (h : Copied plan source target (k :: left)) : k < sizeofSharedTask :=
  plan.inside k (h.sub List.mem_cons_self)

/-- One more byte is copied. -/
theorem byte (h : Copied plan source target (k :: left)) (hk : target' k = source k)
    (hothers : ∀ j, j ≠ k → target' j = target j) : Copied plan source target' left := by
  refine ⟨fun j hj => h.sub (List.mem_cons_of_mem _ hj), fun j hj => ?_⟩
  by_cases hjk : j = k
  · subst hjk
    exact .inr hk
  · rcases h.same j hj with hmem | hsame
    · exact .inl ((List.mem_cons.mp hmem).resolve_left hjk)
    · exact .inr ((hothers j hjk).trans hsame)

/-- At the end of a copy every field has arrived. -/
theorem finished (h : Copied plan source target []) :
    ∀ k < sizeofSharedTask, fieldByte k = true → target k = source k := by
  intro k hk hfield
  exact (h.same k (plan.covers k hk hfield)).resolve_left List.not_mem_nil

end Copied

/-- The point of the queue call a thread is at; a copy belongs to the point it
starts from. -/
def SegmentPc.point : SegmentPc → QueuePc
  | .call pc => pc
  | .storing task rear _ => .enqStoreTask task rear
  | .fetching front _ _ => .deqLoadTask front
  | .listing index todo lines _ _ => .prnLoadTask index (todo + 1) lines

/-- The slot whose bytes a thread is writing. -/
def SegmentPc.slotWritten : SegmentPc → Option Nat
  | .storing _ rear _ => some rear
  | _ => none

/-- The bytes a thread has still to copy at its point; more than a whole entry
before the copy has begun. -/
def SegmentPc.bytesLeft (plan : CopyPlan) : SegmentPc → Nat
  | .call _ => plan.order.length + 1
  | .storing _ _ left | .fetching _ _ left | .listing _ _ _ _ left => left.length

/-- A copy in progress agrees with its source so far. -/
def CopyOk (plan : CopyPlan) (mem : Memory) : SegmentPc → Prop
  | .call _ => True
  | .storing task rear left =>
      Copied plan (plan.image task) (fun k => mem (slotAt rear + k)) left
  | .fetching front copy left => Copied plan (fun k => mem (slotAt front + k)) copy left
  | .listing index _ _ copy left => Copied plan (fun k => mem (slotAt index + k)) copy left

/-! ## The segment shows the queue of entries -/

/-- The five `size_t` fields of the layout. -/
inductive SizeField
  | front
  | rear
  | count
  | totalEnqueued
  | totalDequeued

/-- Where a `size_t` field lies in the mapping. -/
def SizeField.offset : SizeField → Nat
  | .front => frontAt
  | .rear => rearAt
  | .count => countAt
  | .totalEnqueued => totalEnqueuedAt
  | .totalDequeued => totalDequeuedAt

/-- The value of a `size_t` field. -/
def Shm.size (shm : Shm) : SizeField → Nat
  | .front => shm.front
  | .rear => shm.rear
  | .count => shm.count
  | .totalEnqueued => shm.totalEnqueued
  | .totalDequeued => shm.totalDequeued

/-- Write a `size_t` field. -/
def Shm.setSize (shm : Shm) (value : Nat) : SizeField → Shm
  | .front => { shm with front := value }
  | .rear => { shm with rear := value }
  | .count => { shm with count := value }
  | .totalEnqueued => { shm with totalEnqueued := value }
  | .totalDequeued => { shm with totalDequeued := value }

/-- The segment reads as `shm`, except for the slots being written. -/
structure Shows (capacity : Nat) (written : Nat → Prop) (seg : Segment) (shm : Shm) : Prop where
  sizes : ∀ field : SizeField, loadSize seg.mem field.offset = shm.size field
  slots : ∀ i < capacity, ¬ written i → loadTask seg.mem (slotAt i) = shm.tasks i
  enqueueSem : seg.enqueueSem = shm.enqueueSem
  dequeueSem : seg.dequeueSem = shm.dequeueSem
  mutexSem : seg.mutexSem = shm.mutexSem

/-- The `size_t` fields lie before the flag or behind the declared slots, and
apart from each other. -/
theorem SizeField.offset_apart (field : SizeField) {other : SizeField} (h : other ≠ field) :
    field.offset + 8 ≤ other.offset ∨ other.offset + 8 ≤ field.offset := by
  cases field <;> cases other <;>
    first
      | exact absurd rfl h
      | exact Or.inl (by decide)
      | exact Or.inr (by decide)

theorem SizeField.offset_outside (field : SizeField) :
    field.offset + 8 ≤ 24 ∨ 27625 ≤ field.offset := by
  cases field <;>
    first
      | exact Or.inl (by decide)
      | exact Or.inr (by decide)

/-- Writing a `size_t` field leaves the declared slots alone. -/
theorem loadTask_storeSize (mem : Memory) (field : SizeField) (value : Nat) {i : Nat}
    (hi : i < countTasks) :
    loadTask (storeSize mem field.offset value) (slotAt i) = loadTask mem (slotAt i) := by
  have hslot := slotAt_bounds hi
  have hfield := field.offset_outside
  have hsize : sizeofSharedTask = 276 := rfl
  exact loadTask_congr fun b hlo hhi => storeSize_outside (by omega)

/-- Writing a byte of a declared slot leaves the `size_t` fields alone. -/
theorem loadSize_storeSlot (mem : Memory) (field : SizeField) {i k : Nat} (b : UInt8)
    (hi : i < countTasks) (hk : k < sizeofSharedTask) :
    loadSize (store mem (slotAt i + k) [b]) field.offset = loadSize mem field.offset := by
  have hslot := slotAt_bounds hi
  have hfield := field.offset_outside
  have hsize : sizeofSharedTask = 276 := rfl
  exact loadSize_congr fun c hlo hhi => store_byte_of_ne (by omega)

/-- Writing a byte of a slot leaves the other slots alone. -/
theorem loadTask_storeSlot (mem : Memory) {i j k : Nat} (b : UInt8) (hij : j ≠ i)
    (hk : k < sizeofSharedTask) :
    loadTask (store mem (slotAt i + k) [b]) (slotAt j) = loadTask mem (slotAt j) := by
  have hsize : sizeofSharedTask = 276 := rfl
  have hapart := slotAt_apart hij
  exact loadTask_congr fun c hlo hhi => store_byte_of_ne (by omega)

namespace Shows

variable {capacity : Nat} {written written' : Nat → Prop} {seg : Segment} {shm : Shm}

theorem front (h : Shows capacity written seg shm) : loadSize seg.mem frontAt = shm.front :=
  h.sizes .front

theorem rear (h : Shows capacity written seg shm) : loadSize seg.mem rearAt = shm.rear :=
  h.sizes .rear

theorem count (h : Shows capacity written seg shm) : loadSize seg.mem countAt = shm.count :=
  h.sizes .count

/-- A `size_t` field is written in both. -/
theorem storeSize (h : Shows capacity written seg shm) (hcap : capacity ≤ countTasks)
    (field : SizeField) {value : Nat} (hvalue : value < 2 ^ 64) :
    Shows capacity written
      { seg with mem := TaskSheduler.storeSize seg.mem field.offset value }
      (shm.setSize value field) := by
  refine ⟨fun other => ?_, fun i hi hnot => ?_, ?_, ?_, ?_⟩
  · by_cases hother : other = field
    · subst hother
      rw [loadSize_storeSize_same, Nat.mod_eq_of_lt hvalue]
      cases other <;> rfl
    · have hapart := field.offset_apart hother
      have hframe : loadSize (TaskSheduler.storeSize seg.mem field.offset value) other.offset =
          loadSize seg.mem other.offset :=
        loadSize_congr fun b hlo hhi => storeSize_outside (by omega)
      rw [hframe, h.sizes other]
      cases field <;> cases other <;>
        first
          | exact absurd rfl hother
          | rfl
  · rw [loadTask_storeSize seg.mem field value (by omega), h.slots i hi hnot]
    cases field <;> rfl
  · rw [h.enqueueSem]
    cases field <;> rfl
  · rw [h.dequeueSem]
    cases field <;> rfl
  · rw [h.mutexSem]
    cases field <;> rfl

/-- A byte of a slot being written shows nowhere. -/
theorem storeByte (h : Shows capacity written seg shm) (hcap : capacity ≤ countTasks)
    {i k : Nat} (b : UInt8) (hi : i < capacity) (hk : k < sizeofSharedTask)
    (hwritten : written i) :
    Shows capacity written { seg with mem := store seg.mem (slotAt i + k) [b] } shm := by
  refine ⟨fun field => ?_, fun j hj hnot => ?_, h.enqueueSem, h.dequeueSem, h.mutexSem⟩
  · rw [← h.sizes field]
    exact loadSize_storeSlot seg.mem field b (by omega) hk
  · rw [← h.slots j hj hnot]
    exact loadTask_storeSlot seg.mem b (fun hji => hnot (hji ▸ hwritten)) hk

/-- More slots may be written. -/
theorem mono (h : Shows capacity written seg shm) (hsub : ∀ i, written i → written' i) :
    Shows capacity written' seg shm :=
  { h with slots := fun i hi hnot => h.slots i hi fun hw => hnot (hsub i hw) }

/-- The copy into a slot is complete. -/
theorem storeTask {i : Nat} (h : Shows capacity (· = i) seg shm) {task : SharedTask}
    (htask : loadTask seg.mem (slotAt i) = task) :
    Shows capacity (fun _ => False) seg (shm.setTask i task) := by
  refine ⟨fun field => ?_, fun j hj _ => ?_, h.enqueueSem, h.dequeueSem, h.mutexSem⟩
  · rw [h.sizes field]
    cases field <;> rfl
  · by_cases hji : j = i
    · subst hji
      rw [htask]
      exact (Function.update_self j task shm.tasks).symm
    · rw [h.slots j hj hji]
      exact (Function.update_of_ne hji task shm.tasks).symm

end Shows

/-! ## One step of one thread -/

theorem sizeAdd_lt (x y : Nat) : sizeAdd x y < 2 ^ 64 := Nat.mod_lt _ (by decide)

theorem sizePred_lt (x : Nat) : sizePred x < 2 ^ 64 := Nat.mod_lt _ (by decide)

theorem sizeAdd_mod_lt (x y capacity : Nat) : sizeAdd x y % capacity < 2 ^ 64 :=
  Nat.lt_of_le_of_lt (Nat.mod_le _ _) (sizeAdd_lt x y)

/-- The slot a point of a queue call accesses is below the capacity. -/
def QueuePc.SlotBelow (capacity : Nat) : QueuePc → Prop
  | .enqStoreTask _ rear => rear < capacity
  | .deqLoadTask front => front < capacity
  | .prnLoadTask index (_ + 1) _ => index < capacity
  | _ => True

/-- What a section has established bounds the slot it accesses. -/
theorem SectionOk.slotBelow {capacity : Nat} {shm : Shm} {q : List SharedTask} {pc : QueuePc}
    (h : SectionOk capacity shm q pc) : pc.SlotBelow capacity := by
  cases pc
  case enqStoreTask task rear =>
    obtain ⟨hq, -, rfl⟩ := h
    exact hq.holds.rear_lt
  case deqLoadTask front =>
    obtain ⟨hq, -, rfl⟩ := h
    exact hq.holds.front_lt
  case prnLoadTask index todo lines =>
    cases todo with
    | zero => trivial
    | succ todo =>
        obtain ⟨hq, k, -, rfl, -⟩ := h
        have hfront := hq.holds.front_lt
        exact Nat.mod_lt _ (by omega)
  all_goals trivial

/-- A byte-wise step is the step of `queueStep` from the same point, or goes on
with a copy and shows nothing. -/
inductive Matched (plan : CopyPlan) (capacity : Nat) (shm : Shm) (pc : SegmentPc)
    (fail : Bool) : Shm → SegmentPc → List Note → Prop
  | step {shm' : Shm} {pc' : SegmentPc} {notes : List Note}
      (hstep : queueStep capacity shm pc.point fail = some (shm', pc'.point, notes)) :
      Matched plan capacity shm pc fail shm' pc' notes
  | copy {pc' : SegmentPc} (hpoint : pc'.point = pc.point)
      (hless : pc'.bytesLeft plan < pc.bytesLeft plan) :
      Matched plan capacity shm pc fail shm pc' []

section Step

variable {plan : CopyPlan} {capacity : Nat} {seg seg' : Segment} {shm : Shm}
  {pc pc' : SegmentPc} {fail : Bool} {notes : List Note}

/-- A `sem_wait` on both sides: the tokens are the same, so are the outcomes. -/
theorem wait_shows {written : Nat → Prop} (hshows : Shows capacity written seg shm)
    {x y : Nat} (hxy : x = y) (segWith : Nat → Segment) (shmWith : Nat → Shm)
    (hwith : ∀ n, Shows capacity written (segWith n) (shmWith n) ∧ (segWith n).mem = seg.mem)
    {failed next : QueuePc} {failedNotes : List Note}
    (h : (if fail then some (seg, .call failed, failedNotes)
      else (semWait x).map fun n => (segWith n, .call next, [])) = some (seg', pc', notes)) :
    ∃ shm', (if fail then some (shm, failed, failedNotes)
        else (semWait y).map fun n => (shmWith n, next, [])) = some (shm', pc'.point, notes) ∧
      Shows capacity written seg' shm' ∧ seg'.mem = seg.mem ∧ ∃ pc, pc' = .call pc := by
  subst hxy
  rcases wait_cases h with ⟨rfl, heq⟩ | ⟨n, rfl, rfl, heq⟩ <;> cases heq
  · exact ⟨shm, rfl, hshows, rfl, failed, rfl⟩
  · exact ⟨shmWith n, rfl, (hwith n).1, (hwith n).2, next, rfl⟩

/-- **Outside a critical section** a step touches the semaphores only, and so
does the step it matches. -/
theorem segmentStep_outside
    (h : segmentStep plan capacity seg pc fail = some (seg', pc', notes))
    (hout : pc.point.inCritical = false) {written : Nat → Prop}
    (hshows : Shows capacity written seg shm) :
    ∃ shm', queueStep capacity shm pc.point fail = some (shm', pc'.point, notes) ∧
      Shows capacity written seg' shm' ∧ seg'.mem = seg.mem ∧ ∃ pc, pc' = .call pc := by
  obtain ⟨hsizes, hslots, henqueue, hdequeue, hmutex⟩ := hshows
  have hshows : Shows capacity written seg shm := ⟨hsizes, hslots, henqueue, hdequeue, hmutex⟩
  -- Only the semaphores change, so the fields read as before.
  have hsame : ∀ {shm' : Shm}, SameRing shm shm' →
      ∀ field : SizeField, loadSize seg.mem field.offset = shm'.size field := by
    intro shm' hring field
    rw [hsizes field]
    cases field <;> simp only [Shm.size, hring.front, hring.rear, hring.count,
      hring.totalEnqueued, hring.totalDequeued]
  have hring : ∀ {x y z : Nat}, ∀ field : SizeField, loadSize seg.mem field.offset =
      ({ shm with enqueueSem := x, dequeueSem := y, mutexSem := z } : Shm).size field :=
    hsame ⟨rfl, rfl, rfl, rfl, rfl, rfl⟩
  rcases pc with pc | ⟨task, rear, left⟩ | ⟨front, copy, left⟩ | ⟨index, todo, lines, copy, left⟩
  case storing => cases hout
  case fetching => cases hout
  case listing => cases hout
  cases pc with
  | idle => cases h
  | enqWaitSlot task =>
      exact wait_shows hshows henqueue (fun n => { seg with enqueueSem := n })
        (fun n => { shm with enqueueSem := n })
        (fun n => ⟨⟨hring, hslots, rfl, hdequeue, hmutex⟩, rfl⟩) h
  | enqWaitMutex task =>
      exact wait_shows hshows hmutex (fun n => { seg with mutexSem := n })
        (fun n => { shm with mutexSem := n })
        (fun n => ⟨⟨hring, hslots, henqueue, hdequeue, rfl⟩, rfl⟩) h
  | enqGiveBackSlot task =>
      cases h
      exact ⟨_, rfl, ⟨hring, hslots, congrArg (· + 1) henqueue, hdequeue, hmutex⟩, rfl, _, rfl⟩
  | enqPostItem =>
      cases h
      exact ⟨_, rfl, ⟨hring, hslots, henqueue, congrArg (· + 1) hdequeue, hmutex⟩, rfl, _, rfl⟩
  | deqWaitItem =>
      exact wait_shows hshows hdequeue (fun n => { seg with dequeueSem := n })
        (fun n => { shm with dequeueSem := n })
        (fun n => ⟨⟨hring, hslots, henqueue, rfl, hmutex⟩, rfl⟩) h
  | deqWaitMutex =>
      exact wait_shows hshows hmutex (fun n => { seg with mutexSem := n })
        (fun n => { shm with mutexSem := n })
        (fun n => ⟨⟨hring, hslots, henqueue, hdequeue, rfl⟩, rfl⟩) h
  | deqGiveBackItem =>
      cases h
      exact ⟨_, rfl, ⟨hring, hslots, henqueue, congrArg (· + 1) hdequeue, hmutex⟩, rfl, _, rfl⟩
  | deqEmptyPostItem =>
      cases h
      exact ⟨_, rfl, ⟨hring, hslots, henqueue, congrArg (· + 1) hdequeue, hmutex⟩, rfl, _, rfl⟩
  | deqPostSlot task =>
      cases h
      exact ⟨_, rfl, ⟨hring, hslots, congrArg (· + 1) henqueue, hdequeue, hmutex⟩, rfl, _, rfl⟩
  | prnWaitMutex =>
      exact wait_shows hshows hmutex (fun n => { seg with mutexSem := n })
        (fun n => { shm with mutexSem := n })
        (fun n => ⟨⟨hring, hslots, henqueue, hdequeue, rfl⟩, rfl⟩) h
  | _ => cases hout

/-- **Inside a critical section**, with every slot but the thread's own at
rest, a step matches the step of `queueStep` or goes on with a copy. -/
theorem segmentStep_section (hcap : capacity ≤ countTasks)
    (h : segmentStep plan capacity seg pc fail = some (seg', pc', notes))
    (hin : pc.point.inCritical = true) (hbelow : pc.point.SlotBelow capacity)
    (hshows : Shows capacity (fun i => pc.slotWritten = some i) seg shm)
    (hcopy : CopyOk plan seg.mem pc) :
    ∃ shm', Matched plan capacity shm pc fail shm' pc' notes ∧
      Shows capacity (fun i => pc'.slotWritten = some i) seg' shm' ∧ CopyOk plan seg'.mem pc' := by
  rcases pc with pc | ⟨task, rear, left⟩ | ⟨front, copy, left⟩ | ⟨index, todo, lines, copy, left⟩
  case storing =>
    cases left with
    | cons k left =>
        cases h
        refine ⟨shm, .copy rfl (Nat.lt_succ_self _),
          hshows.storeByte hcap _ hbelow hcopy.inside rfl, ?_⟩
        exact hcopy.byte (store_byte_same _ _ _) fun j hj => store_byte_of_ne (by omega)
    | nil =>
        cases h
        have hload : loadTask seg.mem (slotAt rear) = task := by
          rw [← plan.loadTask_image task]
          refine loadTask_agree fun k hk hfield => ?_
          rw [hcopy.finished k hk hfield, Nat.zero_add]
        have hrest : Shows capacity (· = rear) seg shm :=
          hshows.mono fun i hi => (Option.some.inj hi).symm
        refine ⟨shm.setTask rear task, .step rfl, ?_, trivial⟩
        exact (hrest.storeTask hload).mono fun i hi => hi.elim
  case fetching =>
    cases left with
    | cons k left =>
        cases h
        refine ⟨shm, .copy rfl (Nat.lt_succ_self _), hshows, ?_⟩
        exact hcopy.byte (store_byte_same _ _ _) fun j hj => store_byte_of_ne hj
    | nil =>
        cases h
        have hload : loadTask copy 0 = shm.tasks front := by
          rw [← hshows.slots front hbelow (by simp [SegmentPc.slotWritten])]
          refine loadTask_agree fun k hk hfield => ?_
          rw [Nat.zero_add]
          exact hcopy.finished k hk hfield
        refine ⟨shm, .step ?_, hshows, trivial⟩
        simp only [SegmentPc.point, queueStep, hload]
  case listing =>
    cases left with
    | cons k left =>
        cases h
        refine ⟨shm, .copy rfl (Nat.lt_succ_self _), hshows, ?_⟩
        exact hcopy.byte (store_byte_same _ _ _) fun j hj => store_byte_of_ne hj
    | nil =>
        cases h
        have hload : loadTask copy 0 = shm.tasks index := by
          rw [← hshows.slots index hbelow (by simp [SegmentPc.slotWritten])]
          refine loadTask_agree fun k hk hfield => ?_
          rw [Nat.zero_add]
          exact hcopy.finished k hk hfield
        refine ⟨shm, .step ?_, hshows, trivial⟩
        simp only [SegmentPc.point, queueStep, hload]
  cases pc with
  | enqLoadRear task =>
      cases h
      rw [hshows.rear]
      exact ⟨shm, .step rfl, hshows, trivial⟩
  | enqStoreTask task rear =>
      cases h
      refine ⟨shm, .copy rfl (Nat.lt_succ_self _), hshows.mono fun i hi => ?_, .start⟩
      exact (Option.some_ne_none i hi.symm).elim
  | enqStoreRear task rear =>
      cases h
      exact ⟨_, .step rfl, hshows.storeSize hcap .rear (sizeAdd_mod_lt _ _ _), trivial⟩
  | enqAddCount task =>
      cases h
      rw [hshows.count]
      exact ⟨_, .step rfl, hshows.storeSize hcap .count (sizeAdd_lt _ _), trivial⟩
  | enqAddTotal task =>
      cases h
      rw [show loadSize seg.mem totalEnqueuedAt = shm.totalEnqueued from
        hshows.sizes .totalEnqueued]
      exact ⟨_, .step rfl, hshows.storeSize hcap .totalEnqueued (sizeAdd_lt _ _), trivial⟩
  | enqPostMutex task =>
      cases h
      exact ⟨_, .step rfl, { hshows with mutexSem := congrArg (· + 1) hshows.mutexSem }, trivial⟩
  | deqLoadFront =>
      cases h
      rw [hshows.front]
      exact ⟨shm, .step rfl, hshows, trivial⟩
  | deqLoadCount front =>
      simp only [segmentStep, hshows.count] at h
      by_cases hcount : shm.count = 0
      · rw [if_pos hcount] at h
        cases h
        exact ⟨shm, .step (if_pos hcount), hshows, trivial⟩
      · rw [if_neg hcount] at h
        cases h
        exact ⟨shm, .step (if_neg hcount), hshows, trivial⟩
  | deqEmptyPostMutex =>
      cases h
      exact ⟨_, .step rfl, { hshows with mutexSem := congrArg (· + 1) hshows.mutexSem }, trivial⟩
  | deqLoadTask front =>
      cases h
      exact ⟨shm, .copy rfl (Nat.lt_succ_self _), hshows, .start⟩
  | deqStoreFront front task =>
      cases h
      exact ⟨_, .step rfl, hshows.storeSize hcap .front (sizeAdd_mod_lt _ _ _), trivial⟩
  | deqSubCount task =>
      cases h
      rw [hshows.count]
      exact ⟨_, .step rfl, hshows.storeSize hcap .count (sizePred_lt _), trivial⟩
  | deqAddTotal task =>
      cases h
      rw [show loadSize seg.mem totalDequeuedAt = shm.totalDequeued from
        hshows.sizes .totalDequeued]
      exact ⟨_, .step rfl, hshows.storeSize hcap .totalDequeued (sizeAdd_lt _ _), trivial⟩
  | deqPostMutex task =>
      cases h
      exact ⟨_, .step rfl, { hshows with mutexSem := congrArg (· + 1) hshows.mutexSem }, trivial⟩
  | prnLoadFront =>
      cases h
      rw [hshows.front]
      exact ⟨shm, .step rfl, hshows, trivial⟩
  | prnLoadRear front =>
      cases h
      exact ⟨shm, .step rfl, hshows, trivial⟩
  | prnLoadCount front =>
      cases h
      rw [hshows.count]
      exact ⟨shm, .step rfl, hshows, trivial⟩
  | prnLoadTask index todo lines =>
      cases todo with
      | zero =>
          cases h
          exact ⟨shm, .step rfl, hshows, trivial⟩
      | succ todo =>
          cases h
          exact ⟨shm, .copy rfl (Nat.lt_succ_self _), hshows, .start⟩
  | prnPostMutex lines =>
      cases h
      exact ⟨_, .step rfl, { hshows with mutexSem := congrArg (· + 1) hshows.mutexSem }, trivial⟩
  | _ => cases hin

/-- A thread outside its critical section copies nothing. -/
theorem SegmentPc.call_of_outside (h : pc.point.inCritical = false) : ∃ q, pc = .call q := by
  cases pc with
  | call q => exact ⟨q, rfl⟩
  | storing task rear left => cases h
  | fetching front copy left => cases h
  | listing index todo lines copy left => cases h

/-- The flag lies before the declared slots: storing it touches no copy. -/
theorem CopyOk.storeRunning (h : CopyOk plan seg.mem pc) (hcap : capacity ≤ countTasks)
    (hbelow : pc.point.SlotBelow capacity) (running : Bool) :
    CopyOk plan (seg.storeRunning running).mem pc := by
  have hframe : ∀ i < capacity, ∀ k,
      (seg.storeRunning running).mem (slotAt i + k) = seg.mem (slotAt i + k) := by
    intro i hi k
    have hslot := slotAt_bounds (i := i) (by omega)
    have hflag : runningAt = 24 := rfl
    exact store_byte_of_ne (by omega)
  cases pc with
  | call q => trivial
  | storing task rear left =>
      simp only [CopyOk, hframe rear hbelow]
      exact h
  | fetching front copy left =>
      simp only [CopyOk, hframe front hbelow]
      exact h
  | listing index todo lines copy left =>
      simp only [CopyOk, hframe index hbelow]
      exact h

/-- The flag is no part of what the segment shows of the queue. -/
theorem Shows.storeRunning {written : Nat → Prop} (h : Shows capacity written seg shm)
    (hcap : capacity ≤ countTasks) (running : Bool) :
    Shows capacity written (seg.storeRunning running) shm := by
  have hflag : runningAt = 24 := rfl
  refine ⟨fun field => ?_, fun i hi hnot => ?_, h.enqueueSem, h.dequeueSem, h.mutexSem⟩
  · have hfield := field.offset_outside
    have hcontrol : field.offset + 8 ≤ 24 ∨ 25 ≤ field.offset := by omega
    rw [← h.sizes field]
    exact loadSize_congr fun b hlo hhi => store_byte_of_ne (by omega)
  · have hslot := slotAt_bounds (i := i) (by omega)
    rw [← h.slots i hi hnot]
    exact loadTask_congr fun b hlo hhi => store_byte_of_ne (by omega)

/-- Whether a `sem_wait` gets through depends on the tokens only. -/
theorem wait_possible {β γ : Type*} {x : Nat} {failed r : β} {next : Nat → β}
    (h : (if fail then some failed else (semWait x).map next) = some r) (failed' : γ)
    (next' : Nat → γ) :
    (if fail then some failed' else (semWait x).map next').isSome = true := by
  rcases wait_cases h with ⟨rfl, -⟩ | ⟨n, rfl, rfl, -⟩ <;> rfl

/-- **Nothing gets stuck on bytes.**  Where `queueStep` can go on, so can the
copy that stands for it. -/
theorem segmentStep_possible (plan : CopyPlan) {written : Nat → Prop}
    (hshows : Shows capacity written seg shm)
    {shm' : Shm} {q : QueuePc}
    (h : queueStep capacity shm pc.point fail = some (shm', q, notes)) :
    ∃ seg' pc' notes', segmentStep plan capacity seg pc fail = some (seg', pc', notes') := by
  have hsome : ∀ {x : Option (Segment × SegmentPc × List Note)}, x.isSome = true →
      ∃ seg' pc' notes', x = some (seg', pc', notes') := by
    intro x hx
    exact ⟨_, _, _, (Option.some_get hx).symm⟩
  apply hsome
  rcases pc with pc | ⟨task, rear, left⟩ | ⟨front, copy, left⟩ | ⟨index, todo, lines, copy, left⟩
  case storing => cases left <;> rfl
  case fetching => cases left <;> rfl
  case listing => cases left <;> rfl
  cases pc with
  | idle => cases h
  | enqWaitSlot task =>
      simp only [segmentStep, hshows.enqueueSem]
      exact wait_possible h _ _
  | enqWaitMutex task =>
      simp only [segmentStep, hshows.mutexSem]
      exact wait_possible h _ _
  | deqWaitItem =>
      simp only [segmentStep, hshows.dequeueSem]
      exact wait_possible h _ _
  | deqWaitMutex =>
      simp only [segmentStep, hshows.mutexSem]
      exact wait_possible h _ _
  | prnWaitMutex =>
      simp only [segmentStep, hshows.mutexSem]
      exact wait_possible h _ _
  | deqLoadCount front =>
      simp only [segmentStep]
      split <;> rfl
  | prnLoadTask index todo lines => cases todo <;> rfl
  | _ => rfl

end Step

end TaskSheduler
