import TaskSheduler.SegmentLayout

/-!
# What the calls do to the bytes of the segment

`Enqueued` and `Dequeued` say, field by field, what one completed call does to
a segment whose indices name declared slots.  `SegInv` carries the queue and
the two totals along a sequence of calls.  Up to `COUNT_TASKS` slots every
sequence keeps it; with one more slot, filling the queue writes an entry over
the totals.
-/

namespace TaskSheduler

open ByteMemory RingBuffer

theorem storeSize_outside {mem : Memory} {off b value : Nat} (h : b < off ∨ off + 8 ≤ b) :
    storeSize mem off value b = mem b :=
  storeNat_outside h

/-- A declared slot lies between the flag and the totals. -/
theorem slotAt_bounds {i : Nat} (h : i < countTasks) :
    25 ≤ slotAt i ∧ slotAt i + 276 ≤ 27625 := by
  simp only [countTasks] at h
  simp only [slotAt, tasksAt, sizeofSharedTask, maxPath]
  omega

/-- Different slots share no byte. -/
theorem slotAt_apart {i j : Nat} (h : i ≠ j) :
    slotAt i + 276 ≤ slotAt j ∨ slotAt j + 276 ≤ slotAt i := by
  simp only [slotAt, tasksAt, sizeofSharedTask, maxPath]
  omega

/-- What a completed `enqueue` does. -/
structure Enqueued (capacity : Nat) (task : SharedTask) (seg seg' : Segment) : Prop where
  front : loadSize seg'.mem frontAt = loadSize seg.mem frontAt
  rear : loadSize seg'.mem rearAt = sizeAdd (loadSize seg.mem rearAt) 1 % capacity
  count : loadSize seg'.mem countAt = sizeAdd (loadSize seg.mem countAt) 1
  totalEnqueued : loadSize seg'.mem totalEnqueuedAt =
    sizeAdd (loadSize seg.mem totalEnqueuedAt) 1
  totalDequeued : loadSize seg'.mem totalDequeuedAt = loadSize seg.mem totalDequeuedAt
  slot : loadTask seg'.mem (slotAt (loadSize seg.mem rearAt)) = task
  others : ∀ i < countTasks, i ≠ loadSize seg.mem rearAt →
    loadTask seg'.mem (slotAt i) = loadTask seg.mem (slotAt i)
  enqueueSem : seg.enqueueSem = seg'.enqueueSem + 1
  dequeueSem : seg'.dequeueSem = seg.dequeueSem + 1
  mutexSem : seg'.mutexSem = seg.mutexSem

/-- `enqueue` at a declared slot. -/
theorem Segment.enqueue_effect {capacity : Nat} {task : SharedTask} {seg seg' : Segment}
    (h : seg.enqueue capacity task = some seg')
    (hrear : loadSize seg.mem rearAt < countTasks) : Enqueued capacity task seg seg' := by
  simp only [Segment.enqueue, Option.bind_eq_bind, Option.bind_eq_some_iff, Option.pure_def,
    Option.some.injEq] at h
  obtain ⟨slots, hslots, mutex, hmutex, rfl⟩ := h
  have hfrontAt : frontAt = 0 := rfl
  have hrearAt : rearAt = 8 := rfl
  have hcountAt : countAt = 16 := rfl
  have htotalE : totalEnqueuedAt = 27625 := rfl
  have htotalD : totalDequeuedAt = 27633 := rfl
  have hsize : sizeofSharedTask = 276 := rfl
  have hslot := slotAt_bounds hrear
  generalize hm1 : storeTask seg.mem (slotAt (loadSize seg.mem rearAt)) task = m1
  generalize hm2 : storeSize m1 rearAt (sizeAdd (loadSize seg.mem rearAt) 1 % capacity) = m2
  have hcount : loadSize m2 countAt = loadSize seg.mem countAt := by
    refine loadSize_congr fun b hlo hhi => ?_
    rw [← hm2, storeSize_outside (by omega), ← hm1, storeTask_outside (by omega)]
  rw [hcount]
  generalize hm3 : storeSize m2 countAt (sizeAdd (loadSize seg.mem countAt) 1) = m3
  have htotal : loadSize m3 totalEnqueuedAt = loadSize seg.mem totalEnqueuedAt := by
    refine loadSize_congr fun b hlo hhi => ?_
    rw [← hm3, storeSize_outside (by omega), ← hm2, storeSize_outside (by omega), ← hm1,
      storeTask_outside (by omega)]
  rw [htotal]
  constructor
  all_goals dsimp only
  case front =>
    refine loadSize_congr fun b hlo hhi => ?_
    rw [storeSize_outside (by omega), ← hm3, storeSize_outside (by omega), ← hm2,
      storeSize_outside (by omega), ← hm1, storeTask_outside (by omega)]
  case rear =>
    have hstored : loadSize m2 rearAt = sizeAdd (loadSize seg.mem rearAt) 1 % capacity := by
      rw [← hm2, loadSize_storeSize_same, sizeAdd_mod_capacity]
    rw [← hstored]
    refine loadSize_congr fun b hlo hhi => ?_
    rw [storeSize_outside (by omega), ← hm3, storeSize_outside (by omega)]
  case count =>
    have hstored : loadSize m3 countAt = sizeAdd (loadSize seg.mem countAt) 1 := by
      rw [← hm3, loadSize_storeSize_same, sizeAdd_mod]
    rw [← hstored]
    refine loadSize_congr fun b hlo hhi => ?_
    rw [storeSize_outside (by omega)]
  case totalEnqueued => rw [loadSize_storeSize_same, sizeAdd_mod]
  case totalDequeued =>
    refine loadSize_congr fun b hlo hhi => ?_
    rw [storeSize_outside (by omega), ← hm3, storeSize_outside (by omega), ← hm2,
      storeSize_outside (by omega), ← hm1, storeTask_outside (by omega)]
  case slot =>
    rw [← loadTask_storeTask_same seg.mem (slotAt (loadSize seg.mem rearAt)) task, hm1]
    refine loadTask_congr fun b hlo hhi => ?_
    rw [storeSize_outside (by omega), ← hm3, storeSize_outside (by omega), ← hm2,
      storeSize_outside (by omega)]
  case others =>
    intro i hi hne
    have hbounds := slotAt_bounds hi
    have hapart := slotAt_apart hne
    refine loadTask_congr fun b hlo hhi => ?_
    rw [storeSize_outside (by omega), ← hm3, storeSize_outside (by omega), ← hm2,
      storeSize_outside (by omega), ← hm1, storeTask_outside (by omega)]
  case enqueueSem => exact semWait_some hslots
  case mutexSem => exact (semWait_some hmutex).symm

/-- What a completed `dequeue` does when the queue is not empty. -/
structure Dequeued (capacity : Nat) (seg seg' : Segment) : Prop where
  front : loadSize seg'.mem frontAt = sizeAdd (loadSize seg.mem frontAt) 1 % capacity
  rear : loadSize seg'.mem rearAt = loadSize seg.mem rearAt
  count : loadSize seg'.mem countAt = sizePred (loadSize seg.mem countAt)
  totalEnqueued : loadSize seg'.mem totalEnqueuedAt = loadSize seg.mem totalEnqueuedAt
  totalDequeued : loadSize seg'.mem totalDequeuedAt =
    sizeAdd (loadSize seg.mem totalDequeuedAt) 1
  slots : ∀ i < countTasks, loadTask seg'.mem (slotAt i) = loadTask seg.mem (slotAt i)
  enqueueSem : seg'.enqueueSem = seg.enqueueSem + 1
  dequeueSem : seg.dequeueSem = seg'.dequeueSem + 1
  mutexSem : seg'.mutexSem = seg.mutexSem

/-- `dequeue` from a queue that is not empty returns the front slot. -/
theorem Segment.dequeue_effect {capacity : Nat} {result : Option SharedTask}
    {seg seg' : Segment} (h : seg.dequeue capacity = some (result, seg'))
    (hcount : loadSize seg.mem countAt ≠ 0) :
    result = some (loadTask seg.mem (slotAt (loadSize seg.mem frontAt))) ∧
      Dequeued capacity seg seg' := by
  simp only [Segment.dequeue, Option.bind_eq_bind, Option.bind_eq_some_iff, hcount,
    ↓reduceIte, Option.pure_def, Option.some.injEq, Prod.mk.injEq] at h
  obtain ⟨items, hitems, mutex, hmutex, rfl, rfl⟩ := h
  refine ⟨rfl, ?_⟩
  have hfrontAt : frontAt = 0 := rfl
  have hrearAt : rearAt = 8 := rfl
  have hcountAt : countAt = 16 := rfl
  have htotalE : totalEnqueuedAt = 27625 := rfl
  have htotalD : totalDequeuedAt = 27633 := rfl
  have hsize : sizeofSharedTask = 276 := rfl
  generalize hm1 : storeSize seg.mem frontAt (sizeAdd (loadSize seg.mem frontAt) 1 % capacity)
    = m1
  have hsameCount : loadSize m1 countAt = loadSize seg.mem countAt := by
    refine loadSize_congr fun b hlo hhi => ?_
    rw [← hm1, storeSize_outside (by omega)]
  rw [hsameCount]
  generalize hm2 : storeSize m1 countAt (sizePred (loadSize seg.mem countAt)) = m2
  have htotal : loadSize m2 totalDequeuedAt = loadSize seg.mem totalDequeuedAt := by
    refine loadSize_congr fun b hlo hhi => ?_
    rw [← hm2, storeSize_outside (by omega), ← hm1, storeSize_outside (by omega)]
  rw [htotal]
  constructor
  all_goals dsimp only
  case front =>
    have hstored : loadSize m1 frontAt = sizeAdd (loadSize seg.mem frontAt) 1 % capacity := by
      rw [← hm1, loadSize_storeSize_same, sizeAdd_mod_capacity]
    rw [← hstored]
    refine loadSize_congr fun b hlo hhi => ?_
    rw [storeSize_outside (by omega), ← hm2, storeSize_outside (by omega)]
  case rear =>
    refine loadSize_congr fun b hlo hhi => ?_
    rw [storeSize_outside (by omega), ← hm2, storeSize_outside (by omega), ← hm1,
      storeSize_outside (by omega)]
  case count =>
    have hstored : loadSize m2 countAt = sizePred (loadSize seg.mem countAt) := by
      rw [← hm2, loadSize_storeSize_same, sizePred_mod]
    rw [← hstored]
    refine loadSize_congr fun b hlo hhi => ?_
    rw [storeSize_outside (by omega)]
  case totalEnqueued =>
    refine loadSize_congr fun b hlo hhi => ?_
    rw [storeSize_outside (by omega), ← hm2, storeSize_outside (by omega), ← hm1,
      storeSize_outside (by omega)]
  case totalDequeued => rw [loadSize_storeSize_same, sizeAdd_mod]
  case slots =>
    intro i hi
    have hbounds := slotAt_bounds hi
    refine loadTask_congr fun b hlo hhi => ?_
    rw [storeSize_outside (by omega), ← hm2, storeSize_outside (by omega), ← hm1,
      storeSize_outside (by omega)]
  case dequeueSem => exact semWait_some hitems
  case mutexSem => exact (semWait_some hmutex).symm

/-! ## Sequences of calls -/

/-- The segment holds the queue `q` after `enqueues` and `dequeues` completed
calls, with no call in progress. -/
structure SegInv (capacity : Nat) (q : List SharedTask) (enqueues dequeues : Nat)
    (seg : Segment) : Prop where
  holds : Holds capacity (loadSize seg.mem frontAt) (loadSize seg.mem rearAt)
    (fun i => loadTask seg.mem (slotAt i)) q
  count : loadSize seg.mem countAt = q.length
  totalEnqueued : loadSize seg.mem totalEnqueuedAt = enqueues % 2 ^ 64
  totalDequeued : loadSize seg.mem totalDequeuedAt = dequeues % 2 ^ 64
  free : seg.enqueueSem + q.length = capacity
  items : seg.dequeueSem = q.length
  mutex : seg.mutexSem = 1

/-- Every `size_t` of a created segment reads zero. -/
theorem create_loadSize (capacity off : Nat) :
    loadSize (Segment.create capacity).mem off = 0 := by
  have hsize : ∀ {mem : Memory} {off : Nat}, (∀ b, mem b = 0) →
      ∀ b, storeSize mem off 0 b = 0 := fun h => store_zero h leBytes_zero
  have hzero : ∀ b, (Segment.create capacity).mem b = 0 :=
    hsize (hsize (store_zero (hsize (hsize (hsize fun _ => rfl))) (by simp)))
  exact loadNat_zero fun b _ _ => hzero b

theorem segInv_create {capacity : Nat} (hpos : 0 < capacity) :
    SegInv capacity [] 0 0 (Segment.create capacity) := by
  refine ⟨?_, create_loadSize _ _, create_loadSize _ _, create_loadSize _ _, rfl, rfl, rfl⟩
  rw [create_loadSize, create_loadSize]
  exact Holds.empty hpos _

theorem sizeAdd_mod_one (n : Nat) : sizeAdd (n % 2 ^ 64) 1 = (n + 1) % 2 ^ 64 :=
  Nat.mod_add_mod _ _ _

/-- A completed `enqueue` appends its task, as long as the slots in use and
the one written are declared ones. -/
theorem SegInv.enqueue {capacity : Nat} {q : List SharedTask} {enqueues dequeues : Nat}
    {seg seg' : Segment} {task : SharedTask} (h : SegInv capacity q enqueues dequeues seg)
    (hcap : capacity < 2 ^ 64)
    (hused : ∀ i < q.length, (loadSize seg.mem frontAt + i) % capacity < countTasks)
    (hrear : loadSize seg.mem rearAt < countTasks)
    (hcall : seg.enqueue capacity task = some seg') :
    SegInv capacity (q ++ [task]) (enqueues + 1) dequeues seg' := by
  have heff := Segment.enqueue_effect hcall hrear
  have hroom : q.length < capacity := by
    have := h.free
    have := heff.enqueueSem
    omega
  have hrearLt := h.holds.rear_lt
  constructor
  case holds =>
    rw [heff.front, heff.rear, sizeAdd_one (by omega)]
    refine Holds.push (h.holds.congr fun i hi => ?_) hroom heff.slot
    refine heff.others _ (hused i hi) fun heq => ?_
    rw [h.holds.rear_eq] at heq
    have := offset_inj (by omega) hroom heq
    omega
  case count =>
    rw [heff.count, h.count, sizeAdd_one (by omega)]
    simp
  case totalEnqueued => rw [heff.totalEnqueued, h.totalEnqueued, sizeAdd_mod_one]
  case totalDequeued => rw [heff.totalDequeued, h.totalDequeued]
  case free =>
    have := h.free
    have := heff.enqueueSem
    simp only [List.length_append, List.length_singleton]
    omega
  case items =>
    rw [heff.dequeueSem, h.items]
    simp
  case mutex => rw [heff.mutexSem, h.mutex]

/-- A completed `dequeue` returns the oldest task, when the slots in use are
declared ones. -/
theorem SegInv.dequeue {capacity : Nat} {q : List SharedTask} {enqueues dequeues : Nat}
    {seg seg' : Segment} {result : Option SharedTask}
    (h : SegInv capacity q enqueues dequeues seg) (hcap : capacity < 2 ^ 64)
    (hused : ∀ i < q.length, (loadSize seg.mem frontAt + i) % capacity < countTasks)
    (hcall : seg.dequeue capacity = some (result, seg')) :
    ∃ task rest, q = task :: rest ∧ result = some task ∧
      SegInv capacity rest enqueues (dequeues + 1) seg' := by
  have hne : q ≠ [] := by
    rintro rfl
    have hitems := h.items
    simp only [List.length_nil] at hitems
    simp [Segment.dequeue, hitems, semWait] at hcall
  obtain ⟨task, rest, rfl⟩ := List.exists_cons_of_ne_nil hne
  have hcount := h.count
  simp only [List.length_cons] at hcount
  obtain ⟨hresult, heff⟩ := Segment.dequeue_effect hcall (by omega)
  have hlen := h.holds.length_le
  have hfront := h.holds.front_lt
  simp only [List.length_cons] at hlen
  refine ⟨task, rest, rfl, ?_, ?_⟩
  · rw [hresult, h.holds.head_slot]
  · constructor
    case holds =>
      rw [heff.front, heff.rear, sizeAdd_one (by omega)]
      exact (h.holds.congr fun i hi => heff.slots _ (hused i hi)).pop
    case count =>
      rw [heff.count, hcount, sizePred_pos (by omega) (by omega)]
      omega
    case totalEnqueued => rw [heff.totalEnqueued, h.totalEnqueued]
    case totalDequeued => rw [heff.totalDequeued, h.totalDequeued, sizeAdd_mod_one]
    case free =>
      have := h.free
      simp only [List.length_cons] at this
      rw [heff.enqueueSem]
      omega
    case items =>
      have := h.items
      have := heff.dequeueSem
      simp only [List.length_cons] at *
      omega
    case mutex => rw [heff.mutexSem, h.mutex]

/-- **Up to the declared number of slots**, every sequence of completed calls
keeps the invariant and returns the oldest tasks. -/
theorem SegInv.run {capacity : Nat} (hcap : capacity ≤ countTasks) {calls : List RingCall}
    {q : List SharedTask} {enqueues dequeues : Nat} {seg seg' : Segment}
    {results : List (Option SharedTask)} (h : SegInv capacity q enqueues dequeues seg)
    (hrun : seg.run capacity calls = some (results, seg')) :
    ∃ rest, SegInv capacity rest (enqueues + (enqueuesIn calls).length)
        (dequeues + dequeuesIn calls) seg' ∧
      results = ((q ++ enqueuesIn calls).take (dequeuesIn calls)).map some := by
  have hbig : countTasks = 100 := rfl
  induction calls generalizing seg q enqueues dequeues results with
  | nil =>
      simp only [Segment.run, Option.some.injEq, Prod.mk.injEq] at hrun
      obtain ⟨rfl, rfl⟩ := hrun
      exact ⟨q, h, by simp [dequeuesIn]⟩
  | cons call calls ih =>
      have hfront := h.holds.front_lt
      have hrear := h.holds.rear_lt
      have hused : ∀ i < q.length, (loadSize seg.mem frontAt + i) % capacity < countTasks :=
        fun i _ => Nat.lt_of_lt_of_le (Nat.mod_lt _ (by omega)) hcap
      cases call with
      | enqueue task =>
          simp only [Segment.run, Option.bind_eq_some_iff] at hrun
          obtain ⟨middle, hcall, hrun⟩ := hrun
          have hnext := h.enqueue (by omega) hused (by omega) hcall
          obtain ⟨rest, hinv, hresults⟩ := ih hnext hrun
          refine ⟨rest, ?_, ?_⟩
          · have harith : enqueues + 1 + (enqueuesIn calls).length =
                enqueues + (enqueuesIn (.enqueue task :: calls)).length := by
              simp only [enqueuesIn, List.length_cons]
              omega
            exact harith ▸ hinv
          · simpa [enqueuesIn, dequeuesIn] using hresults
      | dequeue =>
          simp only [Segment.run, Option.bind_eq_some_iff, Option.map_eq_some_iff,
            Prod.mk.injEq] at hrun
          obtain ⟨⟨result, middle⟩, hcall, ⟨later, finish⟩, hrun, rfl, rfl⟩ := hrun
          obtain ⟨task, tail, rfl, rfl, hnext⟩ := h.dequeue (by omega) hused hcall
          obtain ⟨rest, hinv, hresults⟩ := ih hnext hrun
          refine ⟨rest, ?_, ?_⟩
          · have harith : dequeues + 1 + dequeuesIn calls =
                dequeues + dequeuesIn (.dequeue :: calls) := by
              simp only [dequeuesIn]
              omega
            exact harith ▸ hinv
          · simp [hresults, enqueuesIn, dequeuesIn]

/-! ## One slot too many -/

/-- The first eight bytes of a zeroed entry are zero. -/
theorem loadSize_storeTask_zeroed (mem : Memory) (off : Nat) :
    loadSize (storeTask mem off SharedTask.zeroed) off = 0 := by
  have hdesc : SharedTask.zeroed.description.toList.length = 256 :=
    SharedTask.zeroed.description.toList_length
  refine loadNat_zero fun b hlo hhi => ?_
  unfold storeTask
  rw [storeInt_outside (by omega), store_outside (by simp only [List.length_singleton]; omega),
    storeInt_outside (by omega), store_outside (by omega)]
  by_cases hid : b < off + 4
  · rw [storeInt_outside (by omega)]
    exact store_zero_inside leBytes_zero hlo (by rw [leBytes_length]; omega)
  · exact store_zero_inside leBytes_zero (by omega) (by rw [leBytes_length]; omega)

/-- Filling the declared slots of a larger queue with zeroed entries is
possible and keeps the invariant. -/
theorem SegInv.fill {capacity : Nat} (hbig : countTasks < capacity) (hcap : capacity < 2 ^ 64)
    {k n : Nat} {seg : Segment}
    (h : SegInv capacity (List.replicate n SharedTask.zeroed) n 0 seg)
    (hfront : loadSize seg.mem frontAt = 0) (hn : n + k = countTasks) :
    ∃ seg', seg.run capacity (List.replicate k (.enqueue SharedTask.zeroed)) = some ([], seg') ∧
      SegInv capacity (List.replicate countTasks SharedTask.zeroed) countTasks 0 seg' ∧
      loadSize seg'.mem frontAt = 0 := by
  induction k generalizing n seg with
  | zero =>
      obtain rfl : n = countTasks := by omega
      exact ⟨seg, rfl, h, hfront⟩
  | succ k ih =>
      have hrear : loadSize seg.mem rearAt = n := by
        rw [h.holds.rear_eq, hfront, List.length_replicate, Nat.zero_add]
        exact Nat.mod_eq_of_lt (by omega)
      have hused : ∀ i < (List.replicate n SharedTask.zeroed).length,
          (loadSize seg.mem frontAt + i) % capacity < countTasks := by
        intro i hi
        rw [List.length_replicate] at hi
        rw [hfront, Nat.zero_add, Nat.mod_eq_of_lt (by omega)]
        omega
      have hfree := h.free
      rw [List.length_replicate] at hfree
      obtain ⟨free, hslots⟩ : ∃ m, seg.enqueueSem = m + 1 := ⟨capacity - n - 1, by omega⟩
      obtain ⟨next, hcall⟩ : ∃ next, seg.enqueue capacity SharedTask.zeroed = some next := by
        simp [Segment.enqueue, hslots, h.mutex, semWait]
      have hnext := h.enqueue hcap hused (by omega) hcall
      rw [← List.replicate_succ'] at hnext
      have hfront' : loadSize next.mem frontAt = 0 := by
        rw [(Segment.enqueue_effect hcall (by omega)).front, hfront]
      obtain ⟨seg', hrun, hinv, hzero⟩ := ih hnext hfront' (by omega)
      refine ⟨seg', ?_, hinv, hzero⟩
      simp [List.replicate_succ, Segment.run, hcall, hrun]

/-- The entry stored in the first undeclared slot overwrites the totals: the
zeroed entry makes `total_enqueued_` restart at one. -/
theorem SegInv.overflow {capacity : Nat} (hbig : countTasks < capacity)
    {seg : Segment} {dequeues : Nat}
    (h : SegInv capacity (List.replicate countTasks SharedTask.zeroed) countTasks dequeues seg)
    (hfront : loadSize seg.mem frontAt = 0) :
    ∃ seg', seg.enqueue capacity SharedTask.zeroed = some seg' ∧
      loadSize seg'.mem totalEnqueuedAt = 1 := by
  have hrear : loadSize seg.mem rearAt = countTasks := by
    rw [h.holds.rear_eq, hfront, List.length_replicate, Nat.zero_add]
    exact Nat.mod_eq_of_lt hbig
  have hfree := h.free
  rw [List.length_replicate] at hfree
  obtain ⟨free, hslots⟩ : ∃ m, seg.enqueueSem = m + 1 := ⟨capacity - countTasks - 1, by omega⟩
  have hsame : slotAt countTasks = totalEnqueuedAt := rfl
  have hrearAt : rearAt = 8 := rfl
  have hcountAt : countAt = 16 := rfl
  have htotalE : totalEnqueuedAt = 27625 := rfl
  simp only [Segment.enqueue, hslots, h.mutex, semWait, hrear, hsame]
  refine ⟨_, rfl, ?_⟩
  rw [loadSize_storeSize_same, sizeAdd_mod]
  have hzero : ∀ r c, loadSize (storeSize (storeSize
      (storeTask seg.mem totalEnqueuedAt SharedTask.zeroed) rearAt r) countAt c)
      totalEnqueuedAt = 0 := by
    intro r c
    rw [← loadSize_storeTask_zeroed seg.mem totalEnqueuedAt]
    refine loadSize_congr fun b hlo hhi => ?_
    rw [storeSize_outside (by omega), storeSize_outside (by omega)]
  rw [hzero]
  rfl

theorem Segment.run_append {capacity : Nat} {left : List RingCall} {seg middle : Segment}
    {results : List (Option SharedTask)} (right : List RingCall)
    (h : seg.run capacity left = some (results, middle)) :
    seg.run capacity (left ++ right) =
      (middle.run capacity right).map fun q => (results ++ q.1, q.2) := by
  induction left generalizing seg results with
  | nil =>
      simp only [Segment.run, Option.some.injEq, Prod.mk.injEq] at h
      obtain ⟨rfl, rfl⟩ := h
      simp
  | cons call left ih =>
      cases call with
      | enqueue task =>
          simp only [Segment.run, Option.bind_eq_some_iff] at h
          obtain ⟨next, hcall, h⟩ := h
          simp [Segment.run, hcall, ih h]
      | dequeue =>
          simp only [Segment.run, Option.bind_eq_some_iff, Option.map_eq_some_iff,
            Prod.mk.injEq] at h
          obtain ⟨⟨result, next⟩, hcall, ⟨later, finish⟩, h, rfl, rfl⟩ := h
          simp [Segment.run, hcall, ih h, Function.comp_def]

theorem enqueuesIn_replicate (n : Nat) (task : SharedTask) :
    enqueuesIn (List.replicate n (.enqueue task)) = List.replicate n task := by
  induction n with
  | zero => rfl
  | succ n ih => simp [List.replicate_succ, enqueuesIn, ih]

/-- **Exact calls.**  Dequeues return what was enqueued and the totals count
the calls exactly for the declared number of slots. -/
theorem callsExact_iff {capacity : Nat} (hvalid : validCapacity capacity = true) :
    CallsExact capacity ↔ capacity ≤ countTasks := by
  have hbounds : 0 < capacity ∧ capacity ≤ throwValue := by
    simp only [validCapacity, Bool.not_eq_true', Bool.or_eq_false_iff, beq_eq_false_iff_ne,
      decide_eq_false_iff_not] at hvalid
    omega
  have hthrow : throwValue = 10000 := rfl
  have hcreate := segInv_create hbounds.1
  constructor
  · intro hexact
    by_contra hbig
    have hmore : countTasks < capacity := by omega
    obtain ⟨full, hfill, hinv, hfront⟩ := SegInv.fill (n := 0) (k := countTasks) hmore (by omega)
      hcreate (create_loadSize capacity frontAt) (Nat.zero_add _)
    obtain ⟨spilled, hcall, htotal⟩ := hinv.overflow hmore hfront
    have hrun := Segment.run_append [.enqueue SharedTask.zeroed] hfill
    simp only [Segment.run, hcall, Option.bind_some, Option.map_some, List.append_nil] at hrun
    obtain ⟨-, hcount, -⟩ := hexact _ _ _ hrun
    rw [htotal] at hcount
    have hlen : (enqueuesIn (List.replicate countTasks (.enqueue SharedTask.zeroed) ++
        [.enqueue SharedTask.zeroed])).length = 101 := by
      rw [← List.replicate_succ', enqueuesIn_replicate, List.length_replicate]
      rfl
    rw [hlen] at hcount
    omega
  · intro hle calls results seg hrun
    obtain ⟨rest, hinv, hresults⟩ := hcreate.run hle hrun
    refine ⟨by simpa using hresults, ?_, ?_⟩
    · simpa using hinv.totalEnqueued
    · simpa using hinv.totalDequeued

/-- **Slots and counters never overlap, up to `COUNT_TASKS`.**  For every
capacity the constructor accepts, the slots are clear of the control fields,
and the calls are exact, if and only if the capacity is at most the declared
number of slots. -/
theorem slots_and_counters_iff {capacity : Nat} (hvalid : validCapacity capacity = true) :
    (SlotsClear capacity ↔ capacity ≤ countTasks) ∧
      (CallsExact capacity ↔ capacity ≤ countTasks) :=
  ⟨slotsClear_iff capacity, callsExact_iff hvalid⟩

/-- The tests' capacity is on the safe side. -/
theorem slots_and_counters_declared : SlotsClear 100 ∧ CallsExact 100 := by
  have hvalid : validCapacity 100 = true := by decide
  have h := slots_and_counters_iff hvalid
  exact ⟨h.1.mpr (by decide), h.2.mpr (by decide)⟩

/-- One more slot is accepted by the constructor and shares its bytes with the
totals. -/
theorem first_undeclared_slot_overlaps :
    validCapacity 101 = true ∧ ¬ SlotsClear 101 ∧ ¬ CallsExact 101 := by
  refine ⟨by decide, ?_, ?_⟩
  · rw [slotsClear_iff]
    decide
  · rw [callsExact_iff (by decide)]
    decide

end TaskSheduler
