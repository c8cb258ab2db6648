import TaskSheduler.SegmentCopies
import TaskSheduler.Simulation
import TaskSheduler.QueueFifo

/-!
# The bytes of the segment refine the queue of entries

`Refines` ties a state of `segmentMachine`, where entries are copied byte by
byte, to a state of `queueMachine`, where they move whole.  The invariant of the
queue of entries supplies what the bytes need: mutual exclusion, and indices
below the capacity.

* `segment_simulation`: what the bytes do, the queue of entries does;
  `entries_simulation`: and the other way round.
* `segment_traces`: the two machines show the same.
* `segment_fifo`: order, returns, listings and the contents of the memory.
-/

namespace TaskSheduler

open Interleaving ByteMemory

/-! ## Every step of every thread -/

section Steps

variable {Tid : Type*} [DecidableEq Tid] {plan : CopyPlan} {capacity : Nat}
  {s s' : SegmentState Tid} {t : Tid} {es : List (Tid × SegmentEvent)}

theorem segmentMachine_call {call : QueueCall}
    (h : (segmentMachine Tid plan capacity).step s (.call t call) = some (s', es)) :
    s.pc t = .call .idle ∧
      s' = { s with pc := Function.update s.pc t (.call call.entry) } ∧ es = [] := by
  simp only [segmentMachine] at h
  split at h
  case h_2 => cases h
  case h_1 hidle =>
    cases h
    exact ⟨hidle, rfl, rfl⟩

theorem segmentMachine_step {fail : Bool}
    (h : (segmentMachine Tid plan capacity).step s (.step t fail) = some (s', es)) :
    ∃ seg' pc' notes, segmentStep plan capacity s.seg (s.pc t) fail = some (seg', pc', notes) ∧
      s' = ⟨seg', Function.update s.pc t pc'⟩ ∧ es = notes.map fun n => (t, .noted n) := by
  simp only [segmentMachine, Option.map_eq_some_iff] at h
  obtain ⟨⟨seg', pc', notes⟩, hone, heq⟩ := h
  cases heq
  exact ⟨seg', pc', notes, hone, rfl, rfl⟩

theorem segmentMachine_size
    (h : (segmentMachine Tid plan capacity).step s (.size t) = some (s', es)) :
    s.pc t = .call .idle ∧ s' = s ∧ es = [(t, .sized (loadSize s.seg.mem countAt))] := by
  simp only [segmentMachine] at h
  split at h
  case h_2 => cases h
  case h_1 hidle =>
    cases h
    exact ⟨hidle, rfl, rfl⟩

theorem segmentMachine_setSchedulerRunning {running : Bool}
    (h : (segmentMachine Tid plan capacity).step s (.setSchedulerRunning t running) =
      some (s', es)) :
    s.pc t = .call .idle ∧ s' = { s with seg := s.seg.storeRunning running } ∧
      es = [(t, .flagStored running)] := by
  simp only [segmentMachine] at h
  split at h
  case h_2 => cases h
  case h_1 hidle =>
    cases h
    exact ⟨hidle, rfl, rfl⟩

theorem segmentMachine_isSchedulerRunning
    (h : (segmentMachine Tid plan capacity).step s (.isSchedulerRunning t) = some (s', es)) :
    s.pc t = .call .idle ∧ s' = s ∧ es = [(t, .flagLoaded s.seg.loadRunning)] := by
  simp only [segmentMachine] at h
  split at h
  case h_2 => cases h
  case h_1 hidle =>
    cases h
    exact ⟨hidle, rfl, rfl⟩

end Steps

/-- What the queue of entries sees of the events: the notes. -/
def seenNote {Tid : Type*} : Tid × SegmentEvent → Option (Tid × Note)
  | (t, .noted note) => some (t, note)
  | _ => none

theorem filterMap_seenNote {Tid : Type*} (t : Tid) (notes : List Note) :
    (notes.map fun n => (t, SegmentEvent.noted n)).filterMap seenNote = notes.map (t, ·) := by
  rw [List.filterMap_map]
  exact List.filterMap_eq_map ▸ rfl

/-- The byte-wise state refines a state of the queue of entries. -/
structure Refines {Tid : Type*} (plan : CopyPlan) (capacity : Nat) (s : SegmentState Tid)
    (r : QueueState Tid) : Prop where
  pcs : ∀ t, r.pc t = (s.pc t).point
  shows : Shows capacity (fun i => ∃ t, (s.pc t).slotWritten = some i) s.seg r.shm
  copies : ∀ t, CopyOk plan s.seg.mem (s.pc t)

/-- A created mapping is zero-filled, byte by byte. -/
theorem create_mem (capacity b : Nat) : (Segment.create capacity).mem b = 0 := by
  have hzero := create_loadSize capacity b
  rw [loadSize, loadNat, show load (Segment.create capacity).mem b 8 =
    (Segment.create capacity).mem b :: load (Segment.create capacity).mem (b + 1) 7 from rfl,
    leValue] at hzero
  exact UInt8.toNat_inj.mp (by rw [UInt8.toNat_zero]; omega)

/-- A slot of a created mapping reads as a zeroed entry. -/
theorem create_loadTask (capacity off : Nat) :
    loadTask (Segment.create capacity).mem off = SharedTask.zeroed := by
  have hint : ∀ off, loadInt (Segment.create capacity).mem off = 0 := by
    intro off
    rw [loadInt, loadNat_zero fun b _ _ => create_mem capacity b]
    rfl
  apply SharedTask.ext
  case id => exact hint _
  case priority => exact hint _
  case description =>
    have hbytes : load (Segment.create capacity).mem (off + 8) maxPath =
        List.replicate maxPath 0 := by
      refine List.eq_replicate_iff.mpr ⟨load_length _ _ _, fun b hb => ?_⟩
      obtain ⟨k, -, rfl⟩ := List.mem_map.mp hb
      exact create_mem capacity _
    exact Subtype.ext hbytes
  case type => exact hint _
  case completed =>
    simp only [loadTask, create_mem]
    rfl
  case remainingTimeMs => exact hint _

/-- A freshly created segment shows a freshly created queue. -/
theorem refines_created (Tid : Type*) (plan : CopyPlan) (capacity : Nat) :
    Refines plan capacity (SegmentState.created Tid capacity)
      (QueueState.created Tid capacity) := by
  refine ⟨fun t => rfl, ⟨fun field => ?_, fun i hi _ => ?_, rfl, rfl, rfl⟩, fun t => trivial⟩
  · rw [show (SegmentState.created Tid capacity).seg = Segment.create capacity from rfl,
      create_loadSize]
    cases field <;> rfl
  · exact create_loadTask capacity (slotAt i)

section Machine

variable {Tid : Type*} [DecidableEq Tid] {plan : CopyPlan} {capacity : Nat}
  {s : SegmentState Tid} {r : QueueState Tid}

namespace Refines

/-- A thread that is in no call starts one: nothing that is being copied changes. -/
theorem entered (h : Refines plan capacity s r) {t : Tid} (hidle : s.pc t = .call .idle)
    (pc : QueuePc) :
    Refines plan capacity { s with pc := Function.update s.pc t (.call pc) }
      { r with pc := Function.update r.pc t pc } := by
  refine ⟨fun u => ?_, h.shows.mono fun i hi => ?_, fun u => ?_⟩
  · by_cases hu : u = t
    · subst hu
      simp only [Function.update_self, SegmentPc.point]
    · simpa only [Function.update_of_ne hu] using h.pcs u
  · obtain ⟨u, hu⟩ := hi
    have hut : u ≠ t := by
      rintro rfl
      rw [hidle] at hu
      cases hu
    exact ⟨u, by simpa only [Function.update_of_ne hut] using hu⟩
  · by_cases hu : u = t
    · subst hu
      simp only [Function.update_self, CopyOk]
    · simpa only [Function.update_of_ne hu] using h.copies u

/-- A step outside the critical sections: the copies of the others see the same
bytes. -/
theorem outside (h : Refines plan capacity s r) {t : Tid} {fail : Bool} {seg' : Segment}
    {pc' : SegmentPc} {notes : List Note}
    (hstep : segmentStep plan capacity s.seg (s.pc t) fail = some (seg', pc', notes))
    (hout : (s.pc t).point.inCritical = false) :
    ∃ shm', queueStep capacity r.shm (r.pc t) fail = some (shm', pc'.point, notes) ∧
      Refines plan capacity ⟨seg', Function.update s.pc t pc'⟩
        ⟨shm', Function.update r.pc t pc'.point⟩ := by
  obtain ⟨shm', hqueue, hshows, hmem, pc, rfl⟩ := segmentStep_outside hstep hout h.shows
  obtain ⟨q, hq⟩ := SegmentPc.call_of_outside hout
  refine ⟨shm', h.pcs t ▸ hqueue, fun u => ?_, hshows.mono fun i hi => ?_, fun u => ?_⟩
  · by_cases hu : u = t
    · subst hu
      simp only [Function.update_self]
    · simpa only [Function.update_of_ne hu] using h.pcs u
  · obtain ⟨u, hu⟩ := hi
    have hut : u ≠ t := by
      rintro rfl
      rw [hq] at hu
      cases hu
    exact ⟨u, by simpa only [Function.update_of_ne hut] using hu⟩
  · by_cases hu : u = t
    · subst hu
      simp only [Function.update_self, CopyOk]
    · simpa only [Function.update_of_ne hu, hmem] using h.copies u

/-- A step inside the critical section: nobody else copies anything. -/
theorem section_ (h : Refines plan capacity s r) (hcap : capacity ≤ countTasks) {t : Tid}
    {fail : Bool} {seg' : Segment} {pc' : SegmentPc} {notes : List Note}
    (hstep : segmentStep plan capacity s.seg (s.pc t) fail = some (seg', pc', notes))
    (hin : (s.pc t).point.inCritical = true) (hbelow : (s.pc t).point.SlotBelow capacity)
    (hothers : ∀ u, u ≠ t → (s.pc u).point.inCritical = false) :
    ∃ shm', Matched plan capacity r.shm (s.pc t) fail shm' pc' notes ∧
      Refines plan capacity ⟨seg', Function.update s.pc t pc'⟩
        ⟨shm', Function.update r.pc t pc'.point⟩ := by
  have hown : Shows capacity (fun i => (s.pc t).slotWritten = some i) s.seg r.shm := by
    refine h.shows.mono fun i hi => ?_
    obtain ⟨u, hu⟩ := hi
    by_cases hut : u = t
    · exact hut ▸ hu
    · obtain ⟨q, hq⟩ := SegmentPc.call_of_outside (hothers u hut)
      rw [hq] at hu
      cases hu
  obtain ⟨shm', hmatched, hshows, hcopy⟩ :=
    segmentStep_section hcap hstep hin hbelow hown (h.copies t)
  refine ⟨shm', hmatched, fun u => ?_, hshows.mono fun i hi => ⟨t, ?_⟩, fun u => ?_⟩
  · by_cases hu : u = t
    · subst hu
      simp only [Function.update_self]
    · simpa only [Function.update_of_ne hu] using h.pcs u
  · simpa only [Function.update_self] using hi
  · by_cases hu : u = t
    · subst hu
      simpa only [Function.update_self] using hcopy
    · obtain ⟨q, hq⟩ := SegmentPc.call_of_outside (hothers u hu)
      simp only [Function.update_of_ne hu, hq, CopyOk]

end Refines

omit [DecidableEq Tid] in
/-- A thread whose point is outside the queue calls is in none. -/
theorem Refines.idle (h : Refines plan capacity s r) {t : Tid} :
    r.pc t = .idle ↔ s.pc t = .call .idle := by
  rw [h.pcs t]
  constructor
  · intro hidle
    have hout : (s.pc t).point.inCritical = false := by
      rw [hidle]
      rfl
    obtain ⟨q, hq⟩ := SegmentPc.call_of_outside hout
    rw [hq] at hidle ⊢
    exact congrArg SegmentPc.call hidle
  · intro hidle
    rw [hidle]
    rfl

section Runs

variable [Fintype Tid] {q : List SharedTask}

omit [DecidableEq Tid] in
/-- A thread's slot is below the capacity. -/
theorem Refines.slotBelow (h : Refines plan capacity s r) (hqueue : QueueInv capacity q r)
    (t : Tid) : (s.pc t).point.SlotBelow capacity := by
  rw [← h.pcs t]
  cases hin : (r.pc t).inCritical with
  | true => exact (hqueue.sections t hin).slotBelow
  | false => cases hpc : r.pc t <;> first | trivial | (rw [hpc] at hin; cases hin)

/-- **One step of one thread**, wherever it is. -/
theorem Refines.step (h : Refines plan capacity s r) (hqueue : QueueInv capacity q r)
    (hcap : capacity ≤ countTasks) {t : Tid} {fail : Bool} {seg' : Segment} {pc' : SegmentPc}
    {notes : List Note}
    (hstep : segmentStep plan capacity s.seg (s.pc t) fail = some (seg', pc', notes)) :
    ∃ shm', Matched plan capacity r.shm (s.pc t) fail shm' pc' notes ∧
      Refines plan capacity ⟨seg', Function.update s.pc t pc'⟩
        ⟨shm', Function.update r.pc t pc'.point⟩ := by
  cases hin : (s.pc t).point.inCritical with
  | false =>
      obtain ⟨shm', hmatch, hR⟩ := h.outside hstep hin
      exact ⟨shm', .step (h.pcs t ▸ hmatch), hR⟩
  | true =>
      refine h.section_ hcap hstep hin (h.slotBelow hqueue t) fun u hu => ?_
      rw [← h.pcs u]
      cases hc : (r.pc u).inCritical with
      | false => rfl
      | true => exact absurd (hqueue.exclusive hc (by rw [h.pcs t, hin])) hu

/-- **Every step of the byte-wise machine** is matched by the queue of entries:
by the same step, or by none while a copy goes on. -/
theorem segment_simulation (plan : CopyPlan) (hpos : 0 < capacity) (hcap : capacity ≤ countTasks) :
    Simulation (segmentMachine Tid plan capacity) (queueMachine Tid capacity)
      (QueueState.created Tid capacity) seenNote (Refines plan capacity) := by
  refine ⟨fun {trace s s' a es r} hrun h hstep => ?_⟩
  have hsize : countTasks = 100 := rfl
  have hqueue := (runInv_run hpos (by omega) hrun).queue
  cases a with
  | call t call =>
      obtain ⟨hidle, rfl, rfl⟩ := segmentMachine_call hstep
      exact ⟨_, .single (queueMachine_calls (h.idle.mpr hidle) call), h.entered hidle call.entry⟩
  | step t fail =>
      obtain ⟨seg', pc', notes, hone, rfl, rfl⟩ := segmentMachine_step hstep
      rw [filterMap_seenNote]
      obtain ⟨shm', hmatched, hR⟩ := h.step hqueue hcap hone
      cases hmatched with
      | step hmatch =>
          refine ⟨_, .single (a := .step t fail) ?_, hR⟩
          rw [← h.pcs t] at hmatch
          simp only [queueMachine, hmatch, Option.map_some]
      | copy hpoint hless =>
          have hsame : Function.update r.pc t pc'.point = r.pc := by
            rw [hpoint, ← h.pcs t, Function.update_eq_self]
          rw [hsame] at hR
          exact ⟨r, .nil, hR⟩
  | size t =>
      obtain ⟨-, rfl, rfl⟩ := segmentMachine_size hstep
      exact ⟨r, .nil, h⟩
  | setSchedulerRunning t running =>
      obtain ⟨-, rfl, rfl⟩ := segmentMachine_setSchedulerRunning hstep
      exact ⟨r, .nil, h.pcs, h.shows.storeRunning hcap running,
        fun u => (h.copies u).storeRunning hcap (h.slotBelow hqueue u) running⟩
  | isSchedulerRunning t =>
      obtain ⟨-, rfl, rfl⟩ := segmentMachine_isSchedulerRunning hstep
      exact ⟨r, .nil, h⟩

/-- Where the queue of entries takes a step, the thread's bytes catch up with
it: what is left of its copy, then the step. -/
theorem Refines.catches_up (hcap : capacity ≤ countTasks) (hqueue : QueueInv capacity q r)
    {t : Tid} {fail : Bool} {shm' : Shm} {pc' : QueuePc} {notes : List Note}
    (hstep : queueStep capacity r.shm (r.pc t) fail = some (shm', pc', notes)) (n : Nat) :
    ∀ {s : SegmentState Tid}, Refines plan capacity s r → (s.pc t).bytesLeft plan < n →
      ∃ s', Run (segmentMachine Tid plan capacity) s (notes.map fun e => (t, .noted e)) s' ∧
        Refines plan capacity s' ⟨shm', Function.update r.pc t pc'⟩ := by
  induction n with
  | zero => exact fun _ hless => absurd hless (Nat.not_lt_zero _)
  | succ n ih =>
      intro s h hleft
      obtain ⟨seg', pc'', notes', hone⟩ :=
        segmentStep_possible plan h.shows (h.pcs t ▸ hstep)
      have hmove : (segmentMachine Tid plan capacity).step s (.step t fail) =
          some (⟨seg', Function.update s.pc t pc''⟩, notes'.map fun e => (t, .noted e)) := by
        simp only [segmentMachine, hone, Option.map_some]
      obtain ⟨shm'', hmatched, hR⟩ := h.step hqueue hcap hone
      cases hmatched with
      | step hmatch =>
          rw [← h.pcs t, hstep] at hmatch
          cases hmatch
          exact ⟨_, .single hmove, hR⟩
      | copy hpoint hless =>
          have hsame : Function.update r.pc t pc''.point = r.pc := by
            rw [hpoint, ← h.pcs t, Function.update_eq_self]
          rw [hsame] at hR
          obtain ⟨s', hrest, hR'⟩ := ih hR (by simp only [Function.update_self]; omega)
          exact ⟨s', (Run.single hmove).append hrest, hR'⟩

/-- **Every step of the queue of entries** can be taken on the bytes. -/
theorem entries_simulation (plan : CopyPlan) (hcap : capacity ≤ countTasks) :
    Simulation (queueMachine Tid capacity) (segmentMachine Tid plan capacity)
      (SegmentState.created Tid capacity) (fun e => some (e.1, .noted e.2))
      (fun r s => Refines plan capacity s r ∧ ∃ q, QueueInv capacity q r) := by
  refine ⟨fun {trace r r' a es s} _ hR hstep => ?_⟩
  obtain ⟨h, q, hqueue⟩ := hR
  have hsize : countTasks = 100 := rfl
  cases a with
  | call t call =>
      obtain ⟨hidle, rfl, rfl⟩ := queueMachine_call hstep
      have hrest := h.idle.mp hidle
      refine ⟨_, .single (a := .call t call) ?_, h.entered hrest call.entry,
        q, hqueue.call hidle call⟩
      simp only [segmentMachine, hrest, List.filterMap_nil]
  | step t fail =>
      obtain ⟨shm', pc', notes, hone, rfl, rfl⟩ := queueMachine_step hstep
      obtain ⟨s', hrun, hR'⟩ := h.catches_up hcap hqueue hone _ (Nat.lt_succ_self _)
      refine ⟨s', ?_, hR', _, (hqueue.move (by omega) hone).2⟩
      rw [List.filterMap_map]
      exact List.filterMap_eq_map ▸ hrun

/-- The byte-wise machine is explained by the queue of entries, run by run. -/
theorem segment_refines (plan : CopyPlan) (hpos : 0 < capacity) (hcap : capacity ≤ countTasks)
    {trace : List (Tid × SegmentEvent)}
    (h : Run (segmentMachine Tid plan capacity) (SegmentState.created Tid capacity) trace s) :
    ∃ r, Run (queueMachine Tid capacity) (QueueState.created Tid capacity)
        (trace.filterMap seenNote) r ∧ Refines plan capacity s r :=
  (segment_simulation plan hpos hcap).run (refines_created Tid plan capacity) h

/-- A run on whole entries is shown by a run on bytes that refines it. -/
theorem entries_run (plan : CopyPlan) (hpos : 1 ≤ capacity) (hcap : capacity ≤ countTasks)
    {notes : List (Tid × Note)}
    (h : Run (queueMachine Tid capacity) (QueueState.created Tid capacity) notes r) :
    ∃ trace s, Run (segmentMachine Tid plan capacity) (SegmentState.created Tid capacity) trace s ∧
      trace.filterMap seenNote = notes ∧ Refines plan capacity s r := by
  have hstart : Refines plan capacity (SegmentState.created Tid capacity)
      (QueueState.created Tid capacity) ∧
      ∃ q, QueueInv capacity q (QueueState.created Tid capacity) :=
    ⟨refines_created Tid plan capacity, [], queueInv_created hpos⟩
  obtain ⟨s, hbytes, hrefines, -⟩ := (entries_simulation plan hcap).run hstart h
  refine ⟨_, s, hbytes, ?_, hrefines⟩
  rw [List.filterMap_filterMap]
  exact List.filterMap_some

/-- **Bytes and entries show the same.**  Whatever the order in which a compiler
copies the bytes of an entry, the notes of the runs on bytes, which say what
each section of a call has done and what the call returns, are the notes of the
runs on whole entries. -/
theorem segment_traces (plan : CopyPlan) (hpos : 1 ≤ capacity) (hcap : capacity ≤ countTasks)
    (notes : List (Tid × Note)) :
    (∃ trace s, Run (segmentMachine Tid plan capacity) (SegmentState.created Tid capacity)
        trace s ∧ trace.filterMap seenNote = notes) ↔
      ∃ r, Run (queueMachine Tid capacity) (QueueState.created Tid capacity) notes r := by
  constructor
  · intro hbytes
    obtain ⟨trace, s, hrun, rfl⟩ := hbytes
    obtain ⟨r, hqueue, -⟩ := segment_refines plan hpos hcap hrun
    exact ⟨r, hqueue⟩
  · intro hentries
    obtain ⟨r, hrun⟩ := hentries
    obtain ⟨trace, s, hbytes, hseen, -⟩ := entries_run plan hpos hcap hrun
    exact ⟨trace, s, hbytes, hseen⟩

/-- **The bytes are a FIFO queue.**  Under every interleaving of the byte copies
the tasks come out in the order they went in, field for field, each call returns
what its section took out, every listing is exact, and while nobody is in a
critical section the memory holds the pending tasks, in order, from the front
index on. -/
theorem segment_fifo (plan : CopyPlan) (hpos : 1 ≤ capacity) (hcap : capacity ≤ countTasks)
    {trace : List (Tid × SegmentEvent)} {notes : List (Tid × Note)}
    (h : Run (segmentMachine Tid plan capacity) (SegmentState.created Tid capacity) trace s)
    (hnotes : trace.filterMap seenNote = notes) :
    dequeuedTasks notes <+: enqueuedTasks notes ∧
    (∀ t, returnedBy t notes <+: dequeuedBy t notes ∧
      (s.pc t = .call .idle → returnedBy t notes = dequeuedBy t notes)) ∧
    PrintsOk notes ∧
    ((∀ t, (s.pc t).point.inCritical = false) →
      loadSize s.seg.mem countAt = (pendingTasks notes).length ∧
      ∀ i (hi : i < (pendingTasks notes).length),
        loadTask s.seg.mem (slotAt ((loadSize s.seg.mem frontAt + i) % capacity)) =
          (pendingTasks notes)[i]) := by
  subst hnotes
  have hsize : countTasks = 100 := rfl
  obtain ⟨r, hrun, hR⟩ := segment_refines plan hpos hcap h
  have hinv := runInv_run hpos (by omega) hrun
  refine ⟨⟨_, hinv.order.order.symm⟩, fun t => ⟨⟨_, (hinv.returns t).symm⟩, ?_⟩,
    hinv.order.prints, ?_⟩
  · intro hidle
    have hreturns := hinv.returns t
    rw [hR.idle.mpr hidle] at hreturns
    simpa [QueuePc.carried] using hreturns.symm
  · intro hrest
    have hqueue : Represents capacity r.shm (queueAfter (trace.filterMap seenNote)) :=
      hinv.queue.ring fun t => (hR.pcs t).symm ▸ hrest t
    rw [hR.shows.count, hR.shows.front, hinv.order.pending]
    refine ⟨hqueue.count_eq, fun i hi => ?_⟩
    have hslot : (r.shm.front + i) % capacity < capacity := Nat.mod_lt _ hpos
    rw [hR.shows.slots _ hslot, hqueue.holds.slot i hi]
    intro hwritten
    obtain ⟨t, ht⟩ := hwritten
    obtain ⟨q, hq⟩ := SegmentPc.call_of_outside (hrest t)
    rw [hq] at ht
    cases ht

end Runs

end Machine

/-- The copy from the first byte to the last, padding included. -/
def CopyPlan.forward : CopyPlan where
  order := List.range sizeofSharedTask
  padding := fun _ => 0
  inside := fun _ hk => List.mem_range.mp hk
  covers := fun _ hk _ => List.mem_range.mpr hk

/-- The handover from thread 0 to thread 1 is visible on bytes too. -/
theorem segment_traces_handover :
    ∃ notes : List (Fin 2 × Note), (dequeuedTasks notes).map SharedTask.id = [7] ∧
      ∃ trace s, Run (segmentMachine (Fin 2) CopyPlan.forward 1)
        (SegmentState.created (Fin 2) 1) trace s ∧ trace.filterMap seenNote = notes := by
  obtain ⟨⟨s, notes⟩, hexec, rfl⟩ := Option.map_eq_some_iff.mp
    (handover_shows { SharedTask.zeroed with id := 7 })
  exact ⟨_, rfl, (segment_traces CopyPlan.forward (by decide) (by decide) _).mpr
    ⟨_, exec_run hexec⟩⟩

/-- Thread 0 fills the only slot byte by byte, thread 1 takes the task out, and
thread 0 fills the slot again. -/
def refillSchedule (first second : SharedTask) : List (SegmentAction (Fin 2)) :=
  let filler : Fin 2 := ⟨0, Nat.two_pos⟩
  let taker : Fin 2 := ⟨1, Nat.one_lt_two⟩
  [.call filler (.enqueue first), .call taker .dequeue] ++
    List.replicate 286 (.step filler false) ++ List.replicate 287 (.step taker false) ++
    [.call filler (.enqueue second)] ++ List.replicate 286 (.step filler false)

/-- Nobody is in a critical section. -/
def SegmentState.quiet (s : SegmentState (Fin 2)) : Bool :=
  !(s.pc ⟨0, Nat.two_pos⟩).point.inCritical && !(s.pc ⟨1, Nat.one_lt_two⟩).point.inCritical

/-- After the refill the memory holds the second task. -/
theorem segment_fifo_filled :
    ∃ trace s, Run (segmentMachine (Fin 2) CopyPlan.forward 1)
        (SegmentState.created (Fin 2) 1) trace s ∧
      (enqueuedTasks (trace.filterMap seenNote)).map SharedTask.id = [7, 9] ∧
      (dequeuedTasks (trace.filterMap seenNote)).map SharedTask.id = [7] ∧
      dequeuedTasks (trace.filterMap seenNote) <+: enqueuedTasks (trace.filterMap seenNote) ∧
      loadSize s.seg.mem countAt = 1 ∧ (loadTask s.seg.mem (slotAt 0)).id = 9 := by
  have hexec : (exec (segmentMachine (Fin 2) CopyPlan.forward 1)
      (SegmentState.created (Fin 2) 1)
      (refillSchedule { SharedTask.zeroed with id := 7 } { SharedTask.zeroed with id := 9 })).map
        (fun r => ((enqueuedTasks (r.2.filterMap seenNote)).map SharedTask.id,
          (dequeuedTasks (r.2.filterMap seenNote)).map SharedTask.id, r.1.quiet)) =
      some ([7, 9], [7], true) := by
    decide +kernel
  obtain ⟨⟨s, trace⟩, hrun, hall⟩ := Option.map_eq_some_iff.mp hexec
  simp only [Prod.mk.injEq] at hall
  obtain ⟨henqueued, hdequeued, hquiet⟩ := hall
  have hcritical : ∀ t, (s.pc t).point.inCritical = false := by
    simpa [SegmentState.quiet, Fin.forall_fin_two] using hquiet
  obtain ⟨hfifo, -, -, hmemory⟩ :=
    segment_fifo CopyPlan.forward (by decide) (by decide) (exec_run hrun) rfl
  obtain ⟨hcount, hslots⟩ := hmemory hcritical
  have hlength : (dequeuedTasks (trace.filterMap seenNote)).length = 1 := by
    simpa using congrArg List.length hdequeued
  have hpending : (pendingTasks (trace.filterMap seenNote)).map SharedTask.id = [9] := by
    rw [pendingTasks, List.map_drop, henqueued, hlength]
    rfl
  have hone : (pendingTasks (trace.filterMap seenNote)).length = 1 := by
    simpa using congrArg List.length hpending
  refine ⟨trace, s, exec_run hrun, henqueued, hdequeued, hfifo, hcount.trans hone, ?_⟩
  have hpos : 0 < (pendingTasks (trace.filterMap seenNote)).length := hone ▸ Nat.one_pos
  have hslot := hslots 0 hpos
  rw [Nat.mod_one] at hslot
  have hfirst : ((pendingTasks (trace.filterMap seenNote)).map SharedTask.id)[0]? = some 9 := by
    rw [hpending]
    rfl
  rw [List.getElem?_map, List.getElem?_eq_getElem hpos, ← hslot] at hfirst
  exact Option.some.inj hfirst

end TaskSheduler
