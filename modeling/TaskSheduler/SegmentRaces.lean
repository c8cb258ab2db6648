import TaskSheduler.SegmentRefinement

/-!
# Accesses to the segment: no data race, and what the lock-free calls read

Every action of `segmentMachine` accesses at most one span of the mapping,
atomically or not (`SegmentAction.access`).  `segmentStep_writes` and
`segmentStep_reads` say that the span is right: a step changes no other byte and
depends on no other byte.

* `segment_race_free`: no two threads are ever about to make conflicting
  accesses, unless both are atomic.
* `segment_readings`: what `size` and `is_scheduler_running`, which take no
  semaphore, read at any moment.
-/

namespace TaskSheduler

open Interleaving ByteMemory

/-- One access to the mapping. -/
structure Access where
  span : Span
  writes : Bool
  atomic : Bool

/-- Two accesses by different threads that the language leaves undefined: they
share a byte, one of them writes, and they are not both atomic. -/
def Access.Conflicts (x y : Access) : Prop :=
  ¬ x.span.Apart y.span ∧ (x.writes = true ∨ y.writes = true) ∧
    ¬ (x.atomic = true ∧ y.atomic = true)

/-- An atomic load or update of a `size_t` field. -/
def sizeAccess (off : Nat) (writes : Bool) : Access := ⟨⟨off, 8⟩, writes, true⟩

/-- A byte of an entry, copied without any protection of its own. -/
def byteAccess (slot k : Nat) (writes : Bool) : Access := ⟨⟨slotAt slot + k, 1⟩, writes, false⟩

/-- What the next step of a queue call accesses. -/
def SegmentPc.access : SegmentPc → Option Access
  | .call (.enqLoadRear _) => some (sizeAccess rearAt false)
  | .call (.enqStoreRear _ _) => some (sizeAccess rearAt true)
  | .call (.enqAddCount _) => some (sizeAccess countAt true)
  | .call (.enqAddTotal _) => some (sizeAccess totalEnqueuedAt true)
  | .call .deqLoadFront => some (sizeAccess frontAt false)
  | .call (.deqLoadCount _) => some (sizeAccess countAt false)
  | .call (.deqStoreFront _ _) => some (sizeAccess frontAt true)
  | .call (.deqSubCount _) => some (sizeAccess countAt true)
  | .call (.deqAddTotal _) => some (sizeAccess totalDequeuedAt true)
  | .call .prnLoadFront => some (sizeAccess frontAt false)
  | .call (.prnLoadRear _) => some (sizeAccess rearAt false)
  | .call (.prnLoadCount _) => some (sizeAccess countAt false)
  | .storing _ rear (k :: _) => some (byteAccess rear k true)
  | .fetching front _ (k :: _) => some (byteAccess front k false)
  | .listing index _ _ _ (k :: _) => some (byteAccess index k false)
  | _ => none

section Action

variable {Tid : Type*}

/-- The thread that takes an action. -/
def SegmentAction.thread : SegmentAction Tid → Tid
  | .call t _ | .step t _ | .size t | .setSchedulerRunning t _ | .isSchedulerRunning t => t

/-- What an action accesses. -/
def SegmentAction.access (s : SegmentState Tid) : SegmentAction Tid → Option Access
  | .call _ _ => none
  | .step t _ => (s.pc t).access
  | .size _ => some (sizeAccess countAt false)
  | .setSchedulerRunning _ _ => some ⟨⟨runningAt, 1⟩, true, true⟩
  | .isSchedulerRunning _ => some ⟨⟨runningAt, 1⟩, false, true⟩

end Action

/-! ## The accesses are the right ones -/

section Step

variable {plan : CopyPlan} {capacity : Nat} {seg seg' : Segment} {pc pc' : SegmentPc}
  {fail : Bool} {notes : List Note} {x : Access}

theorem storeSize_covers {mem : Memory} {off value b : Nat}
    (h : storeSize mem off value b ≠ mem b) : (sizeAccess off true).span.Covers b := by
  by_contra hout
  refine h (storeSize_outside ?_)
  simp only [sizeAccess, Span.Covers] at hout
  omega

theorem storeByte_covers {mem : Memory} {slot k b : Nat} {byte : UInt8}
    (h : store mem (slotAt slot + k) [byte] b ≠ mem b) :
    (byteAccess slot k true).span.Covers b := by
  by_contra hout
  refine h (store_byte_of_ne ?_)
  simp only [byteAccess, Span.Covers] at hout
  omega

/-- What a step of a queue call can do to the memory: nothing, write a `size_t`
field, write a byte of a slot. -/
theorem segmentStep_mem (h : segmentStep plan capacity seg pc fail = some (seg', pc', notes)) :
    seg'.mem = seg.mem ∨
      (∃ off value, pc.access = some (sizeAccess off true) ∧
        seg'.mem = storeSize seg.mem off value) ∨
      ∃ slot k byte, pc.access = some (byteAccess slot k true) ∧
        seg'.mem = store seg.mem (slotAt slot + k) [byte] := by
  rcases pc with pc | ⟨task, rear, left⟩ | ⟨front, copy, left⟩ | ⟨index, todo, lines, copy, left⟩
  case storing =>
    cases left with
    | nil =>
        cases h
        exact .inl rfl
    | cons k left =>
        cases h
        exact .inr (.inr ⟨rear, k, plan.image task k, rfl, rfl⟩)
  case fetching => cases left <;> cases h <;> exact .inl rfl
  case listing => cases left <;> cases h <;> exact .inl rfl
  cases pc with
  | idle => cases h
  | enqWaitSlot task | enqWaitMutex task | deqWaitItem | deqWaitMutex | prnWaitMutex =>
      rcases wait_cases h with ⟨-, heq⟩ | ⟨n, -, -, heq⟩ <;> cases heq <;> exact .inl rfl
  | enqStoreRear | enqAddCount | enqAddTotal | deqStoreFront | deqSubCount | deqAddTotal =>
      cases h
      exact .inr (.inl ⟨_, _, rfl, rfl⟩)
  | deqLoadCount front =>
      simp only [segmentStep] at h
      split at h <;> cases h <;> exact .inl rfl
  | prnLoadTask index todo lines => cases todo <;> cases h <;> exact .inl rfl
  | _ =>
      cases h
      exact .inl rfl

/-- A step changes bytes only where its access says it writes. -/
theorem segmentStep_writes (h : segmentStep plan capacity seg pc fail = some (seg', pc', notes))
    {b : Nat} (hne : seg'.mem b ≠ seg.mem b) :
    ∃ x, pc.access = some x ∧ x.writes = true ∧ x.span.Covers b := by
  rcases segmentStep_mem h with hmem | ⟨off, value, haccess, hmem⟩ | ⟨slot, k, byte, haccess, hmem⟩
  · exact absurd (congrFun hmem b) hne
  · exact ⟨_, haccess, rfl, storeSize_covers (hmem ▸ hne)⟩
  · exact ⟨_, haccess, rfl, storeByte_covers (hmem ▸ hne)⟩

/-- Where a step goes and what it shows depends on the bytes it accesses and on
the semaphores only. -/
theorem segmentStep_reads {other : Segment}
    (hagree : ∀ x, pc.access = some x → ∀ b, x.span.Covers b → other.mem b = seg.mem b)
    (henqueue : other.enqueueSem = seg.enqueueSem) (hdequeue : other.dequeueSem = seg.dequeueSem)
    (hmutex : other.mutexSem = seg.mutexSem)
    (h : segmentStep plan capacity seg pc fail = some (seg', pc', notes)) :
    ∃ other', segmentStep plan capacity other pc fail = some (other', pc', notes) := by
  have hsize : ∀ off, pc.access = some (sizeAccess off false) →
      loadSize other.mem off = loadSize seg.mem off :=
    fun off haccess => loadSize_congr fun b hlo hhi => hagree _ haccess b ⟨hlo, hhi⟩
  have hbyte : ∀ slot k, pc.access = some (byteAccess slot k false) →
      other.mem (slotAt slot + k) = seg.mem (slotAt slot + k) :=
    fun slot k haccess => hagree _ haccess _ ⟨Nat.le_refl _, Nat.lt_succ_self _⟩
  rcases pc with pc | ⟨task, rear, left⟩ | ⟨front, copy, left⟩ | ⟨index, todo, lines, copy, left⟩
  case storing => cases left <;> cases h <;> exact ⟨_, rfl⟩
  case fetching =>
    cases left with
    | nil =>
        cases h
        exact ⟨_, rfl⟩
    | cons k left =>
        cases h
        rw [← hbyte front k rfl]
        exact ⟨_, rfl⟩
  case listing =>
    cases left with
    | nil =>
        cases h
        exact ⟨_, rfl⟩
    | cons k left =>
        cases h
        rw [← hbyte index k rfl]
        exact ⟨_, rfl⟩
  cases pc with
  | idle => cases h
  | enqWaitSlot task | enqWaitMutex task | deqWaitItem | deqWaitMutex | prnWaitMutex =>
      simp only [segmentStep, henqueue, hdequeue, hmutex]
      rcases wait_cases h with ⟨rfl, heq⟩ | ⟨n, rfl, hwait, heq⟩ <;> cases heq
      · exact ⟨_, rfl⟩
      · simp [hwait, semWait]
  | enqLoadRear task =>
      cases h
      rw [← hsize rearAt rfl]
      exact ⟨_, rfl⟩
  | deqLoadFront | prnLoadFront =>
      cases h
      rw [← hsize frontAt rfl]
      exact ⟨_, rfl⟩
  | prnLoadCount front =>
      cases h
      rw [← hsize countAt rfl]
      exact ⟨_, rfl⟩
  | deqLoadCount front =>
      simp only [segmentStep, hsize countAt rfl] at h ⊢
      by_cases hcount : loadSize seg.mem countAt = 0
      · rw [if_pos hcount] at h ⊢
        cases h
        exact ⟨_, rfl⟩
      · rw [if_neg hcount] at h ⊢
        cases h
        exact ⟨_, rfl⟩
  | prnLoadTask index todo lines => cases todo <;> cases h <;> exact ⟨_, rfl⟩
  | _ =>
      cases h
      exact ⟨_, rfl⟩

/-- Only critical sections access the mapping. -/
theorem SegmentPc.access_inCritical (h : pc.access = some x) : pc.point.inCritical = true := by
  rcases pc with pc | ⟨task, rear, left⟩ | ⟨front, copy, left⟩ | ⟨index, todo, lines, copy, left⟩
  case call => cases pc <;> first | rfl | cases h
  all_goals rfl

/-- A queue call accesses `size_t` fields atomically, and otherwise slots. -/
theorem SegmentPc.access_cases (h : pc.access = some x) :
    (x.atomic = true ∧ (x.span.off + x.span.len ≤ runningAt ∨ tasksAt ≤ x.span.off)) ∨
      tasksAt ≤ x.span.off := by
  have hslot : ∀ slot k, tasksAt ≤ slotAt slot + k := by
    intro slot k
    simp only [slotAt]
    omega
  rcases pc with pc | ⟨task, rear, left⟩ | ⟨front, copy, left⟩ | ⟨index, todo, lines, copy, left⟩
  case call =>
    cases pc <;> cases h
    all_goals
      refine .inl ⟨rfl, ?_⟩
      first
        | exact Or.inl (by decide)
        | exact Or.inr (by decide)
  all_goals
    cases left with
    | nil => cases h
    | cons k left =>
        cases h
        exact .inr (hslot _ k)

end Step

/-! ## No data race -/

section Machine

variable {Tid : Type*} [DecidableEq Tid] {plan : CopyPlan} {capacity : Nat}
  {s : SegmentState Tid} {trace : List (Tid × SegmentEvent)}

omit [DecidableEq Tid] in
/-- An action is a step of a queue call or accesses the first bytes atomically. -/
theorem SegmentAction.access_cases {a : SegmentAction Tid} {x : Access}
    (h : a.access s = some x) :
    (s.pc a.thread).access = some x ∨ (x.atomic = true ∧ x.span.off + x.span.len ≤ tasksAt) := by
  cases a with
  | call t call => cases h
  | step t fail => exact .inl h
  | size t =>
      cases h
      exact .inr ⟨rfl, by decide⟩
  | setSchedulerRunning t running =>
      cases h
      exact .inr ⟨rfl, by decide⟩
  | isSchedulerRunning t =>
      cases h
      exact .inr ⟨rfl, by decide⟩

/-- An unprotected access and one of a lock-free call do not meet. -/
theorem not_conflicts_of_lockFree {pc : SegmentPc} {x y : Access} (hx : pc.access = some x)
    (hatomic : y.atomic = true) (hy : y.span.off + y.span.len ≤ tasksAt) :
    ¬ x.Conflicts y := by
  intro hconflict
  obtain ⟨hmeet, -, hboth⟩ := hconflict
  rcases SegmentPc.access_cases hx with ⟨hx', -⟩ | hslot
  · exact hboth ⟨hx', hatomic⟩
  · exact hmeet (Span.apart_of_le (.inr (by omega)))

theorem Access.Conflicts.symm {x y : Access} (h : x.Conflicts y) : y.Conflicts x := by
  obtain ⟨hmeet, hwrites, hboth⟩ := h
  exact ⟨fun hapart => hmeet fun b hb => hapart b hb.symm, hwrites.symm, fun hx => hboth hx.symm⟩

/-- **No data race.**  In no reachable state are two threads about to make
conflicting accesses: the unprotected byte copies never meet another access to
the same bytes that writes, nor write where another access reads. -/
theorem segment_race_free [Fintype Tid] (plan : CopyPlan) (hpos : 1 ≤ capacity)
    (hcap : capacity ≤ countTasks)
    (h : Run (segmentMachine Tid plan capacity) (SegmentState.created Tid capacity) trace s)
    {a b : SegmentAction Tid} (hab : a.thread ≠ b.thread) {x y : Access}
    (hx : a.access s = some x) (hy : b.access s = some y) : ¬ x.Conflicts y := by
  have hsize : countTasks = 100 := rfl
  obtain ⟨r, hrun, hR⟩ := segment_refines plan hpos hcap h
  have hqueue := (runInv_run hpos (by omega) hrun).queue
  rcases SegmentAction.access_cases hx with hx | ⟨hxatomic, hxlow⟩
  · rcases SegmentAction.access_cases hy with hy | ⟨hyatomic, hylow⟩
    · have hin := SegmentPc.access_inCritical hx
      have hin' := SegmentPc.access_inCritical hy
      rw [← hR.pcs] at hin hin'
      exact absurd (hqueue.exclusive hin hin') hab
    · exact not_conflicts_of_lockFree hx hyatomic hylow
  · rcases SegmentAction.access_cases hy with hy | ⟨hyatomic, -⟩
    · exact fun hconflict => not_conflicts_of_lockFree hy hxatomic hxlow hconflict.symm
    · exact fun hconflict => hconflict.2.2 ⟨hxatomic, hyatomic⟩

end Machine

/-- Thread 0 in the middle of its copy, thread 1 about to call `size`. -/
theorem segment_race_free_copying :
    ∃ trace s x y, Run (segmentMachine (Fin 2) CopyPlan.forward 1)
        (SegmentState.created (Fin 2) 1) trace s ∧
      (SegmentAction.step 0 false).access s = some x ∧ x.atomic = false ∧
      (SegmentAction.size 1).access s = some y ∧ ¬ x.Conflicts y := by
  have hexec : (exec (segmentMachine (Fin 2) CopyPlan.forward 1) (SegmentState.created (Fin 2) 1)
      (.call 0 (.enqueue SharedTask.zeroed) :: List.replicate 9 (.step 0 false))).map
        (fun r => ((SegmentAction.step 0 false).access r.1).map Access.atomic) =
      some (some false) := by decide +kernel
  obtain ⟨⟨s, trace⟩, hrun, haccess⟩ := Option.map_eq_some_iff.mp hexec
  obtain ⟨x, hx, hatomic⟩ := Option.map_eq_some_iff.mp haccess
  exact ⟨trace, s, x, _, exec_run hrun, hx, hatomic, rfl,
    segment_race_free CopyPlan.forward (by decide) (by decide) (exec_run hrun)
      (a := .step 0 false) (b := .size 1) (by decide) hx rfl⟩

/-! ## What the lock-free calls read -/

section Readings

variable {Tid : Type*} [DecidableEq Tid] {plan : CopyPlan} {capacity : Nat}
  {s : SegmentState Tid} {trace : List (Tid × SegmentEvent)}

/-- The value `set_scheduler_running` stored last; `create` stores `false`. -/
def lastStored {Tid : Type*} (trace : List (Tid × SegmentEvent)) : Bool :=
  trace.foldl (fun running e =>
    match e.2 with
    | .flagStored stored => stored
    | _ => running) false

omit [DecidableEq Tid] in
theorem lastStored_noted (trace : List (Tid × SegmentEvent)) (t : Tid) (notes : List Note) :
    lastStored (trace ++ notes.map fun n => (t, .noted n)) = lastStored trace := by
  rw [lastStored, List.foldl_append, List.foldl_map]
  exact List.foldl_fixed' (fun _ => rfl) notes

/-- A step of a queue call leaves the flag alone. -/
theorem segmentStep_flag {seg seg' : Segment} {pc pc' : SegmentPc} {fail : Bool}
    {notes : List Note}
    (h : segmentStep plan capacity seg pc fail = some (seg', pc', notes)) :
    seg'.loadRunning = seg.loadRunning := by
  have hflag : runningAt = 24 := rfl
  have htasks : tasksAt = 25 := rfl
  have hmem : seg'.mem runningAt = seg.mem runningAt := by
    by_contra hne
    obtain ⟨x, haccess, -, hcovers⟩ := segmentStep_writes h hne
    simp only [Span.Covers] at hcovers
    have hwhere := SegmentPc.access_cases haccess
    omega
  rw [Segment.loadRunning, hmem, Segment.loadRunning]

/-- The flag is the value stored last, whatever goes on in the queue. -/
theorem flag_is_lastStored
    (h : Run (segmentMachine Tid plan capacity) (SegmentState.created Tid capacity) trace s) :
    s.seg.loadRunning = lastStored trace := by
  refine h.invariant (fun trace s => s.seg.loadRunning = lastStored trace) ?_ ?_
  · rw [Segment.loadRunning, show (SegmentState.created Tid capacity).seg =
      Segment.create capacity from rfl, create_mem]
    rfl
  · intro trace s a s' es hflag hstep
    cases a with
    | call t call =>
        obtain ⟨-, rfl, rfl⟩ := segmentMachine_call hstep
        simpa using hflag
    | step t fail =>
        obtain ⟨seg', pc', notes, hone, rfl, rfl⟩ := segmentMachine_step hstep
        rw [lastStored_noted, ← hflag]
        exact segmentStep_flag hone
    | size t =>
        obtain ⟨-, rfl, rfl⟩ := segmentMachine_size hstep
        simpa [lastStored] using hflag
    | setSchedulerRunning t running =>
        obtain ⟨-, rfl, rfl⟩ := segmentMachine_setSchedulerRunning hstep
        have hstored : lastStored (trace ++ [(t, .flagStored running)]) = running := by
          simp [lastStored]
        rw [hstored]
        cases running <;> simp [Segment.loadRunning, Segment.storeRunning, store_byte_same]
    | isSchedulerRunning t =>
        obtain ⟨-, rfl, rfl⟩ := segmentMachine_isSchedulerRunning hstep
        simpa [lastStored] using hflag

/-- A critical section that has counted its task and not left yet is one ahead
of the queue, or one behind. -/
theorem SectionOk.count_near {shm : Shm} {q : List SharedTask} {pc : QueuePc}
    (h : SectionOk capacity shm q pc) (hin : pc.inCritical = true) :
    shm.count ≤ q.length + 1 ∧ q.length ≤ shm.count + 1 := by
  have hsame : ∀ {queue}, Represents capacity shm queue → shm.count = queue.length :=
    fun hrep => hrep.count_eq
  cases pc with
  | enqLoadRear | enqStoreTask | enqStoreRear | deqLoadFront | deqLoadCount | deqLoadTask
  | deqStoreFront | prnLoadRear | prnLoadCount | prnLoadTask | prnPostMutex =>
      have hcount := hsame h.1
      omega
  | prnLoadFront =>
      have hcount := hsame h
      omega
  | enqAddCount task =>
      have hcount := h.2
      omega
  | enqAddTotal task | enqPostMutex task =>
      have hcount := hsame h
      simp only [List.length_append, List.length_singleton] at hcount
      omega
  | deqSubCount task =>
      obtain ⟨rest, -, -, hcount, -⟩ := h
      omega
  | deqAddTotal task | deqPostMutex task =>
      obtain ⟨rest, rfl, hrep⟩ := h
      have hcount := hsame hrep
      simp only [List.length_cons]
      omega
  | deqEmptyPostMutex => exact h.elim
  | _ => cases hin

/-- **The lock-free readings.**  In every reachable state `size` reads at most
the capacity and is off by at most the one task whose section is under way;
while nobody is in a critical section it is exact.  `is_scheduler_running`
reads the value stored last. -/
theorem segment_readings [Fintype Tid] (plan : CopyPlan) (hpos : 1 ≤ capacity)
    (hcap : capacity ≤ countTasks)
    (h : Run (segmentMachine Tid plan capacity) (SegmentState.created Tid capacity) trace s)
    {pending : Nat} (hpending : (pendingTasks (trace.filterMap seenNote)).length = pending) :
    (∀ t s' es, (segmentMachine Tid plan capacity).step s (.size t) = some (s', es) →
      ∃ n, es = [(t, .sized n)] ∧ n ≤ capacity ∧ n ≤ pending + 1 ∧ pending ≤ n + 1 ∧
        ((∀ u, (s.pc u).point.inCritical = false) → n = pending)) ∧
    ∀ t s' es, (segmentMachine Tid plan capacity).step s (.isSchedulerRunning t) =
      some (s', es) → es = [(t, .flagLoaded (lastStored trace))] := by
  subst hpending
  have hsize : countTasks = 100 := rfl
  refine ⟨fun t s' es hstep => ?_, fun t s' es hstep => ?_⟩
  · obtain ⟨r, hrun, hR⟩ := segment_refines plan hpos hcap h
    have hinv := runInv_run hpos (by omega) hrun
    obtain ⟨-, -, rfl⟩ := segmentMachine_size hstep
    refine ⟨_, rfl, ?_⟩
    rw [hR.shows.count, hinv.order.pending]
    have hexact : (∀ u, (s.pc u).point.inCritical = false) →
        r.shm.count = (queueAfter (trace.filterMap seenNote)).length := by
      intro hrest
      exact (hinv.queue.ring fun u => (hR.pcs u).symm ▸ hrest u).count_eq
    have hnear : r.shm.count ≤ (queueAfter (trace.filterMap seenNote)).length + 1 ∧
        (queueAfter (trace.filterMap seenNote)).length ≤ r.shm.count + 1 := by
      by_cases hrest : ∀ u, (s.pc u).point.inCritical = false
      · have hcount := hexact hrest
        omega
      · simp only [not_forall, Bool.not_eq_false] at hrest
        obtain ⟨u, hu⟩ := hrest
        rw [← hR.pcs u] at hu
        exact (hinv.queue.sections u hu).count_near hu
    exact ⟨hinv.queue.count_le, hnear.1, hnear.2, hexact⟩
  · obtain ⟨-, -, rfl⟩ := segmentMachine_isSchedulerRunning hstep
    rw [flag_is_lastStored h]

end Readings

/-- Thread 0 has counted its task and not left its section: `size` reads one,
and nothing is pending yet. -/
theorem segment_readings_counted :
    ∃ trace s, Run (segmentMachine (Fin 2) CopyPlan.forward 1)
        (SegmentState.created (Fin 2) 1) trace s ∧
      pendingTasks (trace.filterMap seenNote) = [] ∧
      (segmentMachine (Fin 2) CopyPlan.forward 1).step s (.size 1) = some (s, [(1, .sized 1)]) ∧
      ∃ n, [((1 : Fin 2), SegmentEvent.sized 1)] = [(1, .sized n)] ∧ n ≤ 1 := by
  have hexec : (exec (segmentMachine (Fin 2) CopyPlan.forward 1) (SegmentState.created (Fin 2) 1)
      (.call 0 (.enqueue SharedTask.zeroed) :: List.replicate 283 (.step 0 false))).map
        (fun r => ((pendingTasks (r.2.filterMap seenNote)).length, loadSize r.1.seg.mem countAt,
          ((segmentMachine (Fin 2) CopyPlan.forward 1).step r.1 (.size 1)).isSome)) =
      some (0, 1, true) := by decide +kernel
  obtain ⟨⟨s, trace⟩, hrun, hmiddle⟩ := Option.map_eq_some_iff.mp hexec
  simp only [Prod.mk.injEq] at hmiddle
  obtain ⟨hpending, hcount, hpossible⟩ := hmiddle
  obtain ⟨⟨s', es⟩, hstep⟩ := Option.isSome_iff_exists.mp hpossible
  obtain ⟨-, rfl, rfl⟩ := segmentMachine_size hstep
  rw [hcount] at hstep
  refine ⟨trace, s', exec_run hrun, List.eq_nil_of_length_eq_zero hpending, hstep, ?_⟩
  obtain ⟨n, hn, hle, -⟩ := (segment_readings CopyPlan.forward (by decide) (by decide)
    (exec_run hrun) rfl).1 1 s' _ hstep
  exact ⟨n, hn, hle⟩

end TaskSheduler
