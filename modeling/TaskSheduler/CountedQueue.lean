import TaskSheduler.QueueCalls

/-!
# The queue as its counter shows it

`QueueInv` updates the logical queue when a critical section is left.  Other
threads see a change earlier: `empty` and `task_count` read `count_` without
the mutex, so for them an entry is in the queue from the `fetch_add` of its
`enqueue` to the `fetch_sub` of its `dequeue`.

`CountedInv` is the invariant of a shared segment in terms of that queue.  One
step of a queue call changes it by `QueuePc.effect` and in no other way
(`CountedInv.move`), and `count_` is its length at every moment
(`CountedInv.count_eq`).
-/

namespace TaskSheduler

open Interleaving RingBuffer

/-- What the next step of a queue call does to the counted queue. -/
def QueuePc.effect : QueuePc → List SharedTask → List SharedTask
  | .enqAddCount task, q => q ++ [task]
  | .deqSubCount _, q => q.tail
  | _, q => q

/-- The counted queue while a thread is in its critical section, with `q` the
queue at the moment it entered. -/
def QueuePc.counted (q : List SharedTask) : QueuePc → List SharedTask
  | .enqAddTotal task | .enqPostMutex task => q ++ [task]
  | .deqAddTotal _ | .deqPostMutex _ => q.tail
  | _ => q

/-- The entry that an `enqueue` has been given and has not counted yet. -/
def QueuePc.toStore : QueuePc → Option SharedTask
  | .enqWaitSlot task | .enqWaitMutex task | .enqGiveBackSlot task | .enqLoadRear task
  | .enqStoreTask task _ | .enqStoreRear task _ | .enqAddCount task => some task
  | _ => none

/-- The entry that a `dequeue` has taken out of the count and not returned yet. -/
def QueuePc.taken : QueuePc → Option SharedTask
  | .deqAddTotal task | .deqPostMutex task | .deqPostSlot task => some task
  | _ => none

section Step

variable {capacity : Nat} {shm shm' : Shm} {pc pc' : QueuePc} {fail : Bool}
  {notes : List Note}

/-- A step inside a critical section applies its effect to the counted queue. -/
theorem queueStep_counted (h : queueStep capacity shm pc fail = some (shm', pc', notes))
    (hin : pc.inCritical = true) (q : List SharedTask) :
    (pc'.inCritical = true → pc'.counted q = pc.effect (pc.counted q)) ∧
      (pc'.inCritical = false → notes.foldl afterNote q = pc.effect (pc.counted q)) := by
  cases queueStep_move h <;> simp only [QueuePc.inCritical, reduceCtorEq] at hin
  all_goals first
    | exact ⟨fun _ => rfl, fun hout => Bool.noConfusion hout⟩
    | exact ⟨fun hstill => Bool.noConfusion hstill, fun _ => rfl⟩

/-- Outside its critical section a thread has no effect on the counted queue,
and it enters one before any effect. -/
theorem queueStep_uncounted (h : queueStep capacity shm pc fail = some (shm', pc', notes))
    (hout : pc.inCritical = false) (q : List SharedTask) :
    pc.effect q = q ∧ pc'.counted q = q := by
  cases queueStep_move h <;> simp only [QueuePc.inCritical, reduceCtorEq] at hout
  all_goals exact ⟨rfl, rfl⟩

/-- What a section has established determines the count. -/
theorem SectionOk.count_eq {q : List SharedTask} (h : SectionOk capacity shm q pc)
    (hin : pc.inCritical = true) : shm.count = (pc.counted q).length := by
  cases pc <;> simp only [QueuePc.inCritical, reduceCtorEq] at hin
  case enqLoadRear => exact h.1.count_eq
  case enqStoreTask => exact h.1.count_eq
  case enqStoreRear => exact h.1.count_eq
  case enqAddCount => exact h.2
  case enqAddTotal => exact Represents.count_eq h
  case enqPostMutex => exact Represents.count_eq h
  case deqLoadFront => exact h.1.count_eq
  case deqLoadCount => exact h.1.count_eq
  case deqEmptyPostMutex => exact h.elim
  case deqLoadTask => exact h.1.count_eq
  case deqStoreFront => exact h.1.count_eq
  case deqSubCount =>
    obtain ⟨rest, -, -, hcount, -⟩ := h
    exact hcount
  case deqAddTotal =>
    obtain ⟨rest, rfl, hrest⟩ := h
    exact hrest.count_eq
  case deqPostMutex =>
    obtain ⟨rest, rfl, hrest⟩ := h
    exact hrest.count_eq
  case prnLoadFront => exact Represents.count_eq h
  case prnLoadRear => exact h.1.count_eq
  case prnLoadCount => exact h.1.count_eq
  case prnLoadTask => exact h.1.count_eq
  case prnPostMutex => exact h.1.count_eq

end Step

section Machine

variable {Tid : Type*} [Fintype Tid]

/-- The invariant of a shared segment, with `q` its counted queue. -/
def CountedInv (capacity : Nat) (q : List SharedTask) (s : QueueState Tid) : Prop :=
  ∃ entered, QueueInv capacity entered s ∧
    ((∀ t, (s.pc t).inCritical = false) → q = entered) ∧
      ∀ t, (s.pc t).inCritical = true → q = (s.pc t).counted entered

/-- Between calls the counted queue is the one the segment represents. -/
theorem Quiescent.countedInv {capacity : Nat} {shm : Shm} {q : List SharedTask}
    (h : Quiescent capacity shm q) {pc : Tid → QueuePc} (hidle : ∀ t, pc t = .idle) :
    CountedInv capacity q (⟨shm, pc⟩ : QueueState Tid) := by
  have hout : ∀ t, (pc t).inCritical = false := fun t => by rw [hidle t]; rfl
  have hslots := h.slots
  rw [← h.ring.count_eq] at hslots
  refine ⟨q, ⟨?_, ?_, ?_, fun _ => h.ring, fun t ht => ?_⟩, fun _ => rfl, fun t ht => ?_⟩
  · simp [hidle, h.mutex]
  · simpa [hidle] using hslots
  · simp [hidle, h.items, h.ring.count_eq]
  · simp [hout t] at ht
  · simp [hout t] at ht

namespace CountedInv

variable {capacity : Nat} {q : List SharedTask} {s : QueueState Tid}

/-- The segment is quiescent when no thread is in a call. -/
theorem quiescent (h : CountedInv capacity q s) (hidle : ∀ t, s.pc t = .idle) :
    Quiescent capacity s.shm q := by
  obtain ⟨entered, hinv, hout, -⟩ := h
  have hq : q = entered := hout fun t => by rw [hidle t]; rfl
  rw [hq]
  exact hinv.quiescent hidle

/-- **The counter is the length of the counted queue** at every moment. -/
theorem count_eq (h : CountedInv capacity q s) : s.shm.count = q.length := by
  obtain ⟨entered, hinv, hout, hin⟩ := h
  by_cases hall : ∀ t, (s.pc t).inCritical = false
  · rw [hout hall]
    exact (hinv.ring hall).count_eq
  · rw [not_forall] at hall
    obtain ⟨t, ht⟩ := hall
    rw [Bool.not_eq_false] at ht
    rw [hin t ht]
    exact (hinv.sections t ht).count_eq ht

/-- A dequeue about to update the count takes out the head. -/
theorem head_eq (h : CountedInv capacity q s) {t : Tid} {task : SharedTask}
    (ht : s.pc t = .deqSubCount task) : q = task :: q.tail := by
  obtain ⟨entered, hinv, -, hin⟩ := h
  have hcritical : (s.pc t).inCritical = true := by rw [ht]; rfl
  have hq := hin t hcritical
  have hsection := hinv.sections t hcritical
  rw [ht] at hq hsection
  obtain ⟨rest, rfl, -⟩ := hsection
  rw [hq]
  rfl

/-- An enqueue about to update the count has room. -/
theorem room (h : CountedInv capacity q s) {t : Tid} {task : SharedTask}
    (ht : s.pc t = .enqAddCount task) : q.length < capacity := by
  rw [← h.count_eq]
  obtain ⟨entered, hinv, -, -⟩ := h
  have hslots := hinv.slots
  have hle := weight_le_sum QueuePc.heldSlots s.pc t
  have hone : (s.pc t).heldSlots = 1 := by rw [ht]; rfl
  omega

theorem slots (h : CountedInv capacity q s) :
    s.shm.enqueueSem + s.shm.count + ∑ t, (s.pc t).heldSlots = capacity := by
  obtain ⟨entered, hinv, -, -⟩ := h
  exact hinv.slots

theorem items (h : CountedInv capacity q s) :
    s.shm.dequeueSem + ∑ t, (s.pc t).heldItems = s.shm.count := by
  obtain ⟨entered, hinv, -, -⟩ := h
  exact hinv.items

/-- A thread that has claimed an item is covered by the count. -/
theorem claim_le (h : CountedInv capacity q s) (t : Tid) :
    (s.pc t).heldItems ≤ s.shm.count := by
  obtain ⟨entered, hinv, -, -⟩ := h
  exact hinv.claim_le t

theorem mutex (h : CountedInv capacity q s) :
    s.shm.mutexSem + ∑ t, (s.pc t).heldMutex = 1 := by
  obtain ⟨entered, hinv, -, -⟩ := h
  exact hinv.mutex

variable [DecidableEq Tid]

/-- Starting a call leaves the counted queue alone. -/
theorem call (h : CountedInv capacity q s) {t : Tid} (hidle : s.pc t = .idle)
    (call : QueueCall) :
    CountedInv capacity q { s with pc := Function.update s.pc t call.entry } := by
  obtain ⟨entered, hinv, hout, hin⟩ := h
  have hsame : ∀ u, u ≠ t → Function.update s.pc t call.entry u = s.pc u :=
    fun u hu => Function.update_of_ne hu _ _
  refine ⟨entered, hinv.call hidle call, fun hall => hout fun u => ?_, fun u hu => ?_⟩
  · by_cases hut : u = t
    · rw [hut, hidle]
      rfl
    · have hu := hall u
      simp only [hsame u hut] at hu
      exact hu
  · by_cases hut : u = t
    · simp only [hut, Function.update_self, QueueCall.entry_inCritical] at hu
      cases hu
    · simp only [hsame u hut] at hu ⊢
      exact hin u hu

/-- **One step of one thread** changes the counted queue by its effect. -/
theorem move (h : CountedInv capacity q s) (hcap : capacity + 1 < 2 ^ 64) {t : Tid}
    {fail : Bool} {shm' : Shm} {pc' : QueuePc} {notes : List Note}
    (hstep : queueStep capacity s.shm (s.pc t) fail = some (shm', pc', notes)) :
    CountedInv capacity ((s.pc t).effect q) ⟨shm', Function.update s.pc t pc'⟩ := by
  obtain ⟨entered, hinv, hout, hin⟩ := h
  obtain ⟨-, hinv'⟩ := hinv.move hcap hstep
  refine ⟨_, hinv', ?_⟩
  cases hcritical : (s.pc t).inCritical with
  | true =>
      have hstays : ∀ u, u ≠ t → (s.pc u).inCritical = false := by
        intro u hu
        rw [← Bool.not_eq_true]
        exact fun hc => hu (hinv.exclusive hc hcritical)
      obtain ⟨hstill, hleft⟩ := queueStep_counted hstep hcritical entered
      rw [hin t hcritical]
      refine ⟨fun hall => ?_, fun u hu => ?_⟩
      · have ht := hall t
        simp only [Function.update_self] at ht
        exact (hleft ht).symm
      · by_cases hut : u = t
        · subst hut
          simp only [Function.update_self] at hu ⊢
          obtain ⟨-, hcase⟩ := queueStep_section hstep (by omega) hcritical
            (hinv.sections u hcritical)
          rcases hcase with ⟨-, rfl, -⟩ | ⟨hgone, -⟩
          · exact (hstill hu).symm
          · simp [hgone] at hu
        · simp only [Function.update_of_ne hut, hstays u hut] at hu
          cases hu
  | false =>
      obtain ⟨-, hfinished, -⟩ := queueStep_outside hstep hcritical
      obtain ⟨-, hfold⟩ := notes_finished (q := entered) hfinished
      obtain ⟨heffect, -⟩ := queueStep_uncounted hstep hcritical q
      obtain ⟨-, hcounted⟩ := queueStep_uncounted hstep hcritical entered
      rw [hfold] at hinv' ⊢
      rw [heffect]
      refine ⟨fun hall => hout fun u => ?_, fun u hu => ?_⟩
      · by_cases hut : u = t
        · exact hut ▸ hcritical
        · have hu := hall u
          simp only [Function.update_of_ne hut] at hu
          exact hu
      · by_cases hut : u = t
        · subst hut
          simp only [Function.update_self] at hu ⊢
          rw [hcounted]
          refine hout fun v => ?_
          by_cases hv : v = u
          · exact hv ▸ hcritical
          · rw [← Bool.not_eq_true]
            intro hc
            have hboth := hinv'.exclusive (t := v) (u := u)
              (by simpa only [Function.update_of_ne hv] using hc)
              (by simpa only [Function.update_self] using hu)
            exact hv hboth
        · simp only [Function.update_of_ne hut] at hu ⊢
          exact hin u hu

end CountedInv

end Machine

end TaskSheduler
