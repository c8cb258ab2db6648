import TaskSheduler.QueueCalls

/-!
# Tokens are conserved even when waits fail

A call that throws has not got past its waits: it is *pending*, and the
tokens it has taken are the only thing that tells the segment from the one
without the call (`QueueState.without`).  Giving them back makes the two
equal, so the rest of the schedule executes without the call to the very same
state (`throwing_call_erased`).  A call past its waits is *committed* and does
not throw, since the branch for the empty queue is never reached.

Between calls the semaphores, the indices and the totals agree with the count
(`Balanced`); for the totals the difference is carried by the threads between
the two atomic updates of a section.
-/

namespace TaskSheduler

open Interleaving RingBuffer

/-- Before the mutex is taken, or on the way back from a failed wait. -/
def QueuePc.pending : QueuePc → Bool
  | .enqWaitSlot _ | .enqWaitMutex _ | .enqGiveBackSlot _ => true
  | .deqWaitItem | .deqWaitMutex | .deqGiveBackItem => true
  | .prnWaitMutex => true
  | _ => false

/-- In a call and past its waits. -/
def QueuePc.committed : QueuePc → Bool
  | .idle => false
  | pc => !pc.pending

/-- In the branch of `dequeue` that finds the queue empty. -/
def QueuePc.foundEmpty : QueuePc → Bool
  | .deqEmptyPostMutex | .deqEmptyPostItem => true
  | _ => false

/-- The segment with `slots` more free slots and `items` more items announced. -/
def Shm.withTokens (shm : Shm) (slots items : Nat) : Shm :=
  { shm with enqueueSem := shm.enqueueSem + slots, dequeueSem := shm.dequeueSem + items }

section Step

variable {capacity : Nat} {shm shm' : Shm} {pc pc' : QueuePc} {fail : Bool} {notes : List Note}

/-- **More tokens change nothing else**: a step that is possible stays the
same step. -/
theorem queueStep_withTokens (h : queueStep capacity shm pc fail = some (shm', pc', notes))
    (slots items : Nat) :
    queueStep capacity (shm.withTokens slots items) pc fail =
      some (shm'.withTokens slots items, pc', notes) := by
  cases pc with
  | idle => cases h
  | enqWaitSlot task =>
      rcases wait_cases h with ⟨rfl, heq⟩ | ⟨n, rfl, hwait, heq⟩ <;> cases heq
      · rfl
      · simp [queueStep, Shm.withTokens, hwait, semWait, Nat.add_right_comm n 1]
  | enqWaitMutex task =>
      rcases wait_cases h with ⟨rfl, heq⟩ | ⟨n, rfl, hwait, heq⟩ <;> cases heq
      · rfl
      · simp [queueStep, Shm.withTokens, hwait, semWait]
  | deqWaitItem =>
      rcases wait_cases h with ⟨rfl, heq⟩ | ⟨n, rfl, hwait, heq⟩ <;> cases heq
      · rfl
      · simp [queueStep, Shm.withTokens, hwait, semWait, Nat.add_right_comm n 1]
  | deqWaitMutex =>
      rcases wait_cases h with ⟨rfl, heq⟩ | ⟨n, rfl, hwait, heq⟩ <;> cases heq
      · rfl
      · simp [queueStep, Shm.withTokens, hwait, semWait]
  | prnWaitMutex =>
      rcases wait_cases h with ⟨rfl, heq⟩ | ⟨n, rfl, hwait, heq⟩ <;> cases heq
      · rfl
      · simp [queueStep, Shm.withTokens, hwait, semWait]
  | deqLoadCount front =>
      by_cases hcount : shm.count = 0
      · simp only [queueStep, hcount, ↓reduceIte] at h
        cases h
        simp [queueStep, Shm.withTokens, hcount]
      · simp only [queueStep, hcount, ↓reduceIte] at h
        cases h
        simp [queueStep, Shm.withTokens, hcount]
  | prnLoadTask index left lines =>
      cases left with
      | zero =>
          cases h
          rfl
      | succ left =>
          cases h
          rfl
  | _ =>
      cases h
      simp [queueStep, Shm.withTokens, Shm.setTask, Nat.add_right_comm]

/-- **One step of a pending call.**  It takes the mutex, or it gives back what
it has taken, up to what it still holds, and shows at most that it throws. -/
theorem pending_step (h : queueStep capacity shm pc fail = some (shm', pc', notes))
    (hpending : pc.pending = true) :
    (pc'.committed = true ∧ notes = []) ∨
      shm'.withTokens pc'.heldSlots pc'.heldItems = shm.withTokens pc.heldSlots pc.heldItems ∧
        ((pc'.pending = true ∧ notes = []) ∨
          (pc' = .idle ∧ ∃ message, notes = [.finished (.thrown message)])) := by
  cases queueStep_move h <;> simp only [QueuePc.pending, reduceCtorEq] at hpending
  case enqTakesMutex => exact .inl ⟨rfl, rfl⟩
  case deqTakesMutex => exact .inl ⟨rfl, rfl⟩
  case prnTakesMutex => exact .inl ⟨rfl, rfl⟩
  case enqTakesSlot task n hfail hwait =>
    refine .inr ⟨?_, .inl ⟨rfl, rfl⟩⟩
    simp only [Shm.withTokens, QueuePc.heldSlots, QueuePc.heldItems, hwait, Nat.add_zero]
  case deqTakesItem n hfail hwait =>
    refine .inr ⟨?_, .inl ⟨rfl, rfl⟩⟩
    simp only [Shm.withTokens, QueuePc.heldSlots, QueuePc.heldItems, hwait, Nat.add_zero]
  case enqMutexFails => exact .inr ⟨rfl, .inl ⟨rfl, rfl⟩⟩
  case deqMutexFails => exact .inr ⟨rfl, .inl ⟨rfl, rfl⟩⟩
  case enqSlotFails => exact .inr ⟨rfl, .inr ⟨rfl, _, rfl⟩⟩
  case deqItemFails => exact .inr ⟨rfl, .inr ⟨rfl, _, rfl⟩⟩
  case prnMutexFails => exact .inr ⟨rfl, .inr ⟨rfl, _, rfl⟩⟩
  case enqGiveBackSlot => exact .inr ⟨rfl, .inr ⟨rfl, _, rfl⟩⟩
  case deqGiveBackItem => exact .inr ⟨rfl, .inr ⟨rfl, _, rfl⟩⟩

/-- **One step of a committed call.**  It stays committed until it shows its
reply, and unless it has found the queue empty it does not throw. -/
theorem committed_step (h : queueStep capacity shm pc fail = some (shm', pc', notes))
    (hcommitted : pc.committed = true) :
    ((∀ n ∈ notes, n.reply? = none) → pc'.committed = true) ∧
      (pc.foundEmpty = false → ∀ message, Note.finished (.thrown message) ∉ notes) := by
  cases queueStep_move h <;>
    simp [QueuePc.committed, QueuePc.pending, QueuePc.foundEmpty, Note.reply?] at hcommitted ⊢

/-- The branch for the empty queue is entered at its first point. -/
theorem foundEmpty_step (h : queueStep capacity shm pc fail = some (shm', pc', notes))
    (hentered : pc'.foundEmpty = true) :
    pc.foundEmpty = true ∨ pc' = .deqEmptyPostMutex := by
  cases queueStep_move h <;> simp only [QueuePc.foundEmpty, reduceCtorEq] at hentered
  case deqFindsNone => exact .inr rfl
  case deqEmptyPostMutex => exact .inl rfl

/-! ## The totals -/

/-- An enqueue between the count and the total. -/
def QueuePc.owedEnqueued : QueuePc → Nat
  | .enqAddTotal _ => 1
  | _ => 0

/-- A dequeue between the count and the total. -/
def QueuePc.owedDequeued : QueuePc → Nat
  | .deqAddTotal _ => 1
  | _ => 0

@[simp] theorem QueuePc.idle_owedEnqueued : QueuePc.idle.owedEnqueued = 0 := rfl

@[simp] theorem QueuePc.idle_owedDequeued : QueuePc.idle.owedDequeued = 0 := rfl

/-- A call starts outside the empty branch, and owes nothing. -/
theorem QueueCall.entry_owed (call : QueueCall) :
    call.entry.foundEmpty = false ∧ call.entry.owedEnqueued = 0 ∧
      call.entry.owedDequeued = 0 := by
  cases call <;> exact ⟨rfl, rfl, rfl⟩

/-- **A step keeps the totals and the count in step**, on `size_t`. -/
theorem queueStep_totals (h : queueStep capacity shm pc fail = some (shm', pc', notes)) :
    shm'.count + (shm'.totalDequeued + pc'.owedDequeued) +
        (shm.totalEnqueued + pc.owedEnqueued) ≡
      shm.count + (shm.totalDequeued + pc.owedDequeued) +
        (shm'.totalEnqueued + pc'.owedEnqueued) [MOD 2 ^ 64] := by
  unfold Nat.ModEq
  cases queueStep_move h <;>
    simp only [QueuePc.owedEnqueued, QueuePc.owedDequeued, Shm.setTask, sizeAdd, sizePred] <;>
    omega

end Step

section Machine

variable {Tid : Type*} [DecidableEq Tid] {capacity : Nat} {t : Tid}

/-- The thread an action belongs to. -/
def QueueAction.thread : QueueAction Tid → Tid
  | .call t _ => t
  | .step t _ => t

/-- A schedule without the actions of thread `t`. -/
def withoutThread (t : Tid) (schedule : List (QueueAction Tid)) : List (QueueAction Tid) :=
  schedule.filter fun a => !decide (a.thread = t)

/-- The state as it is without the pending call of thread `t`. -/
def QueueState.without (s : QueueState Tid) (t : Tid) : QueueState Tid where
  shm := s.shm.withTokens (s.pc t).heldSlots (s.pc t).heldItems
  pc := Function.update s.pc t .idle

/-- **What another thread does, it does without the pending call, too.** -/
theorem other_step {s s' : QueueState Tid} {a : QueueAction Tid} {es : List (Tid × Note)}
    (h : (queueMachine Tid capacity).step s a = some (s', es)) (hother : a.thread ≠ t) :
    s'.pc t = s.pc t ∧
      (queueMachine Tid capacity).step (s.without t) a = some (s'.without t, es) := by
  cases a with
  | call u call =>
      have hut : u ≠ t := hother
      obtain ⟨hidle, rfl, rfl⟩ := queueMachine_call h
      have hsame : Function.update s.pc u call.entry t = s.pc t :=
        Function.update_of_ne hut.symm _ _
      have hstill : (s.without t).pc u = .idle :=
        (Function.update_of_ne hut _ _).trans hidle
      refine ⟨hsame, ?_⟩
      rw [queueMachine_calls hstill]
      simp only [QueueState.without, hsame]
      rw [Function.update_comm hut]
  | step u fail =>
      have hut : u ≠ t := hother
      obtain ⟨shm', pc', notes, hq, rfl, rfl⟩ := queueMachine_step h
      have hsame : Function.update s.pc u pc' t = s.pc t := Function.update_of_ne hut.symm _ _
      have hstill : (s.without t).pc u = s.pc u := Function.update_of_ne hut _ _
      have htokens := queueStep_withTokens hq (s.pc t).heldSlots (s.pc t).heldItems
      rw [← hstill] at htokens
      refine ⟨hsame, ?_⟩
      simp only [queueMachine, Option.map_eq_some_iff]
      refine ⟨_, htokens, ?_⟩
      simp only [QueueState.without, hsame]
      rw [Function.update_comm hut]

/-- An event in which thread `t` does not announce a reply. -/
def Unanswered (t : Tid) (e : Tid × Note) : Prop := e.1 = t → e.2.reply? = none

omit [DecidableEq Tid] in
theorem unanswered_own {notes : List Note} (h : ∀ e ∈ notes.map (t, ·), Unanswered t e) :
    ∀ n ∈ notes, n.reply? = none := by
  intro n hn
  exact h (t, n) (List.mem_map_of_mem hn) rfl

/-- A committed call stays committed until it is answered. -/
theorem committed_stays {s s' : QueueState Tid} {a : QueueAction Tid} {es : List (Tid × Note)}
    (hcommitted : (s.pc t).committed = true)
    (h : (queueMachine Tid capacity).step s a = some (s', es))
    (hsilent : ∀ e ∈ es, Unanswered t e) : (s'.pc t).committed = true := by
  by_cases hown : a.thread = t
  · cases a with
    | call u call =>
        obtain rfl : u = t := hown
        obtain ⟨hidle, -⟩ := queueMachine_call h
        simp [hidle, QueuePc.committed] at hcommitted
    | step u fail =>
        obtain rfl : u = t := hown
        obtain ⟨shm', pc', notes, hq, rfl, rfl⟩ := queueMachine_step h
        simp only [Function.update_self]
        exact (committed_step hq hcommitted).1 (unanswered_own hsilent)
  · rw [(other_step h hown).1]
    exact hcommitted

/-- **A pending call leaves no trace**: up to the tokens it holds, the others
get to the same state without it, unless it has become committed. -/
theorem pending_erased {s s' : QueueState Tid} {steps : List (QueueAction Tid)}
    {es : List (Tid × Note)} (hpending : (s.pc t).pending = true)
    (h : exec (queueMachine Tid capacity) s steps = some (s', es))
    (hsilent : ∀ e ∈ es, Unanswered t e) :
    (s'.pc t).committed = true ∨ ((s'.pc t).pending = true ∧
      exec (queueMachine Tid capacity) (s.without t) (withoutThread t steps) =
        some (s'.without t, es)) := by
  refine exec_erase (fun a => decide (a.thread = t)) (QueueState.without · t)
    (fun s => (s.pc t).pending = true) (fun s => (s.pc t).committed = true)
    (fun _ _ _ _ hcommitted hstep hquiet => committed_stays hcommitted hstep hquiet)
    ?_ ?_ h hsilent hpending
  · intro s a s' es hI hother hstep
    obtain ⟨hsame, herased⟩ := other_step hstep (of_decide_eq_false hother)
    exact ⟨by rw [hsame]; exact hI, herased⟩
  · intro s a s' es hI hown hstep hquiet
    have hmine : a.thread = t := of_decide_eq_true hown
    cases a with
    | call u call =>
        obtain rfl : u = t := hmine
        obtain ⟨hidle, -⟩ := queueMachine_call hstep
        simp [hidle, QueuePc.pending] at hI
    | step u fail =>
        obtain rfl : u = t := hmine
        obtain ⟨shm', pc', notes, hq, rfl, rfl⟩ := queueMachine_step hstep
        rcases pending_step hq hI with
          ⟨hcommitted, -⟩ | ⟨htokens, ⟨hstill, rfl⟩ | ⟨-, message, rfl⟩⟩
        · exact .inl (by simpa only [Function.update_self] using hcommitted)
        · refine .inr ⟨by simpa only [Function.update_self] using hstill, ?_, rfl⟩
          simp only [QueueState.without, Function.update_self, Function.update_idem, htokens]
        · have hquiet := unanswered_own hquiet _ List.mem_cons_self
          cases hquiet

/-- The same for every part of the schedule that leads to a call which is not
committed. -/
theorem pending_part {s s' : QueueState Tid} {steps before after : List (QueueAction Tid)}
    {es : List (Tid × Note)} (hpending : (s.pc t).pending = true)
    (h : exec (queueMachine Tid capacity) s steps = some (s', es))
    (hsilent : ∀ e ∈ es, Unanswered t e) (hopen : (s'.pc t).committed = false)
    (hsplit : steps = before ++ after) :
    ∃ s₁ es₁, exec (queueMachine Tid capacity) s before = some (s₁, es₁) ∧
      (s₁.pc t).pending = true ∧
      exec (queueMachine Tid capacity) (s.without t) (withoutThread t before) =
        some (s₁.without t, es₁) := by
  rw [hsplit] at h
  obtain ⟨s₁, left, right, hleft, hright, rfl⟩ := exec_append h
  obtain ⟨hquiet, hlater⟩ := List.forall_mem_append.mp hsilent
  rcases pending_erased hpending hleft hquiet with hcommitted | ⟨hstill, herased⟩
  · have hlast := exec_stays (fun s => (s.pc t).committed = true)
      (fun _ _ _ _ hkept hstep => committed_stays hkept hstep) hright hlater hcommitted
    simp [hopen] at hlast
  · exact ⟨s₁, left, hleft, hstill, herased⟩

/-! ## Every run -/

/-- A call of thread `t` that throws: it starts in `s`, it is not answered
during `steps`, and the next step of `t` throws and leads to `s'`. -/
structure ThrowingCall (capacity : Nat) (s : QueueState Tid) (t : Tid) (call : QueueCall)
    (steps : List (QueueAction Tid)) (es : List (Tid × Note)) (s' : QueueState Tid) : Prop where
  silent : ∀ e ∈ es, Unanswered t e
  thrown : ∃ middle fail message last,
    exec (queueMachine Tid capacity) s (.call t call :: steps) = some (middle, es) ∧
      (queueMachine Tid capacity).step middle (.step t fail) = some (s', last) ∧
      (t, .finished (.thrown message)) ∈ last

/-- The call might as well not have been made: without it the same steps of
the others lead to the same state and show the same events, and at each moment
the ring was as it is with the call. -/
structure AsIfNeverMade (capacity : Nat) (s : QueueState Tid) (t : Tid) (call : QueueCall)
    (steps : List (QueueAction Tid)) (es : List (Tid × Note)) (s' : QueueState Tid) : Prop where
  same : exec (queueMachine Tid capacity) s (withoutThread t steps) = some (s', es)
  ring : ∀ before after, steps = before ++ after → ∃ s₁ s₂ es',
    exec (queueMachine Tid capacity) s (.call t call :: before) = some (s₁, es') ∧
      exec (queueMachine Tid capacity) s (withoutThread t before) = some (s₂, es') ∧
      SameRing s₂.shm s₁.shm

/-- What holds of a segment between calls. -/
structure Balanced (capacity : Nat) (shm : Shm) : Prop where
  count_le : shm.count ≤ capacity
  enqueueSem : shm.enqueueSem = capacity - shm.count
  dequeueSem : shm.dequeueSem = shm.count
  mutexSem : shm.mutexSem = 1
  rear : shm.rear = (shm.front + shm.count) % capacity
  totals : shm.count + shm.totalDequeued ≡ shm.totalEnqueued [MOD 2 ^ 64]

variable [Fintype Tid]

/-- The invariant of a run, with the empty branch and the totals. -/
structure TokensInv (capacity : Nat) (trace : List (Tid × Note)) (s : QueueState Tid) :
    Prop where
  run : RunInv capacity trace s
  found : ∀ u, (s.pc u).foundEmpty = false
  totals : s.shm.count + (s.shm.totalDequeued + ∑ u, (s.pc u).owedDequeued) ≡
    s.shm.totalEnqueued + ∑ u, (s.pc u).owedEnqueued [MOD 2 ^ 64]

theorem tokensInv_created (hpos : 0 < capacity) :
    TokensInv capacity [] (QueueState.created Tid capacity) := by
  refine ⟨runInv_created hpos, fun u => rfl, ?_⟩
  simp only [QueueState.created, Shm.create, QueuePc.idle_owedDequeued,
    QueuePc.idle_owedEnqueued, Finset.sum_const_zero]
  rfl

/-- Every step of every thread preserves it. -/
theorem tokensInv_step (hcap : capacity + 1 < 2 ^ 64) {trace es : List (Tid × Note)}
    {s s' : QueueState Tid} {a : QueueAction Tid} (h : TokensInv capacity trace s)
    (hstep : (queueMachine Tid capacity).step s a = some (s', es)) :
    TokensInv capacity (trace ++ es) s' := by
  have hrun := runInv_step hcap h.run hstep
  cases a with
  | call u call =>
      obtain ⟨hidle, rfl, rfl⟩ := queueMachine_call hstep
      obtain ⟨hentry, henq, hdeq⟩ := call.entry_owed
      have hdequeued := sum_moved QueuePc.owedDequeued s.pc u call.entry
      have henqueued := sum_moved QueuePc.owedEnqueued s.pc u call.entry
      rw [hidle, hdeq, QueuePc.idle_owedDequeued] at hdequeued
      rw [hidle, henq, QueuePc.idle_owedEnqueued] at henqueued
      refine ⟨hrun, ?_, ?_⟩
      · rw [Function.forall_update_iff s.pc fun _ pc => pc.foundEmpty = false]
        exact ⟨hentry, fun v _ => h.found v⟩
      · have htotals := h.totals
        simp only [Nat.add_zero] at hdequeued henqueued
        simp only [hdequeued, henqueued]
        exact htotals
  | step u fail =>
      obtain ⟨shm', pc', notes, hq, rfl, rfl⟩ := queueMachine_step hstep
      have hdequeued := sum_moved QueuePc.owedDequeued s.pc u pc'
      have henqueued := sum_moved QueuePc.owedEnqueued s.pc u pc'
      refine ⟨hrun, ?_, ?_⟩
      · rw [Function.forall_update_iff s.pc fun _ pc => pc.foundEmpty = false]
        refine ⟨?_, fun v _ => h.found v⟩
        by_contra hfound
        rw [Bool.not_eq_false] at hfound
        rcases foundEmpty_step hq hfound with hbefore | rfl
        · simp [h.found u] at hbefore
        · -- The count under the mutex is positive, so this point is not reached.
          have hat : Function.update s.pc u .deqEmptyPostMutex u = .deqEmptyPostMutex :=
            Function.update_self _ _ _
          have hsection := hrun.queue.sections u (by simp only [hat]; rfl)
          simp only [hat] at hsection
          exact hsection.elim
      · show shm'.count + (shm'.totalDequeued + ∑ v, (Function.update s.pc u pc' v).owedDequeued) ≡
          shm'.totalEnqueued + ∑ v, (Function.update s.pc u pc' v).owedEnqueued [MOD 2 ^ 64]
        have hmoved := queueStep_totals hq
        have htotals := h.totals
        unfold Nat.ModEq at hmoved htotals ⊢
        omega

theorem tokensInv_run (hpos : 0 < capacity) (hcap : capacity + 1 < 2 ^ 64)
    {trace : List (Tid × Note)} {s : QueueState Tid}
    (h : Run (queueMachine Tid capacity) (QueueState.created Tid capacity) trace s) :
    TokensInv capacity trace s :=
  h.invariant (TokensInv capacity) (tokensInv_created hpos)
    fun _ _ _ _ _ hinv hstep => tokensInv_step hcap hinv hstep

/-- When nobody is in a call, nothing is owed. -/
theorem TokensInv.balanced {trace : List (Tid × Note)} {s : QueueState Tid}
    (h : TokensInv capacity trace s) (hidle : ∀ u, s.pc u = .idle) :
    Balanced capacity s.shm := by
  have hq := h.run.queue.quiescent hidle
  have hslots := hq.slots
  have hcount := hq.ring.count_eq
  have htotals := h.totals
  simp only [hidle, QueuePc.idle_owedDequeued, QueuePc.idle_owedEnqueued,
    Finset.sum_const_zero, Nat.add_zero] at htotals
  refine ⟨by omega, by omega, ?_, hq.mutex, ?_, htotals⟩
  · rw [hq.items, hcount]
  · rw [hq.ring.holds.rear_eq, hcount]

/-- **A call that throws might as well not have been made.** -/
theorem throwing_call_erased (hpos : 0 < capacity) (hcap : capacity + 1 < 2 ^ 64)
    {trace : List (Tid × Note)} {s : QueueState Tid}
    (hrun : Run (queueMachine Tid capacity) (QueueState.created Tid capacity) trace s)
    {t : Tid} {call : QueueCall} {steps : List (QueueAction Tid)} {es : List (Tid × Note)}
    {s' : QueueState Tid} (h : ThrowingCall capacity s t call steps es s') :
    AsIfNeverMade capacity s t call steps es s' := by
  obtain ⟨middle, fail, message, last, hexec, hlast, hmem⟩ := h.thrown
  obtain ⟨shm', pc', notes, hq, rfl, rfl⟩ := queueMachine_step hlast
  have hfound : (middle.pc t).foundEmpty = false :=
    (tokensInv_run hpos hcap (hrun.append (exec_run hexec))).found t
  have hthrows : Note.finished (.thrown message) ∈ notes := by
    obtain ⟨n, hn, heq⟩ := List.mem_map.mp hmem
    cases heq
    exact hn
  have hmiddle : (middle.pc t).committed = false := by
    cases hcommitted : (middle.pc t).committed with
    | false => rfl
    | true => exact absurd hthrows ((committed_step hq hcommitted).2 hfound message)
  obtain ⟨s₀, first, later, hcall, hsteps, rfl⟩ := exec_cons hexec
  obtain ⟨hidle, rfl, rfl⟩ := queueMachine_call hcall
  rw [List.nil_append]
  have hentry : (Function.update s.pc t call.entry t).pending = true := by
    rw [Function.update_self]
    cases call <;> rfl
  -- As the call starts it holds nothing: without it, the state is `s`.
  have hwithout : QueueState.without ⟨s.shm, Function.update s.pc t call.entry⟩ t = s := by
    simp only [QueueState.without, Function.update_self, QueueCall.entry_heldSlots,
      QueueCall.entry_heldItems, Function.update_idem]
    rw [← hidle, Function.update_eq_self]
    rfl
  constructor
  · obtain ⟨s₁, es₁, hall, hpending, herased⟩ :=
      pending_part hentry hsteps h.silent hmiddle (List.append_nil steps).symm
    rw [hsteps] at hall
    cases hall
    rw [hwithout] at herased
    rw [herased]
    rcases pending_step hq hpending with
      ⟨-, rfl⟩ | ⟨htokens, ⟨-, rfl⟩ | ⟨rfl, -, -⟩⟩
    · cases hthrows
    · cases hthrows
    · rw [QueueState.without, ← htokens]
      rfl
  · intro before after hsplit
    obtain ⟨s₁, es₁, hpart, -, herased⟩ := pending_part hentry hsteps h.silent hmiddle hsplit
    rw [hwithout] at herased
    refine ⟨s₁, s₁.without t, es₁, ?_, herased, ⟨rfl, rfl, rfl, rfl, rfl, rfl⟩⟩
    simp only [exec, queueMachine_calls hidle, hpart, Option.bind_some, Option.map_some,
      List.nil_append]

/-- **Tokens are conserved, whichever waits fail.** -/
theorem tokens_conserved (hpos : 1 ≤ capacity) (hcap : capacity ≤ countTasks)
    {trace : List (Tid × Note)} {s : QueueState Tid}
    (hrun : Run (queueMachine Tid capacity) (QueueState.created Tid capacity) trace s) :
    (∀ t call steps es s', ThrowingCall capacity s t call steps es s' →
      AsIfNeverMade capacity s t call steps es s') ∧
    ((∀ t, s.pc t = .idle) → Balanced capacity s.shm) ∧
    ∀ t, (s.pc t).foundEmpty = false := by
  have hbound : capacity + 1 < 2 ^ 64 := by
    simp only [countTasks] at hcap
    omega
  have hinv := tokensInv_run hpos hbound hrun
  refine ⟨?_, hinv.balanced, hinv.found⟩
  intro t call steps es s' hthrowing
  exact throwing_call_erased hpos hbound hrun hthrowing

end Machine

/-- Thread 0 takes a slot, thread 1 enqueues, and then the wait of thread 0
for the mutex fails. -/
def lateFailure (task : SharedTask) : List (QueueAction (Fin 2)) :=
  .step ⟨0, Nat.two_pos⟩ false :: .call ⟨1, Nat.one_lt_two⟩ (.enqueue task) ::
    List.replicate 9 (.step ⟨1, Nat.one_lt_two⟩ false) ++ [.step ⟨0, Nat.two_pos⟩ true]

theorem lateFailure_executes :
    (exec (queueMachine (Fin 2) 2) (QueueState.created (Fin 2) 2)
      (.call 0 (.enqueue .zeroed) :: lateFailure .zeroed)).isSome = true := by
  decide +kernel

/-- During that time thread 0 announces no reply. -/
theorem lateFailure_silent : ∀ e ∈ ((exec (queueMachine (Fin 2) 2)
    (QueueState.created (Fin 2) 2) (.call 0 (.enqueue .zeroed) ::
      lateFailure .zeroed)).get lateFailure_executes).2, Unanswered 0 e := by
  unfold Unanswered
  decide +kernel

/-- Without the call of thread 0, thread 1 enqueues to the same state. -/
theorem tokens_conserved_late :
    ∃ es s', ThrowingCall 2 (QueueState.created (Fin 2) 2) 0 (.enqueue .zeroed)
        (lateFailure .zeroed) es s' ∧
      exec (queueMachine (Fin 2) 2) (QueueState.created (Fin 2) 2)
        (.call 1 (.enqueue .zeroed) :: List.replicate 9 (.step 1 false)) = some (s', es) := by
  have hthrowing : ∃ es s', ThrowingCall 2 (QueueState.created (Fin 2) 2) 0
      (.enqueue .zeroed) (lateFailure .zeroed) es s' := by
    exact ⟨_, _, lateFailure_silent, _, false, "Mutex semaphore wait failed", _,
      exec_get lateFailure_executes, rfl, List.mem_singleton_self _⟩
  obtain ⟨es, s', h⟩ := hthrowing
  refine ⟨es, s', h, ?_⟩
  have hsame := ((tokens_conserved (by decide) (by decide) .nil).1 _ _ _ _ _ h).same
  exact hsame

end TaskSheduler
