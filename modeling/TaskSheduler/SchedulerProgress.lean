import TaskSheduler.SchedulerSteps

/-!
# When the scheduler cannot get stuck

Both loops test the queue and only then call a `dequeue`, which blocks.  A
state is `NotStuck` if somebody can go on while the main thread waits in a
`join`, and if every loop that waits for an item is about to be woken.

That holds in every reachable state as long as no test that finds entries finds
only entries that the other loop's `dequeue` has claimed (`unclaimed`).  The
argument counts tokens: the claims never exceed the count, so a loop that waits
for an item has another one in the middle of announcing it; a loop that waits
for a slot holds a task that was in the queue, so there is room for it; and
whoever holds the mutex can go on.
-/

namespace TaskSheduler

open Interleaving Programs

/-! ## What can go on -/

/-- The step waits on a semaphore that is zero. -/
def QueuePc.blocked (shm : Shm) : QueuePc → Bool
  | .enqWaitSlot _ => shm.enqueueSem = 0
  | .deqWaitItem => shm.dequeueSem = 0
  | .enqWaitMutex _ | .deqWaitMutex | .prnWaitMutex => shm.mutexSem = 0
  | _ => false

/-- The step waits for an item, and there is none. -/
def QueuePc.awaitsItem (shm : Shm) : QueuePc → Bool
  | .deqWaitItem => shm.dequeueSem = 0
  | _ => false

theorem QueuePc.awaitsItem_eq {shm : Shm} {pc : QueuePc} (h : pc.awaitsItem shm = true) :
    pc = .deqWaitItem ∧ shm.dequeueSem = 0 := by
  cases pc <;> first | exact ⟨rfl, of_decide_eq_true h⟩ | cases h

theorem semWait_enabled {β : Type*} {n : Nat} (h : n ≠ 0) (f : Nat → β) :
    ∃ r, (semWait n).map f = some r := by
  cases n with
  | zero => exact absurd rfl h
  | succ m => exact ⟨f m, rfl⟩

/-- A queue call that is not blocked can take its next step. -/
theorem queueStep_enabled {capacity : Nat} {shm : Shm} {pc : QueuePc} (hin : pc ≠ .idle)
    (hopen : pc.blocked shm = false) : ∃ r, queueStep capacity shm pc false = some r := by
  cases pc with
  | idle => exact absurd rfl hin
  | prnLoadTask index left lines => cases left <;> exact ⟨_, rfl⟩
  | deqLoadCount front =>
      simp only [queueStep]
      by_cases hcount : shm.count = 0
      · exact ⟨_, if_pos hcount⟩
      · exact ⟨_, if_neg hcount⟩
  | enqWaitSlot task => exact semWait_enabled (of_decide_eq_false hopen) _
  | deqWaitItem => exact semWait_enabled (of_decide_eq_false hopen) _
  | enqWaitMutex task => exact semWait_enabled (of_decide_eq_false hopen) _
  | deqWaitMutex => exact semWait_enabled (of_decide_eq_false hopen) _
  | prnWaitMutex => exact semWait_enabled (of_decide_eq_false hopen) _
  | _ => exact ⟨_, rfl⟩

/-- Local code that always returns can be performed. -/
theorem Choice.run_total {α : Type} {x : Program World α} (h : ∀ w, ∃ a w', x w = .ok a w')
    (choice : Choice) (shm : Shm) : ∃ a, choice.run shm x = some a := by
  obtain ⟨a, w', hx⟩ := h { World.begin shm with
    readings := choice.readings, totals := choice.totals, locals := choice.locals }
  exact ⟨a, by simp only [Choice.run, hx]⟩

section Enabled

variable {env : Env} {choice : Choice} {shm : Shm}

theorem start_total (env : Env) (call : ManagerCall) (w : World) :
    ∃ pc w', start env call w = .ok pc w' := by
  cases call with
  | getNextTask => exact ⟨_, _, rfl⟩
  | addTask task =>
      obtain ⟨st, w', henter, -⟩ := enter_returns env (.adding task) task w
      exact ⟨_, _, henter⟩
  | reorderTasks algorithm => exact ⟨_, _, rfl⟩

theorem getTotalTime_total (env : Env) (task : UnixTask) (w : World) :
    ∃ total w', task.getTotalTime env w = .ok total w' := by
  obtain ⟨total, t, htotal⟩ := getTotalTime_returns env w task
  exact ⟨total, _, htotal⟩

/-- A queue call ends with a reply to its purpose. -/
theorem Finishes.answers {fail : Bool} {purpose : Purpose} {pc : QueuePc} {ended : Reply}
    (h : Finishes fail pc ended) (hkind : pc.kind = some purpose.kind) :
    ended.answers purpose := by
  cases h with
  | thrown => trivial
  | _ => exact (Option.some.inj hkind).symm

/-- A call of the manager that is not blocked can take its next step. -/
theorem managerStep_enabled {pc : ManagerPc} (hfits : pc.Fits) (hin : pc.call ≠ none)
    (hopen : pc.queue.blocked shm = false) (hfail : choice.fail = false) :
    ∃ r, managerStep env choice shm pc = some r := by
  cases pc with
  | idle => exact absurd rfl hin
  | testing algorithm tasks =>
      simp only [managerStep]
      by_cases hcount : shm.count = 0
      · have htotal : ∀ w, ∃ r w', (do
            let tasks ← tasks.mapM (algorithm.updateTaskPriority env)
            refill env algorithm tasks) w = .ok r w' := by
          intro w
          obtain ⟨pc, reply, w', hrefill, -⟩ := refill_moves env algorithm
            (updatedFrom env algorithm w.readings tasks)
            { w with readings := w.readings + algorithm.readings tasks.length }
          exact ⟨_, _, by rw [returns (update_returns env algorithm tasks w), hrefill]⟩
        obtain ⟨r, hr⟩ := Choice.run_total htotal choice shm
        exact ⟨_, by rw [if_pos hcount, hr]; rfl⟩
      · exact ⟨_, if_neg hcount⟩
  | inQueue purpose qpc =>
      have hne : qpc ≠ .idle := by
        rintro rfl
        cases hfits
      have henabled : ∃ r, queueStep env.capacity shm qpc false = some r :=
        queueStep_enabled hne hopen
      obtain ⟨⟨shm', pc', notes⟩, hstep⟩ := henabled
      simp only [managerStep, hfail, hstep, Option.bind_some]
      rcases queueStep_reply hstep with ⟨hnone, -⟩ | ⟨ended, hsome, -, hends⟩
      · exact ⟨_, by simp only [hnone]; rfl⟩
      · have htotal : ∀ w, ∃ r w', orThrown (resume env purpose ended) w = .ok r w' := by
          intro w
          obtain ⟨pc, reply, w', hreturns, -⟩ := resume_returns (hends.answers hfits) w
          exact ⟨_, _, hreturns⟩
        obtain ⟨r, hr⟩ := Choice.run_total htotal choice shm'
        exact ⟨_, by simp only [hsome, hr]; rfl⟩

end Enabled

section System

variable {env : Env} {timeQuantum : Int} {algorithm : SchedulingAlgorithm} {s : System}
  {t : Loop} {shm : Shm} {running : Bool} {pc : LoopPc}

/-- No `sem_wait` fails, and an `execute` throws. -/
def LoopChoice.quiet : LoopChoice :=
  { Choice.quiet with executed := .thrown }

theorem LoopChoice.quiet_starts (env : Env) (shm : Shm) (call : ManagerCall) :
    ∃ pc, LoopChoice.quiet.run shm (start env call) = some pc :=
  Choice.run_total (start_total env call) _ _

/-- A loop in a call of the manager that is not blocked can take its next step. -/
theorem manages_enabled (env : Env) {pc : ManagerPc} (hfits : t.Fits (.managing pc))
    (hopen : pc.queue.blocked shm = false) :
    ∃ r, managerStep env LoopChoice.quiet.toChoice shm pc = some r := by
  refine managerStep_enabled hfits.1 ?_ hopen rfl
  intro hnone
  have hcall := hfits.2
  rw [hnone] at hcall
  cases hcall

theorem processTasksStep_enabled (env : Env) (timeQuantum : Int)
    (hfits : Loop.processor.Fits pc) (hoff : pc ≠ .off) (hdone : pc ≠ .done)
    (hopen : pc.manager.queue.blocked shm = false) :
    ∃ r, processTasksStep env timeQuantum LoopChoice.quiet shm running pc = some r := by
  cases pc with
  | off => exact absurd rfl hoff
  | done => exact absurd rfl hdone
  | whileTest => exact ⟨_, rfl⟩
  | countTest =>
      simp only [processTasksStep]
      by_cases hcount : 0 < shm.count
      · obtain ⟨pc, hstart⟩ := LoopChoice.quiet_starts env shm .getNextTask
        exact ⟨_, by rw [if_pos hcount, hstart]; rfl⟩
      · exact ⟨_, if_neg hcount⟩
  | managing pc =>
      obtain ⟨r, hr⟩ := manages_enabled env hfits hopen
      exact ⟨_, by rw [processTasksStep, hr]; rfl⟩
  | executing task =>
      obtain ⟨total, htotal⟩ := Choice.run_total (getTotalTime_total env task)
        LoopChoice.quiet.toChoice shm
      exact ⟨_, by rw [processTasksStep, htotal]; rfl⟩
  | keepTest task =>
      simp only [processTasksStep]
      by_cases hrunning : running = true
      · obtain ⟨pc, hstart⟩ := LoopChoice.quiet_starts env shm (.addTask task)
        exact ⟨_, by rw [if_pos hrunning, hstart]; rfl⟩
      · exact ⟨_, if_neg hrunning⟩

theorem scheduleStep_enabled (env : Env) (algorithm : SchedulingAlgorithm)
    (hfits : Loop.scheduler.Fits pc) (hoff : pc ≠ .off) (hdone : pc ≠ .done)
    (hopen : pc.manager.queue.blocked shm = false) :
    ∃ r, scheduleStep env algorithm LoopChoice.quiet shm running pc = some r := by
  cases pc with
  | off => exact absurd rfl hoff
  | done => exact absurd rfl hdone
  | whileTest =>
      simp only [scheduleStep]
      by_cases hrunning : running = true
      · obtain ⟨pc, hstart⟩ := LoopChoice.quiet_starts env shm (.reorderTasks algorithm)
        exact ⟨_, by rw [if_pos hrunning, hstart]; rfl⟩
      · exact ⟨_, if_neg hrunning⟩
  | managing pc =>
      obtain ⟨r, hr⟩ := manages_enabled env hfits hopen
      exact ⟨_, by rw [scheduleStep, hr]; rfl⟩
  | _ => cases hfits

/-- **A loop that runs and is not blocked can take its next step.** -/
theorem loopStep_enabled (hfits : t.Fits (s.pc t)) (hoff : s.pc t ≠ .off)
    (hdone : s.pc t ≠ .done) (hopen : (s.pc t).manager.queue.blocked s.shm = false) :
    ∃ r, loopStep env timeQuantum algorithm LoopChoice.quiet s t = some r := by
  cases t with
  | processor => exact processTasksStep_enabled env timeQuantum hfits hoff hdone hopen
  | scheduler => exact scheduleStep_enabled env algorithm hfits hoff hdone hopen

end System

/-! ## Claims and announcements -/

/-- The items that a `dequeue` is about to claim or has claimed, up to its
update of the count. -/
def QueuePc.claims : QueuePc → Nat
  | .deqWaitItem | .deqWaitMutex | .deqGiveBackItem | .deqLoadFront | .deqLoadCount _
  | .deqEmptyPostMutex | .deqEmptyPostItem | .deqLoadTask _ | .deqStoreFront _ _
  | .deqSubCount _ => 1
  | _ => 0

/-- An `enqueue` that has counted its entry and is about to post its item. -/
def QueuePc.announces : QueuePc → Bool
  | .enqAddTotal _ | .enqPostMutex _ | .enqPostItem => true
  | _ => false

/-- A loop is about to test whether the queue holds anything. -/
def LoopPc.tests : LoopPc → Bool
  | .countTest | .managing (.testing _ _) => true
  | _ => false

/-- A test that finds entries finds one that no other `dequeue` has claimed. -/
def unclaimed (s : System) : SystemAction → Bool
  | .loop t _ => !(s.pc t).tests || s.shm.count = 0 ||
      decide (∑ u, (s.pc u).manager.queue.claims < s.shm.count)
  | _ => true

/-- The action makes no `sem_wait` fail. -/
def SystemAction.healthy : SystemAction → Bool
  | .loop _ choice => !choice.fail
  | _ => true

/-- Some thread can take a step. -/
def CanGoOn (env : Env) (timeQuantum : Int) (algorithm : SchedulingAlgorithm)
    (s : System) : Prop :=
  ∃ a, a.healthy = true ∧ ((systemMachine env timeQuantum algorithm).step s a).isSome = true

/-- Nobody waits in vain: while the main thread waits in a `join` somebody can
take a step, and a loop that waits for an item is about to be woken. -/
structure NotStuck (env : Env) (timeQuantum : Int) (algorithm : SchedulingAlgorithm)
    (s : System) : Prop where
  joins : ∀ t rest, s.main = .join t :: rest → CanGoOn env timeQuantum algorithm s
  posts : ∀ t, (s.pc t).manager.queue.awaitsItem s.shm = true →
    ∃ u, (s.pc u).manager.queue.announces = true

/-- A queue step claims nothing that its entry point has not claimed. -/
theorem queueStep_claims {capacity : Nat} {shm shm' : Shm} {pc pc' : QueuePc} {fail : Bool}
    {notes : List Note} (h : queueStep capacity shm pc fail = some (shm', pc', notes))
    (q : List SharedTask) :
    pc'.claims + q.length ≤ pc.claims + (pc.effect q).length := by
  cases queueStep_move h with
  | deqSubCount =>
      simp only [QueuePc.claims, QueuePc.effect, List.length_tail]
      omega
  | _ => simp [QueuePc.claims, QueuePc.effect]

/-- A thread holds an item token only if it claims one or announces one. -/
theorem QueuePc.heldItems_le (pc : QueuePc) :
    pc.heldItems ≤ pc.claims + if pc.announces then 1 else 0 := by
  cases pc <;> simp [QueuePc.heldItems, QueuePc.claims, QueuePc.announces]

/-- A thread holds a free slot only for a task that it holds. -/
theorem QueuePc.heldSlots_le (pc : QueuePc) :
    pc.heldSlots ≤ (entryIds (pc.toStore.toList ++ pc.taken.toList)).card := by
  cases pc <;> simp [QueuePc.heldSlots, QueuePc.toStore, QueuePc.taken]

theorem QueuePc.announces_open {pc : QueuePc} (h : pc.announces = true) (shm : Shm) :
    pc.blocked shm = false := by
  cases pc <;> first | rfl | cases h

theorem QueuePc.inCritical_open {pc : QueuePc} (h : pc.inCritical = true) (shm : Shm) :
    pc.blocked shm = false := by
  cases pc <;> first | rfl | cases h

section Moves

variable {env : Env} {shm shm' : Shm}

theorem Refills.claims {algorithm : SchedulingAlgorithm} {tasks : List UnixTask}
    {pc : ManagerPc} {reply : Option ManagerReply}
    (h : Refills algorithm tasks pc reply) : pc.queue.claims = 0 := by
  cases h <;> rfl

theorem Resumes.claims {purpose : Purpose} {ended : Reply} {pc : ManagerPc}
    {reply : Option ManagerReply} (h : Resumes env purpose ended pc reply) :
    pc.queue.claims = 0 := by
  cases h with
  | reprinted hrefill => exact hrefill.claims
  | _ => rfl

/-- Only a test that finds entries leads to a new claim. -/
theorem ManagerMove.claims {fail : Bool} {pc pc' : ManagerPc} {reply : Option ManagerReply}
    (h : ManagerMove env fail shm pc shm' pc' reply) (q : List SharedTask) :
    pc'.queue.claims + q.length ≤ pc.queue.claims + (pc.queue.effect q).length ∨
      ((LoopPc.managing pc).tests = true ∧ shm.count ≠ 0 ∧ pc.queue = .idle ∧
        pc'.queue.claims = 1) := by
  cases h with
  | found hcount => exact .inr ⟨rfl, hcount, rfl, rfl⟩
  | foundEmpty _ hrefill =>
      left
      rw [hrefill.claims]
      exact le_rfl
  | inside hstep _ => exact .inl (queueStep_claims hstep q)
  | finished hstep _ hresume =>
      left
      rw [hresume.claims]
      exact queueStep_claims hstep q

/-- Only a test that finds entries leads to a new claim. -/
theorem LoopMove.claims {choice : LoopChoice} {running : Bool} {t : Loop} {pc pc' : LoopPc}
    {es : List SystemEvent} (h : LoopMove env choice shm running t pc shm' pc' es)
    (q : List SharedTask) :
    pc'.manager.queue.claims + q.length ≤
        pc.manager.queue.claims + (pc.manager.queue.effect q).length ∨
      (pc.tests = true ∧ shm.count ≠ 0 ∧ pc.manager.queue = .idle ∧
        pc'.manager.queue.claims = 1) := by
  have hreplied : ∀ {pc₁ pc₂ : ManagerPc} {reply : ManagerReply},
      ManagerMove env choice.fail shm pc₁ shm' pc₂ (some reply) →
        QueuePc.idle.claims + q.length ≤ pc₁.queue.claims + (pc₁.queue.effect q).length := by
    intro pc₁ pc₂ reply hmove
    have hclaims := hmove.claims q
    rw [hmove.replied] at hclaims
    rcases hclaims with hle | ⟨-, -, -, hone⟩
    · exact hle
    · cases hone
  cases h with
  | takes hcount => exact .inr ⟨rfl, hcount, rfl, rfl⟩
  | manages hmove => exact hmove.claims q
  | got hmove => exact .inl (hreplied hmove)
  | returns hmove => exact .inl (hreplied hmove)
  | aborts hmove => exact .inl (hreplied hmove)
  | _ => exact .inl le_rfl

end Moves

/-! ## The run -/

section Run

variable {env : Env} {timeQuantum : Int} {algorithm : SchedulingAlgorithm} {s s' : System}
  {a : SystemAction} {initial : Multiset Int32} {trace es : List SystemEvent} {shm : Shm}
  {q : List SharedTask}

/-- The items that all loops claim. -/
def System.claims (s : System) : Nat := ∑ t, (s.pc t).manager.queue.claims

/-- **An admitted step keeps the claims covered by the count.** -/
theorem claims_step (hinv : SystemInv env initial trace s q)
    (hclaims : s.claims ≤ s.shm.count) (hadmits : unclaimed s a = true)
    (hmove : SystemMove env s a s' es) : s'.claims ≤ s'.shm.count := by
  cases hmove with
  | quiet ha hshm hpc =>
      have hqueue := fun t => (LoopPc.quiet (hpc t)).1
      simp only [System.claims, hqueue, hshm]
      exact hclaims
  | @loop t choice shm' pc' es hmove =>
      have hcount := hinv.counted.count_eq
      have hcount' := (hmove.countedInv (u := t) rfl hinv.counted).count_eq
      have hmoved := sum_moved (fun pc : LoopPc => pc.manager.queue.claims) s.pc t pc'
      simp only [System.claims] at hclaims hcount hcount' hmoved ⊢
      rcases hmove.claims q with hle | ⟨htests, hne, hidle, hone⟩
      · omega
      · simp only [unclaimed, htests, hne, Bool.not_true, decide_false, Bool.or_self,
          Bool.false_or, decide_eq_true_eq] at hadmits
        have hsame : (s.pc t).manager.queue.effect q = q := by rw [hidle]; rfl
        have hnone : (s.pc t).manager.queue.claims = 0 := by rw [hidle]; rfl
        rw [hsame] at hcount'
        omega

theorem LoopPc.heldSlots_le (pc : LoopPc) :
    pc.manager.queue.heldSlots ≤ pc.owned.card := by
  cases pc with
  | managing pc =>
      cases pc with
      | inQueue purpose qpc =>
          have hle := qpc.heldSlots_le
          simp only [LoopPc.owned, LoopPc.manager, ManagerPc.queue, ManagerPc.owned,
            Multiset.card_add]
          omega
      | _ => exact Nat.zero_le _
  | _ => exact Nat.zero_le _

/-- A loop that waits for a slot holds a task and no slot. -/
theorem LoopPc.heldSlots_lt {pc : LoopPc} {task : SharedTask}
    (h : pc.manager.queue = .enqWaitSlot task) :
    pc.manager.queue.heldSlots < pc.owned.card := by
  cases pc with
  | managing pc =>
      cases pc with
      | inQueue purpose qpc =>
          simp only [LoopPc.manager, ManagerPc.queue] at h
          simp [LoopPc.manager, ManagerPc.queue, LoopPc.owned, ManagerPc.owned, h,
            QueuePc.heldSlots, QueuePc.toStore]
      | _ => cases h
  | _ => cases h

/-- No more tasks are around than were in the queue at the start. -/
theorem SystemInv.card_le (hinv : SystemInv env initial trace s q) :
    q.length + ∑ t, (s.pc t).owned.card ≤ initial.card := by
  have hcard := congrArg Multiset.card hinv.ids
  simp only [Multiset.card_add, Multiset.card_sum, entryIds, Multiset.coe_card,
    List.length_map] at hcard
  omega

/-- A loop that waits for a free slot finds one: its task was in the queue. -/
theorem SystemInv.slot_free (hinv : SystemInv env initial trace s q)
    (hroom : initial.card ≤ env.capacity) {t : Loop} {task : SharedTask}
    (ht : (s.pc t).manager.queue = .enqWaitSlot task) : s.shm.enqueueSem ≠ 0 := by
  have hslots := hinv.counted.slots
  have hcount := hinv.counted.count_eq
  have hcard := hinv.card_le
  have hless : ∑ u, (s.pc u).manager.queue.heldSlots < ∑ u, (s.pc u).owned.card :=
    Finset.sum_lt_sum (fun u _ => (s.pc u).heldSlots_le)
      ⟨t, Finset.mem_univ t, LoopPc.heldSlots_lt ht⟩
  simp only at hslots hcount
  omega

/-- A loop that waits for an item is about to be woken. -/
theorem SystemInv.announced (hinv : SystemInv env initial trace s q)
    (hclaims : s.claims ≤ s.shm.count) {t : Loop}
    (hawaits : (s.pc t).manager.queue.awaitsItem s.shm = true) :
    ∃ u, (s.pc u).manager.queue.announces = true := by
  obtain ⟨ht, hzero⟩ := QueuePc.awaitsItem_eq hawaits
  by_contra hnone
  simp only [not_exists, Bool.not_eq_true] at hnone
  have hitems := hinv.counted.items
  have hless : ∑ u, (s.pc u).manager.queue.heldItems < s.claims := by
    refine Finset.sum_lt_sum (fun u _ => ?_) ⟨t, Finset.mem_univ t, ?_⟩
    · have hle := (s.pc u).manager.queue.heldItems_le
      simpa [hnone u] using hle
    · rw [ht]
      exact Nat.zero_lt_one
  simp only at hitems
  omega

/-- While the mutex is taken, somebody is in its critical section. -/
theorem SystemInv.holder (hinv : SystemInv env initial trace s q)
    (hzero : s.shm.mutexSem = 0) : ∃ u, (s.pc u).manager.queue.inCritical = true := by
  by_contra hnone
  simp only [not_exists, Bool.not_eq_true] at hnone
  have hmutex := hinv.counted.mutex
  simp [hzero, QueuePc.heldMutex, hnone] at hmutex

theorem SystemInv.goes_on (hinv : SystemInv env initial trace s q) {t : Loop}
    (hoff : s.pc t ≠ .off) (hdone : s.pc t ≠ .done)
    (hopen : (s.pc t).manager.queue.blocked s.shm = false) :
    CanGoOn env timeQuantum algorithm s := by
  have henabled : ∃ r, loopStep env timeQuantum algorithm LoopChoice.quiet s t = some r :=
    loopStep_enabled (hinv.fits t) hoff hdone hopen
  obtain ⟨r, hr⟩ := henabled
  exact ⟨.loop t LoopChoice.quiet, rfl, by simp [systemMachine, hr]⟩

/-- A loop in a queue call is running. -/
theorem SystemInv.in_call (hinv : SystemInv env initial trace s q) {t : Loop}
    (hin : (s.pc t).manager.queue ≠ .idle)
    (hopen : (s.pc t).manager.queue.blocked s.shm = false) :
    CanGoOn env timeQuantum algorithm s := by
  refine hinv.goes_on (t := t) ?_ ?_ hopen
  · intro hoff
    rw [hoff] at hin
    exact hin rfl
  · intro hdone
    rw [hdone] at hin
    exact hin rfl

/-- **Covered claims leave nobody stuck.** -/
theorem SystemInv.notStuck (hinv : SystemInv env initial trace s q)
    (hclaims : s.claims ≤ s.shm.count) (hroom : initial.card ≤ env.capacity) :
    NotStuck env timeQuantum algorithm s := by
  refine ⟨fun t rest hmain => ?_, fun t hawaits => hinv.announced hclaims hawaits⟩
  have hjoin : (s.pc t = .off ∨ s.pc t = .done) → CanGoOn env timeQuantum algorithm s := by
    intro hended
    refine ⟨.main, rfl, ?_⟩
    rcases hended with hpc | hpc <;> simp [systemMachine, mainStep, hmain, hpc]
  by_cases hoff : s.pc t = .off
  · exact hjoin (.inl hoff)
  by_cases hdone : s.pc t = .done
  · exact hjoin (.inr hdone)
  cases hblocked : (s.pc t).manager.queue.blocked s.shm with
  | false => exact hinv.goes_on hoff hdone hblocked
  | true =>
      -- Another loop goes on: the one that announces, or the one in the mutex.
      have hmutex : s.shm.mutexSem = 0 → CanGoOn env timeQuantum algorithm s := by
        intro hzero
        obtain ⟨u, hu⟩ := hinv.holder hzero
        refine hinv.in_call (t := u) ?_ (QueuePc.inCritical_open hu s.shm)
        intro hidle
        rw [hidle] at hu
        cases hu
      cases hpc : (s.pc t).manager.queue <;> rw [hpc] at hblocked <;>
        simp only [QueuePc.blocked, decide_eq_true_eq, Bool.false_eq_true] at hblocked
      case enqWaitSlot task => exact absurd hblocked (hinv.slot_free hroom hpc)
      case deqWaitItem =>
        have hawaits : (s.pc t).manager.queue.awaitsItem s.shm = true := by
          rw [hpc]
          exact decide_eq_true hblocked
        obtain ⟨u, hu⟩ := hinv.announced hclaims hawaits
        refine hinv.in_call (t := u) ?_ (QueuePc.announces_open hu s.shm)
        intro hidle
        rw [hidle] at hu
        cases hu
      case enqWaitMutex task => exact hmutex hblocked
      case deqWaitMutex => exact hmutex hblocked
      case prnWaitMutex => exact hmutex hblocked

/-- When the scheduler's thread alone is left and waits for an item, the main
thread waits for ever. -/
theorem not_canGoOn (hmain : s.main = [.join .scheduler]) (hoff : s.pc .processor = .off)
    (hawaits : (s.pc .scheduler).manager.queue.awaitsItem s.shm = true) :
    ¬ CanGoOn env timeQuantum algorithm s := by
  obtain ⟨hqueue, hzero⟩ := QueuePc.awaitsItem_eq hawaits
  have hpc : ∃ purpose, s.pc .scheduler = .managing (.inQueue purpose .deqWaitItem) := by
    cases hcall : s.pc .scheduler <;> rw [hcall] at hqueue <;>
      simp only [LoopPc.manager, ManagerPc.queue, reduceCtorEq] at hqueue
    case managing pc =>
      cases pc with
      | inQueue purpose qpc => exact ⟨purpose, congrArg _ (congrArg _ hqueue)⟩
      | _ => cases hqueue
  obtain ⟨purpose, hpc⟩ := hpc
  rintro ⟨a, hhealthy, hstep⟩
  cases a with
  | call call => simp [systemMachine, hmain] at hstep
  | main => simp [systemMachine, mainStep, hmain, hpc] at hstep
  | loop t choice =>
      have hfail : choice.fail = false := by
        cases hfail : choice.fail with
        | false => rfl
        | true => simp [SystemAction.healthy, hfail] at hhealthy
      cases t with
      | processor => simp [systemMachine, loopStep, hoff, processTasksStep] at hstep
      | scheduler =>
          simp [systemMachine, loopStep, hpc, scheduleStep, managerStep, queueStep, hfail,
            hzero, semWait] at hstep

/-- **The scheduler cannot get stuck** as long as no test finds only entries
that the other loop has claimed already. -/
theorem never_stuck {schedule : List SystemAction} (h : Quiescent env.capacity shm q)
    (hexec : exec (systemMachine env timeQuantum algorithm) (System.begin shm) schedule =
      some (s, trace))
    (hunclaimed : along (systemMachine env timeQuantum algorithm) unclaimed
      (System.begin shm) schedule = true) :
    NotStuck env timeQuantum algorithm s := by
  have hkept := exec_invariant
    (fun trace s => (∃ q', SystemInv env (entryIds q) trace s q') ∧ s.claims ≤ s.shm.count)
    ?_ hexec hunclaimed ⟨⟨q, systemInv_begin h⟩, Nat.zero_le _⟩
  · obtain ⟨⟨q', hinv⟩, hclaims⟩ := hkept
    refine hinv.notStuck hclaims ?_
    have hslots := h.slots
    simp only [entryIds, Multiset.coe_card, List.length_map]
    omega
  · rintro before s₁ a s₂ es ⟨⟨q₁, hinv⟩, hclaims⟩ hadmits hstep
    have hmove := system_move hinv.fits hstep
    exact ⟨systemInv_step hinv hmove, claims_step hinv hclaims hadmits hmove⟩

end Run

/-! ## Two tasks and a stop -/

/-- A second CPU entry. -/
def otherEntry : SharedTask := { cpuEntry 100 with id := 8 }

/-- Nothing fails, and what is executed is completed. -/
def completedChoice : LoopChoice :=
  { Choice.quiet with executed := .returned true (CpuIntensiveTask.built 8 100 0) }

/-- A loop takes `n` steps. -/
def loopSteps (t : Loop) (n : Nat) : List SystemAction :=
  List.replicate n (.loop t completedChoice)

/-- `start`, and the scheduler up to its second `dequeue`, with the first task
in its vector. -/
def startedReorder : List SystemAction :=
  .call .schedulerStart :: List.replicate 5 .main ++ loopSteps .scheduler 13

/-- `stop` is called; the processor has not looked at the queue. -/
def stopDuringReorder : List SystemAction :=
  startedReorder ++ .call .schedulerStop :: List.replicate 3 .main

/-- The processor finds the second task too, takes it, and is joined. -/
def stopAfterRace : List SystemAction :=
  startedReorder ++ loopSteps .processor 13 ++ .call .schedulerStop :: List.replicate 3 .main ++
    loopSteps .processor 1 ++ [.main]

/-- The system with two tasks in the queue and a quantum of 500 milliseconds. -/
def twoTaskMachine : Machine System SystemAction SystemEvent :=
  systemMachine envTwo 500 (.roundRobinScheduling 0)

/-- Before `start`. -/
def twoTasks : System := System.begin (Shm.holdingTwo (cpuEntry 600) otherEntry)

theorem stopDuringReorder_executes :
    (exec twoTaskMachine twoTasks stopDuringReorder).isSome = true := by
  decide +kernel

/-- While the scheduler alone looks at the queue, nobody is stuck. -/
theorem not_stuck_during_reorder :
    ∃ s trace, exec twoTaskMachine twoTasks stopDuringReorder = some (s, trace) ∧
      s.main = [.join .processor, .join .scheduler] ∧
      NotStuck envTwo 500 (.roundRobinScheduling 0) s := by
  have hq : Quiescent envTwo.capacity (Shm.holdingTwo (cpuEntry 600) otherEntry)
      [cpuEntry 600, otherEntry] := quiescent_holdingTwo _ _
  have hmain : ((exec twoTaskMachine twoTasks stopDuringReorder).get
      stopDuringReorder_executes).1.main = [.join .processor, .join .scheduler] := by
    decide +kernel
  have hunclaimed : along twoTaskMachine unclaimed twoTasks stopDuringReorder = true := by
    decide +kernel
  exact ⟨_, _, exec_get stopDuringReorder_executes, hmain,
    never_stuck hq (exec_get stopDuringReorder_executes) hunclaimed⟩

theorem stopAfterRace_executes :
    (exec twoTaskMachine twoTasks stopAfterRace).isSome = true := by
  decide +kernel

/-- **The scheduler can get stuck.**  Both loops have found the second task and
the processor has taken it: `stop` waits for the scheduler, the scheduler for
an item, and the first task stays in its vector. -/
theorem stop_can_hang :
    ∃ s trace, exec twoTaskMachine twoTasks stopAfterRace = some (s, trace) ∧
      s.main = [.join .scheduler] ∧ (s.pc .scheduler).owned = {7} ∧
      ¬ CanGoOn envTwo 500 (.roundRobinScheduling 0) s ∧
      ¬ NotStuck envTwo 500 (.roundRobinScheduling 0) s := by
  have hmain : ((exec twoTaskMachine twoTasks stopAfterRace).get
      stopAfterRace_executes).1.main = [.join .scheduler] := by
    decide +kernel
  have howned : (((exec twoTaskMachine twoTasks stopAfterRace).get
      stopAfterRace_executes).1.pc .scheduler).owned = {7} := by
    decide +kernel
  have hjoined : (((exec twoTaskMachine twoTasks stopAfterRace).get
      stopAfterRace_executes).1.pc .processor).joinable = false := by
    decide +kernel
  have hawaits : (((exec twoTaskMachine twoTasks stopAfterRace).get
      stopAfterRace_executes).1.pc .scheduler).manager.queue.awaitsItem
        ((exec twoTaskMachine twoTasks stopAfterRace).get stopAfterRace_executes).1.shm =
          true := by
    decide +kernel
  have hstuck : ¬ CanGoOn envTwo 500 (.roundRobinScheduling 0)
      ((exec twoTaskMachine twoTasks stopAfterRace).get stopAfterRace_executes).1 :=
    not_canGoOn hmain (LoopPc.eq_off hjoined) hawaits
  exact ⟨_, _, exec_get stopAfterRace_executes, hmain, howned, hstuck,
    fun hfree => hstuck (hfree.joins .scheduler [] hmain)⟩

end TaskSheduler
