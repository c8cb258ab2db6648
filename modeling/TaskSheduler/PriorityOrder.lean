import TaskSheduler.PriorityDrift

/-!
# Priority scheduling and the order of the queue

`reorder_tasks` with `PriorityScheduling` adjusts every task and puts the
tasks back in the order in which it took them out; `select_next_task` is never
called.  So the queue comes out in order of priority exactly when the
priorities the entries are given (`agedFrom`) already stand in that order.
Nothing here depends on how `float` rounds.
-/

namespace TaskSheduler

open Programs FloatArithmetic

/-- The priorities of the entries `q`, each aged by the time between its
decoding and its update; decoding starts at clock reading `r`, the updates at
clock reading `r'`. -/
def agedFrom (env : Env) : Nat → Nat → List SharedTask → List Int32
  | _, _, [] => []
  | r, r', st :: rest =>
      dynamicPriorityOf env.float st.priority 0
        (env.clock.read r' - env.clock.read (r + 1)) st.isIoBound ::
        agedFrom env (r + 2) (r' + 1) rest

/-- The priorities stand in non-increasing order. -/
def NonIncreasing (priorities : List Int32) : Prop :=
  priorities.Pairwise fun before after => after ≤ before

instance : DecidablePred NonIncreasing := fun priorities =>
  inferInstanceAs (Decidable (priorities.Pairwise fun before after => after ≤ before))

/-- The tasks, highest priority first, equal priorities in the given order. -/
def stableByPriority (tasks : List UnixTask) : List UnixTask :=
  tasks.mergeSort fun a b => decide (b.dynamicPriority ≤ a.dynamicPriority)

/-- The entries `sts` come out in the order of the priorities of the tasks
just put back: non-increasing, equal priorities in their former order, and
first the task that `select_next_task` picks. -/
structure ByPriority (tasks : List UnixTask) (sts : List SharedTask) : Prop where
  sorted : NonIncreasing (sts.map SharedTask.priority)
  stable : List.Forall₂ Encodes (stableByPriority tasks) sts
  next : ∀ i, PriorityScheduling.selectNextTask tasks = .ok i →
    ∃ task st, tasks[i]? = some task ∧ sts.head? = some st ∧ Encodes task st

/-- The update loop gives the tasks their aged priorities. -/
theorem adjustedFrom_priorities (env : Env) (r r' : Nat) (q : List SharedTask) :
    (adjustedFrom env r' (decodedFrom env r q)).map UnixTask.dynamicPriority =
      agedFrom env r r' q := by
  induction q generalizing r r' with
  | nil => rfl
  | cons st rest ih =>
      have hkept := decoded_decodes env.float st (env.clock.read r) (env.clock.read (r + 1))
      rw [decodedFrom, adjustedFrom, List.map_cons, ih, agedFrom]
      simp only [UnixTask.adjustedAt, hkept.staticPriority, hkept.cpuUsage,
        hkept.lastExecutionTime, hkept.isIoBound]

theorem priorities_of_encodes {tasks : List UnixTask} {sts : List SharedTask}
    (h : List.Forall₂ Encodes tasks sts) :
    sts.map SharedTask.priority = tasks.map UnixTask.dynamicPriority := by
  induction h with
  | nil => rfl
  | cons hst _ ih => rw [List.map_cons, List.map_cons, hst.priority, ih]

/-- A first task that none exceeds is selected. -/
theorem selectLoop_first {highest : Int32} {rest : List UnixTask}
    (h : ∀ task ∈ rest, task.dynamicPriority ≤ highest) (selected i : Nat) :
    selectLoop selected highest i rest = selected := by
  induction rest generalizing i with
  | nil => rfl
  | cons task rest ih =>
      have hle := h task List.mem_cons_self
      rw [selectLoop, if_neg (Int32.not_lt.mpr hle)]
      exact ih (fun x hx => h x (List.mem_cons_of_mem _ hx)) (i + 1)

/-- **Entries in the order of their tasks** come out by priority exactly if
the tasks stand in that order. -/
theorem byPriority_iff {tasks : List UnixTask} {sts : List SharedTask}
    (h : List.Forall₂ Encodes tasks sts) :
    ByPriority tasks sts ↔ NonIncreasing (tasks.map UnixTask.dynamicPriority) := by
  constructor
  · intro hordered
    rw [← priorities_of_encodes h]
    exact hordered.sorted
  · intro hsorted
    have hpairs : tasks.Pairwise fun a b =>
        decide (b.dynamicPriority ≤ a.dynamicPriority) = true := by
      simpa only [NonIncreasing, List.pairwise_map, decide_eq_true_eq] using hsorted
    refine ⟨by rwa [priorities_of_encodes h], ?_, ?_⟩
    · rw [stableByPriority, List.mergeSort_of_pairwise hpairs]
      exact h
    · intro i hi
      cases h with
      | nil => cases hi
      | cons hst hrest =>
          rename_i task st rest sts
          have hfirst : ∀ x ∈ rest, x.dynamicPriority ≤ task.dynamicPriority := by
            intro x hx
            simpa only [decide_eq_true_eq] using List.rel_of_pairwise_cons hpairs hx
          simp only [PriorityScheduling.selectNextTask, selectLoop_first hfirst,
            Except.ok.injEq] at hi
          subst hi
          exact ⟨task, st, rfl, rfl, hst⟩

/-- **Priority scheduling orders the queue exactly when it is in order.**
From every queue with valid priorities, `reorder_tasks` with priority
scheduling returns, and the entries then come out by priority if and only if
the aged priorities stand in non-increasing order in the queue as it was. -/
theorem priority_scheduling_orders_iff {env : Env} (hwaits : env.WaitsSucceed) {w : World}
    {q : List SharedTask} (h : Quiescent env.capacity w.shm q) (hvalid : ValidPriorities q)
    {fuel : Nat} (hfuel : q.length < fuel) :
    ∃ w' sts, reorderTasks env .priorityScheduling fuel w = .ok () w' ∧
      Quiescent env.capacity w'.shm sts ∧
      (ByPriority (updatedFrom env .priorityScheduling (w.readings + 2 * q.length)
          (decodedFrom env w.readings q)) sts ↔
        NonIncreasing (agedFrom env w.readings (w.readings + 2 * q.length) q)) := by
  obtain ⟨sts, w', hrun, hw', hall, -⟩ :=
    reorderTasks_returns hwaits h hvalid hfuel .priorityScheduling
  refine ⟨w', sts, hrun, hw', ?_⟩
  rw [byPriority_iff hall]
  have hpriorities := adjustedFrom_priorities env w.readings (w.readings + 2 * q.length) q
  rw [← hpriorities]
  rfl

/-- On a clock that stands still, tasks not bound by I/O do not age. -/
theorem agedFrom_still {capacity : Nat} (declared : capacity ≤ countTasks) (time : Int)
    (r r' : Nat) {q : List SharedTask} (hvalid : ValidPriorities q)
    (hio : ∀ st ∈ q, st.isIoBound = false) :
    agedFrom (Env.quiet capacity declared (Clock.still time)) r r' q =
      q.map SharedTask.priority := by
  induction q generalizing r r' with
  | nil => rfl
  | cons st rest ih =>
      have hsame : dynamicPriorityOf FloatArith.exact st.priority 0 (time - time)
          st.isIoBound = st.priority :=
        (dynamicPriorityOf_drift exact_exact (hvalid st List.mem_cons_self) _ _).2.mpr
          (.inr ⟨hio st List.mem_cons_self, .inl (by omega)⟩)
      rw [agedFrom, List.map_cons, ih _ _ (fun x hx => hvalid x (List.mem_cons_of_mem _ hx))
        fun x hx => hio x (List.mem_cons_of_mem _ hx)]
      exact congrArg (· :: rest.map SharedTask.priority) hsame

/-- The surroundings of a two-slot segment whose clock stands still. -/
def envStill : Env := Env.quiet 2 two_le_countTasks (Clock.still 0)

/-- Two plain tasks, in this order, in a two-slot segment. -/
theorem envStill_two (first second : SharedTask)
    (h₁ : validPriority first.priority = true) (h₂ : validPriority second.priority = true)
    (hio₁ : first.isIoBound = false) (hio₂ : second.isIoBound = false) :
    Quiescent envStill.capacity (World.begin (Shm.holdingTwo first second)).shm
        [first, second] ∧
      ValidPriorities [first, second] ∧
      ∀ r r', agedFrom envStill r r' [first, second] = [first.priority, second.priority] := by
  have hvalid : ValidPriorities [first, second] := by
    intro st hst
    rcases List.mem_pair.mp hst with rfl | rfl <;> assumption
  have hio : ∀ st ∈ [first, second], st.isIoBound = false := by
    intro st hst
    rcases List.mem_pair.mp hst with rfl | rfl <;> assumption
  exact ⟨quiescent_holdingTwo _ _, hvalid, fun r r' => agedFrom_still _ 0 r r' hvalid hio⟩

/-- A queue with the higher priority in front comes out by priority. -/
theorem priority_scheduling_orders_in_order :
    ∃ w' sts, reorderTasks envStill .priorityScheduling 3
        (World.begin (Shm.holdingTwo (.numbered 1 10) (.numbered 2 5))) = .ok () w' ∧
      Quiescent 2 w'.shm sts ∧ NonIncreasing (sts.map SharedTask.priority) := by
  obtain ⟨hq, hvalid, haged⟩ := envStill_two (.numbered 1 10) (.numbered 2 5)
    (by decide) (by decide) rfl rfl
  have hwaits : envStill.WaitsSucceed := fun _ => rfl
  have hfuel : [SharedTask.numbered 1 10, SharedTask.numbered 2 5].length < 3 := by decide
  obtain ⟨w', sts, hrun, hw', hiff⟩ := priority_scheduling_orders_iff hwaits hq hvalid hfuel
  rw [haged] at hiff
  exact ⟨w', sts, hrun, hw', (hiff.mpr (by decide)).sorted⟩

/-- With the lower priority in front, the queue comes out the wrong way round. -/
theorem priority_scheduling_keeps_wrong_order :
    ∃ w' sts, reorderTasks envStill .priorityScheduling 3
        (World.begin (Shm.holdingTwo (.numbered 1 5) (.numbered 2 10))) = .ok () w' ∧
      Quiescent 2 w'.shm sts ∧ sts.map SharedTask.priority = [5, 10] ∧
      ¬ NonIncreasing (sts.map SharedTask.priority) := by
  obtain ⟨hq, hvalid, haged⟩ := envStill_two (.numbered 1 5) (.numbered 2 10)
    (by decide) (by decide) rfl rfl
  have hwaits : envStill.WaitsSucceed := fun _ => rfl
  have hfuel : [SharedTask.numbered 1 5, SharedTask.numbered 2 10].length < 3 := by decide
  obtain ⟨sts, w', hrun, hw', hall, -⟩ :=
    reorderTasks_returns hwaits hq hvalid hfuel .priorityScheduling
  have hpriorities : sts.map SharedTask.priority = [5, 10] :=
    (priorities_of_encodes hall).trans ((adjustedFrom_priorities _ _ _ _).trans (haged _ _))
  refine ⟨w', sts, hrun, hw', hpriorities, ?_⟩
  rw [hpriorities]
  decide

end TaskSheduler
