import TaskSheduler.TaskQueueManager

/-!
# What a lone `reorder_tasks` does

On a quiescent segment, with no failing wait and no other thread, the three
loops of `reorder_tasks` are followed one after the other:

* the drain loop decodes the entries in queue order, two clock readings each
  (`decodedFrom`, `drain_returns`);
* the update loop applies the algorithm to each task (`updatedFrom`,
  `update_returns`);
* the refill loop enqueues an entry for each task, in the same order
  (`refill_returns`).

`reorderTasks_returns` puts them together.  No step of it changes the order
of the tasks, whatever the algorithm.
-/

namespace TaskSheduler

open Programs FloatArithmetic

/-- No `sem_wait` fails. -/
def Env.WaitsSucceed (env : Env) : Prop := ∀ n, env.waitFails n = false

/-- The tasks decoded from the entries `q`, from clock reading `r` on. -/
def decodedFrom (env : Env) : Nat → List SharedTask → List UnixTask
  | _, [] => []
  | r, st :: rest =>
      decoded env.float st (env.clock.read r) (env.clock.read (r + 1)) ::
        decodedFrom env (r + 2) rest

/-- The tasks, each adjusted at its own reading, from clock reading `r` on. -/
def adjustedFrom (env : Env) : Nat → List UnixTask → List UnixTask
  | _, [] => []
  | r, task :: rest =>
      task.adjustedAt env.float (env.clock.read r) :: adjustedFrom env (r + 1) rest

/-- The tasks after the update loop, from clock reading `r` on. -/
def updatedFrom (env : Env) (algorithm : SchedulingAlgorithm) (r : Nat)
    (tasks : List UnixTask) : List UnixTask :=
  match algorithm with
  | .roundRobinScheduling _ => tasks
  | .priorityScheduling => adjustedFrom env r tasks

/-- The clock readings the update loop takes for `n` tasks. -/
def SchedulingAlgorithm.readings : SchedulingAlgorithm → Nat → Nat
  | .roundRobinScheduling _, _ => 0
  | .priorityScheduling, n => n

/-- Every entry has a valid priority. -/
def ValidPriorities (q : List SharedTask) : Prop :=
  ∀ st ∈ q, validPriority st.priority = true

theorem decodedFrom_length (env : Env) (r : Nat) (q : List SharedTask) :
    (decodedFrom env r q).length = q.length := by
  induction q generalizing r with
  | nil => rfl
  | cons st rest ih => simp only [decodedFrom, List.length_cons, ih]

theorem adjustedFrom_length (env : Env) (r : Nat) (tasks : List UnixTask) :
    (adjustedFrom env r tasks).length = tasks.length := by
  induction tasks generalizing r with
  | nil => rfl
  | cons task rest ih => simp only [adjustedFrom, List.length_cons, ih]

theorem updatedFrom_length (env : Env) (algorithm : SchedulingAlgorithm) (r : Nat)
    (tasks : List UnixTask) :
    (updatedFrom env algorithm r tasks).length = tasks.length := by
  cases algorithm with
  | roundRobinScheduling i => rfl
  | priorityScheduling => exact adjustedFrom_length env r tasks

/-! ## The three loops -/

section Loops

variable {env : Env} {w : World} {q : List SharedTask}

/-- What the drain loop keeps, with `n` entries still to come. -/
def DrainInv (env : Env) (q : List SharedTask) (r : Nat) (n : Nat) (tasks : List UnixTask)
    (w : World) : Prop :=
  ∃ rest, rest.length = n ∧ Quiescent env.capacity w.shm rest ∧ ValidPriorities rest ∧
    tasks ++ decodedFrom env w.readings rest = decodedFrom env r q ∧
    w.readings + 2 * n = r + 2 * q.length

/-- **The drain loop** empties the queue and decodes all of it. -/
theorem drain_returns (hwaits : env.WaitsSucceed) (h : Quiescent env.capacity w.shm q)
    (hvalid : ValidPriorities q) {fuel : Nat} (hfuel : q.length < fuel) :
    ∃ w', whileFuel
        (fun _ => do return !(← empty))
        (fun tasks => do return tasks ++ [← getNextTask env])
        fuel [] w = .ok (decodedFrom env w.readings q) w' ∧
      Quiescent env.capacity w'.shm [] ∧ w'.readings = w.readings + 2 * q.length := by
  have hempty : ∀ (n : Nat) (rest : List SharedTask) (s : World), rest.length = n →
      Quiescent env.capacity s.shm rest →
      (do return !(← empty) : Program World Bool) s = .ok (!(n == 0)) s := by
    intro n rest s hn hs
    subst hn
    rw [← hs.ring.count_eq]
    rfl
  have hround : ∀ n tasks s, DrainInv env q w.readings (n + 1) tasks s →
      ∃ s₁ tasks' s₂, (do return !(← empty) : Program World Bool) s = .ok true s₁ ∧
        (do return tasks ++ [← getNextTask env] : Program World (List UnixTask)) s₁ =
          .ok tasks' s₂ ∧ DrainInv env q w.readings n tasks' s₂ := by
    rintro n tasks s ⟨rest, hlen, hs, hv, htasks, hread⟩
    cases rest with
    | nil => cases hlen
    | cons st rest =>
        have hget := getNextTask_apply hs (hwaits _) (hwaits _) (hv st List.mem_cons_self)
        have hrest : ValidPriorities rest := fun x hx => hv x (List.mem_cons_of_mem _ hx)
        rw [List.length_cons] at hlen
        refine ⟨s, _, _, hempty _ (st :: rest) _ hlen hs, by rw [returns hget]; rfl, rest,
          by omega, ?_⟩
        refine ⟨hs.dequeued env.declared, hrest, ?_, ?_⟩
        · rw [List.append_assoc]
          exact htasks
        · show s.readings + 2 + 2 * n = _
          omega
  have hlast : ∀ tasks s, DrainInv env q w.readings 0 tasks s →
      ∃ s₁, (do return !(← empty) : Program World Bool) s = .ok false s₁ ∧
        DrainInv env q w.readings 0 tasks s₁ := by
    rintro tasks s ⟨rest, hlen, hs, hrest⟩
    exact ⟨s, hempty _ _ _ hlen hs, rest, hlen, hs, hrest⟩
  have hstart : DrainInv env q w.readings q.length [] w := ⟨q, rfl, h, hvalid, rfl, rfl⟩
  obtain ⟨tasks, w', hloop, rest, hlen, hw', -, htasks, hread⟩ :=
    whileFuel_returns (DrainInv env q w.readings) hround hlast hfuel hstart
  obtain rfl : rest = [] := List.eq_nil_of_length_eq_zero hlen
  have hall : tasks = decodedFrom env w.readings q := by
    simpa only [decodedFrom, List.append_nil] using htasks
  exact ⟨w', hall ▸ hloop, hw', hread⟩

/-- **The update loop** leaves the segment alone. -/
theorem update_returns (env : Env) (algorithm : SchedulingAlgorithm) (tasks : List UnixTask)
    (w : World) :
    tasks.mapM (algorithm.updateTaskPriority env) w =
      .ok (updatedFrom env algorithm w.readings tasks)
        { w with readings := w.readings + algorithm.readings tasks.length } := by
  induction tasks generalizing w with
  | nil => cases algorithm <;> rfl
  | cons task rest ih =>
      rw [List.mapM_cons]
      cases algorithm with
      | roundRobinScheduling i =>
          have hstep : (SchedulingAlgorithm.roundRobinScheduling i).updateTaskPriority env task w =
              .ok task w := rfl
          rw [returns hstep, returns (ih w)]
          rfl
      | priorityScheduling =>
          have hstep : SchedulingAlgorithm.priorityScheduling.updateTaskPriority env task w =
              .ok (task.adjustedAt env.float (env.clock.read w.readings))
                { w with readings := w.readings + 1 } := rfl
          rw [returns hstep, returns (ih _)]
          simp only [pure_apply, updatedFrom, adjustedFrom, SchedulingAlgorithm.readings,
            List.length_cons, Nat.add_assoc, Nat.add_comm 1]

/-- **The refill loop** appends an entry for each task, in order. -/
theorem refill_returns (hwaits : env.WaitsSucceed) (tasks : List UnixTask) {w : World}
    {q : List SharedTask} (h : Quiescent env.capacity w.shm q)
    (hroom : q.length + tasks.length ≤ env.capacity) :
    ∃ sts w', tasks.forM (addTask env) w = .ok () w' ∧ List.Forall₂ Encodes tasks sts ∧
      Quiescent env.capacity w'.shm (q ++ sts) ∧
      ((∀ task ∈ tasks, task.completed = false) →
        w'.readings = w.readings + tasks.length) := by
  induction tasks generalizing w q with
  | nil => exact ⟨[], w, rfl, .nil, by simpa using h, fun _ => rfl⟩
  | cons task rest ih =>
      rw [List.length_cons] at hroom
      obtain ⟨st, w₁, hadd, hkeeps, hw₁, -, hread₁⟩ :=
        addTask_returns h (by omega) (fun k _ => hwaits _) task
      obtain ⟨sts, w', hrest, hall, hw', hread⟩ := ih hw₁ (by simp; omega)
      refine ⟨st :: sts, w', ?_, .cons hkeeps hall, by simpa using hw', ?_⟩
      · show (addTask env task >>= fun _ => rest.forM (addTask env)) w = _
        rw [returns hadd, hrest]
      · intro hfresh
        have h₁ := hread₁ (hfresh task List.mem_cons_self)
        have h₂ := hread fun x hx => hfresh x (List.mem_cons_of_mem _ hx)
        rw [List.length_cons]
        omega

end Loops

/-! ## The whole call -/

/-- Decoding keeps the ids, in order. -/
theorem decodedFrom_ids (env : Env) (r : Nat) (q : List SharedTask) :
    (decodedFrom env r q).map UnixTask.id = q.map SharedTask.id := by
  induction q generalizing r with
  | nil => rfl
  | cons st rest ih =>
      rw [decodedFrom, List.map_cons, (decoded_decodes _ st _ _).id, ih, List.map_cons]

/-- Updating keeps the ids, in order. -/
theorem updatedFrom_ids (env : Env) (algorithm : SchedulingAlgorithm) (r : Nat)
    (tasks : List UnixTask) :
    (updatedFrom env algorithm r tasks).map UnixTask.id = tasks.map UnixTask.id := by
  have hadjusted : ∀ r, (adjustedFrom env r tasks).map UnixTask.id =
      tasks.map UnixTask.id := by
    induction tasks with
    | nil => exact fun _ => rfl
    | cons task rest ih => exact fun r => congrArg (task.id :: ·) (ih (r + 1))
  cases algorithm with
  | roundRobinScheduling i => rfl
  | priorityScheduling => exact hadjusted r

/-- Draining and updating keep unfinished tasks unfinished. -/
theorem updatedFrom_completed (env : Env) (algorithm : SchedulingAlgorithm) (r r' : Nat)
    {q : List SharedTask} (h : ∀ st ∈ q, st.completed = false) :
    ∀ task ∈ updatedFrom env algorithm r' (decodedFrom env r q), task.completed = false := by
  have hdecoded : ∀ r, ∀ task ∈ decodedFrom env r q, task.completed = false := by
    induction q with
    | nil => simp [decodedFrom]
    | cons st rest ih =>
        intro r task hmem
        rcases List.mem_cons.mp hmem with rfl | hmem
        · rw [(decoded_decodes _ st _ _).completed]
          exact h st List.mem_cons_self
        · exact ih (fun x hx => h x (List.mem_cons_of_mem _ hx)) _ task hmem
  have hadjusted : ∀ r (tasks : List UnixTask), (∀ task ∈ tasks, task.completed = false) →
      ∀ task ∈ adjustedFrom env r tasks, task.completed = false := by
    intro r tasks
    induction tasks generalizing r with
    | nil => simp [adjustedFrom]
    | cons first rest ih =>
        intro hall task hmem
        rcases List.mem_cons.mp hmem with rfl | hmem
        · exact hall first List.mem_cons_self
        · exact ih (r + 1) (fun x hx => hall x (List.mem_cons_of_mem _ hx)) task hmem
  cases algorithm with
  | roundRobinScheduling i => exact hdecoded r
  | priorityScheduling => exact hadjusted r' _ (hdecoded r)

section Whole

variable {env : Env} {w : World} {q : List SharedTask}

/-- **What a lone `reorder_tasks` leaves behind**: one entry for each task,
in the order of the queue, with the priorities the update loop gave. -/
theorem reorderTasks_returns (hwaits : env.WaitsSucceed)
    (h : Quiescent env.capacity w.shm q) (hvalid : ValidPriorities q) {fuel : Nat}
    (hfuel : q.length < fuel) (algorithm : SchedulingAlgorithm) :
    ∃ sts w', reorderTasks env algorithm fuel w = .ok () w' ∧
      Quiescent env.capacity w'.shm sts ∧
      List.Forall₂ Encodes
        (updatedFrom env algorithm (w.readings + 2 * q.length)
          (decodedFrom env w.readings q)) sts ∧
      ((∀ st ∈ q, st.completed = false) → w'.readings =
        w.readings + 2 * q.length + algorithm.readings q.length + q.length) := by
  obtain ⟨w₁, hdrain, hw₁, hread₁⟩ := drain_returns hwaits h hvalid hfuel
  have hupdate := update_returns env algorithm (decodedFrom env w.readings q) w₁
  rw [hread₁, decodedFrom_length] at hupdate
  have hlen : (updatedFrom env algorithm (w.readings + 2 * q.length)
      (decodedFrom env w.readings q)).length = q.length := by
    rw [updatedFrom_length, decodedFrom_length]
  obtain ⟨sts, w', hrefill, hall, hw', hread⟩ := refill_returns hwaits
    (updatedFrom env algorithm (w.readings + 2 * q.length) (decodedFrom env w.readings q))
    (w := { w₁ with readings := w.readings + 2 * q.length + algorithm.readings q.length })
    (q := []) hw₁ (by rw [hlen]; simpa using h.length_le)
  refine ⟨sts, w', ?_, hw', hall, ?_⟩
  · unfold reorderTasks
    rw [returns hdrain, returns hupdate, hrefill]
  · intro hfresh
    rw [hread (updatedFrom_completed env algorithm _ _ hfresh), hlen]

/-- The ids of the entries a lone `reorder_tasks` leaves behind. -/
theorem ids_of_encodes {tasks : List UnixTask} {sts : List SharedTask}
    (h : List.Forall₂ Encodes tasks sts) :
    sts.map SharedTask.id = tasks.map UnixTask.id := by
  induction h with
  | nil => rfl
  | cons hst _ ih => rw [List.map_cons, List.map_cons, hst.id, ih]

/-- **Reordering alone loses and duplicates nothing.**  From every ring state
between calls, with either algorithm, `reorder_tasks` returns; the queue then
has the same count and the same ids, and they are in the same order. -/
theorem reorder_alone_keeps_tasks (hwaits : env.WaitsSucceed)
    (h : Quiescent env.capacity w.shm q) (hvalid : ValidPriorities q) {fuel : Nat}
    (hfuel : q.length < fuel) (algorithm : SchedulingAlgorithm) :
    ∃ w' q', reorderTasks env algorithm fuel w = .ok () w' ∧
      Quiescent env.capacity w'.shm q' ∧ w'.shm.count = w.shm.count ∧
      (q'.map SharedTask.id).Perm (q.map SharedTask.id) ∧
      q'.map SharedTask.id = q.map SharedTask.id := by
  obtain ⟨sts, w', hrun, hw', hall, -⟩ := reorderTasks_returns hwaits h hvalid hfuel algorithm
  have hids : sts.map SharedTask.id = q.map SharedTask.id :=
    ((ids_of_encodes hall).trans (updatedFrom_ids env algorithm _ _)).trans
      (decodedFrom_ids env _ q)
  have hlen : sts.length = q.length := by
    simpa only [List.length_map] using congrArg List.length hids
  refine ⟨w', sts, hrun, hw', ?_, ?_, hids⟩
  · rw [hw'.ring.count_eq, h.ring.count_eq, hlen]
  · rw [hids]

end Whole

/-- A full two-slot ring whose front has moved on: entry 1 was taken out, and
entry 3 stands in its slot behind entry 2. -/
def wrappedRing : Shm :=
  ((((Shm.create 2).enqueued 2 (.numbered 1 4)).enqueued 2 (.numbered 2 (-9))).dequeued
    2).enqueued 2 (.numbered 3 19)

theorem quiescent_wrappedRing :
    Quiescent 2 wrappedRing [.numbered 2 (-9), .numbered 3 19] :=
  ((((quiescent_create Nat.two_pos).enqueued (by decide) Nat.two_pos _).enqueued (by decide)
    Nat.one_lt_two _).dequeued (by decide)).enqueued (by decide) Nat.one_lt_two _

/-- Reordering the wrapped ring with priority scheduling. -/
theorem reorder_alone_keeps_tasks_wrapped :
    ∃ w' q', reorderTasks (Env.quiet 2 (by decide) (Clock.still 5)) .priorityScheduling 3
        (World.begin wrappedRing) = .ok () w' ∧
      Quiescent 2 w'.shm q' ∧ q'.map SharedTask.id = [2, 3] := by
  have hwaits : (Env.quiet 2 (by decide) (Clock.still 5)).WaitsSucceed := fun _ => rfl
  have hq : Quiescent (Env.quiet 2 (by decide) (Clock.still 5)).capacity
      (World.begin wrappedRing).shm [.numbered 2 (-9), .numbered 3 19] := quiescent_wrappedRing
  have hvalid : ValidPriorities [.numbered 2 (-9), .numbered 3 19] := by
    intro st hst
    rcases List.mem_pair.mp hst with rfl | rfl <;> decide
  have hfuel : [SharedTask.numbered 2 (-9), SharedTask.numbered 3 19].length < 3 := by decide
  obtain ⟨w', q', hrun, hw', -, -, hids⟩ :=
    reorder_alone_keeps_tasks hwaits hq hvalid hfuel .priorityScheduling
  exact ⟨w', q', hrun, hw', hids⟩

end TaskSheduler
