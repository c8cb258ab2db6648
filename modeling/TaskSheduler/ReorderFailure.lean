import TaskSheduler.ReorderTasks

/-!
# What an exception in `reorder_tasks` leaves in the queue

`reorder_tasks` holds the tasks in a local vector between its drain and its
refill, and an exception destroys the vector.  `drain_spec` and `refill_spec`
follow the two loops to every point at which a wait fails or the decoder
rejects an entry; the update loop throws nothing.  Nothing is lost at the
first point, the waits of the first `dequeue`, and at the last, the `print`
after the last `enqueue`; something is lost at all others.
-/

namespace TaskSheduler

open Programs

/-- The drain loop of `reorder_tasks`. -/
def drain (env : Env) (fuel : Nat) (tasks : List UnixTask) :
    Program World (List UnixTask) :=
  whileFuel
    (fun _ => do return !(← empty))
    (fun tasks => do return tasks ++ [← getNextTask env])
    fuel tasks

/-- `reorder_tasks` by its three loops. -/
theorem reorderTasks_eq (env : Env) (algorithm : SchedulingAlgorithm) (fuel : Nat) :
    reorderTasks env algorithm fuel = (do
      let tasks ← drain env fuel []
      let tasks ← tasks.mapM (algorithm.updateTaskPriority env)
      tasks.forM (addTask env)) := rfl

/-- The next `n` waits succeed. -/
def WaitsOk (env : Env) (w : World) (n : Nat) : Prop :=
  ∀ k < n, env.waitFails (w.waits + k) = false

/-- One of the two waits of the next call fails. -/
def FirstFails (env : Env) (w : World) : Prop :=
  env.waitFails w.waits = true ∨ env.waitFails (w.waits + 1) = true

section Loops

variable {env : Env} {w : World} {q : List SharedTask}

/-- Waits that succeed, and then more of them. -/
theorem waitsOk_add {w' : World} {m n : Nat} (hcalls : w'.waits = w.waits + m) :
    WaitsOk env w (m + n) ↔ WaitsOk env w m ∧ WaitsOk env w' n := by
  constructor
  · intro h
    refine ⟨fun k hk => h k (by omega), fun k hk => ?_⟩
    rw [hcalls, Nat.add_assoc]
    exact h (m + k) (by omega)
  · intro h k hk
    by_cases hlt : k < m
    · exact h.1 k hlt
    · have hlater := h.2 (k - m) (by omega)
      rw [hcalls] at hlater
      have hsame : w.waits + m + (k - m) = w.waits + k := by omega
      rwa [hsame] at hlater

/-- The loop's condition, on a queue that is not empty. -/
theorem drain_step {st : SharedTask} (h : Quiescent env.capacity w.shm (st :: q)) (fuel : Nat)
    (tasks : List UnixTask) :
    drain env (fuel + 1) tasks w =
      (getNextTask env >>= fun task => drain env fuel (tasks ++ [task])) w := by
  have hcount : w.shm.count = q.length + 1 := h.ring.count_eq
  have hcond : (do return !(← empty) : Program World Bool) w =
      .ok (!(w.shm.count == 0)) w := rfl
  have htrue : (!(q.length + 1 == 0)) = true := rfl
  rw [hcount, htrue] at hcond
  unfold drain
  rw [whileFuel, returns hcond, if_pos rfl]
  cases hget : getNextTask env w with
  | ok task w' =>
      have hbody : (do return tasks ++ [← getNextTask env] : Program World (List UnixTask)) w =
          .ok (tasks ++ [task]) w' := returns hget
      rw [returns hbody, returns hget]
  | error e w' =>
      have hbody : (do return tasks ++ [← getNextTask env] : Program World (List UnixTask)) w =
          .error e w' := stops hget
      rw [stops hbody, stops hget]

/-- How a drain that returns leaves things. -/
structure Drained (env : Env) (w : World) (q : List SharedTask) (tasks tasks' : List UnixTask)
    (w' : World) : Prop where
  queue : Quiescent env.capacity w'.shm []
  waits : w'.waits = w.waits + 2 * q.length
  waitsOk : WaitsOk env w (2 * q.length)
  valid : ValidPriorities q
  ids : tasks'.map UnixTask.id = tasks.map UnixTask.id ++ q.map SharedTask.id

/-- How a drain that throws leaves things: some entries are gone, or none, if
the first `dequeue` has failed. -/
structure DrainFailed (env : Env) (w : World) (q : List SharedTask) (w' : World) : Prop where
  queue : ∃ q', Quiescent env.capacity w'.shm q' ∧ q'.length ≤ q.length ∧
    (FirstFails env w → q' = q) ∧ (q'.length = q.length → FirstFails env w)
  failed : ¬ (ValidPriorities q ∧ WaitsOk env w (2 * q.length))

/-- The two waits of the next call succeed if neither fails. -/
theorem waitsOk_two (h : env.waitFails w.waits = false ∧ env.waitFails (w.waits + 1) = false) :
    WaitsOk env w 2 ∧ ¬ FirstFails env w := by
  constructor
  · intro k hk
    obtain rfl | rfl : k = 0 ∨ k = 1 := by omega
    · exact h.1
    · exact h.2
  · intro hfails
    rcases hfails with hfails | hfails
    · simp [h.1] at hfails
    · simp [h.2] at hfails

/-- The three waits of an `add_task` succeed. -/
theorem waitsOk_three
    (h : env.waitFails w.waits = false ∧ env.waitFails (w.waits + 1) = false)
    (hprint : env.waitFails (w.waits + 2) = false) : WaitsOk env w 3 := by
  intro k hk
  obtain rfl | rfl | rfl : k = 0 ∨ k = 1 ∨ k = 2 := by omega
  · exact h.1
  · exact h.2
  · exact hprint

/-- If one of them fails, not all of two or more succeed. -/
theorem not_waitsOk (h : FirstFails env w) {n : Nat} (hn : 2 ≤ n) : ¬ WaitsOk env w n := by
  intro hgood
  have h₀ : env.waitFails w.waits = false := hgood 0 (by omega)
  have h₁ := hgood 1 (by omega)
  exact (waitsOk_two ⟨h₀, h₁⟩).2 h

theorem two_mul_cons (st : SharedTask) (rest : List SharedTask) :
    2 * (st :: rest).length = 2 + 2 * rest.length := by
  rw [List.length_cons]
  omega

section Cons

variable {w₁ w' : World} {st : SharedTask} {rest : List SharedTask}

/-- The drain returns after its first entry. -/
theorem Drained.cons {tasks tasks' : List UnixTask} {task : UnixTask}
    (hok : env.waitFails w.waits = false ∧ env.waitFails (w.waits + 1) = false)
    (hcalls : w₁.waits = w.waits + 2) (hvalid : validPriority st.priority = true)
    (hid : task.id = st.id) (h : Drained env w₁ rest (tasks ++ [task]) tasks' w') :
    Drained env w (st :: rest) tasks tasks' w' := by
  refine ⟨h.queue, ?_, ?_, ?_, ?_⟩
  · rw [h.waits, hcalls, two_mul_cons]
    omega
  · rw [two_mul_cons]
    exact (waitsOk_add hcalls).mpr ⟨(waitsOk_two hok).1, h.waitsOk⟩
  · intro x hx
    rcases List.mem_cons.mp hx with rfl | hx
    · exact hvalid
    · exact h.valid x hx
  · rw [h.ids, List.map_append, List.append_assoc, List.map_cons, List.map_nil, hid]
    rfl

/-- The drain throws after its first entry. -/
theorem DrainFailed.cons
    (hok : env.waitFails w.waits = false ∧ env.waitFails (w.waits + 1) = false)
    (hcalls : w₁.waits = w.waits + 2) (h : DrainFailed env w₁ rest w') :
    DrainFailed env w (st :: rest) w' := by
  obtain ⟨q', hq', hle, -, -⟩ := h.queue
  refine ⟨⟨q', hq', ?_, fun hfails => absurd hfails (waitsOk_two hok).2, ?_⟩, ?_⟩
  · rw [List.length_cons]
    omega
  · intro hlong
    rw [List.length_cons] at hlong
    omega
  · intro hgood
    rw [two_mul_cons] at hgood
    have hlater := ((waitsOk_add hcalls).mp hgood.2).2
    exact h.failed ⟨fun x hx => hgood.1 x (List.mem_cons_of_mem _ hx), hlater⟩

/-- The waits of the first `dequeue` fail. -/
theorem DrainFailed.first (hfail : FirstFails env w)
    (h : Quiescent env.capacity w'.shm (st :: rest)) : DrainFailed env w (st :: rest) w' := by
  refine ⟨⟨_, h, le_refl _, fun _ => rfl, fun _ => hfail⟩, fun hgood => ?_⟩
  rw [two_mul_cons] at hgood
  exact not_waitsOk hfail (by omega) hgood.2

/-- The decoder rejects the first entry. -/
theorem DrainFailed.rejected
    (hok : env.waitFails w.waits = false ∧ env.waitFails (w.waits + 1) = false)
    (hinvalid : validPriority st.priority = false) (h : Quiescent env.capacity w'.shm rest) :
    DrainFailed env w (st :: rest) w' := by
  refine ⟨⟨rest, h, by simp, fun hfails => absurd hfails (waitsOk_two hok).2, ?_⟩, ?_⟩
  · intro hlen
    simp at hlen
  · intro hgood
    have hvalid := hgood.1 st List.mem_cons_self
    simp [hinvalid] at hvalid

end Cons

/-- Draining an empty queue returns at once. -/
theorem drain_nil (h : Quiescent env.capacity w.shm []) (fuel : Nat) (tasks : List UnixTask) :
    drain env (fuel + 1) tasks w = .ok tasks w := by
  have hcount : w.shm.count = 0 := h.ring.count_eq
  have hcond : (do return !(← empty) : Program World Bool) w = .ok (!(w.shm.count == 0)) w :=
    rfl
  have hfalse : (!((0 : Nat) == 0)) = false := rfl
  rw [hcount, hfalse] at hcond
  unfold drain
  rw [whileFuel, returns hcond, if_neg (by decide)]
  rfl

/-- **Every way the drain loop can end**, by induction on the queue. -/
theorem drain_spec (h : Quiescent env.capacity w.shm q) (fuel : Nat) (tasks : List UnixTask) :
    (∀ tasks' w', drain env fuel tasks w = .ok tasks' w' → Drained env w q tasks tasks' w') ∧
      ∀ message w', drain env fuel tasks w = .error (.thrown message) w' →
        DrainFailed env w q w' := by
  induction q generalizing w fuel tasks with
  | nil =>
      cases fuel with
      | zero => exact ⟨fun _ _ hrun => (by cases hrun), fun _ _ hrun => (by cases hrun)⟩
      | succ fuel =>
          rw [drain_nil h]
          refine ⟨fun tasks' w' hrun => ?_, fun message w' hrun => by cases hrun⟩
          cases hrun
          refine ⟨h, rfl, fun k hk => absurd hk (Nat.not_lt_zero k), ?_, ?_⟩
          · intro st hst
            cases hst
          · exact (List.append_nil _).symm
  | cons st rest ih =>
      cases fuel with
      | zero => exact ⟨fun _ _ hrun => (by cases hrun), fun _ _ hrun => (by cases hrun)⟩
      | succ fuel =>
          rw [drain_step h]
          obtain ⟨w₁, hends⟩ := getNextTask_cases h
          rcases hends with ⟨hfail, ⟨message, hthrow⟩, hshm⟩ | ⟨hok, hrest, hcalls, hends⟩
          · rw [stops hthrow]
            refine ⟨fun tasks' w' hrun => (by cases hrun), fun message' w' hrun => ?_⟩
            cases hrun
            exact .first hfail (hshm ▸ h)
          · rcases hends with ⟨hinvalid, message, hthrow⟩ | ⟨hvalid, hreturn⟩
            · rw [stops hthrow]
              refine ⟨fun tasks' w' hrun => (by cases hrun), fun message' w' hrun => ?_⟩
              cases hrun
              exact .rejected hok hinvalid hrest
            · rw [returns hreturn]
              obtain ⟨hreturned, hthrown⟩ := ih hrest fuel
                (tasks ++ [decoded env.float st (env.clock.read w.readings)
                  (env.clock.read (w.readings + 1))])
              have hid := (decoded_decodes env.float st (env.clock.read w.readings)
                (env.clock.read (w.readings + 1))).id
              refine ⟨fun tasks' w' hrun => ?_, fun message w' hrun => ?_⟩
              · exact .cons hok hcalls hvalid hid (hreturned tasks' w' hrun)
              · exact .cons hok hcalls (hthrown message w' hrun)

/-- **Where the refill loop can throw.**  It leaves the first of its tasks in
the queue, and all of them exactly if only the last wait fails, that of the
last `print`. -/
theorem refill_spec {tasks : List UnixTask} (h : Quiescent env.capacity w.shm q)
    (hroom : q.length + tasks.length ≤ env.capacity) {message : String} {w' : World}
    (hrun : tasks.forM (addTask env) w = .error (.thrown message) w') :
    ∃ sts, Quiescent env.capacity w'.shm (q ++ sts) ∧
      sts.map SharedTask.id <+: tasks.map UnixTask.id ∧
      (sts.length = tasks.length ↔ WaitsOk env w (3 * tasks.length - 1)) := by
  induction tasks generalizing w q with
  | nil => cases hrun
  | cons task rest ih =>
      rw [List.length_cons] at hroom
      have hstep : (addTask env task >>= fun _ => rest.forM (addTask env)) w =
          .error (.thrown message) w' := hrun
      obtain ⟨w₁, -, -, hends⟩ := addTask_cases h (by omega) task
      rcases hends with ⟨hfail, ⟨message', hthrow⟩, hshm⟩ | ⟨hok, hstored, hcalls, hends⟩
      · rw [stops hthrow] at hstep
        cases hstep
        refine ⟨[], by simpa [hshm] using h, List.nil_prefix, iff_of_false (by simp) ?_⟩
        exact not_waitsOk hfail (by rw [List.length_cons]; omega)
      · have hid := storedEntry_id env w task
        rcases hends with ⟨hprint, message', hthrow⟩ | ⟨hprint, hreturn⟩
        · rw [stops hthrow] at hstep
          cases hstep
          refine ⟨[storedEntry env w task], hstored, ?_, ?_⟩
          · exact ⟨rest.map UnixTask.id, by rw [List.map_singleton, hid]; rfl⟩
          · cases rest with
            | nil => exact iff_of_true rfl (waitsOk_two hok).1
            | cons next rest =>
                refine iff_of_false (by simp) fun hgood => ?_
                have hlast := hgood 2 (by simp only [List.length_cons]; omega)
                simp [hprint] at hlast
        · rw [returns hreturn] at hstep
          obtain ⟨sts, hqueue, hprefix, hiff⟩ := ih hstored (by simp; omega) hstep
          refine ⟨storedEntry env w task :: sts, by simpa using hqueue, ?_, ?_⟩
          · rw [List.map_cons, List.map_cons, hid]
            exact (List.prefix_cons_inj _).mpr hprefix
          · have hne : rest ≠ [] := by
              intro hnil
              rw [hnil] at hstep
              cases hstep
            have hpos := List.length_pos_iff.mpr hne
            have hsplit : 3 * (task :: rest).length - 1 = 3 + (3 * rest.length - 1) := by
              rw [List.length_cons]
              omega
            rw [hsplit, waitsOk_add hcalls, List.length_cons, List.length_cons,
              Nat.add_right_cancel_iff, hiff]
            constructor
            · intro hlater
              exact ⟨waitsOk_three hok hprint, hlater⟩
            · intro hall
              exact hall.2

end Loops

/-! ## The whole call -/

/-- The waits of the first `dequeue` fail, or nothing goes wrong before the
last wait: each entry costs two waits in the drain and three in the refill. -/
def KeepsAll (env : Env) (w : World) (q : List SharedTask) : Prop :=
  FirstFails env w ∨ ValidPriorities q ∧ WaitsOk env w (5 * q.length - 1)

/-- A drain that fails keeps all the entries only at its first `dequeue`. -/
theorem DrainFailed.keeps_iff {env : Env} {w w' : World} {q : List SharedTask}
    (h : DrainFailed env w q w') :
    ∃ q', Quiescent env.capacity w'.shm q' ∧
      ((q.map SharedTask.id).Subperm (q'.map SharedTask.id) ↔ KeepsAll env w q) := by
  obtain ⟨q', hq', hle, hfirst, hall⟩ := h.queue
  refine ⟨q', hq', ?_⟩
  constructor
  · intro hkept
    have hlen := hkept.length_le
    rw [List.length_map, List.length_map] at hlen
    exact .inl (hall (by omega))
  · intro hkeeps
    rcases hkeeps with hfails | ⟨hvalid, hgood⟩
    · rw [hfirst hfails]
    · exact absurd ⟨hvalid, fun k hk => hgood k (by omega)⟩ h.failed

/-- After a drain that returns, the refill must get to the last wait. -/
theorem Drained.keepsAll_iff {env : Env} {w w' : World} {q : List SharedTask}
    {tasks tasks' : List UnixTask} (h : Drained env w q tasks tasks' w') (hne : q ≠ []) :
    KeepsAll env w q ↔ WaitsOk env w' (3 * q.length - 1) := by
  have hpos := List.length_pos_iff.mpr hne
  have hsplit : 5 * q.length - 1 = 2 * q.length + (3 * q.length - 1) := by omega
  have hstart : ¬ FirstFails env w := by
    intro hfails
    exact not_waitsOk hfails (by omega) h.waitsOk
  unfold KeepsAll
  rw [hsplit, waitsOk_add h.waits]
  constructor
  · intro hkeeps
    exact (hkeeps.resolve_left hstart).2.2
  · intro hlast
    exact .inr ⟨h.valid, h.waitsOk, hlast⟩

/-- **When a `reorder_tasks` that throws has kept every task.** -/
theorem failed_reorder_keeps_iff {env : Env} {w : World} {q : List SharedTask}
    (h : Quiescent env.capacity w.shm q) {algorithm : SchedulingAlgorithm} {fuel : Nat}
    {message : String} {w' : World}
    (hthrow : reorderTasks env algorithm fuel w = .error (.thrown message) w') :
    ∃ q', Quiescent env.capacity w'.shm q' ∧
      ((q.map SharedTask.id).Subperm (q'.map SharedTask.id) ↔ KeepsAll env w q) := by
  obtain ⟨hreturned, hthrown⟩ := drain_spec h fuel []
  rw [reorderTasks_eq] at hthrow
  cases hdrain : drain env fuel [] w with
  | error e w₁ =>
      rw [stops hdrain] at hthrow
      cases hthrow
      exact (hthrown message w' hdrain).keeps_iff
  | ok tasks w₁ =>
      have hdrained := hreturned tasks w₁ hdrain
      have hids := hdrained.ids
      rw [returns hdrain, returns (update_returns env algorithm tasks w₁)] at hthrow
      have hlen : tasks.length = q.length := by
        simpa using congrArg List.length hids
      have hroom : q.length ≤ env.capacity := by
        have := h.slots
        omega
      obtain ⟨sts, hq', hprefix, hiff⟩ := refill_spec
        (w := { w₁ with readings := w₁.readings + algorithm.readings tasks.length })
        hdrained.queue (by rw [updatedFrom_length, hlen]; simpa using hroom) hthrow
      rw [updatedFrom_ids, hids, List.map_nil, List.nil_append] at hprefix
      rw [updatedFrom_length, hlen] at hiff
      refine ⟨sts, hq', ?_⟩
      cases q with
      | nil =>
          exact iff_of_true List.nil_subperm (.inr ⟨hdrained.valid, fun k hk => by cases hk⟩)
      | cons st rest =>
          rw [hdrained.keepsAll_iff (List.cons_ne_nil st rest)]
          constructor
          · intro hkept
            have hmost := hkept.length_le
            have hleast := hprefix.length_le
            rw [List.length_map, List.length_map] at hmost hleast
            exact hiff.mp (by omega)
          · intro hgood
            have hall := hiff.mpr hgood
            have hsame : sts.map SharedTask.id = (st :: rest).map SharedTask.id :=
              hprefix.eq_of_length (by rw [List.length_map, List.length_map, hall])
            rw [hsame]

/-- The surroundings of a two-slot segment in which the `n`-th wait fails. -/
def envFailingAt (n : Nat) : Env := { envTwo with waitFails := fun k => k == n }

/-- The first wait fails, and both tasks are still there. -/
theorem failed_reorder_keeps_at_once :
    ∃ message w' q', reorderTasks (envFailingAt 0) .priorityScheduling 3
        (World.begin (Shm.holdingTwo (.numbered 1 0) (.numbered 2 0))) =
          .error (.thrown message) w' ∧
      Quiescent 2 w'.shm q' ∧ ([1, 2] : List Int32).Subperm (q'.map SharedTask.id) := by
  have hq : Quiescent (envFailingAt 0).capacity
      (World.begin (Shm.holdingTwo (.numbered 1 0) (.numbered 2 0))).shm
      [.numbered 1 0, .numbered 2 0] := quiescent_holdingTwo _ _
  have hthrow : ∃ message w', reorderTasks (envFailingAt 0) .priorityScheduling 3
      (World.begin (Shm.holdingTwo (.numbered 1 0) (.numbered 2 0))) =
        .error (.thrown message) w' := ⟨_, _, rfl⟩
  obtain ⟨message, w', hthrow⟩ := hthrow
  obtain ⟨q', hq', hiff⟩ := failed_reorder_keeps_iff hq hthrow
  exact ⟨message, w', q', hthrow, hq', hiff.mpr (.inl (.inl rfl))⟩

/-- The second `dequeue` fails, and the first task is gone. -/
theorem failed_reorder_loses_first :
    ∃ message w', reorderTasks (envFailingAt 2) .priorityScheduling 3
        (World.begin (Shm.holdingTwo (.numbered 1 0) (.numbered 2 0))) =
          .error (.thrown message) w' ∧
      Quiescent 2 w'.shm [.numbered 2 0] ∧ ¬ ([1, 2] : List Int32).Subperm [2] := by
  have hq : Quiescent (envFailingAt 2).capacity
      (World.begin (Shm.holdingTwo (.numbered 1 0) (.numbered 2 0))).shm
      [.numbered 1 0, .numbered 2 0] := quiescent_holdingTwo _ _
  refine ⟨_, _, rfl, hq.dequeued (by decide), ?_⟩
  intro hkept
  have hlen := hkept.length_le
  simp at hlen

end TaskSheduler
