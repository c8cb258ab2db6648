import TaskSheduler.RemainingTime

/-!
# Does the verdict of `execute` match the work left?

`CpuIntensiveTask::execute` has two exits.  The one after its loop looks at
`remaining_work_` and answers accordingly; the one inside the loop, when the
slice is used up, answers false without looking.  `TimesOutAt` is the
iteration at which the second exit is taken, a matter of the clock alone, and
`verdict_right_iff` says when the answer is right nevertheless.
-/

namespace TaskSheduler

open Programs

/-- An `execute` that takes its first reading as number `r` finds its slice
used up at iteration `i` of the loop, and not before. -/
structure TimesOutAt (env : Env) (r : Nat) (quantum : Int) (i : Nat) : Prop where
  iteration : i < cpuIterations quantum
  usedUp : quantum * 1000000 ≤ env.clock.read (r + 1 + i) - env.clock.read r
  notBefore : ∀ j < i, env.clock.read (r + 1 + j) - env.clock.read r < quantum * 1000000

/-- If the slice is used up inside the loop, the milliseconds that have passed
are fewer than the work left. -/
def WorkOutlastsSlice (env : Env) (r : Nat) (quantum remaining : Int) : Prop :=
  ∀ i, TimesOutAt env r quantum i →
    toMilliseconds (env.clock.read (r + 1 + i) - env.clock.read r) < remaining

/-- `execute` answered true exactly if no work is left, and it has left the task
completed in that case and ready otherwise. -/
structure VerdictRight (done : Bool) (task : UnixTask) (left : Int) : Prop where
  answer : done = true ↔ left ≤ 0
  completed : left ≤ 0 → task.state = .completed
  ready : ¬ left ≤ 0 → task.state = .ready

/-- Two iterations at which the slice is first used up are the same. -/
theorem TimesOutAt.unique {env : Env} {r : Nat} {quantum : Int} {i j : Nat}
    (hi : TimesOutAt env r quantum i) (hj : TimesOutAt env r quantum j) : i = j := by
  rcases Nat.lt_trichotomy i j with hlt | heq | hgt
  · exact absurd hi.usedUp (not_le.mpr (hj.notBefore i hlt))
  · exact heq
  · exact absurd hj.usedUp (not_le.mpr (hi.notBefore j hgt))

section Execute

variable {env : Env} {task : UnixTask} {total remaining : Int}

/-- **One `execute`.**  It answers rightly exactly if the work outlasts a slice
that is used up inside the loop. -/
theorem cpuExecute_verdict (hkind : task.kind = .cpuIntensiveTask total remaining)
    (quantum : Int) (w : World) :
    ∃ done task' w' left, task.execute env quantum w = .ok (done, task') w' ∧
      task'.kind = .cpuIntensiveTask total left ∧
      (VerdictRight done task' left ↔ WorkOutlastsSlice env w.readings quantum remaining) := by
  obtain ⟨result, k, hloop, hnone, -⟩ := cpuLoop_returns env (env.clock.read w.readings) quantum
    (cpuIterations quantum) { w with readings := w.readings + 1 }
  simp only [UnixTask.execute, hkind, CpuIntensiveTask.execute]
  rw [returns (now_apply env w), returns hloop]
  cases result with
  | some time =>
      -- The exit inside the loop: the answer is false whatever is left.
      obtain ⟨i, hi, rfl, -, hreach, hbefore⟩ := cpuLoop_first hloop
      have htimeout : TimesOutAt env w.readings quantum i := ⟨hi, hreach, hbefore⟩
      refine ⟨_, _, _, _, rfl, rfl, ?_⟩
      constructor
      · intro hright j hj
        obtain rfl := hj.unique htimeout
        have hleft : ¬ remaining -
            toMilliseconds (env.clock.read (w.readings + 1 + j) - env.clock.read w.readings) ≤ 0 :=
          mt hright.answer.mpr Bool.false_ne_true
        omega
      · intro houtlasts
        have hlt := houtlasts i htimeout
        have hleft : ¬ remaining -
            toMilliseconds (env.clock.read (w.readings + 1 + i) - env.clock.read w.readings) ≤ 0 :=
          by omega
        exact ⟨iff_of_false Bool.false_ne_true hleft, fun h => absurd h hleft, fun _ => rfl⟩
  | none =>
      -- The exit after the loop: the answer is read off the work left.
      have hearly := hnone.mp rfl
      simp only [bind_apply, now_apply, pure_apply]
      refine ⟨_, _, _, _, rfl, rfl, iff_of_true ?_ ?_⟩
      · refine ⟨decide_eq_true_iff, fun hleft => ?_, fun hleft => ?_⟩
        · rw [decide_eq_true hleft]
          rfl
        · rw [decide_eq_false hleft]
          rfl
      · intro i htimeout
        exact absurd htimeout.usedUp (not_le.mpr (hearly i htimeout.iteration))

/-- **When the verdict matches the work left.**  After any number of `execute`
calls on a CPU task, the next one answers true exactly if no work is left, and
leaves the task completed or ready accordingly, if and only if the work
outlasts a slice that is used up inside the loop. -/
theorem verdict_right_iff (hkind : task.kind = .cpuIntensiveTask total remaining)
    (quanta : List Int) (quantum : Int) (w : World) :
    ∃ task₁ w₁ remaining₁, executeAll env quanta task w = .ok task₁ w₁ ∧
      task₁.kind = .cpuIntensiveTask total remaining₁ ∧
      ∃ done task₂ w₂ left, task₁.execute env quantum w₁ = .ok (done, task₂) w₂ ∧
        task₂.kind = .cpuIntensiveTask total left ∧
        (VerdictRight done task₂ left ↔
          WorkOutlastsSlice env w₁.readings quantum remaining₁) := by
  obtain ⟨task₁, w₁, remaining₁, hrun, -, hkind₁, -⟩ := executeAll_deducts env quanta hkind w
  exact ⟨task₁, w₁, remaining₁, hrun, hkind₁, cpuExecute_verdict hkind₁ quantum w₁⟩

end Execute

/-- With the clock standing still no slice is used up, and the answer is right. -/
theorem verdict_right_still :
    ∃ done task' w' left, freshCpuTask.execute envOne 5 (World.begin (Shm.create 1)) =
        .ok (done, task') w' ∧
      task'.kind = .cpuIntensiveTask 100 left ∧ VerdictRight done task' left := by
  have hkind : freshCpuTask.kind = .cpuIntensiveTask 100 100 := rfl
  obtain ⟨task₁, w₁, remaining₁, hrun, -, done, task', w', left, hexecute, hleft, hiff⟩ :=
    @verdict_right_iff envOne freshCpuTask 100 100 hkind [] 5 (World.begin (Shm.create 1))
  cases hrun
  refine ⟨done, task', w', left, hexecute, hleft, hiff.mpr ?_⟩
  intro i htimeout
  exact absurd htimeout.iteration (Nat.not_lt_zero i)

/-- The surroundings of a one-slot segment whose clock gains 100 milliseconds
at each reading. -/
def envLeaping : Env :=
  Env.quiet 1 one_le_countTasks
    ⟨fun n => n * 100000000, fun m n h => by
      have hle : (m : Int) ≤ n := by exact_mod_cast h
      show (m : Int) * 100000000 ≤ n * 100000000
      omega⟩

/-- A task of 100 milliseconds that gets a slice of as many: the slice and the
work are used up together, and the answer is false. -/
theorem verdict_wrong_at_timeout :
    ∃ done task' w' left, freshCpuTask.execute envLeaping 100 (World.begin (Shm.create 1)) =
        .ok (done, task') w' ∧
      task'.kind = .cpuIntensiveTask 100 left ∧ left = 0 ∧ done = false ∧
      ¬ VerdictRight done task' left := by
  refine ⟨_, _, _, _, rfl, rfl, rfl, rfl, fun hright => ?_⟩
  exact Bool.false_ne_true (hright.answer.mpr (by decide))

end TaskSheduler
