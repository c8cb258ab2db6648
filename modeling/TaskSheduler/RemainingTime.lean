import TaskSheduler.TaskHistory
import TaskSheduler.FastPath

/-!
# Two accounts of the work that is left

A `CpuIntensiveTask` deducts the time spent in `execute` from its
`remaining_work_`; the encoder instead deducts all time since the arrival of
the task from its total time.  `stored_time_is_remaining_work_iff` says for
which clocks both come to the same number.

The encoder narrows its difference to an `int` before it cuts it at zero;
`stored_time_positive_iff` says for which differences that is harmless.
-/

namespace TaskSheduler

open Programs

/-- One `execute` after another, with the given quanta. -/
def executeAll (env : Env) : List Int → UnixTask → Program World UnixTask
  | [], task => return task
  | quantum :: rest, task => do
      let (_, task) ← task.execute env quantum
      executeAll env rest task

/-- The loop of `CpuIntensiveTask::execute` returns the first reading that reaches
the quantum, if one does, and reads no further. -/
theorem cpuLoop_first {env : Env} {start quantum time : Int} {left : Nat} {w w' : World}
    (h : cpuLoop env start quantum left w = .ok (some time) w') :
    ∃ i < left, time = env.clock.read (w.readings + i) ∧
      w'.readings = w.readings + (i + 1) ∧
      quantum * 1000000 ≤ env.clock.read (w.readings + i) - start ∧
      ∀ j < i, env.clock.read (w.readings + j) - start < quantum * 1000000 := by
  induction left generalizing w with
  | zero => cases h
  | succ left ih =>
      rw [cpuLoop, returns (now_apply env w)] at h
      by_cases hdone : quantum * 1000000 ≤ env.clock.read w.readings - start
      · rw [if_pos hdone] at h
        cases h
        exact ⟨0, Nat.succ_pos _, rfl, rfl, hdone, fun j hj => by omega⟩
      · rw [if_neg hdone] at h
        obtain ⟨i, hi, htime, hlast, hreach, hbefore⟩ := ih h
        have hshift : ∀ j, w.readings + 1 + j = w.readings + (j + 1) := fun j => by omega
        simp only [hshift] at htime hlast hreach hbefore
        refine ⟨i + 1, by omega, htime, hlast, hreach, fun j hj => ?_⟩
        cases j with
        | zero => exact not_le.mp hdone
        | succ j => exact hbefore j (by omega)

/-- Time that has passed is not negative. -/
theorem toMilliseconds_nonneg {elapsed : Int} (h : 0 ≤ elapsed) :
    0 ≤ toMilliseconds elapsed := by
  rw [toMilliseconds, Int.tdiv_eq_ediv_of_nonneg h]
  exact Int.ediv_nonneg h (by decide)

/-- An `execute` of a CPU task returns and never adds to the work left; when it
returns false, the task is completed only if it was before. -/
theorem cpuExecute_deducts (env : Env) {task : UnixTask} {total remaining : Int}
    (hkind : task.kind = .cpuIntensiveTask total remaining) (quantum : Int) (w : World) :
    ∃ done task' w' left, task.execute env quantum w = .ok (done, task') w' ∧
      task'.arrivalTime = task.arrivalTime ∧
      task'.kind = .cpuIntensiveTask total left ∧ left ≤ remaining ∧
      (done = false → task'.completed = task.completed) := by
  obtain ⟨result, k, hloop, -, -⟩ := cpuLoop_returns env (env.clock.read w.readings) quantum
    (cpuIterations quantum) { w with readings := w.readings + 1 }
  have hlater : ∀ i, 0 ≤ toMilliseconds
      (env.clock.read (w.readings + i) - env.clock.read w.readings) := by
    intro i
    have hmono := env.clock.mono (Nat.le_add_right w.readings i)
    exact toMilliseconds_nonneg (by omega)
  simp only [UnixTask.execute, hkind, CpuIntensiveTask.execute]
  rw [returns (now_apply env w), returns hloop]
  cases result with
  | some time =>
      obtain ⟨i, -, rfl, -⟩ := cpuLoop_first hloop
      have hworked := hlater (1 + i)
      rw [← Nat.add_assoc] at hworked
      exact ⟨_, _, _, _, rfl, rfl, rfl, Int.sub_le_self _ hworked, fun _ => rfl⟩
  | none =>
      have hworked := hlater (1 + k)
      rw [← Nat.add_assoc] at hworked
      simp only [bind_apply, now_apply, pure_apply]
      refine ⟨_, _, _, _, rfl, rfl, rfl, Int.sub_le_self _ hworked, fun hdone => ?_⟩
      rw [hdone]
      rfl

/-- Any number of them return as well. -/
theorem executeAll_deducts (env : Env) (quanta : List Int) {task : UnixTask}
    {total remaining : Int} (hkind : task.kind = .cpuIntensiveTask total remaining) (w : World) :
    ∃ task' w' left, executeAll env quanta task w = .ok task' w' ∧
      task'.arrivalTime = task.arrivalTime ∧
      task'.kind = .cpuIntensiveTask total left ∧ left ≤ remaining := by
  induction quanta generalizing task remaining w with
  | nil => exact ⟨task, w, remaining, rfl, rfl, hkind, le_refl _⟩
  | cons quantum rest ih =>
      obtain ⟨done, task₁, w₁, left₁, hfirst, harrival₁, hkind₁, hle₁, -⟩ :=
        cpuExecute_deducts env hkind quantum w
      obtain ⟨task', w', left, hrest, harrival, hleft, hle⟩ := ih hkind₁ w₁
      refine ⟨task', w', left, ?_, harrival.trans harrival₁, hleft, hle.trans hle₁⟩
      rw [executeAll, returns hfirst]
      exact hrest

/-- The stored time is the difference as an `int`, cut at zero. -/
theorem remainingTime_toInt (milliseconds : Int) :
    (remainingTime milliseconds).toInt = max 0 (milliseconds.bmod (2 ^ 32)) := by
  have hvalue : (Int32.ofInt milliseconds).toInt = milliseconds.bmod (2 ^ 32) :=
    Int32.toInt_ofInt
  have hzero : (0 : Int32).toInt = 0 := rfl
  unfold remainingTime
  by_cases hpos : 0 < Int32.ofInt milliseconds
  · have hlt := Int32.lt_iff_toInt_lt.mp hpos
    simp only [hpos, if_true]
    omega
  · have hle := hpos
    rw [Int32.lt_iff_toInt_lt] at hle
    simp only [hpos, if_false]
    omega

/-- While work is left, the milliseconds since the arrival are those executed;
once none is left, the total time has passed too.  Both up to multiples of
`2 ^ 32` milliseconds, the range of the stored `int`. -/
def OnlyWorkDeducted (total remaining elapsed : Int) : Prop :=
  if 0 < remaining then 2 ^ 32 ∣ elapsed - (total - remaining)
  else (elapsed - total) % 2 ^ 32 ≤ 2 ^ 31

/-- The two accounts agree exactly if only executed work was deducted. -/
theorem remainingTime_eq_iff {total remaining elapsed : Int} (hle : remaining ≤ total)
    (hmax : total < 2 ^ 31) :
    (remainingTime (total - elapsed)).toInt = max 0 remaining ↔
      OnlyWorkDeducted total remaining elapsed := by
  rw [remainingTime_toInt, OnlyWorkDeducted]
  have hmod : (total - elapsed).bmod (2 ^ 32) % 2 ^ 32 = (total - elapsed) % 2 ^ 32 :=
    Int.bmod_emod
  have hlo : -(2 ^ 31) ≤ (total - elapsed).bmod (2 ^ 32) := Int.le_bmod (by decide)
  have hhi : (total - elapsed).bmod (2 ^ 32) < 2 ^ 31 := Int.bmod_lt (by decide)
  by_cases hpos : 0 < remaining
  · rw [if_pos hpos]
    omega
  · rw [if_neg hpos]
    omega

/-- **The stored time is the remaining work exactly if only executed work was
deducted.**  A CPU task constructed with a duration of up to `INT_MAX`
milliseconds and executed any number of times with any quanta ends with some
remaining work; if it is not completed, the encoder stores just that (or 0) if
and only if no millisecond between construction and encoding was idle. -/
theorem stored_time_is_remaining_work_iff (env : Env) (id : Int32) {duration : Int}
    (hmax : duration < 2 ^ 31) (quanta : List Int) (w : World) :
    ∃ task w₁ remaining,
      (CpuIntensiveTask.construct env id duration >>= executeAll env quanta) w =
        .ok task w₁ ∧
      task.kind = .cpuIntensiveTask duration remaining ∧
      ∀ dst, ∃ st w₂, convertToSharedTask env task dst w₁ = .ok st w₂ ∧
        (task.completed = false →
          (st.remainingTimeMs.toInt = max 0 remaining ↔
            OnlyWorkDeducted duration remaining
              (toMilliseconds (env.clock.read w₁.readings - env.clock.read w.readings)))) := by
  have hconstruct : CpuIntensiveTask.construct env id duration w =
      .ok (CpuIntensiveTask.built id duration (env.clock.read w.readings))
        { w with readings := w.readings + 1 } := rfl
  have hkind : (CpuIntensiveTask.built id duration (env.clock.read w.readings)).kind =
      .cpuIntensiveTask duration duration := rfl
  obtain ⟨task, w₁, remaining, hrun, harrival, hleft, hle⟩ :=
    executeAll_deducts env quanta hkind { w with readings := w.readings + 1 }
  refine ⟨task, w₁, remaining, (returns hconstruct).trans hrun, hleft, fun dst => ?_⟩
  obtain ⟨r, t, hencode, -⟩ := convertToSharedTask_apply env w₁ task dst
  refine ⟨_, _, hencode, fun hdone => ?_⟩
  have htotal : task.totalTimeIn env w₁ = duration := totalTimeIn_cpu hleft
  have hstored : (encoded env w₁ task dst).remainingTimeMs = remainingTime (duration -
      toMilliseconds (env.clock.read w₁.readings - env.clock.read w.readings)) := by
    simp only [encoded, hdone, Bool.false_eq_true, if_false, htotal, harrival]
    rfl
  rw [hstored]
  exact remainingTime_eq_iff hle hmax

/-- The surroundings of a one-slot segment whose clock gains a millisecond at
each reading. -/
def envTicking : Env :=
  Env.quiet 1 one_le_countTasks
    ⟨fun n => n * 1000000, fun m n h => by
      have hle : (m : Int) ≤ n := by exact_mod_cast h
      show (m : Int) * 1000000 ≤ n * 1000000
      omega⟩

/-- Encoded when the clock still shows its arrival, the task has lost nothing. -/
theorem stored_time_is_remaining_work_at_once :
    ∃ task w₁ st w₂, CpuIntensiveTask.construct envOne 7 100
        (World.begin (Shm.create 1)) = .ok task w₁ ∧
      convertToSharedTask envOne task SharedTask.zeroed w₁ = .ok st w₂ ∧
      st.remainingTimeMs.toInt = 100 := by
  have hmax : (100 : Int) < 2 ^ 31 := by decide
  obtain ⟨task, w₁, remaining, hrun, hkind, hencode⟩ :=
    stored_time_is_remaining_work_iff envOne 7 hmax [] (World.begin (Shm.create 1))
  cases hrun
  cases hkind
  obtain ⟨st, w₂, hst, hiff⟩ := hencode SharedTask.zeroed
  refine ⟨_, _, st, w₂, rfl, hst, (hiff rfl).mpr ?_⟩
  exact ⟨0, by decide⟩

/-- Encoded a millisecond after its construction, with no `execute` between, it
has lost that millisecond. -/
theorem stored_time_loses_idle_time :
    ∃ task w₁ st w₂, (CpuIntensiveTask.construct envTicking 7 100 >>= executeAll envTicking [])
        (World.begin (Shm.create 1)) = .ok task w₁ ∧
      task.completed = false ∧ task.kind = .cpuIntensiveTask 100 100 ∧
      convertToSharedTask envTicking task SharedTask.zeroed w₁ = .ok st w₂ ∧
      st.remainingTimeMs.toInt = 99 :=
  ⟨_, _, _, _, rfl, rfl, rfl, rfl, by decide⟩

/-! ## Narrowing to `int` -/

/-- What the entry should hold for a time left of `difference` milliseconds:
the time itself, cut at zero, if an `int` can hold it, and at any rate
something positive as long as time is left. -/
def HoldsTimeLeft (stored : Int32) (difference : Int) : Prop :=
  (max 0 difference < 2 ^ 31 → stored.toInt = max 0 difference) ∧
    (0 < difference → 0 < stored.toInt)

/-- The low 32 bits of the difference are a positive `int` exactly if the
difference is positive. -/
def KeepsSign (difference : Int) : Prop :=
  (0 < difference % 2 ^ 32 ∧ difference % 2 ^ 32 < 2 ^ 31) ↔ 0 < difference

theorem remainingTime_holds_iff (difference : Int) :
    HoldsTimeLeft (remainingTime difference) difference ↔ KeepsSign difference := by
  rw [HoldsTimeLeft, KeepsSign, remainingTime_toInt]
  have hmod : difference.bmod (2 ^ 32) % 2 ^ 32 = difference % 2 ^ 32 := Int.bmod_emod
  have hlo : -(2 ^ 31) ≤ difference.bmod (2 ^ 32) := Int.le_bmod (by decide)
  have hhi : difference.bmod (2 ^ 32) < 2 ^ 31 := Int.bmod_lt (by decide)
  omega

/-- **When the stored time does not wrap.**  A CPU task that is not completed is
stored with its total time less the milliseconds since its arrival, cut at
zero, or with something positive where an `int` cannot hold that, if and only
if narrowing the difference to an `int` keeps its sign.  (The source takes the
difference in 64 bits, which is exact as long as it does not overflow.) -/
theorem stored_time_positive_iff (env : Env) {task : UnixTask} {total remaining : Int}
    (hkind : task.kind = .cpuIntensiveTask total remaining) (hopen : task.completed = false)
    (dst : SharedTask) (w : World) :
    ∃ st w', convertToSharedTask env task dst w = .ok st w' ∧
      (HoldsTimeLeft st.remainingTimeMs
          (total - toMilliseconds (env.clock.read w.readings - task.arrivalTime)) ↔
        KeepsSign (total - toMilliseconds (env.clock.read w.readings - task.arrivalTime))) := by
  obtain ⟨r, t, hencode, -⟩ := convertToSharedTask_apply env w task dst
  have htotal : task.totalTimeIn env w = total := totalTimeIn_cpu hkind
  have hstored : (encoded env w task dst).remainingTimeMs = remainingTime (total -
      toMilliseconds (env.clock.read w.readings - task.arrivalTime)) := by
    simp only [encoded, hopen, Bool.false_eq_true, if_false, htotal]
  refine ⟨_, _, hencode, ?_⟩
  rw [hstored]
  exact remainingTime_holds_iff _

/-- A task of 100 milliseconds, encoded at once. -/
theorem stored_time_positive_fresh :
    ∃ st w', convertToSharedTask envOne freshCpuTask SharedTask.zeroed
        (World.begin (Shm.create 1)) = .ok st w' ∧ HoldsTimeLeft st.remainingTimeMs 100 := by
  have hkind : freshCpuTask.kind = .cpuIntensiveTask 100 100 := rfl
  obtain ⟨st, w', hencode, hiff⟩ := stored_time_positive_iff envOne hkind rfl SharedTask.zeroed
    (World.begin (Shm.create 1))
  have hsign : KeepsSign 100 := by unfold KeepsSign; decide
  exact ⟨st, w', hencode, hiff.mpr hsign⟩

/-- A task of `2 ^ 31` milliseconds, encoded at once, is stored with no time left. -/
theorem stored_time_wraps :
    ∃ task w₁ st w₂, CpuIntensiveTask.construct envOne 7 (2 ^ 31)
        (World.begin (Shm.create 1)) = .ok task w₁ ∧
      convertToSharedTask envOne task SharedTask.zeroed w₁ = .ok st w₂ ∧
      st.remainingTimeMs = 0 ∧ ¬ HoldsTimeLeft st.remainingTimeMs (2 ^ 31) := by
  refine ⟨_, _, _, _, rfl, rfl, by decide, fun hholds => ?_⟩
  exact absurd (hholds.2 (by decide)) (by decide)

end TaskSheduler
