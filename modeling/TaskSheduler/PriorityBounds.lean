import TaskSheduler.PrioritySelection

/-!
# The adjusted priority is bounded and monotone

With exact arithmetic `adjust_dynamic_priority` truncates and clamps a sum: the
static priority, a share of the CPU usage, less the deductions for a wait and
for I/O.  Truncation and clamping keep the order, so the priority moves with
each of the four inputs as the sum does.  The call also resets the CPU usage
and the last execution, so that the next one depends on the other two inputs
and on the wait between the calls only.
-/

namespace TaskSheduler

open Programs FloatArithmetic

/-- The inputs of an adjustment at `time`: a valid static priority, a CPU usage
that is a share, and a last execution that is over. -/
structure Adjustable (task : UnixTask) (time : Int) : Prop where
  staticPriority : validPriority task.staticPriority = true
  usage_nonneg : 0 ≤ task.cpuUsage
  usage_le_one : task.cpuUsage ≤ 1
  waited : task.lastExecutionTime ≤ time

/-- Each input of the first adjustment speaks for a priority at most that of the
second: static priority and CPU usage are not higher, the wait is not shorter,
and the first task is bound by I/O unless the second is not. -/
structure NoHigher (first : UnixTask) (time : Int) (second : UnixTask) (time' : Int) :
    Prop where
  staticPriority : first.staticPriority.toInt ≤ second.staticPriority.toInt
  cpuUsage : first.cpuUsage ≤ second.cpuUsage
  waited : time' - second.lastExecutionTime ≤ time - first.lastExecutionTime
  isIoBound : first.isIoBound = true ∨ second.isIoBound = false

/-- The sum of an adjustable task is in the range of `int`. -/
theorem Adjustable.fits {task : UnixTask} {time : Int} (h : Adjustable task time) :
    FloatArith.Fits (task.sumAt time) :=
  fits_prioritySum h.staticPriority h.usage_nonneg h.usage_le_one _ _

/-- The sums stand as their inputs do. -/
theorem NoHigher.sumAt_le {first second : UnixTask} {time time' : Int}
    (h : NoHigher first time second time') : first.sumAt time ≤ second.sumAt time' := by
  have hstatic : (first.staticPriority.toInt : ℚ) ≤ second.staticPriority.toInt := by
    exact_mod_cast h.staticPriority
  have husage := h.cpuUsage
  have hdeduction := deduction_mono h.waited h.isIoBound
  unfold UnixTask.sumAt prioritySum
  linarith

/-- **The adjustment is monotone** in each of its inputs. -/
theorem adjusted_mono {float : FloatArith} (hexact : float.Exact) {first second : UnixTask}
    {time time' : Int} (hfirst : Adjustable first time) (hsecond : Adjustable second time')
    (h : NoHigher first time second time') :
    (first.adjustedAt float time).dynamicPriority.toInt ≤
      (second.adjustedAt float time').dynamicPriority.toInt :=
  dynamicPriorityOf_mono hexact hfirst.fits hsecond.fits h.sumAt_le

/-- A second adjustment depends on the static priority, the I/O flag and the
time since the first, whatever the arithmetic. -/
theorem readjusted_priority (float : FloatArith) (task : UnixTask) (time wait : Int) :
    ((task.adjustedAt float time).adjustedAt float (time + wait)).dynamicPriority =
      dynamicPriorityOf float task.staticPriority 0 wait task.isIoBound := by
  have hwait : time + wait - time = wait := by omega
  simp only [UnixTask.adjustedAt, hwait]

/-- **The dynamic priority is bounded and monotone.**  Adjusting a task always
gives it a priority in the range; of two adjustments the one whose inputs are
not higher does not give the higher priority; and a second adjustment after the
same wait gives tasks of the same static priority and I/O flag the same. -/
theorem adjusted_bounded_monotone {env : Env} (hexact : env.float.Exact)
    {first second : UnixTask} {w w' : World}
    (hfirst : Adjustable first (env.clock.read w.readings))
    (hsecond : Adjustable second (env.clock.read w'.readings)) :
    ∃ first' second', first.adjustDynamicPriority env w =
        .ok first' { w with readings := w.readings + 1 } ∧
      second.adjustDynamicPriority env w' = .ok second' { w' with readings := w'.readings + 1 } ∧
      (-20 ≤ first'.dynamicPriority.toInt ∧ first'.dynamicPriority.toInt ≤ 19) ∧
      (NoHigher first (env.clock.read w.readings) second (env.clock.read w'.readings) →
        first'.dynamicPriority.toInt ≤ second'.dynamicPriority.toInt) ∧
      ∀ wait, 0 ≤ wait → first.staticPriority = second.staticPriority →
        first.isIoBound = second.isIoBound →
        (first'.adjustedAt env.float (env.clock.read w.readings + wait)).dynamicPriority =
          (second'.adjustedAt env.float (env.clock.read w'.readings + wait)).dynamicPriority := by
  refine ⟨first.adjustedAt env.float (env.clock.read w.readings),
    second.adjustedAt env.float (env.clock.read w'.readings), rfl, rfl, ?_, ?_, ?_⟩
  · exact (validPriority_iff _).mp (validPriority_dynamicPriorityOf _ _ _ _ _)
  · exact adjusted_mono hexact hfirst hsecond
  · intro wait _ hstatic hio
    rw [readjusted_priority, readjusted_priority, hstatic, hio]

/-- A task bound by I/O does not get a higher priority than a plain one, at the
same clock reading. -/
theorem adjusted_bounded_monotone_io :
    ∃ first' second', (IoBoundTask.built 7 (textBytes "output.txt") 1 0).adjustDynamicPriority
        envOne (World.begin (Shm.create 1)) = .ok first' { World.begin (Shm.create 1) with
          readings := 1 } ∧
      (ranAt 0).adjustDynamicPriority envOne (World.begin (Shm.create 1)) =
        .ok second' { World.begin (Shm.create 1) with readings := 1 } ∧
      first'.dynamicPriority.toInt ≤ second'.dynamicPriority.toInt := by
  have hexact : envOne.float.Exact := exact_exact
  have hio : Adjustable (IoBoundTask.built 7 (textBytes "output.txt") 1 0)
      (envOne.clock.read (World.begin (Shm.create 1)).readings) :=
    ⟨by decide, le_refl _, zero_le_one, le_refl _⟩
  have hplain : Adjustable (ranAt 0) (envOne.clock.read (World.begin (Shm.create 1)).readings) :=
    ⟨by decide, le_refl _, zero_le_one, le_refl _⟩
  obtain ⟨first', second', hfirst, hsecond, -, hmono, -⟩ :=
    adjusted_bounded_monotone hexact hio hplain
  exact ⟨first', second', hfirst, hsecond, hmono ⟨le_refl _, le_refl _, le_refl _, .inl rfl⟩⟩

end TaskSheduler
