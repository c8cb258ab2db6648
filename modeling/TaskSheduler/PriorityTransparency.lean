import TaskSheduler.TaskHistory
import TaskSheduler.PriorityDrift

/-!
# Priority adjustment across the queue

A task knows its static priority, its CPU usage and when it last ran; its
queue entry knows one number, the dynamic priority, which the decoder takes
for the static one.  `queue_transparent_iff` compares adjusting the task that
comes out of the queue with adjusting the task that was put in: the two get
the same priority exactly if the sums they truncate lie on one step.
Arithmetic is exact; conversions out of the range of `int` are not specified.
-/

namespace TaskSheduler

open Programs FloatArithmetic

/-- The sum for the stored priority, starved since the decoding, lies on the
same step as the sum for the static priority and the CPU usage, starved since
the last run. -/
def SumsAgree (float : FloatArith) (task : UnixTask) (decodedAt time : Int) : Prop :=
  SameStep (-20) 19
    (prioritySum task.dynamicPriority 0 (time - decodedAt) task.isIoBound)
    (float.converted (prioritySum task.staticPriority task.cpuUsage
      (time - task.lastExecutionTime) task.isIoBound))

/-- The entry of an unfinished task has its flag. -/
theorem storedEntry_isIoBound {env : Env} {task : UnixTask} (htask : Coherent task)
    (hfresh : task.completed = false) (w : World) :
    (storedEntry env w task).isIoBound = task.isIoBound := by
  have htag : (storedEntry env w task).type = task.kind.type.value :=
    (encoded_encodes env w task _).type hfresh
  rw [SharedTask.isIoBound, htag, htask.isIoBound]
  cases task.kind <;> rfl

/-- **The queue is transparent to priority adjustment exactly if the sums
agree.**  From every reachable unfinished task a pass returns; after it,
`update_task_priority` of the task that came out and of the task that was put
in, at the same clock reading, give the same priority if and only if
`SumsAgree` holds at that reading. -/
theorem queue_transparent_iff {env : Env} (hexact : env.float.Exact) {task : UnixTask}
    (htask : Reachable env task) (hfresh : task.completed = false) (w : World) :
    ∃ task' w', throughQueue env task w = .ok task' w' ∧
      ∀ w₁, ∃ updated original w₂,
        SchedulingAlgorithm.priorityScheduling.updateTaskPriority env task' w₁ =
          .ok updated w₂ ∧
        SchedulingAlgorithm.priorityScheduling.updateTaskPriority env task w₁ =
          .ok original w₂ ∧
        (updated.dynamicPriority = original.dynamicPriority ↔
          SumsAgree env.float task (env.clock.read (w.readings + 2))
            (env.clock.read w₁.readings)) := by
  have hcoherent := reachable_coherent htask
  obtain ⟨w', hpass, -⟩ := throughQueue_apply env hcoherent.priority w
  have hread : encodedReadings w task + 1 = w.readings + 2 := by
    rw [encodedReadings, hfresh]
    rfl
  have hkept := decoded_decodes env.float (storedEntry env w task)
    (env.clock.read (encodedReadings w task)) (env.clock.read (encodedReadings w task + 1))
  rw [hread] at hpass hkept
  refine ⟨_, w', hpass, fun w₁ => ⟨_, _, _, rfl, rfl, ?_⟩⟩
  have hupdated := dynamicPriorityOf_sum hexact task.dynamicPriority 0
    (env.clock.read w₁.readings - env.clock.read (w.readings + 2)) task.isIoBound
  have hfits := fits_prioritySum hcoherent.priority le_rfl zero_le_one
    (env.clock.read w₁.readings - env.clock.read (w.readings + 2)) task.isIoBound
  rw [FloatArith.converted, if_pos hfits] at hupdated
  have horiginal := dynamicPriorityOf_sum hexact task.staticPriority task.cpuUsage
    (env.clock.read w₁.readings - task.lastExecutionTime) task.isIoBound
  have hpriority : (storedEntry env w task).priority = task.dynamicPriority := rfl
  simp only [UnixTask.adjustedAt, hkept.staticPriority, hkept.cpuUsage,
    hkept.lastExecutionTime, hkept.isIoBound, hpriority,
    storedEntry_isIoBound hcoherent hfresh]
  rw [← Int32.toInt_inj, hupdated, horiginal]
  exact clamp_truncate_eq_iff (by decide) (by decide) _ _

/-- A plain task as its constructor leaves it. -/
def freshPlainTask : UnixTask := UnixTask.built 7 (textBytes "plain") 0 0

theorem reachable_freshPlainTask {env : Env} (hclock : env.clock.read 0 = 0) :
    Reachable env freshPlainTask := by
  have hrun : (Construction.unixTask 7 (textBytes "plain") 0).run env
      (World.begin (Shm.create 1)) = .ok (UnixTask.built 7 (textBytes "plain") 0
        (env.clock.read 0)) { World.begin (Shm.create 1) with readings := 1 } := rfl
  rw [hclock] at hrun
  exact .constructed hrun

/-- The surroundings of a one-slot segment whose clock shows zero first and ten
seconds ever after. -/
def envTenLater : Env :=
  Env.quiet 1 one_le_countTasks
    ⟨fun n => if n = 0 then 0 else 10000000000, fun m n h => by
      show (if m = 0 then 0 else 10000000000 : Int) ≤ if n = 0 then 0 else 10000000000
      grind⟩

/-- While the clock stands at zero, a fresh task comes out as it went in. -/
theorem queue_transparent_at_once :
    ∃ task' w' updated original w₂, throughQueue envOne freshPlainTask
        (World.begin (Shm.create 1)) = .ok task' w' ∧
      SchedulingAlgorithm.priorityScheduling.updateTaskPriority envOne task' w' =
        .ok updated w₂ ∧
      SchedulingAlgorithm.priorityScheduling.updateTaskPriority envOne freshPlainTask w' =
        .ok original w₂ ∧ updated.dynamicPriority = original.dynamicPriority := by
  have hexact : envOne.float.Exact := exact_exact
  obtain ⟨task', w', hpass, hall⟩ := queue_transparent_iff hexact
    (reachable_freshPlainTask rfl) rfl (World.begin (Shm.create 1))
  obtain ⟨updated, original, w₂, hupdated, horiginal, hiff⟩ := hall w'
  refine ⟨task', w', updated, original, w₂, hpass, hupdated, horiginal, hiff.mpr ?_⟩
  have hsum : FloatArith.Fits (prioritySum 0 0 (0 - 0) false) :=
    fits_prioritySum (by decide) le_rfl zero_le_one _ _
  have hsame : FloatArith.exact.converted (prioritySum 0 0 (0 - 0) false) =
      prioritySum 0 0 (0 - 0) false := if_pos hsum
  show SameStep (-20) 19 (prioritySum 0 0 (0 - 0) false)
    (FloatArith.exact.converted (prioritySum 0 0 (0 - 0) false))
  rw [hsame]
  exact ⟨fun _ _ _ => Iff.rfl, fun _ _ _ => Iff.rfl⟩

/-- Ten seconds later the task itself has starved to -6, but not the one that
came out of the queue: its starvation was forgotten. -/
theorem queue_forgets_starvation :
    Reachable envTenLater freshPlainTask ∧
      ∃ task' w' updated original w₂, throughQueue envTenLater freshPlainTask
          { World.begin (Shm.create 1) with readings := 1 } = .ok task' w' ∧
        SchedulingAlgorithm.priorityScheduling.updateTaskPriority envTenLater task' w' =
          .ok updated w₂ ∧
        SchedulingAlgorithm.priorityScheduling.updateTaskPriority envTenLater freshPlainTask
          w' = .ok original w₂ ∧
        updated.dynamicPriority = 0 ∧ original.dynamicPriority = -6 := by
  refine ⟨reachable_freshPlainTask rfl, _, _, _, _, _, rfl, rfl, rfl, ?_, ?_⟩
  · decide +kernel
  · decide +kernel

end TaskSheduler
