import TaskSheduler.RemainingTime

/-!
# The operations of an I/O task

An `IoBoundTask` counts its operations and knows its file; the queue entry has
a remaining time and no path.  `EveryPass` says that something holds of every
pass of a run that mixes passes and executions;
`every_pass_keeps_operations_iff` says in which runs the task comes out of
every pass with its own path and operations.
-/

namespace TaskSheduler

open Programs

/-- What happens to an I/O task. -/
inductive IoEvent
  | execute (quantum : Int)
  | pass

/-- `P` holds of every pass of the run: of the state it starts in, the task
put in, the number of successful executions so far and the task that comes
out.  An execution is successful if its file opens; one that does not return
ends the run. -/
def EveryPass (env : Env) (P : World → UnixTask → Nat → UnixTask → Prop) :
    List IoEvent → UnixTask → Nat → World → Prop
  | [], _, _, _ => True
  | .execute quantum :: rest, task, successes, w =>
      match task.execute env quantum w with
      | .ok (_, task') w' =>
          EveryPass env P rest task' (if env.fileOpens w.opens then successes + 1 else successes)
            w'
      | .error _ _ => True
  | .pass :: rest, task, successes, w =>
      match throughQueue env task w with
      | .ok task' w' => P w task successes task' ∧ EveryPass env P rest task' successes w'
      | .error _ _ => False

/-- The task that comes out writes to `filePath` and has `operations` less the
successful executions left. -/
def OwnOperations (filePath : List UInt8) (operations : Int32) (_ : World) (_ : UnixTask)
    (successes : Nat) (task' : UnixTask) : Prop :=
  task'.kind = .ioBoundTask filePath (operations - Int32.ofNat successes)

/-- The path is the literal of the decoder, and the number the encoder finds
is the operations left: the value read off `get_total_time` less the
milliseconds since the arrival, cut at zero, or zero for a completed task,
whose class must be left over in the entry. -/
def KeepsOperations (env : Env) (w : World) (task : UnixTask) (_ : Nat) (_ : UnixTask) :
    Prop :=
  match task.kind with
  | .ioBoundTask filePath operations =>
      filePath = textBytes "output.txt" ∧
        if task.completed then
          operations = 0 ∧ classOfTag (env.uninitialised w.locals).type = .ioBoundTask
        else
          operations.toInt = max 0 ((env.totalTime w.totals -
            toMilliseconds (env.clock.read w.readings - task.arrivalTime)).bmod (2 ^ 32))
  | _ => False

/-- What the decoder makes of an entry as an I/O task. -/
theorem decoded_ioBound_iff (float : FloatArithmetic.FloatArith) (st : SharedTask)
    (arrival adjusted : Int) (filePath : List UInt8) (operations : Int32) :
    (decoded float st arrival adjusted).kind = .ioBoundTask filePath operations ↔
      classOfTag st.type = .ioBoundTask ∧ filePath = textBytes "output.txt" ∧
        operations = st.remainingTimeMs := by
  rw [decoded_kind]
  rw [taskOfType_eq]
  cases classOfTag st.type with
  | unixTask => simp [UnixTask.built]
  | cpuIntensiveTask => simp [CpuIntensiveTask.built]
  | ioBoundTask => simp [IoBoundTask.built, eq_comm]

section Run

variable {env : Env} {filePath : List UInt8} {operations : Int32}

/-- **One pass** brings the operations through exactly under the condition. -/
theorem pass_keeps_operations_iff {task : UnixTask} (htask : Coherent task)
    (hkind : task.kind = .ioBoundTask filePath operations) (w : World) :
    ∃ task' w', throughQueue env task w = .ok task' w' ∧
      (task'.kind = .ioBoundTask filePath operations ↔
        ∀ successes, KeepsOperations env w task successes task') := by
  obtain ⟨w', hpass, -⟩ := throughQueue_apply env htask.priority w
  refine ⟨_, w', hpass, ?_⟩
  rw [decoded_ioBound_iff]
  simp only [KeepsOperations, hkind, forall_const]
  cases hdone : task.completed with
  | true =>
      simp only [storedEntry, encoded, hdone, if_true]
      constructor
      · rintro ⟨hclass, hpath, hzero⟩
        exact ⟨hpath, hzero, hclass⟩
      · rintro ⟨hpath, hzero, hclass⟩
        exact ⟨hclass, hpath, hzero⟩
  | false =>
      have htotal : task.totalTimeIn env w = env.totalTime w.totals := by
        unfold UnixTask.totalTimeIn
        rw [hkind]
      have hclass : classOfTag task.kind.type.value = .ioBoundTask := by
        rw [classOfTag_value, hkind]
        rfl
      simp only [storedEntry, encoded, hdone, Bool.false_eq_true, if_false, htotal, hclass,
        true_and, ← Int32.toInt_inj, remainingTime_toInt]

/-- A successful execution of an I/O task does one of its operations; one whose
file does not open does none. -/
theorem ioExecute_counts {task task' : UnixTask} {quantum : Int} {w w' : World} {done : Bool}
    (hkind : task.kind = .ioBoundTask filePath operations)
    (h : task.execute env quantum w = .ok (done, task') w') :
    task'.kind = .ioBoundTask filePath
      (if env.fileOpens w.opens then operations - 1 else operations) := by
  simp only [UnixTask.execute, hkind, IoBoundTask.execute] at h
  obtain ⟨start, w₁, hnow, h⟩ := bind_returned h
  cases hnow
  obtain ⟨opened, w₂, hopen, h⟩ := bind_returned h
  cases hopen
  cases hopens : env.fileOpens w.opens with
  | false =>
      simp only [hopens, Bool.false_eq_true, if_false] at h
      cases h
      exact hkind
  | true =>
      simp only [hopens, if_true] at h
      obtain ⟨-, w₃, -, h⟩ := bind_returned h
      obtain ⟨-, w₄, -, h⟩ := bind_returned h
      obtain ⟨finish, w₅, -, h⟩ := bind_returned h
      cases h
      rfl

/-- **The operations of an I/O task survive every pass exactly if every pass
meets the condition.**  The induction is on the run; what it carries is that
the task still has its path and the operations not yet done. -/
theorem every_pass_iff {task : UnixTask} {successes : Nat} (htask : Coherent task)
    (hkind : task.kind = .ioBoundTask filePath (operations - Int32.ofNat successes))
    (events : List IoEvent) (w : World) :
    EveryPass env (OwnOperations filePath operations) events task successes w ↔
      EveryPass env (KeepsOperations env) events task successes w := by
  induction events generalizing task successes w with
  | nil => exact Iff.rfl
  | cons event rest ih =>
      cases event with
      | execute quantum =>
          unfold EveryPass
          cases hrun : task.execute env quantum w with
          | error e w' => exact Iff.rfl
          | ok r w' =>
              obtain ⟨done, task'⟩ := r
              have hcounts := ioExecute_counts hkind hrun
              refine ih (htask.execute (execute_keeps hrun)) (hcounts.trans ?_) w'
              cases env.fileOpens w.opens with
              | false => rfl
              | true =>
                  have hnext : operations - Int32.ofNat successes - 1 =
                      operations - Int32.ofNat (successes + 1) := by
                    rw [Int32.ofNat_add]
                    grind
                  simp only [if_true, hnext]
      | pass =>
          obtain ⟨task', w', hpass, hiff⟩ := pass_keeps_operations_iff htask hkind w
          have hbefore : OwnOperations filePath operations w task successes task' ↔
              KeepsOperations env w task successes task' :=
            hiff.trans ⟨fun hall => hall successes, fun hthis _ => hthis⟩
          unfold EveryPass
          rw [hpass]
          constructor
          · rintro ⟨hown, hrest⟩
            have hlater := ih (throughQueue_coherent htask hpass) hown w'
            exact ⟨hbefore.mp hown, hlater.mp hrest⟩
          · rintro ⟨hkeeps, hrest⟩
            have hown := hbefore.mpr hkeeps
            have hlater := ih (throughQueue_coherent htask hpass) hown w'
            exact ⟨hown, hlater.mpr hrest⟩

/-- **An I/O task does its own operations exactly if every pass finds them.**
From every reachable I/O task and for every run of passes and executions: in
every pass the task comes out with its path and its operations less the
successful executions if and only if in every pass the path is the literal of
the decoder and the number the encoder finds is the operations left. -/
theorem every_pass_keeps_operations_iff {task : UnixTask} (htask : Reachable env task)
    (hkind : task.kind = .ioBoundTask filePath operations) (events : List IoEvent)
    (w : World) :
    EveryPass env (OwnOperations filePath operations) events task 0 w ↔
      EveryPass env (KeepsOperations env) events task 0 w := by
  have hstart : task.kind = .ioBoundTask filePath (operations - Int32.ofNat 0) := by
    rw [hkind]
    exact congrArg _ (Int32.sub_zero operations).symm
  exact every_pass_iff (reachable_coherent htask) hstart events w

end Run

/-- Surroundings in which `get_total_time` happens to yield 2. -/
def envTwoLeft : Env := { envOne with totalTime := fun _ => 2 }

/-- An I/O task as its constructor leaves it. -/
def freshIoTask (filePath : List UInt8) : UnixTask := IoBoundTask.built 7 filePath 3 0

theorem reachable_freshIoTask {env : Env} (hclock : env.clock.read 0 = 0)
    (filePath : List UInt8) : Reachable env (freshIoTask filePath) := by
  have hrun : (Construction.ioBoundTask 7 filePath 3).run env (World.begin (Shm.create 1)) =
      .ok (IoBoundTask.built 7 filePath 3 (env.clock.read 0))
        { World.begin (Shm.create 1) with readings := 1 } := rfl
  rw [hclock] at hrun
  exact .constructed hrun

/-- A task that writes to the literal path and has done one of its three
operations, where the value read happens to be the operations left. -/
theorem every_pass_keeps_operations_lucky :
    EveryPass envTwoLeft (OwnOperations (textBytes "output.txt") 3) [.execute 0, .pass]
      (freshIoTask (textBytes "output.txt")) 0 (World.begin (Shm.create 1)) := by
  refine (every_pass_keeps_operations_iff (reachable_freshIoTask rfl _) rfl _ _).mpr ?_
  exact ⟨⟨rfl, by decide⟩, trivial⟩

/-- A task with another path and the value 0 comes out of its first pass with
the literal path and no operation. -/
theorem pass_changes_operations :
    Reachable envOne (freshIoTask (textBytes "data.txt")) ∧
      (freshIoTask (textBytes "data.txt")).completed = false ∧
      ¬ EveryPass envOne (OwnOperations (textBytes "data.txt") 3) [.pass]
        (freshIoTask (textBytes "data.txt")) 0 (World.begin (Shm.create 1)) := by
  refine ⟨reachable_freshIoTask rfl _, rfl, fun hpass => ?_⟩
  have hkind : TaskKind.ioBoundTask (textBytes "output.txt") 0 =
      .ioBoundTask (textBytes "data.txt") 3 := hpass.1
  exact absurd hkind (by decide)

end TaskSheduler
