import TaskSheduler.ExecuteCalls

/-!
# Does the processor execute completed tasks?

The encoder writes the completion of a task into its entry, and the decoder
reads it back; `process_tasks` does not look at it.  So a completed task is
left alone only where `get_next_task` throws: `doesNoWork_iff` says so of a
round, and `completed_never_executed_iff` of every run.

Only `execute` writes to files, which `KeepsFiles` says of everything else that
a round does.
-/

namespace TaskSheduler

open Programs Interleaving

/-! ## Who writes to files -/

/-- The program leaves the files as they are, however it ends. -/
def KeepsFiles {α : Type} (x : Program World α) : Prop :=
  ∀ files, Triple (fun s => s.written = files) x (fun _ s => s.written = files)
    (fun _ s => s.written = files)

namespace KeepsFiles

variable {α β : Type} {env : Env}

theorem bind {x : Program World α} {f : α → Program World β} (hx : KeepsFiles x)
    (hf : ∀ a, KeepsFiles (f a)) : KeepsFiles (x >>= f) :=
  fun files => (hx files).bind fun a => hf a files

theorem pure (a : α) : KeepsFiles (Pure.pure a) :=
  fun _ => Triple.pure fun _ hs => hs

theorem raise (message : String) : KeepsFiles (Programs.raise message : Program World α) :=
  fun _ => Triple.raise fun _ hs => hs

theorem ite {p : Prop} [Decidable p] {left right : Program World α} (hleft : KeepsFiles left)
    (hright : KeepsFiles right) : KeepsFiles (if p then left else right) :=
  fun files => Triple.ite (fun _ => hleft files) fun _ => hright files

theorem waitOn (env : Env) (sem : Semaphore) : KeepsFiles (TaskSheduler.waitOn env sem) := by
  intro files s hs
  unfold TaskSheduler.waitOn
  by_cases hfail : env.waitFails s.waits = true
  · rw [if_pos hfail]
    exact hs
  · rw [if_neg hfail]
    cases semWait (s.shm.value sem) with
    | none => exact hs
    | some n => exact hs

theorem load (read : Shm → α) : KeepsFiles (TaskSheduler.load read) := fun _ _ hs => hs

theorem store (write : Shm → Shm) : KeepsFiles (TaskSheduler.store write) := fun _ _ hs => hs

theorem post (sem : Semaphore) : KeepsFiles (TaskSheduler.post sem) := fun _ _ hs => hs

theorem now (env : Env) : KeepsFiles (TaskSheduler.now env) := fun _ _ hs => hs

theorem logLine (entry : LogEntry) : KeepsFiles (TaskSheduler.logLine entry) := fun _ _ hs => hs

theorem getTotalTime (env : Env) (task : UnixTask) : KeepsFiles (task.getTotalTime env) := by
  intro files s hs
  obtain ⟨total, t, htotal⟩ := getTotalTime_returns env s task
  rw [htotal]
  exact hs

/-- `dequeue` works on the segment only. -/
theorem dequeue (env : Env) : KeepsFiles (TaskSheduler.dequeue env) := by
  unfold TaskSheduler.dequeue
  refine (waitOn env _).bind fun _ => .ite ?_ (.raise _)
  refine (waitOn env _).bind fun _ => .ite ?_ ((post _).bind fun _ => .raise _)
  refine (load _).bind fun _ => (load _).bind fun _ => .ite ?_ ?_
  · exact (post _).bind fun _ => (post _).bind fun _ => .raise _
  · refine (load _).bind fun _ => (store _).bind fun _ => (store _).bind fun _ => ?_
    exact (store _).bind fun _ => (post _).bind fun _ => (post _).bind fun _ => .pure _

/-- So does the rest of a round before `execute`. -/
theorem nextDispatch (env : Env) (timeQuantum : Int) :
    KeepsFiles (TaskSheduler.nextDispatch env timeQuantum) := by
  have hconvert : ∀ st, KeepsFiles (convertFromSharedTask env st) := by
    intro st
    unfold convertFromSharedTask UnixTask.setStaticPriority
    refine (now env).bind fun _ => KeepsFiles.bind (KeepsFiles.bind ?_ fun _ => ?_) fun _ => .pure _
    · cases validatePriority st.priority with
      | ok a => exact .pure a
      | error message => exact .raise message
    · exact (now env).bind fun _ => .pure _
  have hdispatch : ∀ task, KeepsFiles (dispatchTask env timeQuantum task) := by
    intro task
    refine (logLine _).bind fun _ => (getTotalTime env task).bind fun _ => .ite ?_ (.pure _)
    exact (getTotalTime env task).bind fun _ => .pure _
  unfold TaskSheduler.nextDispatch size
  refine (load _).bind fun _ => .ite ?_ (.pure _)
  exact ((dequeue env).bind hconvert).bind fun task => (hdispatch task).bind fun _ => .pure _

end KeepsFiles

section Rounds

variable {env : Env} {timeQuantum : Int} {w : World} {st : SharedTask} {rest : List SharedTask}

/-- **A round that does not call `execute`** writes to no file. -/
theorem round_without_call (hnone : roundCalls env timeQuantum w = []) (running : Bool) :
    (endState (processTasksRound env timeQuantum running) w).written = w.written := by
  have hkeeps := KeepsFiles.nextDispatch env timeQuantum w.written w rfl
  rw [processTasksRound_eq]
  unfold roundCalls at hnone
  unfold endState catchThrown
  cases hnext : nextDispatch env timeQuantum w with
  | ok d w₁ =>
      rw [hnext] at hkeeps hnone
      cases d with
      | none =>
          rw [returns hnext]
          exact hkeeps
      | some d => cases hnone
  | error e w₁ =>
      rw [hnext] at hkeeps
      rw [stops hnext]
      cases e with
      | thrown message => exact hkeeps
      | blocked => exact hkeeps
      | outOfFuel => exact hkeeps

/-- The round does no work: it does not call `execute`, and writes to no file
whatever `running_` is. -/
structure DoesNoWork (env : Env) (timeQuantum : Int) (w : World) : Prop where
  noCall : roundCalls env timeQuantum w = []
  noLine : ∀ running,
    (endState (processTasksRound env timeQuantum running) w).written = w.written

/-- A round does no work exactly if the entry is not decoded. -/
theorem doesNoWork_iff (h : Quiescent env.capacity w.shm (st :: rest)) :
    DoesNoWork env timeQuantum w ↔ NotDecoded env w st := by
  constructor
  · intro hidle
    by_contra hdecoded
    obtain ⟨call, hcall, -⟩ := decoded_executed timeQuantum h hdecoded
    have hnone := hidle.noCall
    rw [hcall] at hnone
    cases hnone
  · intro hdecoded
    have hnone := notDecoded_not_executed timeQuantum h hdecoded
    exact ⟨hnone, round_without_call hnone⟩

/-- If the round that starts here finds a completed task, it does no work. -/
def SparesCompleted (env : Env) (timeQuantum : Int) (s : World) : Prop :=
  ∀ st, s.shm.head? = some st → st.completed = true → DoesNoWork env timeQuantum s

/-- If the round that starts here finds a completed task, it does not decode it. -/
def CompletedNotDecoded (env : Env) (s : World) : Prop :=
  ∀ st, s.shm.head? = some st → st.completed = true → NotDecoded env s st

/-- **Completed tasks do no more work exactly if they are not even decoded.**
In every run of `process_tasks` from any contents of the queue, the rounds that
find a completed entry, the one that would come next included, do no work if
and only if `get_next_task` throws in each of them. -/
theorem completed_never_executed_iff {start : World} {q : List SharedTask}
    (hstart : Quiescent env.capacity start.shm q) {starts : List World}
    (hrun : Run (processorMachine env timeQuantum) start starts w) :
    (∀ s ∈ starts ++ [w], SparesCompleted env timeQuantum s) ↔
      ∀ s ∈ starts ++ [w], CompletedNotDecoded env s := by
  have hrests := rounds_rest hrun ⟨q, hstart⟩
  have hround : ∀ s ∈ starts ++ [w], ∀ st, s.shm.head? = some st →
      (DoesNoWork env timeQuantum s ↔ NotDecoded env s st) := by
    intro s hs st hhead
    obtain ⟨q', hq'⟩ := hrests s hs
    rw [hq'.head_eq] at hhead
    cases q' with
    | nil => cases hhead
    | cons first rest =>
        cases hhead
        exact doesNoWork_iff hq'
  constructor
  · intro hspares s hs st hhead hcompleted
    exact (hround s hs st hhead).mp (hspares s hs st hhead hcompleted)
  · intro hrejects s hs st hhead hcompleted
    exact (hround s hs st hhead).mpr (hrejects s hs st hhead hcompleted)

end Rounds

/-- A completed entry of the given class and priority. -/
def completedEntry (type : TaskType) (priority : Int32) : SharedTask :=
  { SharedTask.numbered 7 priority with type := type.value, completed := true }

/-- A completed entry whose priority is out of the range is left alone. -/
theorem completed_never_executed_rejected :
    SparesCompleted envOne 500 (World.begin (Shm.holding (completedEntry .ioBoundTask 100))) := by
  have hq : Quiescent envOne.capacity
      (World.begin (Shm.holding (completedEntry .ioBoundTask 100))).shm
      [completedEntry .ioBoundTask 100] := quiescent_holding _
  have hrun : Run (processorMachine envOne 500)
      (World.begin (Shm.holding (completedEntry .ioBoundTask 100))) []
      (World.begin (Shm.holding (completedEntry .ioBoundTask 100))) := .nil
  refine (completed_never_executed_iff hq hrun).mpr ?_ _ (by simp)
  intro s hs st hhead _
  obtain rfl := List.mem_singleton.mp hs
  rw [hq.head_eq] at hhead
  cases hhead
  exact .inr (.inr (by decide))

/-- A completed I/O task is executed, and writes one more line. -/
theorem completed_writes_line :
    (endState (processTasksRound envOne 500 true)
        (World.begin (Shm.holding (completedEntry .ioBoundTask 0)))).written =
      [(textBytes "output.txt", "Operation #0\n")] ∧
    ¬ SparesCompleted envOne 500
      (World.begin (Shm.holding (completedEntry .ioBoundTask 0))) := by
  have hline : (endState (processTasksRound envOne 500 true)
      (World.begin (Shm.holding (completedEntry .ioBoundTask 0)))).written =
        [(textBytes "output.txt", "Operation #0\n")] := by
    decide +kernel
  refine ⟨hline, fun hspares => ?_⟩
  have hidle := hspares (completedEntry .ioBoundTask 0) rfl rfl
  have hnone := hidle.noLine true
  rw [hline] at hnone
  cases hnone

end TaskSheduler
