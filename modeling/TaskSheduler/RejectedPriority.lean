import TaskSheduler.TaskHistory

/-!
# What a rejected priority leaves behind

`set_static_priority` assigns before it validates, so the value it rejects
stays in `static_priority_` when the exception has left the call, and every
later adjustment computes with it.  `accepted_priority_kept_iff` is about
whole sequences of calls: the last accepted priority is in force throughout
exactly if no call is rejected.
-/

namespace TaskSheduler

open Programs

/-- The calls that set or use the static priority. -/
inductive PriorityCall
  | setStaticPriority (niceValue : Int32)
  | adjustDynamicPriority

/-- The call itself, which may throw. -/
def PriorityCall.body (env : Env) (task : UnixTask) : PriorityCall → Program World UnixTask
  | .setStaticPriority niceValue => task.setStaticPriority env niceValue
  | .adjustDynamicPriority => task.adjustDynamicPriority env

/-- The call as one of a history, where exceptions are caught. -/
def PriorityCall.asTaskCall : PriorityCall → TaskCall
  | .setStaticPriority niceValue => .setStaticPriority niceValue
  | .adjustDynamicPriority => .adjustDynamicPriority

/-- Whether the call is one that `validate_priority` accepts. -/
def PriorityCall.accepts : PriorityCall → Bool
  | .setStaticPriority niceValue => validPriority niceValue
  | .adjustDynamicPriority => true

/-- The last accepted priority after the call. -/
def PriorityCall.lastAccepted (accepted : Int32) : PriorityCall → Int32
  | .setStaticPriority niceValue => if validPriority niceValue then niceValue else accepted
  | .adjustDynamicPriority => accepted

/-- `launch_process`: the priority that the child gives itself. -/
def UnixTask.launchPriority (task : UnixTask) : Int32 := task.staticPriority

/-- The priority `accepted` is in force: it is a valid one, and adjustments,
encodings after them and `launch_process` see it. -/
structure InForce (accepted : Int32) (task : UnixTask) : Prop where
  valid : validPriority task.staticPriority = true
  static : task.staticPriority = accepted
  launch : task.launchPriority = accepted

/-- In every state of a sequence of calls the last accepted priority is in
force, and every call that throws leaves both priorities as they were. -/
def KeepsAccepted (env : Env) : Int32 → UnixTask → World → List PriorityCall → Prop
  | accepted, task, _, [] => InForce accepted task
  | accepted, task, w, call :: rest =>
      InForce accepted task ∧
        ∃ task' w', call.asTaskCall.perform env task w = .ok task' w' ∧
          (∀ message w₁, call.body env task w = .error (.thrown message) w₁ →
            task'.staticPriority = task.staticPriority ∧
              task'.dynamicPriority = task.dynamicPriority) ∧
          KeepsAccepted env (call.lastAccepted accepted) task' w' rest

section Calls

variable {env : Env} {task : UnixTask} {w : World} {accepted : Int32}

/-- What holds of a whole sequence holds at its start. -/
theorem KeepsAccepted.start {calls : List PriorityCall}
    (h : KeepsAccepted env accepted task w calls) : InForce accepted task := by
  cases calls with
  | nil => exact h
  | cons call rest => exact h.1

/-- An accepted call returns, and its priority is in force afterwards. -/
theorem perform_accepted (h : InForce accepted task) {call : PriorityCall}
    (hcall : call.accepts = true) :
    ∃ task' w' w₁, call.asTaskCall.perform env task w = .ok task' w' ∧
      call.body env task w = .ok task' w₁ ∧ InForce (call.lastAccepted accepted) task' := by
  cases call with
  | setStaticPriority niceValue =>
      have hset := @setStaticPriority_accepts env task niceValue w hcall
      have hlast : (PriorityCall.setStaticPriority niceValue).lastAccepted accepted =
          niceValue := if_pos hcall
      refine ⟨_, _, _, catchThrown_returns hset, hset, ?_⟩
      rw [hlast]
      exact ⟨hcall, rfl, rfl⟩
  | adjustDynamicPriority => exact ⟨_, _, _, rfl, rfl, h.valid, h.static, h.launch⟩

/-- After a rejected call no accepted priority is in force. -/
theorem perform_rejected {call : PriorityCall} (hcall : call.accepts = false) {task' : UnixTask}
    {w' : World} (h : call.asTaskCall.perform env task w = .ok task' w') (other : Int32) :
    ¬ InForce other task' := by
  cases call with
  | setStaticPriority niceValue =>
      rw [PriorityCall.asTaskCall, TaskCall.perform,
        catchThrown_thrown (setStaticPriority_rejects hcall)] at h
      cases h
      intro hforce
      exact Bool.false_ne_true (hcall.symm.trans hforce.valid)
  | adjustDynamicPriority => cases hcall

/-- From a state in which a priority is in force. -/
theorem keepsAccepted_iff (h : InForce accepted task) (calls : List PriorityCall) :
    KeepsAccepted env accepted task w calls ↔ ∀ call ∈ calls, call.accepts = true := by
  induction calls generalizing accepted task w with
  | nil => exact iff_of_true h (by simp)
  | cons call rest ih =>
      rw [List.forall_mem_cons]
      cases hcall : call.accepts with
      | true =>
          obtain ⟨task', w', w₁, hperform, hbody, hforce⟩ :=
            @perform_accepted env task w accepted h call hcall
          rw [← ih (w := w') hforce]
          constructor
          · rintro ⟨-, task₂, w₂, hsame, -, hrest⟩
            rw [hperform] at hsame
            cases hsame
            exact ⟨rfl, hrest⟩
          · rintro ⟨-, hrest⟩
            refine ⟨h, task', w', hperform, fun message w₂ hthrow => ?_, hrest⟩
            rw [hbody] at hthrow
            cases hthrow
      | false =>
          refine iff_of_false ?_ fun hall => by cases hall.1
          rintro ⟨-, task₂, w₂, hperform, -, hrest⟩
          exact perform_rejected hcall hperform _ hrest.start

end Calls

/-- A task that was constructed has the priority it was given, a valid one. -/
theorem construct_inForce {env : Env} {construction : Construction} {task : UnixTask}
    {w w' : World} (h : construction.run env w = .ok task w') :
    InForce task.staticPriority task := by
  have hsame : task.staticPriority = task.dynamicPriority := by
    cases construction with
    | unixTask id description p =>
        obtain ⟨arrival, w₁, -, h⟩ := bind_returned h
        obtain ⟨checked, w₂, -, h⟩ := bind_returned h
        cases h
        rfl
    | cpuIntensiveTask id duration =>
        cases h
        rfl
    | ioBoundTask id filePath operations =>
        cases h
        rfl
  exact ⟨by rw [hsame]; exact (construct_coherent h).priority, rfl, rfl⟩

/-- **When rejected priorities change nothing.**  After a construction, and in
every state of a sequence of calls with any priorities at any times, the last
accepted priority is in force and a throwing call has left both priorities
alone, if and only if no call of the sequence is rejected. -/
theorem accepted_priority_kept_iff {env : Env} {construction : Construction} {task : UnixTask}
    {w w' : World} (h : construction.run env w = .ok task w') (calls : List PriorityCall) :
    KeepsAccepted env task.staticPriority task w' calls ↔
      ∀ niceValue, .setStaticPriority niceValue ∈ calls → validPriority niceValue = true := by
  rw [keepsAccepted_iff (construct_inForce h) calls]
  constructor
  · intro hall niceValue hmem
    exact hall _ hmem
  · intro hall call hmem
    cases call with
    | setStaticPriority niceValue => exact hall niceValue hmem
    | adjustDynamicPriority => rfl

/-- Setting a valid priority and adjusting. -/
theorem accepted_priority_kept_valid :
    ∃ task w', (Construction.unixTask 7 (textBytes "plain") 19).run envOne
        (World.begin (Shm.create 1)) = .ok task w' ∧
      KeepsAccepted envOne 19 task w' [.setStaticPriority (-20), .adjustDynamicPriority] := by
  have hrun : (Construction.unixTask 7 (textBytes "plain") 19).run envOne
      (World.begin (Shm.create 1)) = .ok (UnixTask.built 7 (textBytes "plain") 19 0)
        { World.begin (Shm.create 1) with readings := 1 } := rfl
  refine ⟨_, _, hrun, (accepted_priority_kept_iff hrun _).mpr fun niceValue hmem => ?_⟩
  simp only [List.mem_cons, PriorityCall.setStaticPriority.injEq, reduceCtorEq,
    List.not_mem_nil, or_false] at hmem
  rw [hmem]
  rfl

/-- Priority 100 is rejected, and stays; `get_priority` shows it at the next
adjustment only. -/
theorem rejected_priority_stays :
    ∃ task w' task', (Construction.unixTask 7 (textBytes "plain") 0).run envOne
        (World.begin (Shm.create 1)) = .ok task w' ∧
      (TaskCall.setStaticPriority 100).perform envOne task w' = .ok task' w' ∧
      task'.staticPriority = 100 ∧
      ¬ KeepsAccepted envOne 0 task w' [.setStaticPriority 100] := by
  refine ⟨_, _, _, rfl, rfl, rfl, ?_⟩
  rintro ⟨-, task₂, w₂, hperform, -, hforce⟩
  exact perform_rejected rfl hperform _ hforce

end TaskSheduler
