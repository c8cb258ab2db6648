import TaskSheduler.ManagerSteps
import TaskSheduler.Respecting
import Mathlib.Logic.Relation

/-!
# A call of the manager, alone

The programs `addTask`, `getNextTask` and `reorderTasks` are the calls of the
manager when nobody else moves; `managerStep` is the same code between two
shared actions.  Here the first is a path of the second: what a program returns
or throws is what the thread comes to step by step, over the same segment.

The code between two shared actions respects `SameLocals`, so it may be run in
the world that `Choice.run` provides.  A queue call is the path of its own
steps (`finish_enqueue` and its like); what follows it is the resumption.
-/

namespace TaskSheduler

open Programs Interleaving

/-! ## Local code -/

/-- The two states have this segment, and agree in what local code reads. -/
structure SameLocals (shm : Shm) (w w' : World) : Prop where
  left : w.shm = shm
  right : w'.shm = shm
  readings : w'.readings = w.readings
  totals : w'.totals = w.totals
  locals : w'.locals = w.locals

/-- A program that neither changes the segment nor depends on anything that
other threads, or failing calls, change. -/
def LocalCode {α : Type} (x : Program World α) : Prop := ∀ shm, Respects (SameLocals shm) x

namespace LocalCode

variable {α β : Type} {env : Env}

/-- A value is local code. -/
theorem pure (a : α) : LocalCode (Pure.pure a : Program World α) := fun _ => .pure a

theorem stop (e : Stop) : LocalCode (throw e : Program World α) := fun _ => .stop e

/-- Local code may be put in sequence. -/
theorem bind {x : Program World α} {f : α → Program World β} (hx : LocalCode x)
    (hf : ∀ a, LocalCode (f a)) : LocalCode (x >>= f) :=
  fun shm => (hx shm).bind fun a => hf a shm

/-- A clock reading depends on the number of readings only. -/
theorem now : LocalCode (now env) := fun _ s t h => by
  refine ⟨{ t with readings := t.readings + 1 }, ?_, h.left, h.right, ?_, h.totals, h.locals⟩
  · rw [now_apply, h.readings]
  · show t.readings + 1 = s.readings + 1
    rw [h.readings]

/-- What an uninitialised total time holds depends on the number of such totals.
-/
theorem anyTotalTime : LocalCode (anyTotalTime env) := fun _ s t h => by
  refine ⟨{ t with totals := t.totals + 1 }, ?_, h.left, h.right, h.readings, ?_, h.locals⟩
  · rw [anyTotalTime_apply, h.totals]
  · show t.totals + 1 = s.totals + 1
    rw [h.totals]

/-- What an uninitialised entry holds depends on the number of such entries. -/
theorem anySharedTask : LocalCode (anySharedTask env) := fun _ s t h => by
  refine ⟨{ t with locals := t.locals + 1 }, ?_, h.left, h.right, h.readings, h.totals, ?_⟩
  · rw [anySharedTask_apply, h.locals]
  · show t.locals + 1 = s.locals + 1
    rw [h.locals]

/-- `get_total_time` reads the task, or an uninitialised total. -/
theorem getTotalTime (task : UnixTask) : LocalCode (task.getTotalTime env) := by
  unfold UnixTask.getTotalTime
  cases task.kind with
  | cpuIntensiveTask totalWork remainingWork => exact .pure totalWork
  | unixTask | ioBoundTask filePath operations => exact .anyTotalTime

theorem fromExcept (outcome : Except String α) : LocalCode (fromExcept outcome) := by
  cases outcome with
  | ok a => exact .pure a
  | error message => exact .stop (.thrown message)

/-- `adjust_dynamic_priority` reads the clock. -/
theorem adjustDynamicPriority (task : UnixTask) : LocalCode (task.adjustDynamicPriority env) :=
  .bind .now fun _ => .pure _

/-- `convert_from_shared_task` reads the clock, and may throw. -/
theorem convertFromSharedTask (src : SharedTask) : LocalCode (convertFromSharedTask env src) :=
  .bind .now fun _ => .bind (.bind (.fromExcept _) fun _ => .adjustDynamicPriority _)
    fun _ => .pure _

/-- `convert_to_shared_task` reads the clock and a total time. -/
theorem convertToSharedTask (src : UnixTask) (dst : SharedTask) :
    LocalCode (convertToSharedTask env src dst) := by
  unfold TaskSheduler.convertToSharedTask
  cases src.completed with
  | true => exact .pure _
  | false => exact .bind .now fun _ => .bind (.getTotalTime src) fun _ => .pure _

/-- What comes before an `enqueue` of the manager. -/
theorem enter (purpose : Purpose) (task : UnixTask) : LocalCode (enter env purpose task) :=
  .bind .anySharedTask fun _ => .bind (.convertToSharedTask _ _) fun _ => .pure _

/-- What comes before the next `enqueue` of a reordering. -/
theorem refill (algorithm : SchedulingAlgorithm) (tasks : List UnixTask) :
    LocalCode (refill env algorithm tasks) := by
  cases tasks with
  | nil => exact .pure _
  | cons task rest => exact .bind (.enter _ task) fun _ => .pure _

/-- The update of a priority by the algorithm. -/
theorem updateTaskPriority (algorithm : SchedulingAlgorithm) (task : UnixTask) :
    LocalCode (algorithm.updateTaskPriority env task) := by
  cases algorithm with
  | roundRobinScheduling i => exact .pure task
  | priorityScheduling => exact .adjustDynamicPriority task

/-- What follows a queue call, up to the next one. -/
theorem resume (purpose : Purpose) (reply : Reply) : LocalCode (resume env purpose reply) := by
  cases reply with
  | thrown message => cases purpose <;> exact .stop (.thrown message)
  | enqueued => cases purpose <;> first | exact .pure _ | exact .stop .blocked
  | dequeued st =>
      cases purpose <;>
        first | exact .bind (.convertFromSharedTask st) fun _ => .pure _ | exact .stop .blocked
  | printed =>
      cases purpose <;> first | exact .pure _ | exact .refill _ _ | exact .stop .blocked

/-- Local code that passes its exception on. -/
theorem orThrown {x : Program World (ManagerPc × Option ManagerReply)} (h : LocalCode x) :
    LocalCode (orThrown x) :=
  fun shm => (h shm).catchThrown fun _ => .pure _

end LocalCode

/-- What a thread meets at a step in this state. -/
def World.choice (env : Env) (w : World) : Choice where
  fail := env.waitFails w.waits
  readings := w.readings
  totals := w.totals
  locals := w.locals

/-- Local code yields in the thread's own world what it yields here. -/
theorem LocalCode.run {α : Type} {x : Program World α} (h : LocalCode x) (env : Env)
    {w w' : World} {a : α} (hx : x w = .ok a w') :
    (w.choice env).run w.shm x = some a ∧ w'.shm = w.shm := by
  obtain ⟨t, ht, hsame⟩ := (h w.shm).returned (t := { World.begin w.shm with
    readings := w.readings, totals := w.totals, locals := w.locals }) ⟨rfl, rfl, rfl, rfl, rfl⟩ hx
  refine ⟨?_, hsame.left⟩
  simp only [Choice.run, World.choice, ht]

/-! ## Paths -/

/-- A step of a thread that stays in its call. -/
def ManagerStays (env : Env) (p q : Shm × ManagerPc) : Prop :=
  ∃ choice, managerStep env choice p.1 p.2 = some (q.1, q.2, none)

/-- Any number of such steps. -/
def ManagerPath (env : Env) : Shm × ManagerPc → Shm × ManagerPc → Prop :=
  Relation.ReflTransGen (ManagerStays env)

/-- Such steps, and then one with this outcome. -/
def ComesTo (env : Env) (p : Shm × ManagerPc) (shm : Shm) (pc : ManagerPc)
    (reply : Option ManagerReply) : Prop :=
  ∃ q, ManagerPath env p q ∧ ∃ choice, managerStep env choice q.1 q.2 = some (shm, pc, reply)

section Paths

variable {env : Env} {p q : Shm × ManagerPc} {shm : Shm} {pc : ManagerPc}
  {reply : Option ManagerReply}

/-- If that one stays in the call, it is part of the path. -/
theorem ComesTo.path (h : ComesTo env p shm pc none) : ManagerPath env p (shm, pc) := by
  obtain ⟨q, hpath, hstep⟩ := h
  exact Relation.ReflTransGen.tail hpath hstep

/-- A path before a step with an outcome. -/
theorem ManagerPath.comesTo (hpath : ManagerPath env p q) (h : ComesTo env q shm pc reply) :
    ComesTo env p shm pc reply := by
  obtain ⟨r, hrest, hstep⟩ := h
  exact ⟨r, Relation.ReflTransGen.trans hpath hrest, hstep⟩

variable {w w' : World}

/-- What a queue call returns or throws is what its steps come to. -/
theorem finish_path (purpose : Purpose) {fuel : Nat} {pc : QueuePc} {reply : Reply}
    (h : attempt id Reply.thrown (finish env fuel pc) w = .ok reply w') :
    ∃ shm₁ pc₁ fail pc₂ notes,
      ManagerPath env (w.shm, .inQueue purpose pc) (shm₁, .inQueue purpose pc₁) ∧
        queueStep env.capacity shm₁ pc₁ fail = some (w'.shm, pc₂, notes) ∧
        notes.findSome? Note.reply? = some reply := by
  induction fuel generalizing pc w with
  | zero =>
      rcases attempt_ended h with ⟨reply', hends, -⟩ | ⟨message, hends, -⟩ <;> cases hends
  | succ fuel ih =>
      cases hstep : queueStep env.capacity w.shm pc (env.waitFails w.waits) with
      | none =>
          have hadvance : advance env pc w = .error .blocked w := by
            simp only [advance, hstep]
          have hblocked : finish env (fuel + 1) pc w = .error .blocked w := by
            rw [finish, stops hadvance]
          rcases attempt_ended h with ⟨reply', hends, -⟩ | ⟨message, hends, -⟩ <;>
            · rw [hblocked] at hends
              cases hends
      | some r =>
          obtain ⟨shm₁, pc₁, notes⟩ := r
          obtain ⟨w₁, hadvance, rfl⟩ : ∃ w₁ : World,
              advance env pc w = .ok (pc₁, notes.findSome? Note.reply?) w₁ ∧ w₁.shm = shm₁ := by
            simp only [advance, hstep]
            exact ⟨_, rfl, rfl⟩
          cases hreply : notes.findSome? Note.reply? with
          | none =>
              rw [hreply] at hadvance
              have hrest : attempt id Reply.thrown (finish env fuel pc₁) w₁ = .ok reply w' := by
                rcases attempt_ended h with ⟨reply', hends, rfl⟩ | ⟨message, hends, rfl⟩
                · rw [finish_step hadvance] at hends
                  exact attempt_returned hends
                · rw [finish_step hadvance] at hends
                  exact attempt_thrown hends
              obtain ⟨shm₂, pc₂, fail, pc₃, notes', hpath, hlast⟩ := ih hrest
              have hfirst : ManagerStays env (w.shm, .inQueue purpose pc)
                  (w₁.shm, .inQueue purpose pc₁) := by
                refine ⟨w.choice env, ?_⟩
                have hchoice : (w.choice env).fail = env.waitFails w.waits := rfl
                simp only [managerStep, hchoice, hstep, Option.bind_some, hreply]
              exact ⟨shm₂, pc₂, fail, pc₃, notes', .head hfirst hpath, hlast⟩
          | some ended =>
              rw [hreply] at hadvance
              refine ⟨w.shm, pc, env.waitFails w.waits, pc₁, notes, .refl, ?_⟩
              rcases attempt_ended h with ⟨reply', hends, rfl⟩ | ⟨message, hends, rfl⟩
              · rw [finish, returns hadvance] at hends
                cases ended with
                | thrown message => cases hends
                | enqueued | dequeued st | printed =>
                    cases hends
                    exact ⟨hstep, hreply⟩
              · rw [finish, returns hadvance] at hends
                cases ended with
                | thrown message' =>
                    cases hends
                    exact ⟨hstep, hreply⟩
                | enqueued | dequeued st | printed => cases hends

variable {α : Type} {call : Program World α} {f : α → Reply} {fuel : Nat} {queuePc : QueuePc}
  {purpose : Purpose} {w₁ w₂ : World}

/-- The path of a queue call, and what follows it. -/
theorem finish_comesTo {ended : Reply}
    (h : attempt id Reply.thrown (finish env fuel queuePc) w = .ok ended w₁)
    (hresume : orThrown (resume env purpose ended) w₁ = .ok (pc, reply) w₂) :
    ComesTo env (w.shm, .inQueue purpose queuePc) w₂.shm pc reply := by
  obtain ⟨shm₁, pc₁, fail, pc₂, notes, hpath, hstep, hreply⟩ := finish_path purpose h
  obtain ⟨hrun, hshm⟩ := (LocalCode.orThrown (.resume purpose ended)).run env hresume
  refine ⟨_, hpath, { w₁.choice env with fail := fail }, ?_⟩
  have hlocal : Choice.run { w₁.choice env with fail := fail } w₁.shm
      (orThrown (resume env purpose ended)) = some (pc, reply) := hrun
  simp only [managerStep, hstep, Option.bind_some, hreply, hlocal, Option.map_some, hshm]

/-- A queue call that returns. -/
theorem queueCall_returns (hfinish : finish env fuel queuePc w = (call >>= fun a => pure (f a)) w)
    {a : α} (hcall : call w = .ok a w₁)
    (hresume : orThrown (resume env purpose (f a)) w₁ = .ok (pc, reply) w₂) :
    ComesTo env (w.shm, .inQueue purpose queuePc) w₂.shm pc reply := by
  have hends : finish env fuel queuePc w = .ok (f a) w₁ := by
    rw [hfinish, returns hcall]
    rfl
  exact finish_comesTo (attempt_returned hends) hresume

/-- A queue call that throws, and with it the call of the manager. -/
theorem queueCall_throws (hfinish : finish env fuel queuePc w = (call >>= fun a => pure (f a)) w)
    {message : String} (hcall : call w = .error (.thrown message) w₁) :
    ComesTo env (w.shm, .inQueue purpose queuePc) w₁.shm .idle (some (.thrown message)) := by
  have hends : finish env fuel queuePc w = .error (.thrown message) w₁ := by
    rw [hfinish, stops hcall]
  have hraises : resume env purpose (.thrown message) w₁ = .error (.thrown message) w₁ := by
    cases purpose <;> rfl
  exact finish_comesTo (attempt_thrown hends) ((catchThrown_thrown hraises).trans rfl)

/-! ## The calls -/

/-- `get_next_task`, made for a purpose that goes on with the task in its way. -/
theorem getNextTask_returns {after : UnixTask → ManagerPc × Option ManagerReply}
    (hafter : ∀ st, resume env purpose (.dequeued st) =
      (convertFromSharedTask env st >>= fun task => pure (after task)))
    {task : UnixTask} (h : getNextTask env w = .ok task w') :
    ComesTo env (w.shm, .inQueue purpose QueueCall.dequeue.entry) w'.shm
      (after task).1 (after task).2 := by
  obtain ⟨st, w₁, hdequeue, hconvert⟩ := bind_returned h
  have hresume : orThrown (resume env purpose (.dequeued st)) w₁ = .ok (after task) w' := by
    rw [hafter]
    exact catchThrown_returns ((returns hconvert).trans rfl)
  exact queueCall_returns (finish_dequeue env w) hdequeue hresume

/-- It throws in its `dequeue` or in the conversion. -/
theorem getNextTask_throws {after : UnixTask → ManagerPc × Option ManagerReply}
    (hafter : ∀ st, resume env purpose (.dequeued st) =
      (convertFromSharedTask env st >>= fun task => pure (after task)))
    {message : String} (h : getNextTask env w = .error (.thrown message) w') :
    ComesTo env (w.shm, .inQueue purpose QueueCall.dequeue.entry) w'.shm
      .idle (some (.thrown message)) := by
  rcases bind_thrown h with hdequeue | ⟨st, w₁, hdequeue, hconvert⟩
  · exact queueCall_throws (finish_dequeue env w) hdequeue
  · have hresume : orThrown (resume env purpose (.dequeued st)) w₁ =
        .ok (.idle, some (.thrown message)) w' := by
      rw [hafter]
      exact (catchThrown_thrown (stops hconvert)).trans rfl
    exact queueCall_returns (finish_dequeue env w) hdequeue hresume

/-- The purposes of the `enqueue` and of the `print` of one `add_task`. -/
def Follows (env : Env) (first second : Purpose) : Prop :=
  resume env first .enqueued = pure (.inQueue second QueueCall.print.entry, none)

/-- An `enqueue` that returns leads to the `print` after it. -/
theorem enqueue_stored {st : SharedTask} {first second : Purpose}
    (hnext : Follows env first second) (h : enqueue env st w = .ok () w₁) :
    ManagerPath env (w.shm, .inQueue first (.enqWaitSlot st))
      (w₁.shm, .inQueue second QueueCall.print.entry) := by
  have hresume : orThrown (resume env first .enqueued) w₁ =
      .ok (.inQueue second QueueCall.print.entry, none) w₁ := by
    rw [hnext]
    rfl
  exact (queueCall_returns (finish_enqueue env w st) h hresume).path

/-- The rest of an `add_task` that has written its entry. -/
theorem enqueue_print_returns {st : SharedTask} {first second : Purpose}
    (hnext : Follows env first second) (h : (do enqueue env st; print env) w = .ok () w₁)
    (hresume : orThrown (resume env second .printed) w₁ = .ok (pc, reply) w₂) :
    ComesTo env (w.shm, .inQueue first (.enqWaitSlot st)) w₂.shm pc reply := by
  obtain ⟨⟨⟩, w', henqueue, hprint⟩ := bind_returned h
  exact (enqueue_stored hnext henqueue).comesTo
    (queueCall_returns (finish_print env w') hprint hresume)

/-- It throws in its `enqueue` or in its `print`. -/
theorem enqueue_print_throws {st : SharedTask} {first second : Purpose}
    (hnext : Follows env first second) {message : String}
    (h : (do enqueue env st; print env) w = .error (.thrown message) w₁) :
    ComesTo env (w.shm, .inQueue first (.enqWaitSlot st)) w₁.shm
      .idle (some (.thrown message)) := by
  rcases bind_thrown h with henqueue | ⟨⟨⟩, w', henqueue, hprint⟩
  · exact queueCall_throws (finish_enqueue env w st) henqueue
  · exact (enqueue_stored hnext henqueue).comesTo (queueCall_throws (finish_print env w') hprint)

/-- What `add_task` does before its `enqueue`, whatever it is made for. -/
theorem addTask_entered (env : Env) (task : UnixTask) (w : World) :
    ∃ st w₁, (∀ purpose, enter env purpose task w = .ok (.inQueue purpose (.enqWaitSlot st)) w₁) ∧
      w₁.shm = w.shm ∧ addTask env task w = (do enqueue env st; print env) w₁ := by
  obtain ⟨r, t, hconvert, -⟩ := convertToSharedTask_apply env { w with locals := w.locals + 1 }
    task (env.uninitialised w.locals)
  refine ⟨encoded env { w with locals := w.locals + 1 } task (env.uninitialised w.locals),
    { w with locals := w.locals + 1, readings := r, totals := t }, fun purpose => ?_, rfl, ?_⟩
  · rw [enter, returns (anySharedTask_apply env w), returns hconvert]
    rfl
  · rw [addTask, returns (anySharedTask_apply env w), returns hconvert]

variable {task : UnixTask} {algorithm : SchedulingAlgorithm}

/-- **`add_task`, step by step.** -/
theorem addTask_steps {reply : ManagerReply}
    (h : attempt (fun _ => ManagerReply.added) .thrown (addTask env task) w = .ok reply w') :
    ∃ choice pc, Choice.run choice w.shm (start env (.addTask task)) = some pc ∧
      ComesTo env (w.shm, pc) w'.shm .idle (some reply) := by
  obtain ⟨st, w₁, henter, hshm, hcall⟩ := addTask_entered env task w
  have hstart := (LocalCode.enter (.adding task) task).run env (henter (.adding task))
  have hnext : Follows env (.adding task) (.printing task) := rfl
  refine ⟨_, _, hstart.1, ?_⟩
  rw [← hshm]
  rcases attempt_ended h with ⟨⟨⟩, hends, rfl⟩ | ⟨message, hends, rfl⟩
  · exact enqueue_print_returns hnext (hcall.symm.trans hends) rfl
  · exact enqueue_print_throws hnext (hcall.symm.trans hends)

/-- **`get_next_task`, step by step.** -/
theorem getNextTask_steps {reply : ManagerReply}
    (h : attempt ManagerReply.got .thrown (getNextTask env) w = .ok reply w') :
    ∃ choice pc, Choice.run choice w.shm (start env .getNextTask) = some pc ∧
      ComesTo env (w.shm, pc) w'.shm .idle (some reply) := by
  have hafter : ∀ st, resume env .getting (.dequeued st) =
      (convertFromSharedTask env st >>= fun task => pure (.idle, some (.got task))) := fun _ => rfl
  refine ⟨w.choice env, _, rfl, ?_⟩
  rcases attempt_ended h with ⟨task, hends, rfl⟩ | ⟨message, hends, rfl⟩
  · exact getNextTask_returns hafter hends
  · exact getNextTask_throws hafter hends

/-- The refill loop, from any point from which the thread comes to it. -/
theorem refill_steps {p : Shm × ManagerPc} (tasks : List UnixTask)
    (hcomes : ∀ pc reply w₀, refill env algorithm tasks w = .ok (pc, reply) w₀ →
      ComesTo env p w₀.shm pc reply) :
    (tasks.forM (addTask env) w = .ok () w' →
      ComesTo env p w'.shm .idle (some .reordered)) ∧
    ∀ message, tasks.forM (addTask env) w = .error (.thrown message) w' →
      ComesTo env p w'.shm .idle (some (.thrown message)) := by
  induction tasks generalizing p w with
  | nil =>
      refine ⟨fun h => ?_, fun message h => by cases h⟩
      cases h
      exact hcomes _ _ _ rfl
  | cons task rest ih =>
      obtain ⟨st, w₁, henter, -, hcall⟩ := addTask_entered env task w
      have hfirst : ManagerPath env p
          (w₁.shm, .inQueue (.refilling algorithm rest) (.enqWaitSlot st)) := by
        refine (hcomes _ none w₁ ?_).path
        rw [refill, returns (henter _)]
        rfl
      have hnext : Follows env (.refilling algorithm rest) (.reprinting algorithm rest) := rfl
      have hadded : ∀ w₂, addTask env task w = .ok () w₂ → ∀ pc reply w₀,
          refill env algorithm rest w₂ = .ok (pc, reply) w₀ →
            ComesTo env (w₁.shm, .inQueue (.refilling algorithm rest) (.enqWaitSlot st))
              w₀.shm pc reply := by
        intro w₂ hadd pc reply w₀ hrefill
        exact enqueue_print_returns hnext (hcall.symm.trans hadd) (catchThrown_returns hrefill)
      refine ⟨fun h => hfirst.comesTo ?_, fun message h => hfirst.comesTo ?_⟩
      · obtain ⟨⟨⟩, w₂, hadd, hrest⟩ := bind_returned h
        exact (ih (hadded w₂ hadd)).1 hrest
      · rcases bind_thrown h with hadd | ⟨⟨⟩, w₂, hadd, hrest⟩
        · exact enqueue_print_throws hnext (hcall.symm.trans hadd)
        · exact (ih (hadded w₂ hadd)).2 message hrest

/-- The loop of `reorder_tasks` that empties the queue. -/
theorem drain_steps {fuel : Nat} {tasks : List UnixTask} :
    (∀ drained, whileFuel (fun _ => do return !(← empty))
        (fun tasks => do return tasks ++ [← getNextTask env]) fuel tasks w = .ok drained w' →
      ManagerPath env (w.shm, .testing algorithm tasks) (w'.shm, .testing algorithm drained) ∧
        w'.shm.count = 0) ∧
    ∀ message, whileFuel (fun _ => do return !(← empty))
        (fun tasks => do return tasks ++ [← getNextTask env]) fuel tasks w =
          .error (.thrown message) w' →
      ComesTo env (w.shm, .testing algorithm tasks) w'.shm .idle (some (.thrown message)) := by
  induction fuel generalizing tasks w with
  | zero => refine ⟨fun drained h => ?_, fun message h => ?_⟩ <;> cases h
  | succ fuel ih =>
      have htest : (do return !(← empty) : Program World Bool) w =
          .ok (!(w.shm.count == 0)) w := rfl
      rw [whileFuel, returns htest]
      by_cases hcount : w.shm.count = 0
      · simp only [hcount, beq_self_eq_true, Bool.not_true, Bool.false_eq_true, if_false]
        refine ⟨fun drained h => ?_, fun message h => by cases h⟩
        cases h
        exact ⟨.refl, hcount⟩
      · have hgoes : (w.shm.count == 0) = false := beq_false_of_ne hcount
        simp only [hgoes, Bool.not_false, if_true]
        have hfound : ManagerPath env (w.shm, .testing algorithm tasks)
            (w.shm, .inQueue (.draining algorithm tasks) QueueCall.dequeue.entry) := by
          refine .single ⟨w.choice env, ?_⟩
          simp only [managerStep, if_neg hcount]
        have hafter : ∀ st, resume env (.draining algorithm tasks) (.dequeued st) =
            (convertFromSharedTask env st >>= fun task =>
              pure (.testing algorithm (tasks ++ [task]), none)) := fun _ => rfl
        have htaken : ∀ task w₁, getNextTask env w = .ok task w₁ →
            ManagerPath env (w.shm, .testing algorithm tasks)
              (w₁.shm, .testing algorithm (tasks ++ [task])) :=
          fun task w₁ hget => hfound.trans (getNextTask_returns hafter hget).path
        refine ⟨fun drained h => ?_, fun message h => ?_⟩
        · obtain ⟨more, w₁, hbody, hrest⟩ := bind_returned h
          obtain ⟨task, w₂, hget, hmore⟩ := bind_returned hbody
          cases hmore
          obtain ⟨hpath, hempty⟩ := ih.1 drained hrest
          exact ⟨(htaken task w₁ hget).trans hpath, hempty⟩
        · rcases bind_thrown h with hbody | ⟨more, w₁, hbody, hrest⟩
          · rcases bind_thrown hbody with hget | ⟨task, w₂, -, hmore⟩
            · exact hfound.comesTo (getNextTask_throws hafter hget)
            · cases hmore
          · obtain ⟨task, w₂, hget, hmore⟩ := bind_returned hbody
            cases hmore
            exact (htaken task w₁ hget).comesTo (ih.2 message hrest)

/-- **`reorder_tasks`, step by step.** -/
theorem reorderTasks_steps {fuel : Nat} {reply : ManagerReply}
    (h : attempt (fun _ => ManagerReply.reordered) .thrown (reorderTasks env algorithm fuel) w =
      .ok reply w') :
    ∃ choice pc, Choice.run choice w.shm (start env (.reorderTasks algorithm)) = some pc ∧
      ComesTo env (w.shm, pc) w'.shm .idle (some reply) := by
  refine ⟨w.choice env, .testing algorithm [], rfl, ?_⟩
  have hupdated : ∀ drained w₁, ManagerPath env (w.shm, .testing algorithm [])
      (w₁.shm, .testing algorithm drained) → w₁.shm.count = 0 → ∀ updated w₂,
        drained.mapM (algorithm.updateTaskPriority env) w₁ = .ok updated w₂ →
          ∀ pc reply w₀, refill env algorithm updated w₂ = .ok (pc, reply) w₀ →
            ComesTo env (w.shm, .testing algorithm []) w₀.shm pc reply := by
    intro drained w₁ hpath hempty updated w₂ hupdate pc reply w₀ hrefill
    have hlocal : LocalCode (drained.mapM (algorithm.updateTaskPriority env) >>=
        refill env algorithm) :=
      .bind (fun shm => .mapM (fun task => LocalCode.updateTaskPriority algorithm task shm) drained)
        fun updated => .refill algorithm updated
    obtain ⟨hrun, hshm⟩ := hlocal.run env ((returns hupdate).trans hrefill)
    refine hpath.comesTo ⟨_, .refl, w₁.choice env, ?_⟩
    simp only [managerStep, if_pos hempty]
    rw [hshm]
    exact Option.map_eq_some_iff.mpr ⟨_, hrun, rfl⟩
  rcases attempt_ended h with ⟨⟨⟩, hends, rfl⟩ | ⟨message, hends, rfl⟩
  · obtain ⟨drained, w₁, hdrain, hends⟩ := bind_returned hends
    obtain ⟨updated, w₂, hupdate, hends⟩ := bind_returned hends
    obtain ⟨hpath, hempty⟩ := drain_steps.1 drained hdrain
    exact (refill_steps updated (hupdated drained w₁ hpath hempty updated w₂ hupdate)).1 hends
  · rcases bind_thrown hends with hdrain | ⟨drained, w₁, hdrain, hends⟩
    · exact drain_steps.2 message hdrain
    · obtain ⟨hpath, hempty⟩ := drain_steps.1 drained hdrain
      rcases bind_thrown hends with hupdate | ⟨updated, w₂, hupdate, hends⟩
      · rw [update_returns] at hupdate
        cases hupdate
      · exact (refill_steps updated
          (hupdated drained w₁ hpath hempty updated w₂ hupdate)).2 message hends

end Paths

end TaskSheduler
