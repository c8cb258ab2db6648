import TaskSheduler.ManagerSteps
import Mathlib.Data.List.Permutation
import Mathlib.Data.List.TakeWhile

/-!
# When reorder_tasks is atomic for other threads

`inOnePiece` says what a call of the manager does to the queue when nobody
interferes; a run is `Serializable` when its finished calls, in some order,
do the same one after the other.

`reorder_tasks` takes no lock over its two loops, so not every run is.  The
queue that the other threads should see during a reordering is the vector it
has drained so far, then the counted queue, then the tasks it has still to put
back.  While nobody disturbs that order (`undisturbed`), each call has one
step at which it takes effect on it, and the order of these steps is a serial
one (`Linearized`).
-/

namespace TaskSheduler

open Interleaving Programs

/-! ## Calls in one piece -/

/-- What the order of calls can show of an entry: its id, and whether the
decoder accepts its priority. -/
structure Ticket where
  id : Int32
  accepted : Bool
deriving DecidableEq

/-- The ticket of an entry. -/
def SharedTask.ticket (st : SharedTask) : Ticket := ⟨st.id, validPriority st.priority⟩

/-- The ticket of the entries made for a task. -/
def UnixTask.ticket (task : UnixTask) : Ticket :=
  ⟨task.id, validPriority task.dynamicPriority⟩

/-- What a call has shown its caller, as far as ids go. -/
inductive Outcome
  | got (id : Int32)
  | added
  | reordered
  | thrown
deriving DecidableEq

/-- The outcome of a call, from its reply. -/
def ManagerReply.outcome : ManagerReply → Outcome
  | .got task => .got task.id
  | .added => .added
  | .reordered => .reordered
  | .thrown _ => .thrown

/-- The outcome of `get_next_task` when it takes out this entry. -/
def Ticket.outcome (ticket : Ticket) : Outcome :=
  if ticket.accepted then .got ticket.id else .thrown

/-- One call executed in one piece; `none` when it would wait.  A reordering
puts everything back in place, unless it meets an entry that the decoder
rejects: then all it has drained is gone. -/
def inOnePiece (capacity : Nat) (queue : List Ticket) :
    ManagerCall → Option (Outcome × List Ticket)
  | .getNextTask =>
      match queue with
      | [] => none
      | ticket :: rest => some (ticket.outcome, rest)
  | .addTask task =>
      if queue.length < capacity then some (.added, queue ++ [task.ticket]) else none
  | .reorderTasks _ =>
      match queue.dropWhile Ticket.accepted with
      | [] => some (.reordered, queue)
      | _ :: rest => some (.thrown, rest)

section Serial

variable {Tid : Type*}

/-- The queue after these calls, one after the other, with these outcomes. -/
def serially (capacity : Nat) (queue : List Ticket)
    (order : List (Tid × ManagerCall × Outcome)) : Option (List Ticket) :=
  order.foldlM (fun queue e => (inOnePiece capacity queue e.2.1).bind fun r =>
    if r.1 = e.2.2 then some r.2 else none) queue

/-- The finished calls of a run with their outcomes. -/
def outcomes (trace : List (Tid × ManagerCall × ManagerReply)) :
    List (Tid × ManagerCall × Outcome) :=
  trace.map fun e => (e.1, e.2.1, e.2.2.outcome)

/-- The calls of one thread. -/
def callsOf [DecidableEq Tid] (t : Tid) (order : List (Tid × ManagerCall × Outcome)) :
    List (Tid × ManagerCall × Outcome) :=
  order.filter fun e => decide (e.1 = t)

/-- The calls of a run have the outcomes, and leave the ids, of a serial
execution of the same calls, in which each thread makes its own in their order. -/
def Serializable [DecidableEq Tid] (capacity : Nat) (q : List SharedTask)
    (trace : List (Tid × ManagerCall × ManagerReply)) (q' : List SharedTask) : Prop :=
  ∃ order final, (∀ t, callsOf t order = callsOf t (outcomes trace)) ∧
    serially capacity (q.map SharedTask.ticket) order = some final ∧
    final.map Ticket.id = q'.map SharedTask.id

theorem serially_append {capacity : Nat} {queue middle : List Ticket}
    {order later : List (Tid × ManagerCall × Outcome)}
    (h : serially capacity queue order = some middle) :
    serially capacity queue (order ++ later) = serially capacity middle later := by
  unfold serially at h ⊢
  rw [List.foldlM_append, h]
  rfl

theorem serially_single {capacity : Nat} {queue queue' : List Ticket} {t : Tid}
    {call : ManagerCall} {outcome : Outcome}
    (h : inOnePiece capacity queue call = some (outcome, queue')) :
    serially capacity queue [(t, call, outcome)] = some queue' := by
  simp [serially, h]

end Serial

/-- A queue of accepted entries is left as it is by a reordering. -/
theorem inOnePiece_reorder {capacity : Nat} {queue : List Ticket}
    (h : ∀ ticket ∈ queue, ticket.accepted = true) (algorithm : SchedulingAlgorithm) :
    inOnePiece capacity queue (.reorderTasks algorithm) = some (.reordered, queue) := by
  have hnone : queue.dropWhile Ticket.accepted = [] := List.dropWhile_eq_nil_iff.mpr h
  simp only [inOnePiece, hnone]

/-- A reordering that meets a rejected entry loses what it has drained. -/
theorem inOnePiece_reorder_rejected {capacity : Nat} {before rest : List Ticket}
    {ticket : Ticket} (h : ∀ x ∈ before, x.accepted = true)
    (hticket : ticket.accepted = false) (algorithm : SchedulingAlgorithm) :
    inOnePiece capacity (before ++ ticket :: rest) (.reorderTasks algorithm) =
      some (.thrown, rest) := by
  have hdrop : (before ++ ticket :: rest).dropWhile Ticket.accepted = ticket :: rest := by
    rw [List.dropWhile_append_of_pos h, List.dropWhile_cons_of_neg (by simp [hticket])]
  simp only [inOnePiece, hdrop]

theorem Encodes.ticket {task : UnixTask} {st : SharedTask} (h : Encodes task st) :
    st.ticket = task.ticket := by
  rw [SharedTask.ticket, UnixTask.ticket, h.id, h.priority]

/-- A decoded task is accepted. -/
theorem Decodes.ticket {env : Env} {st : SharedTask} {time : Int} {task : UnixTask}
    (h : Decodes env.float st time task) : task.ticket = ⟨st.id, true⟩ := by
  rw [UnixTask.ticket, h.id, h.dynamicPriority, validPriority_dynamicPriorityOf]

/-- Updating keeps the tickets of accepted tasks. -/
theorem updatedFrom_tickets (env : Env) (algorithm : SchedulingAlgorithm) (r : Nat)
    {tasks : List UnixTask} (h : ∀ ticket ∈ tasks.map UnixTask.ticket, ticket.accepted = true) :
    (updatedFrom env algorithm r tasks).map UnixTask.ticket = tasks.map UnixTask.ticket := by
  have hadjusted : ∀ r, (adjustedFrom env r tasks).map UnixTask.ticket =
      tasks.map UnixTask.ticket := by
    induction tasks with
    | nil => exact fun _ => rfl
    | cons task rest ih =>
        intro r
        rw [List.map_cons] at h
        have hkept : (task.adjustedAt env.float (env.clock.read r)).ticket = task.ticket := by
          have haccepted : validPriority task.dynamicPriority = true :=
            h task.ticket List.mem_cons_self
          rw [UnixTask.ticket, UnixTask.ticket, haccepted]
          exact congrArg (Ticket.mk task.id) (validPriority_dynamicPriorityOf _ _ _ _ _)
        rw [adjustedFrom, List.map_cons, List.map_cons, hkept,
          ih fun x hx => h x (List.mem_cons_of_mem _ hx)]
  cases algorithm with
  | roundRobinScheduling i => rfl
  | priorityScheduling => exact hadjusted r

/-! ## What a reordering holds -/

/-- The tasks that a reordering has drained while it is still draining.  Once
it has taken out an entry that the decoder rejects, it will lose them. -/
def ManagerPc.drained : ManagerPc → List Ticket
  | .testing _ tasks => tasks.map UnixTask.ticket
  | .inQueue (.draining _ tasks) pc =>
      match pc.taken with
      | none => tasks.map UnixTask.ticket
      | some st =>
          if st.ticket.accepted then tasks.map UnixTask.ticket ++ [st.ticket] else []
  | _ => []

/-- The tasks that a reordering has still to put back. -/
def ManagerPc.left : ManagerPc → List Ticket
  | .inQueue (.refilling _ rest) pc =>
      (pc.toStore.map SharedTask.ticket).toList ++ rest.map UnixTask.ticket
  | .inQueue (.reprinting _ rest) _ => rest.map UnixTask.ticket
  | _ => []

/-- A call that has taken effect and has not finished, with its outcome. -/
def ManagerPc.settled : ManagerPc → List (ManagerCall × Outcome)
  | .inQueue .getting pc =>
      pc.taken.toList.map fun st => (.getNextTask, st.ticket.outcome)
  | .inQueue (.adding task) pc =>
      if pc.toStore = none then [(.addTask task, .added)] else []
  | .inQueue (.printing task) _ => [(.addTask task, .added)]
  | .inQueue (.draining algorithm _) pc =>
      match pc.taken with
      | none => []
      | some st => if st.ticket.accepted then [] else [(.reorderTasks algorithm, .thrown)]
  | .inQueue (.refilling algorithm _) _ | .inQueue (.reprinting algorithm _) _ =>
      [(.reorderTasks algorithm, .reordered)]
  | _ => []

/-- The entry of an `add_task` is the one for its task. -/
def ManagerPc.Carries : ManagerPc → Prop
  | .inQueue (.adding task) pc => ∀ st, pc.toStore = some st → st.ticket = task.ticket
  | _ => True

section Machine

variable {Tid : Type*} [Fintype Tid] [DecidableEq Tid]

/-- No other thread holds drained tasks. -/
def ManagerState.aloneDraining (s : ManagerState Tid) (t : Tid) : Bool :=
  decide (∀ u, u ≠ t → (s.pc u).drained = [])

/-- No other thread has tasks to put back. -/
def ManagerState.aloneRefilling (s : ManagerState Tid) (t : Tid) : Bool :=
  decide (∀ u, u ≠ t → (s.pc u).left = [])

/-- The drained tasks and one entry more fit in beside the queue. -/
def ManagerState.hasRoom (env : Env) (s : ManagerState Tid) : Bool :=
  decide (s.shm.count + ∑ u, (s.pc u).drained.length < env.capacity)

/-- The action makes no `sem_wait` fail. -/
def ManagerAction.healthy : ManagerAction Tid → Bool
  | .call _ _ _ => true
  | .step _ choice => !choice.fail

/-- The step disturbs no reordering.  No `sem_wait` fails, and:
* no entry is taken out while another thread holds drained tasks;
* no entry is put in while another thread has tasks to put back, nor by
  `add_task` when the drained tasks would not fit in beside it;
* no reordering that holds tasks finds the queue empty while another thread
  has tasks to put back. -/
def undisturbed (env : Env) (s : ManagerState Tid) : ManagerAction Tid → Bool
  | .call _ _ _ => true
  | .step t choice =>
      !choice.fail && match s.pc t with
        | .inQueue _ (.deqSubCount _) => s.aloneDraining t
        | .inQueue (.adding _) (.enqAddCount _) => s.aloneRefilling t && s.hasRoom env
        | .inQueue _ (.enqAddCount _) => s.aloneRefilling t
        | .testing _ (_ :: _) => s.shm.count != 0 || s.aloneRefilling t
        | _ => true

/-! ## The order in which calls take effect -/

/-- The state of a run that no step has disturbed: with `q` the counted queue,
`drained` and `left` what a reordering holds, the calls of `order`, one after
the other, lead to the queue the other threads should see. -/
structure Linearized (env : Env) (start : List Ticket) (s : ManagerState Tid)
    (q : List SharedTask) (drained left : List Ticket)
    (order : List (Tid × ManagerCall × Outcome)) : Prop where
  counted : CountedInv env.capacity q ⟨s.shm, fun t => (s.pc t).queue⟩
  fits : ∀ t, (s.pc t).Fits
  carries : ∀ t, (s.pc t).Carries
  healthy : ∀ t, (s.pc t).queue.failing = false
  drains : Sole (fun t => (s.pc t).drained) drained
  leaves : Sole (fun t => (s.pc t).left) left
  accepted : ∀ ticket ∈ drained ++ left, ticket.accepted = true
  serial : serially env.capacity start order =
    some (drained ++ q.map SharedTask.ticket ++ left)

/-- What a step of thread `t` from `pc` to `pc'` does to the order: `news` are
the calls that take effect with it. -/
structure Advance (env : Env) (s : ManagerState Tid) (t : Tid) (q : List SharedTask)
    (drained left : List Ticket) (pc pc' : ManagerPc) (reply : Option ManagerReply)
    (drained' left' : List Ticket) (news : List (ManagerCall × Outcome)) : Prop where
  drains : Sole (fun u => (Function.update s.pc t pc' u).drained) drained'
  leaves : Sole (fun u => (Function.update s.pc t pc' u).left) left'
  accepted : ∀ ticket ∈ drained' ++ left', ticket.accepted = true
  carries : pc'.Carries
  serial : serially env.capacity (drained ++ q.map SharedTask.ticket ++ left)
      (news.map fun e => (t, e)) =
    some (drained' ++ (pc.queue.effect q).map SharedTask.ticket ++ left')
  settles : pc.settled ++ news =
    (finishedCall pc reply).map (fun e => (e.1, e.2.outcome)) ++ pc'.settled

section Cases

variable {env : Env} {start : List Ticket} {s : ManagerState Tid} {t : Tid}
  {q : List SharedTask} {drained left : List Ticket}
  {order : List (Tid × ManagerCall × Outcome)} {pc pc' : ManagerPc}
  {reply : Option ManagerReply}

/-- A step at which no call takes effect. -/
theorem Linearized.silent (h : Linearized env start s q drained left order)
    (hpc : s.pc t = pc) (hdrained : pc'.drained = pc.drained) (hleft : pc'.left = pc.left)
    (heffect : pc.queue.effect q = q) (hcarries : pc'.Carries)
    (hsettles : pc.settled =
      (finishedCall pc reply).map (fun e => (e.1, e.2.outcome)) ++ pc'.settled) :
    Advance env s t q drained left pc pc' reply drained left [] := by
  subst hpc
  refine ⟨h.drains.kept hdrained, h.leaves.kept hleft, h.accepted, hcarries, ?_, ?_⟩
  · rw [heffect]
    rfl
  · rw [List.append_nil]
    exact hsettles

/-- A reordering finds the queue empty: it takes effect. -/
theorem Linearized.foundEmpty (h : Linearized env start s q drained left order)
    {algorithm : SchedulingAlgorithm} {tasks : List UnixTask} {r : Nat}
    (hpc : s.pc t = .testing algorithm tasks) (hcount : s.shm.count = 0)
    (hothers : tasks ≠ [] → ∀ u, u ≠ t → (s.pc u).left = [])
    (hrefill : Refills algorithm (updatedFrom env algorithm r tasks) pc' reply) :
    ∃ drained' left', Advance env s t q drained left (.testing algorithm tasks) pc' reply
      drained' left' [(.reorderTasks algorithm, .reordered)] := by
  have hnil : q = [] := List.eq_nil_of_length_eq_zero (h.counted.count_eq.symm.trans hcount)
  have hserial : serially env.capacity (drained ++ q.map SharedTask.ticket ++ left)
      [(t, .reorderTasks algorithm, .reordered)] = some (drained ++ left) := by
    rw [hnil, List.map_nil, List.append_nil]
    exact serially_single (inOnePiece_reorder h.accepted algorithm)
  have hdrained : (s.pc t).drained = tasks.map UnixTask.ticket := by rw [hpc]; rfl
  by_cases htasks : tasks = []
  · subst htasks
    have hnone : updatedFrom env algorithm r [] = [] := by cases algorithm <;> rfl
    rw [hnone] at hrefill
    cases hrefill
    refine ⟨drained, left, h.drains.kept (by rw [hpc]; rfl), h.leaves.kept (by rw [hpc]; rfl),
      h.accepted, trivial, ?_, rfl⟩
    rw [hnil] at hserial ⊢
    show _ = some (drained ++ List.map SharedTask.ticket [] ++ left)
    simpa using hserial
  · have hne : (s.pc t).drained ≠ [] := by simpa [hdrained] using htasks
    have halone : drained = tasks.map UnixTask.ticket :=
      (h.drains.eq_of_others (h.drains.others hne)).trans hdrained
    have hnoleft : left = [] := by
      have hown : (s.pc t).left = [] := by rw [hpc]; rfl
      exact (h.leaves.eq_of_others (hothers htasks)).trans hown
    have hkept : (updatedFrom env algorithm r tasks).map UnixTask.ticket = drained := by
      rw [halone]
      refine updatedFrom_tickets env algorithm r fun x hx => h.accepted x ?_
      rw [halone]
      exact List.mem_append_left _ hx
    generalize updatedFrom env algorithm r tasks = updated at hrefill hkept
    cases hrefill with
    | done =>
        rw [List.map_nil, halone, eq_comm, List.map_eq_nil_iff] at hkept
        exact absurd hkept htasks
    | @next task rest st hkeeps =>
        have hleft : (ManagerPc.inQueue (.refilling algorithm rest) (.enqWaitSlot st)).left =
            drained := by
          rw [← hkept, List.map_cons, ← hkeeps.ticket]
          rfl
        refine ⟨[], drained, ?_, ?_, ?_, trivial, ?_, rfl⟩
        · exact Sole.moved (g := ManagerPc.drained) (h.drains.others hne)
        · rw [← hleft]
          exact Sole.moved (g := ManagerPc.left) (hothers htasks)
        · intro x hx
          exact h.accepted x (List.mem_append_left _ hx)
        · rw [hnil, hnoleft] at hserial ⊢
          show _ = some ([] ++ List.map SharedTask.ticket [] ++ drained)
          simpa using hserial

/-- An enqueue updates the count: an `add_task` takes effect, a reordering
goes on. -/
theorem Linearized.stored (h : Linearized env start s q drained left order)
    {purpose : Purpose} {st : SharedTask}
    (hpc : s.pc t = .inQueue purpose (.enqAddCount st))
    (hothers : ∀ u, u ≠ t → (s.pc u).left = [])
    (hroom : ∀ task, purpose = .adding task →
      s.shm.count + ∑ u, (s.pc u).drained.length < env.capacity) :
    ∃ left' news, Advance env s t q drained left (.inQueue purpose (.enqAddCount st))
      (.inQueue purpose (.enqAddTotal st)) none drained left' news := by
  have hfits : (s.pc t).Fits := h.fits t
  have hleft : left = (s.pc t).left := h.leaves.eq_of_others hothers
  rw [hpc] at hfits
  cases purpose with
  | adding task =>
      have hcarries : (s.pc t).Carries := h.carries t
      rw [hpc] at hcarries
      have hticket : st.ticket = task.ticket := hcarries st rfl
      have hnoleft : left = [] := by rw [hleft, hpc]; rfl
      refine ⟨left, [(.addTask task, .added)], h.drains.kept (by rw [hpc]; rfl),
        h.leaves.kept (by rw [hpc]; rfl), h.accepted,
        by simp [ManagerPc.Carries, QueuePc.toStore], ?_, rfl⟩
      have hlen : (drained ++ q.map SharedTask.ticket).length < env.capacity := by
        have hsum := h.drains.length_le
        have hbound := hroom task rfl
        have hcount := h.counted.count_eq
        rw [List.length_append, List.length_map]
        simp only at hcount
        omega
      rw [hnoleft, List.append_nil, List.append_nil]
      refine serially_single ?_
      rw [inOnePiece, if_pos hlen, ← hticket]
      simp [ManagerPc.queue, QueuePc.effect]
  | refilling algorithm rest =>
      have hnow : left = st.ticket :: rest.map UnixTask.ticket := by rw [hleft, hpc]; rfl
      refine ⟨rest.map UnixTask.ticket, [], h.drains.kept (by rw [hpc]; rfl), ?_, ?_, trivial,
        ?_, rfl⟩
      · exact Sole.moved (g := ManagerPc.left) hothers
      · intro x hx
        refine h.accepted x ?_
        rw [hnow]
        rcases List.mem_append.mp hx with hx | hx
        · exact List.mem_append_left _ hx
        · exact List.mem_append_right _ (List.mem_cons_of_mem _ hx)
      · rw [hnow]
        simp [ManagerPc.queue, QueuePc.effect, serially]
  | getting => cases hfits
  | printing task => cases hfits
  | draining algorithm tasks => cases hfits
  | reprinting algorithm rest => cases hfits

/-- A dequeue updates the count: a `get_next_task` takes effect, and so does a
reordering that has met a rejected entry. -/
theorem Linearized.taken (h : Linearized env start s q drained left order)
    {purpose : Purpose} {st : SharedTask}
    (hpc : s.pc t = .inQueue purpose (.deqSubCount st))
    (hothers : ∀ u, u ≠ t → (s.pc u).drained = []) :
    ∃ drained' news, Advance env s t q drained left (.inQueue purpose (.deqSubCount st))
      (.inQueue purpose (.deqAddTotal st)) none drained' left news := by
  have hfits : (s.pc t).Fits := h.fits t
  have hdrained : drained = (s.pc t).drained := h.drains.eq_of_others hothers
  have hhead : q = st :: q.tail := h.counted.head_eq (t := t) (by simp only [hpc]; rfl)
  have hmoved : Sole (fun u => (Function.update s.pc t
      (.inQueue purpose (.deqAddTotal st)) u).drained)
        (ManagerPc.inQueue purpose (.deqAddTotal st)).drained :=
    Sole.moved (g := ManagerPc.drained) hothers
  rw [hpc] at hfits
  cases purpose with
  | getting =>
      have hnone : drained = [] := by rw [hdrained, hpc]; rfl
      refine ⟨[], [(.getNextTask, st.ticket.outcome)], hmoved,
        h.leaves.kept (by rw [hpc]; rfl), ?_, trivial, ?_, rfl⟩
      · rw [← hnone]
        exact h.accepted
      · rw [hnone, hhead]
        refine serially_single ?_
        rfl
  | draining algorithm tasks =>
      have hnow : drained = tasks.map UnixTask.ticket := by rw [hdrained, hpc]; rfl
      have haccepted : ∀ x ∈ drained, x.accepted = true :=
        fun x hx => h.accepted x (List.mem_append_left _ hx)
      have hleft : ∀ x ∈ left, x.accepted = true :=
        fun x hx => h.accepted x (List.mem_append_right _ hx)
      cases hvalid : st.ticket.accepted with
      | true =>
          have hafter : (ManagerPc.inQueue (.draining algorithm tasks)
              (.deqAddTotal st)).drained = drained ++ [st.ticket] := by
            simp [ManagerPc.drained, QueuePc.taken, hvalid, hnow]
          rw [hafter] at hmoved
          refine ⟨drained ++ [st.ticket], [], hmoved, h.leaves.kept (by rw [hpc]; rfl), ?_,
            trivial, ?_, ?_⟩
          · intro x hx
            simp only [List.mem_append, List.mem_singleton] at hx
            rcases hx with (hx | rfl) | hx
            · exact haccepted x hx
            · exact hvalid
            · exact hleft x hx
          · rw [hhead]
            simp [ManagerPc.queue, QueuePc.effect, serially]
          · simp [ManagerPc.settled, QueuePc.taken, finishedCall, hvalid]
      | false =>
          have hafter : (ManagerPc.inQueue (.draining algorithm tasks)
              (.deqAddTotal st)).drained = [] := by
            simp [ManagerPc.drained, QueuePc.taken, hvalid]
          rw [hafter] at hmoved
          refine ⟨[], [(.reorderTasks algorithm, .thrown)], hmoved,
            h.leaves.kept (by rw [hpc]; rfl), hleft, trivial, ?_, ?_⟩
          · rw [hhead, List.map_cons, List.append_assoc, List.cons_append]
            exact serially_single (inOnePiece_reorder_rejected haccepted hvalid algorithm)
          · simp [ManagerPc.settled, QueuePc.taken, finishedCall, hvalid]
  | adding task => cases hfits
  | printing task => cases hfits
  | refilling algorithm rest => cases hfits
  | reprinting algorithm rest => cases hfits

/-- A step inside a queue call, other than the updates of the count, keeps what
its thread holds. -/
theorem Linearized.inside (h : Linearized env start s q drained left order)
    {purpose : Purpose} {qpc qpc' : QueuePc} (hpc : s.pc t = .inQueue purpose qpc)
    (hstore : qpc'.toStore = qpc.toStore) (htaken : qpc'.taken = qpc.taken)
    (heffect : qpc.effect q = q) :
    Advance env s t q drained left (.inQueue purpose qpc) (.inQueue purpose qpc') none
      drained left [] := by
  have hcarries : (ManagerPc.inQueue purpose qpc).Carries := hpc ▸ h.carries t
  have hdrained : (ManagerPc.inQueue purpose qpc').drained =
      (ManagerPc.inQueue purpose qpc).drained := by
    cases purpose <;> simp only [ManagerPc.drained, htaken]
  have hleft : (ManagerPc.inQueue purpose qpc').left =
      (ManagerPc.inQueue purpose qpc).left := by
    cases purpose <;> simp only [ManagerPc.left, hstore]
  have hsettles : (ManagerPc.inQueue purpose qpc).settled =
      (ManagerPc.inQueue purpose qpc').settled := by
    cases purpose <;> simp only [ManagerPc.settled, hstore, htaken]
  refine h.silent hpc hdrained hleft heffect ?_ hsettles
  cases purpose with
  | adding task => exact fun st hst => hcarries st (hstore ▸ hst)
  | _ => trivial

/-- The end of a queue call: what the call of the manager replies is the
outcome it had when it took effect. -/
theorem Linearized.finished (h : Linearized env start s q drained left order)
    {purpose : Purpose} {qpc : QueuePc} {ended : Reply}
    (hpc : s.pc t = .inQueue purpose qpc) (hends : Finishes false qpc ended)
    (hresume : Resumes env purpose ended pc' reply) :
    Advance env s t q drained left (.inQueue purpose qpc) pc' reply drained left [] := by
  cases hends with
  | thrown hthrows =>
      have hhealthy : (s.pc t).queue.failing = false := h.healthy t
      rw [hpc] at hhealthy
      rcases (QueuePc.throws_silent hthrows).2.2 with hfails | hfails
      · cases hfails
      · exact Bool.noConfusion (hhealthy.symm.trans hfails)
  | dequeued st =>
      cases hresume with
      | @got _ task _ hvalid hkeeps =>
          refine h.silent hpc rfl rfl rfl trivial ?_
          simp [ManagerPc.settled, QueuePc.taken, finishedCall, ManagerPc.call, Purpose.call,
            ManagerReply.outcome, Ticket.outcome, SharedTask.ticket, hvalid, hkeeps.id]
      | rejected hvalid =>
          refine h.silent hpc rfl rfl rfl trivial ?_
          have hrejected : st.ticket.accepted = false := hvalid
          simp [ManagerPc.settled, QueuePc.taken, finishedCall, ManagerPc.call, Purpose.call,
            ManagerReply.outcome, Ticket.outcome, hrejected]
      | drained hvalid hkeeps =>
          have haccepted : st.ticket.accepted = true := hvalid
          have hticket : st.ticket = ⟨st.id, true⟩ := by rw [SharedTask.ticket, hvalid]
          refine h.silent hpc ?_ rfl rfl trivial ?_
          · simp [ManagerPc.drained, QueuePc.taken, hkeeps.ticket, hticket]
          · simp [ManagerPc.settled, QueuePc.taken, finishedCall, haccepted]
      | drainRejected hvalid =>
          have hrejected : st.ticket.accepted = false := hvalid
          refine h.silent hpc ?_ rfl rfl trivial ?_
          · simp [ManagerPc.drained, QueuePc.taken, hrejected]
          · simp [ManagerPc.settled, QueuePc.taken, finishedCall, ManagerPc.call, Purpose.call,
              ManagerReply.outcome, hrejected]
  | enqueued =>
      cases hresume with
      | stored => exact h.silent hpc rfl rfl rfl trivial rfl
      | refilled => exact h.silent hpc rfl rfl rfl trivial rfl
  | printed lines =>
      cases hresume with
      | added => exact h.silent hpc rfl rfl rfl trivial rfl
      | reprinted hrefill =>
          cases hrefill with
          | done => exact h.silent hpc rfl rfl rfl trivial rfl
          | next hkeeps =>
              refine h.silent hpc rfl ?_ rfl trivial rfl
              simp [ManagerPc.left, QueuePc.toStore, hkeeps.ticket]

/-- **Every undisturbed step advances the order.** -/
theorem Linearized.advance (h : Linearized env start s q drained left order)
    {choice : Choice} {shm' : Shm} (hadmits : undisturbed env s (.step t choice) = true)
    (hpc : s.pc t = pc) (hmove : ManagerMove env false s.shm pc shm' pc' reply) :
    ∃ drained' left' news,
      Advance env s t q drained left pc pc' reply drained' left' news := by
  simp only [undisturbed, hpc, Bool.and_eq_true] at hadmits
  obtain ⟨-, hadmits⟩ := hadmits
  cases hmove with
  | found hcount => exact ⟨drained, left, [], h.silent hpc rfl rfl rfl trivial rfl⟩
  | @foundEmpty algorithm tasks r pc' reply hcount hrefill =>
      have hothers : tasks ≠ [] → ∀ u, u ≠ t → (s.pc u).left = [] := by
        intro hne
        cases tasks with
        | nil => exact absurd rfl hne
        | cons task rest =>
            simp only [hcount, bne_self_eq_false, Bool.false_or] at hadmits
            exact of_decide_eq_true hadmits
      obtain ⟨drained', left', hadvance⟩ := h.foundEmpty hpc hcount hothers hrefill
      exact ⟨drained', left', _, hadvance⟩
  | @inside purpose qpc qpc' shm' notes hstep hne =>
      rcases queueStep_inHand hstep hne with ⟨hstore, htaken, heffect⟩ | ⟨st, rfl, rfl⟩ |
        ⟨st, rfl, rfl⟩
      · exact ⟨drained, left, [], h.inside hpc hstore htaken (heffect q)⟩
      · have hothers : s.aloneRefilling t = true := by
          cases purpose with
          | adding task =>
              simp only [Bool.and_eq_true] at hadmits
              exact hadmits.1
          | _ => exact hadmits
        have hroom : ∀ task, purpose = .adding task →
            s.shm.count + ∑ u, (s.pc u).drained.length < env.capacity := by
          rintro task rfl
          simp only [Bool.and_eq_true] at hadmits
          exact of_decide_eq_true hadmits.2
        obtain ⟨left', news, hadvance⟩ := h.stored hpc (of_decide_eq_true hothers) hroom
        exact ⟨drained, left', news, hadvance⟩
      · obtain ⟨drained', news, hadvance⟩ := h.taken hpc (of_decide_eq_true hadmits)
        exact ⟨drained', left, news, hadvance⟩
  | finished hstep hends hresume => exact ⟨drained, left, [], h.finished hpc hends hresume⟩

end Cases

/-- The calls that have taken effect are those that have finished and those
that have settled, each thread's in the order it made them. -/
def InCallOrder (s : ManagerState Tid) (trace : List (Tid × ManagerCall × ManagerReply))
    (order : List (Tid × ManagerCall × Outcome)) : Prop :=
  ∀ t, callsOf t order = callsOf t (outcomes trace) ++ (s.pc t).settled.map fun e => (t, e)

omit [Fintype Tid] in
theorem callsOf_own (t : Tid) (calls : List (ManagerCall × Outcome)) :
    callsOf t (calls.map fun e => (t, e)) = calls.map fun e => (t, e) := by
  refine List.filter_eq_self.mpr fun e he => ?_
  obtain ⟨x, -, rfl⟩ := List.mem_map.mp he
  exact decide_eq_true rfl

omit [Fintype Tid] in
theorem callsOf_other {t u : Tid} (hut : u ≠ t) (calls : List (ManagerCall × Outcome)) :
    callsOf u (calls.map fun e => (t, e)) = [] := by
  refine List.filter_eq_nil_iff.mpr fun e he => ?_
  obtain ⟨x, -, rfl⟩ := List.mem_map.mp he
  simpa using Ne.symm hut

section Run

variable {env : Env} {start : List Ticket} {s s' : ManagerState Tid}
  {trace es : List (Tid × ManagerCall × ManagerReply)}

omit [Fintype Tid] in
/-- The queue calls of the threads, after one of them has moved. -/
theorem queue_update (pc : Tid → ManagerPc) (t : Tid) (next : ManagerPc) :
    (fun u => (Function.update pc t next u).queue) =
      Function.update (fun u => (pc u).queue) t next.queue := by
  funext u
  exact Function.apply_update (fun _ => ManagerPc.queue) pc t next u

omit [Fintype Tid] in
/-- What held of every thread, and holds of the thread that has moved. -/
theorem forall_update {P : ManagerPc → Prop} {pc : Tid → ManagerPc} {t : Tid}
    {next : ManagerPc} (h : ∀ u, P (pc u)) (hnext : P next) :
    ∀ u, P (Function.update pc t next u) :=
  (Function.forall_update_iff pc fun _ => P).mpr ⟨hnext, fun u _ => h u⟩

omit [Fintype Tid] in
/-- A step keeps the calls of every thread in order. -/
theorem InCallOrder.step {order : List (Tid × ManagerCall × Outcome)}
    (h : InCallOrder s trace order) {t : Tid} {shm' : Shm} {pc' : ManagerPc}
    {finished : List (ManagerCall × ManagerReply)} {news : List (ManagerCall × Outcome)}
    (hsettles : (s.pc t).settled ++ news =
      finished.map (fun e => (e.1, e.2.outcome)) ++ pc'.settled) :
    InCallOrder ⟨shm', Function.update s.pc t pc'⟩ (trace ++ finished.map (t, ·))
      (order ++ news.map fun e => (t, e)) := by
  intro u
  have hfinished : outcomes (finished.map (t, ·)) =
      (finished.map fun e => (e.1, e.2.outcome)).map fun e => (t, e) := by
    simp [outcomes]
  have hsplit : ∀ left right : List (Tid × ManagerCall × Outcome),
      callsOf u (left ++ right) = callsOf u left ++ callsOf u right :=
    fun left right => List.filter_append left right
  have happend : outcomes (trace ++ finished.map (t, ·)) =
      outcomes trace ++ outcomes (finished.map (t, ·)) := List.map_append
  rw [happend, hsplit, hsplit, h u, hfinished]
  by_cases hut : u = t
  · subst hut
    simp only [callsOf_own, Function.update_self]
    rw [List.append_assoc, List.append_assoc, ← List.map_append, hsettles, List.map_append]
  · simp only [callsOf_other hut, Function.update_of_ne hut, List.append_nil]

omit [Fintype Tid] in
/-- Two lists of calls that agree for each thread have the same calls. -/
theorem perm_of_callsOf {left right : List (Tid × ManagerCall × Outcome)}
    (h : ∀ t, callsOf t left = callsOf t right) : left.Perm right := by
  classical
  rw [List.perm_iff_count]
  intro e
  have hcount : ∀ order : List (Tid × ManagerCall × Outcome),
      (callsOf e.1 order).count e = order.count e :=
    fun order => List.count_filter (decide_eq_true rfl)
  rw [← hcount left, ← hcount right, h e.1]

/-- Everything an undisturbed run keeps: there is an order in which its calls
have taken effect. -/
def HasOrder (env : Env) (start : List Ticket)
    (trace : List (Tid × ManagerCall × ManagerReply)) (s : ManagerState Tid) : Prop :=
  ∃ q drained left order, Linearized env start s q drained left order ∧
    InCallOrder s trace order

/-- An undisturbed step of a call keeps an order. -/
theorem HasOrder.step (h : HasOrder env start trace s) {t : Tid} {choice : Choice}
    (hadmits : undisturbed env s (.step t choice) = true) {shm' : Shm} {pc' : ManagerPc}
    {reply : Option ManagerReply}
    (hstep : managerStep env choice s.shm (s.pc t) = some (shm', pc', reply)) :
    HasOrder env start (trace ++ (finishedCall (s.pc t) reply).map (t, ·))
      ⟨shm', Function.update s.pc t pc'⟩ := by
  obtain ⟨q, drained, left, order, hlin, horder⟩ := h
  have hfail : choice.fail = false := by
    have hnot := hadmits
    simp only [undisturbed, Bool.and_eq_true, Bool.not_eq_true'] at hnot
    exact hnot.1
  have hmove := managerStep_move hstep
  rw [hfail] at hmove
  obtain ⟨drained', left', news, hadvance⟩ := hlin.advance hadmits rfl hmove
  refine ⟨(s.pc t).queue.effect q, drained', left', order ++ news.map fun e => (t, e),
    ⟨?_, ?_, ?_, ?_, hadvance.drains, hadvance.leaves, hadvance.accepted, ?_⟩,
    horder.step hadvance.settles⟩
  · simp only [queue_update]
    exact hmove.countedInv rfl hlin.counted
  · exact forall_update hlin.fits (hmove.fits (hlin.fits t))
  · exact forall_update hlin.carries hadvance.carries
  · exact forall_update (P := fun pc => pc.queue.failing = false) hlin.healthy
      (hmove.healthy (hlin.healthy t) (hlin.counted.claim_le t))
  · rw [serially_append hlin.serial]
    exact hadvance.serial

/-- Starting a call keeps an order. -/
theorem HasOrder.call (h : HasOrder env start trace s) {t : Tid} (hidle : s.pc t = .idle)
    {call : ManagerCall} {pc : ManagerPc} (hbegins : Begins call pc) :
    HasOrder env start trace { s with pc := Function.update s.pc t pc } := by
  obtain ⟨q, drained, left, order, hlin, horder⟩ := h
  have hnothing : pc.drained = [] ∧ pc.left = [] ∧ pc.settled = [] ∧ pc.Carries := by
    cases hbegins with
    | getNextTask => exact ⟨rfl, rfl, rfl, trivial⟩
    | @addTask task st hkeeps =>
        refine ⟨rfl, rfl, rfl, fun st' hst => ?_⟩
        cases hst
        exact hkeeps.ticket
    | reorderTasks => exact ⟨rfl, rfl, rfl, trivial⟩
  obtain ⟨hdrained, hleft, hsettled, hcarries⟩ := hnothing
  have hsettles : (s.pc t).settled ++ ([] : List (ManagerCall × Outcome)) =
      ([] : List (ManagerCall × ManagerReply)).map (fun e => (e.1, e.2.outcome)) ++
        pc.settled := by
    rw [hidle, hsettled]
    rfl
  have hcalls : InCallOrder { s with pc := Function.update s.pc t pc } (trace ++ [])
      (order ++ []) := horder.step hsettles
  rw [List.append_nil, List.append_nil] at hcalls
  refine ⟨q, drained, left, order, ⟨?_, ?_, ?_, ?_, ?_, ?_, hlin.accepted, hlin.serial⟩,
    hcalls⟩
  · simp only [queue_update]
    exact hlin.counted.starts (by simp only [hidle]; rfl) hbegins.starts.1
  · exact forall_update hlin.fits hbegins.starts.2
  · exact forall_update hlin.carries hcarries
  · exact forall_update (P := fun pc => pc.queue.failing = false) hlin.healthy
      hbegins.starts.1.healthy
  · exact hlin.drains.kept (by rw [hdrained, hidle]; rfl)
  · exact hlin.leaves.kept (by rw [hleft, hidle]; rfl)

/-- Before the first call there is nothing to order. -/
theorem hasOrder_start {shm : Shm} {q : List SharedTask}
    (h : Quiescent env.capacity shm q) :
    HasOrder env (q.map SharedTask.ticket) [] (⟨shm, fun _ => .idle⟩ : ManagerState Tid) := by
  refine ⟨q, [], [], [], ⟨h.countedInv fun _ => rfl, fun _ => trivial, fun _ => trivial,
    fun _ => rfl, .inr ⟨rfl, fun _ => rfl⟩, .inr ⟨rfl, fun _ => rfl⟩, by simp, ?_⟩,
    fun _ => rfl⟩
  simp [serially]

/-- An undisturbed action keeps an order. -/
theorem HasOrder.action (h : HasOrder env start trace s) {a : ManagerAction Tid}
    (hadmits : undisturbed env s a = true)
    (hstep : (managerMachine Tid env).step s a = some (s', es)) :
    HasOrder env start (trace ++ es) s' := by
  cases a with
  | call t call choice =>
      simp only [managerMachine] at hstep
      cases hidle : s.pc t with
      | idle =>
          simp only [hidle, Option.map_eq_some_iff, Prod.mk.injEq] at hstep
          obtain ⟨pc, hstart, rfl, rfl⟩ := hstep
          rw [List.append_nil]
          exact h.call hidle (start_begins hstart)
      | _ => simp [hidle] at hstep
  | step t choice =>
      simp only [managerMachine, Option.map_eq_some_iff, Prod.mk.injEq] at hstep
      obtain ⟨⟨shm', pc', reply⟩, hmoves, rfl, rfl⟩ := hstep
      exact h.step hadmits hmoves

/-- **Every undisturbed run has an order.** -/
theorem hasOrder_run {shm : Shm} {q : List SharedTask} (h : Quiescent env.capacity shm q)
    {schedule : List (ManagerAction Tid)}
    (hrun : exec (managerMachine Tid env) ⟨shm, fun _ => .idle⟩ schedule = some (s, trace))
    (halong : along (managerMachine Tid env) (undisturbed env) ⟨shm, fun _ => .idle⟩
      schedule = true) :
    HasOrder env (q.map SharedTask.ticket) trace s :=
  exec_invariant (HasOrder env (q.map SharedTask.ticket))
    (fun _ _ _ _ _ hinv hadmits hstep => hinv.action hadmits hstep) hrun halong
    (hasOrder_start h)

/-- When all calls have finished, an order is a serial execution of them. -/
theorem HasOrder.finished {q : List SharedTask}
    (h : HasOrder env (q.map SharedTask.ticket) trace s) (hdone : ∀ t, s.pc t = .idle) :
    ∃ q', Quiescent env.capacity s.shm q' ∧ Serializable env.capacity q trace q' := by
  obtain ⟨q', drained, left, order, hlin, horder⟩ := h
  have hdrained : drained = [] := hlin.drains.eq_nil fun t => by rw [hdone t]; rfl
  have hleft : left = [] := hlin.leaves.eq_nil fun t => by rw [hdone t]; rfl
  have hserial := hlin.serial
  rw [hdrained, hleft, List.nil_append, List.append_nil] at hserial
  have hcalls : ∀ t, callsOf t order = callsOf t (outcomes trace) := by
    intro t
    rw [horder t, hdone t]
    exact List.append_nil _
  refine ⟨q', hlin.counted.quiescent fun t => ?_, order, _, hcalls, hserial, ?_⟩
  · simp only [hdone t]
    rfl
  · rw [List.map_map]
    rfl

/-- A thread that works alone disturbs no reordering. -/
theorem Linearized.undisturbed_alone {q : List SharedTask} {drained left : List Ticket}
    {order : List (Tid × ManagerCall × Outcome)}
    (h : Linearized env start s q drained left order) {t : Tid}
    (halone : ∀ u, u ≠ t → s.pc u = .idle) {choice : Choice} (hfail : choice.fail = false) :
    undisturbed env s (.step t choice) = true := by
  have hdraining : s.aloneDraining t = true :=
    decide_eq_true fun u hu => by rw [halone u hu]; rfl
  have hrefilling : s.aloneRefilling t = true :=
    decide_eq_true fun u hu => by rw [halone u hu]; rfl
  have hroom : ∀ task st, s.pc t = .inQueue (.adding task) (.enqAddCount st) →
      s.hasRoom env = true := by
    intro task st ht
    have hnothing : ∀ u, (s.pc u).drained = [] := by
      intro u
      by_cases hu : u = t
      · rw [hu, ht]
        rfl
      · rw [halone u hu]
        rfl
    have hqueue : (fun u => (s.pc u).queue) t = .enqAddCount st := by
      simp only [ht]
      rfl
    have hless := h.counted.room hqueue
    have hcount := h.counted.count_eq
    refine decide_eq_true ?_
    simp only [hnothing, List.length_nil, Finset.sum_const_zero]
    simp only at hcount
    omega
  unfold undisturbed
  simp only [hfail, Bool.not_false, Bool.true_and]
  split
  · exact hdraining
  · rename_i task st hpc
    rw [hrefilling, hroom task st hpc]
    rfl
  · exact hrefilling
  · rw [hrefilling, Bool.or_true]
  · rfl

/-- **Reordering is atomic where nobody disturbs it.**  In every run of any
number of threads that call `get_next_task`, `add_task` and `reorder_tasks`,
if no step disturbs a reordering and all calls have finished, then the calls
have the outcomes and leave the ids of a serial execution of the same calls. -/
theorem serializable_of_undisturbed {shm : Shm} {q : List SharedTask}
    (h : Quiescent env.capacity shm q) {schedule : List (ManagerAction Tid)}
    (hrun : exec (managerMachine Tid env) ⟨shm, fun _ => .idle⟩ schedule = some (s, trace))
    (halong : along (managerMachine Tid env) (undisturbed env) ⟨shm, fun _ => .idle⟩
      schedule = true)
    (hdone : ∀ t, s.pc t = .idle) :
    ∃ q', Quiescent env.capacity s.shm q' ∧ Serializable env.capacity q trace q' :=
  (hasOrder_run h hrun halong).finished hdone

end Run

end Machine

/-- **One thread alone** executes each call in one piece, as `inOnePiece` says. -/
theorem alone_in_one_piece {env : Env} {shm : Shm} {q : List SharedTask}
    {s : ManagerState Unit} {trace : List (Unit × ManagerCall × ManagerReply)}
    (h : Quiescent env.capacity shm q) {schedule : List (ManagerAction Unit)}
    (hrun : exec (managerMachine Unit env) ⟨shm, fun _ => .idle⟩ schedule = some (s, trace))
    (halong : along (managerMachine Unit env) (fun _ a => a.healthy) ⟨shm, fun _ => .idle⟩
      schedule = true)
    (hdone : s.pc () = .idle) :
    ∃ q' final, Quiescent env.capacity s.shm q' ∧
      serially env.capacity (q.map SharedTask.ticket) (outcomes trace) = some final ∧
      final.map Ticket.id = q'.map SharedTask.id := by
  have horder : HasOrder env (q.map SharedTask.ticket) trace s := by
    refine exec_invariant (HasOrder env (q.map SharedTask.ticket))
      (fun before s a s' es hinv hadmits hstep => hinv.action ?_ hstep) hrun halong
      (hasOrder_start h)
    cases a with
    | call t call choice => rfl
    | step t choice =>
        obtain ⟨q₁, drained, left, order, hlin, -⟩ := hinv
        refine hlin.undisturbed_alone (fun u hu => absurd (Subsingleton.elim u t) hu) ?_
        simpa [ManagerAction.healthy] using hadmits
  obtain ⟨q', hq', order, final, hcalls, hserial, hids⟩ := horder.finished fun _ => hdone
  have hall : ∀ calls : List (Unit × ManagerCall × Outcome), callsOf () calls = calls :=
    fun calls => List.filter_eq_self.mpr fun _ _ => decide_eq_true (Subsingleton.elim _ _)
  have hsame := hcalls ()
  rw [hall, hall] at hsame
  rw [hsame] at hserial
  exact ⟨q', final, hq', hserial, hids⟩

/-! ## Two schedules -/

/-- Two threads that share a segment with the entries 1 and 2. -/
def sharedTwo : ManagerState Bool :=
  ⟨Shm.holdingTwo (.numbered 1 0) (.numbered 2 0), fun _ => .idle⟩

/-- A thread takes `n` steps. -/
def steps (t : Bool) (n : Nat) : List (ManagerAction Bool) :=
  List.replicate n (.step t Choice.quiet)

/-- A task of 100 ms, arrived at time 0. -/
def cpuTask (id : Int32) : UnixTask := CpuIntensiveTask.built id 100 0

/-- One thread adds task 5, the other one begins to reorder and drains it; then
the first adds task 6, before the reordering goes on. -/
def addWhileReordering : List (ManagerAction Bool) :=
  .call true (.addTask (cpuTask 5)) Choice.quiet :: steps true 16 ++
    .call false (.reorderTasks (.roundRobinScheduling 0)) Choice.quiet :: steps false 11 ++
    .call true (.addTask (cpuTask 6)) Choice.quiet :: steps true 16 ++ steps false 45

theorem addWhileReordering_executes :
    (exec (managerMachine Bool envTwo) ⟨Shm.create 2, fun _ => .idle⟩
      addWhileReordering).isSome = true := by
  decide +kernel

/-- The second `add_task` falls into the reordering and does not disturb it. -/
theorem serializable_addWhileReordering :
    ∃ s trace q', exec (managerMachine Bool envTwo) ⟨Shm.create 2, fun _ => .idle⟩
        addWhileReordering = some (s, trace) ∧
      outcomes trace = [(true, .addTask (cpuTask 5), .added),
        (true, .addTask (cpuTask 6), .added),
        (false, .reorderTasks (.roundRobinScheduling 0), .reordered)] ∧
      Quiescent 2 s.shm q' ∧ Serializable 2 [] trace q' := by
  have halong : along (managerMachine Bool envTwo) (undisturbed envTwo)
      ⟨Shm.create 2, fun _ => .idle⟩ addWhileReordering = true := by
    decide +kernel
  have hdone : ∀ t, (((exec (managerMachine Bool envTwo) ⟨Shm.create 2, fun _ => .idle⟩
      addWhileReordering).get addWhileReordering_executes).1.pc t).call.isNone = true := by
    decide +kernel
  have houtcomes : outcomes ((exec (managerMachine Bool envTwo) ⟨Shm.create 2, fun _ => .idle⟩
      addWhileReordering).get addWhileReordering_executes).2 =
        [(true, .addTask (cpuTask 5), .added), (true, .addTask (cpuTask 6), .added),
          (false, .reorderTasks (.roundRobinScheduling 0), .reordered)] := by
    decide +kernel
  have hq : Quiescent envTwo.capacity (Shm.create envTwo.capacity) [] :=
    quiescent_create Nat.two_pos
  obtain ⟨q', hq', hserial⟩ := serializable_of_undisturbed hq
    (exec_get addWhileReordering_executes) halong fun t => ManagerPc.eq_idle (hdone t)
  exact ⟨_, _, q', exec_get addWhileReordering_executes, houtcomes, hq', hserial⟩

/-- One thread has drained entry 1 when the other takes out the head. -/
def takeWhileReordering : List (ManagerAction Bool) :=
  .call false (.reorderTasks (.roundRobinScheduling 0)) Choice.quiet :: steps false 11 ++
    .call true .getNextTask Choice.quiet :: steps true 10 ++ steps false 17

theorem takeWhileReordering_executes :
    (exec (managerMachine Bool envTwo) sharedTwo takeWhileReordering).isSome = true := by
  decide +kernel

/-- The other thread is handed entry 2, and all calls finish. -/
theorem takeWhileReordering_outcomes :
    ∃ s trace, exec (managerMachine Bool envTwo) sharedTwo takeWhileReordering =
        some (s, trace) ∧
      (∀ t, s.pc t = .idle) ∧
      outcomes trace = [(true, .getNextTask, .got 2),
        (false, .reorderTasks (.roundRobinScheduling 0), .reordered)] := by
  have hdone : ∀ t, (((exec (managerMachine Bool envTwo) sharedTwo
      takeWhileReordering).get takeWhileReordering_executes).1.pc t).call.isNone = true := by
    decide +kernel
  have houtcomes : outcomes ((exec (managerMachine Bool envTwo) sharedTwo
      takeWhileReordering).get takeWhileReordering_executes).2 = [(true, .getNextTask, .got 2),
        (false, .reorderTasks (.roundRobinScheduling 0), .reordered)] := by
    decide +kernel
  exact ⟨_, _, exec_get takeWhileReordering_executes, fun t => ManagerPc.eq_idle (hdone t),
    houtcomes⟩

/-- **Reordering is not atomic.**  Entry 2 is taken out although entry 1 was
queued before it and stays in the queue: no serial execution does that. -/
theorem reordering_is_not_atomic :
    ∃ s trace, exec (managerMachine Bool envTwo) sharedTwo takeWhileReordering =
        some (s, trace) ∧
      (∀ t, s.pc t = .idle) ∧
      ∀ q', ¬ Serializable 2 [.numbered 1 0, .numbered 2 0] trace q' := by
  obtain ⟨s, trace, hrun, hdone, houtcomes⟩ := takeWhileReordering_outcomes
  refine ⟨s, trace, hrun, hdone, ?_⟩
  rintro q' ⟨order, final, hcalls, hserial, -⟩
  have hperm := perm_of_callsOf hcalls
  rw [houtcomes] at hperm
  rcases List.perm_pair.mp hperm with rfl | rfl
  · have hnone : serially 2 ([SharedTask.numbered 1 0, .numbered 2 0].map SharedTask.ticket)
        [(true, .getNextTask, .got 2),
          (false, .reorderTasks (.roundRobinScheduling 0), .reordered)] = none := by
      decide
    rw [hnone] at hserial
    cases hserial
  · have hnone : serially 2 ([SharedTask.numbered 1 0, .numbered 2 0].map SharedTask.ticket)
        [(false, .reorderTasks (.roundRobinScheduling 0), .reordered),
          (true, .getNextTask, .got 2)] = none := by
      decide
    rw [hnone] at hserial
    cases hserial

end TaskSheduler
