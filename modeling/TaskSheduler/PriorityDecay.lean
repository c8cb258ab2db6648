import TaskSheduler.SingleAdjustment

/-!
# Where the priorities end up

`reorder_tasks` runs twice a second in `schedule` and once for every task that
is added.  Each pass takes something off every stored priority: decoding with a
clock that is ten seconds or more from its zero takes off `fullLoss`, and with
priority scheduling the update starts from the stored priority again and takes
off what the time since decoding is worth, at least `boostLoss`.

The losses add up over any number of passes with any algorithms until the
priority is -20 (`priorities_sink`), and with round robin they are all there
is: after seven passes all tasks in the queue have the same priority.  The
arithmetic is that of the machine, in single precision.
-/

namespace TaskSheduler

open Programs FloatArithmetic

/-- What a pass takes off a priority at least. -/
def SchedulingAlgorithm.loss : SchedulingAlgorithm → Bool → Int
  | .roundRobinScheduling _, io => fullLoss io
  | .priorityScheduling, io => boostLoss io

/-- What several passes take off. -/
def totalLoss (algorithms : List SchedulingAlgorithm) (io : Bool) : Int :=
  (algorithms.map fun a => a.loss io).sum

/-- Round robin. -/
def SchedulingAlgorithm.isRoundRobin : SchedulingAlgorithm → Bool
  | .roundRobinScheduling _ => true
  | .priorityScheduling => false

/-- The clock is ten seconds from its zero at reading `r`. -/
def Env.LateFrom (env : Env) (r : Nat) : Prop := 10000000000 ≤ env.clock.read r

/-- `reorder_tasks` with each of the algorithms in turn. -/
def reorderWith (env : Env) (fuel : Nat) (algorithms : List SchedulingAlgorithm) :
    Program World Unit :=
  algorithms.forM fun algorithm => reorderTasks env algorithm fuel

theorem loss_nonneg (a : SchedulingAlgorithm) (io : Bool) : 0 ≤ a.loss io := by
  cases a with
  | roundRobinScheduling i => exact (boostLoss_nonneg io).trans (boostLoss_le io)
  | priorityScheduling => exact boostLoss_nonneg io

theorem totalLoss_nonneg (algorithms : List SchedulingAlgorithm) (io : Bool) :
    0 ≤ totalLoss algorithms io := by
  refine List.sum_nonneg fun x hx => ?_
  obtain ⟨a, -, rfl⟩ := List.mem_map.mp hx
  exact loss_nonneg a io

/-- The entry of a task that has lost `loss` or more, and no more if `only`. -/
structure Sunk (loss : Bool → Int) (only : Prop) (after before : SharedTask) : Prop where
  id : after.id = before.id
  isIoBound : after.isIoBound = before.isIoBound
  le : after.priority.toInt ≤ max (-20) (before.priority.toInt - loss before.isIoBound)
  eq : only → after.priority.toInt = max (-20) (before.priority.toInt - loss before.isIoBound)

/-! ## One pass -/

/-- The entry of a task whose priority was adjusted once since the entry before
it was read. -/
theorem sunk_of_adjusted {st st' : SharedTask} {task : UnixTask} {loss : Bool → Int}
    {only : Prop} {time : Int} (h : Encodes task st') (hid : task.id = st.id)
    (hcompleted : task.completed = false)
    (htype : (task.kind.type.value == TaskType.ioBoundTask.value) = st.isIoBound)
    (hpriority : task.dynamicPriority =
      dynamicPriorityOf FloatArith.single st.priority 0 time st.isIoBound)
    (hle : (dynamicPriorityOf FloatArith.single st.priority 0 time st.isIoBound).toInt ≤
      max (-20) (st.priority.toInt - loss st.isIoBound))
    (heq : only → (dynamicPriorityOf FloatArith.single st.priority 0 time st.isIoBound).toInt =
      max (-20) (st.priority.toInt - loss st.isIoBound)) :
    st'.completed = false ∧ validPriority st'.priority = true ∧ Sunk loss only st' st := by
  rw [← hpriority, ← h.priority] at hle heq
  refine ⟨h.completed.trans hcompleted, ?_, h.id.trans hid, ?_, hle, heq⟩
  · rw [h.priority, hpriority]
    exact validPriority_dynamicPriorityOf _ _ _ _ _
  · rw [SharedTask.isIoBound, h.type hcompleted]
    exact htype

/-- The tasks of a pass over the entry `st`, and over the rest. -/
theorem updatedFrom_cons (env : Env) (a : SchedulingAlgorithm) (r r' : Nat) (st : SharedTask)
    (rest : List SharedTask) :
    updatedFrom env a r' (decodedFrom env r (st :: rest)) =
      updatedFrom env a r' (decodedFrom env r [st]) ++
        updatedFrom env a (r' + 1) (decodedFrom env (r + 2) rest) := by
  cases a <;> rfl

/-- **One entry in one pass.** -/
theorem entry_sunk {env : Env} (hfloat : env.float = FloatArith.single)
    {a : SchedulingAlgorithm} {r r' : Nat} (hlate : env.LateFrom r) {st st' : SharedTask}
    (hfresh : st.completed = false) (hvalid : validPriority st.priority = true)
    (h : List.Forall₂ Encodes (updatedFrom env a r' (decodedFrom env r [st])) [st']) :
    st'.completed = false ∧ validPriority st'.priority = true ∧
      Sunk a.loss (a.isRoundRobin = true) st' st := by
  have hkept := decoded_decodes env.float st (env.clock.read r) (env.clock.read (r + 1))
  have hlate' : 10000000000 ≤ env.clock.read (r + 1) :=
    le_trans hlate (env.clock.mono (Nat.le_succ r))
  have hdecoded := hkept.dynamicPriority.trans
    (congrArg (dynamicPriorityOf · st.priority 0 _ st.isIoBound) hfloat)
  cases a with
  | roundRobinScheduling i =>
      cases h with
      | cons hst _ =>
          have hall := (dynamicPriorityOf_single hvalid _ st.isIoBound).2.2 hlate'
          exact sunk_of_adjusted hst hkept.id (hkept.completed.trans hfresh) hkept.type hdecoded
            hall.le fun _ => hall
  | priorityScheduling =>
      cases h with
      | cons hst _ =>
          -- the update starts from the stored priority again
          have hadjusted : ((decoded env.float st (env.clock.read r)
              (env.clock.read (r + 1))).adjustedAt env.float (env.clock.read r')).dynamicPriority =
              dynamicPriorityOf FloatArith.single st.priority 0
                (env.clock.read r' - env.clock.read (r + 1)) st.isIoBound := by
            simp only [UnixTask.adjustedAt, hkept.staticPriority, hkept.cpuUsage,
              hkept.lastExecutionTime, hkept.isIoBound]
            rw [hfloat]
          have hclass : ((decoded env.float st (env.clock.read r)
              (env.clock.read (r + 1))).adjustedAt env.float (env.clock.read r')).completed =
              false := hkept.completed.trans hfresh
          exact sunk_of_adjusted hst hkept.id hclass hkept.type hadjusted
            (dynamicPriorityOf_single hvalid _ _).2.1 fun h => absurd h Bool.false_ne_true

/-- **One pass** over the queue. -/
theorem pass_sunk {env : Env} (hfloat : env.float = FloatArith.single)
    {a : SchedulingAlgorithm} {r : Nat} (hlate : env.LateFrom r) {q sts : List SharedTask}
    (hq : Unfinished q) (r' : Nat)
    (h : List.Forall₂ Encodes (updatedFrom env a r' (decodedFrom env r q)) sts) :
    Unfinished sts ∧ List.Forall₂ (Sunk a.loss (a.isRoundRobin = true)) sts q := by
  induction q generalizing r r' sts with
  | nil =>
      have hnil : updatedFrom env a r' (decodedFrom env r []) = [] := by cases a <;> rfl
      rw [hnil] at h
      cases h
      exact ⟨hq, .nil⟩
  | cons st rest ih =>
      rw [updatedFrom_cons] at h
      have hlen : (updatedFrom env a r' (decodedFrom env r [st])).length = 1 := by
        rw [updatedFrom_length]
        rfl
      obtain ⟨task, htask⟩ := List.length_eq_one_iff.mp hlen
      rw [htask, List.singleton_append] at h
      cases h with
      | cons hst hrest =>
          rename_i st' sts
          have hlater : env.LateFrom (r + 2) :=
            le_trans hlate (env.clock.mono (Nat.le_add_right r 2))
          obtain ⟨hunfinished, hsunk⟩ := ih hlater hq.tail (r' + 1) hrest
          have hone : List.Forall₂ Encodes (updatedFrom env a r' (decodedFrom env r [st]))
              [st'] := htask ▸ .cons hst .nil
          obtain ⟨hfresh, hvalid, hfirst⟩ := entry_sunk hfloat hlate
            (hq.fresh st List.mem_cons_self) (hq.valid st List.mem_cons_self) hone
          exact ⟨hunfinished.cons hfresh hvalid, .cons hfirst hsunk⟩

/-! ## Any number of passes -/

/-- The losses of two stretches of passes add up. -/
theorem Sunk.trans {first second : Bool → Int} {only₁ only₂ : Prop}
    {before between after : SharedTask} (h₁ : Sunk first only₁ between before)
    (h₂ : Sunk second only₂ after between) (hsecond : ∀ io, 0 ≤ second io) :
    Sunk (fun io => first io + second io) (only₁ ∧ only₂) after before := by
  have hnonneg := hsecond before.isIoBound
  have hle₁ := h₁.le
  have hle₂ := h₂.le
  rw [h₁.isIoBound] at hle₂
  refine ⟨h₂.id.trans h₁.id, h₂.isIoBound.trans h₁.isIoBound, ?_, ?_⟩
  · show _ ≤ max (-20) (_ - (_ + _))
    omega
  · rintro ⟨honly₁, honly₂⟩
    have heq₁ := h₁.eq honly₁
    have heq₂ := h₂.eq honly₂
    rw [h₁.isIoBound] at heq₂
    show _ = max (-20) (_ - (_ + _))
    omega

theorem sunk_all_trans {first second : Bool → Int} {only₁ only₂ : Prop}
    {before between after : List SharedTask} (h₁ : List.Forall₂ (Sunk first only₁) between before)
    (h₂ : List.Forall₂ (Sunk second only₂) after between) (hsecond : ∀ io, 0 ≤ second io) :
    List.Forall₂ (Sunk (fun io => first io + second io) (only₁ ∧ only₂)) after before := by
  induction h₁ generalizing after with
  | nil =>
      cases h₂
      exact .nil
  | cons hfirst _ ih =>
      cases h₂ with
      | cons hlast hrest => exact .cons (hfirst.trans hlast hsecond) (ih hrest)

section Passes

variable {env : Env} {fuel : Nat}

/-- Every one of the algorithms is round robin. -/
def OnlyRoundRobin (algorithms : List SchedulingAlgorithm) : Prop :=
  ∀ a ∈ algorithms, a.isRoundRobin = true

/-- No pass leaves the entries as they are. -/
theorem sunk_refl {q : List SharedTask} (hq : Unfinished q) :
    List.Forall₂ (Sunk (totalLoss []) (OnlyRoundRobin [])) q q := by
  refine List.forall₂_same.mpr fun st hst => ?_
  obtain ⟨hlo, -⟩ := (validPriority_iff st.priority).mp (hq.valid st hst)
  have hkept : st.priority.toInt = max (-20) (st.priority.toInt - totalLoss [] st.isIoBound) := by
    show _ = max (-20) (_ - 0)
    omega
  exact ⟨rfl, rfl, hkept.le, fun _ => hkept⟩

/-- **The run**: by induction over the algorithms, a pass at a time. -/
theorem reorderWith_returns (hfloat : env.float = FloatArith.single) (hwaits : env.WaitsSucceed)
    (algorithms : List SchedulingAlgorithm) {w : World} {q : List SharedTask}
    (h : Quiescent env.capacity w.shm q) (hq : Unfinished q) (hlate : env.LateFrom w.readings)
    (hfuel : q.length < fuel) :
    ∃ w' q', reorderWith env fuel algorithms w = .ok () w' ∧
      Quiescent env.capacity w'.shm q' ∧ Unfinished q' ∧
      List.Forall₂ (Sunk (totalLoss algorithms) (OnlyRoundRobin algorithms)) q' q := by
  induction algorithms generalizing w q with
  | nil => exact ⟨w, q, rfl, h, hq, sunk_refl hq⟩
  | cons a rest ih =>
      obtain ⟨sts, w₁, hrun, hw₁, hall, hread⟩ :=
        reorderTasks_returns hwaits h hq.valid hfuel a
      obtain ⟨hsts, hsunk⟩ := pass_sunk hfloat hlate hq _ hall
      have hlater : env.LateFrom w₁.readings := by
        refine le_trans hlate (env.clock.mono ?_)
        rw [hread hq.fresh]
        omega
      have hfuel₁ : sts.length < fuel := hsunk.length_eq ▸ hfuel
      obtain ⟨w', q', hruns, hw', hq', hsunk'⟩ := ih hw₁ hsts hlater hfuel₁
      refine ⟨w', q', ?_, hw', hq', ?_⟩
      · show (reorderTasks env a fuel >>= fun _ => reorderWith env fuel rest) w = _
        rw [returns hrun, hruns]
      · have hboth := sunk_all_trans hsunk hsunk' (totalLoss_nonneg rest)
        have honly : OnlyRoundRobin (a :: rest) ↔ (a.isRoundRobin = true ∧ OnlyRoundRobin rest) :=
          List.forall_mem_cons
        have hloss : totalLoss (a :: rest) = fun io => a.loss io + totalLoss rest io := by
          funext io
          exact List.sum_cons
        rw [hloss, honly]
        exact hboth

/-- **Where priorities end up.**  On a clock ten seconds from its zero, and from
a queue all of whose entries are unfinished (none is marked as completed, and
their priorities are valid), any number of runs of `reorder_tasks` with any
algorithms return.  Every entry keeps its place and its id and loses at least
what the algorithms take off, down to -20, and exactly that if all of them are
round robin.  Once they take off 39, all priorities are -20.  Queues that also
hold a completed entry are left out. -/
theorem priorities_sink (hfloat : env.float = FloatArith.single) (hwaits : env.WaitsSucceed)
    (algorithms : List SchedulingAlgorithm) {w : World} {q : List SharedTask}
    (h : Quiescent env.capacity w.shm q) (hq : Unfinished q) (hlate : env.LateFrom w.readings)
    (hfuel : q.length < fuel) :
    ∃ w' q', reorderWith env fuel algorithms w = .ok () w' ∧
      Quiescent env.capacity w'.shm q' ∧
      List.Forall₂ (Sunk (totalLoss algorithms) (OnlyRoundRobin algorithms)) q' q ∧
      ((∀ io, 39 ≤ totalLoss algorithms io) → ∀ st ∈ q', st.priority.toInt = -20) := by
  obtain ⟨w', q', hrun, hw', hq', hsunk⟩ :=
    reorderWith_returns hfloat hwaits algorithms h hq hlate hfuel
  refine ⟨w', q', hrun, hw', hsunk, fun hall st hst => ?_⟩
  obtain ⟨i, hi, rfl⟩ := List.getElem_of_mem hst
  have hlen := hsunk.length_eq
  have hentry := (List.forall₂_iff_get.mp hsunk).2 i hi (hlen ▸ hi)
  obtain ⟨-, hhi⟩ := (validPriority_iff _).mp (hq.valid _ (List.get_mem q ⟨i, hlen ▸ hi⟩))
  obtain ⟨hlo, -⟩ := (validPriority_iff _).mp (hq'.valid _ hst)
  have hle : q'[i].priority.toInt ≤ _ := hentry.le
  have hloss := hall (q.get ⟨i, hlen ▸ hi⟩).isIoBound
  omega

end Passes

/-- Two slots, and a clock that shows eleven seconds. -/
def envLate : Env :=
  { Env.quiet 2 two_le_countTasks (Clock.still 11000000000) with float := FloatArith.single }

/-- Seven passes of round robin over the lowest priority but one and the
highest. -/
theorem priorities_sink_seven :
    ∃ w' q', reorderWith envLate 3 (List.replicate 7 (.roundRobinScheduling 0))
        (World.begin (Shm.holdingTwo (.numbered 1 (-19)) (.numbered 2 19))) = .ok () w' ∧
      Quiescent 2 w'.shm q' ∧ q'.map SharedTask.id = [1, 2] ∧
      q'.map (fun st => st.priority.toInt) = [-20, -20] := by
  have hfloat : envLate.float = FloatArith.single := rfl
  have hwaits : envLate.WaitsSucceed := fun _ => rfl
  have hq : Quiescent envLate.capacity
      (World.begin (Shm.holdingTwo (.numbered 1 (-19)) (.numbered 2 19))).shm
      [.numbered 1 (-19), .numbered 2 19] := quiescent_holdingTwo _ _
  have hfresh : Unfinished [SharedTask.numbered 1 (-19), SharedTask.numbered 2 19] :=
    Unfinished.cons rfl (by decide) (unfinished_numbered (by decide))
  have hlate : envLate.LateFrom
      (World.begin (Shm.holdingTwo (.numbered 1 (-19)) (.numbered 2 19))).readings := by
    show (10000000000 : Int) ≤ 11000000000
    decide
  have hfuel : [SharedTask.numbered 1 (-19), SharedTask.numbered 2 19].length < 3 := by decide
  have hall : ∀ io, 39 ≤ totalLoss (List.replicate 7 (.roundRobinScheduling 0)) io := by decide
  obtain ⟨w', q', hrun, hw', hsunk, hbottom⟩ := priorities_sink hfloat hwaits
    (List.replicate 7 (.roundRobinScheduling 0)) hq hfresh hlate hfuel
  refine ⟨w', q', hrun, hw', ?_⟩
  have hlast := hbottom hall
  cases hsunk with
  | cons hfirst hrest =>
      cases hrest with
      | cons hsecond hnil =>
          cases hnil
          have h₁ := hlast _ List.mem_cons_self
          have h₂ := hlast _ (List.mem_cons_of_mem _ List.mem_cons_self)
          constructor
          · rw [List.map_cons, List.map_cons, hfirst.id, hsecond.id]
            rfl
          · rw [List.map_cons, List.map_cons, h₁, h₂]
            rfl

end TaskSheduler
