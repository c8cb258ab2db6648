import TaskSheduler.ReorderTasks

/-!
# What round robin does to stored priorities

`reorder_tasks` decodes every entry, and decoding adjusts the priority: the
decoded task counts as last run when the clock showed zero.  The entry written
back carries the adjusted priority.  So one pass takes a deduction of at most
ten off every stored priority, never adds to it, and leaves it alone exactly
when `Unmoved` holds of the entry and of the clock reading at its decoding.

`pass_priorities` is the step lemma for one pass over the queue, and
`reorderPasses_returns` the induction over any number of passes.  Arithmetic
is exact throughout.
-/

namespace TaskSheduler

open Programs FloatArithmetic

/-! ## One entry -/

/-- What decoding at clock reading `time` takes off a priority. -/
def deduction (time : Int) (isIoBound : Bool) : ℚ :=
  6 * clamp ((time : ℚ) / 1000000000 / 10) 0 1 + if isIoBound then 4 else 0

/-- The entries whose stored priority survives decoding at `time`: those at
the bottom, and those not bound by I/O that are decoded before the clock has
moved, or within 10/6 seconds of its zero with a priority of at most 0. -/
def Unmoved (priority : Int32) (isIoBound : Bool) (time : Int) : Prop :=
  priority.toInt = -20 ∨ (isIoBound = false ∧
    (time ≤ 0 ∨ (priority.toInt ≤ 0 ∧ 6 * time < 10000000000)))

/-- The starved share of `deduction`. -/
theorem starved_cases (time : Int) :
    (time ≤ 0 ∧ clamp ((time : ℚ) / 1000000000 / 10) 0 1 = 0) ∨
      (0 < time ∧ 0 < clamp ((time : ℚ) / 1000000000 / 10) 0 1 ∧
        (6 * clamp ((time : ℚ) / 1000000000 / 10) 0 1 < 1 ↔ 6 * time < 10000000000)) := by
  have hscale : (time : ℚ) / 1000000000 / 10 = time / 10000000000 := by ring
  rw [hscale]
  by_cases hpos : 0 < time
  · have htime : (0 : ℚ) < time := by exact_mod_cast hpos
    have hshare : (0 : ℚ) < time / 10000000000 := by positivity
    refine .inr ⟨hpos, ?_, ?_⟩
    · unfold clamp
      rw [if_neg (not_lt.mpr hshare.le)]
      by_cases hfull : (1 : ℚ) < time / 10000000000
      · rw [if_pos hfull]
        exact one_pos
      · rw [if_neg hfull]
        exact hshare
    · have hcast : 6 * time < 10000000000 ↔ (6 : ℚ) * time < 10000000000 := by
        exact_mod_cast Iff.rfl
      rw [hcast]
      unfold clamp
      rw [if_neg (not_lt.mpr hshare.le)]
      by_cases hfull : (1 : ℚ) < time / 10000000000
      · rw [if_pos hfull]
        rw [lt_div_iff₀ (by norm_num)] at hfull
        constructor <;> intro h <;> linarith
      · rw [if_neg hfull, ← mul_div_assoc, div_lt_one (by norm_num)]
  · have htime : (time : ℚ) ≤ 0 := by exact_mod_cast not_lt.mp hpos
    have hshare : (time : ℚ) / 10000000000 ≤ 0 :=
      div_nonpos_of_nonpos_of_nonneg htime (by norm_num)
    refine .inl ⟨not_lt.mp hpos, ?_⟩
    unfold clamp
    by_cases hneg : (time : ℚ) / 10000000000 < 0
    · rw [if_pos hneg]
    · rw [if_neg hneg, if_neg (by linarith)]
      linarith

theorem deduction_nonneg (time : Int) (io : Bool) : 0 ≤ deduction time io := by
  have hshare : (0 : ℚ) ≤ clamp ((time : ℚ) / 1000000000 / 10) 0 1 := le_clamp zero_le_one
  unfold deduction
  cases io <;> simp only [Bool.false_eq_true, if_true, if_false] <;> linarith

theorem deduction_le (time : Int) (io : Bool) : deduction time io ≤ 10 := by
  have hshare : clamp ((time : ℚ) / 1000000000 / 10) 0 1 ≤ 1 := clamp_le zero_le_one
  unfold deduction
  cases io <;> simp only [Bool.false_eq_true, if_true, if_false] <;> linarith

/-- A longer wait and the I/O boost take more off. -/
theorem deduction_mono {shorter longer : Int} (h : shorter ≤ longer) {io io' : Bool}
    (hio : io' = true ∨ io = false) : deduction shorter io ≤ deduction longer io' := by
  have hcast : (shorter : ℚ) ≤ longer := by exact_mod_cast h
  have hscaled : (shorter : ℚ) / 1000000000 / 10 ≤ longer / 1000000000 / 10 := by linarith
  have hshare : clamp ((shorter : ℚ) / 1000000000 / 10) 0 1 ≤
      clamp ((longer : ℚ) / 1000000000 / 10) 0 1 := clamp_mono zero_le_one hscaled
  unfold deduction
  rcases hio with rfl | rfl
  · cases io <;> simp only [Bool.false_eq_true, if_true, if_false] <;> linarith
  · cases io' <;> simp only [Bool.false_eq_true, if_true, if_false] <;> linarith

/-- What `adjust_dynamic_priority` truncates and clamps, in exact arithmetic. -/
def prioritySum (staticPriority : Int32) (cpuUsage : ℚ) (sinceRun : Int)
    (isIoBound : Bool) : ℚ :=
  staticPriority.toInt + 14 * cpuUsage - deduction sinceRun isIoBound

/-- The adjusted priority, with exact arithmetic. -/
theorem dynamicPriorityOf_sum {float : FloatArith} (hexact : float.Exact) (p : Int32) (cpu : ℚ)
    (time : Int) (io : Bool) :
    (dynamicPriorityOf float p cpu time io).toInt =
      clamp (truncate (float.converted (prioritySum p cpu time io))) (-20) 19 := by
  have hround : ∀ x, float.round x = x := hexact
  have hsum : (p.toInt : ℚ) + priorityAdjustment float cpu time io * 20 =
      prioritySum p cpu time io := by
    unfold priorityAdjustment schedulingParams starvationFactor prioritySum deduction
    cases io <;>
      simp only [hround, Bool.false_eq_true, if_true, if_false] <;> ring
  unfold dynamicPriorityOf
  simp only [hround]
  rw [hsum, toInt_clamp, float.toInt_converted]
  rfl

theorem exact_exact : FloatArith.exact.Exact := fun _ => rfl

/-- A valid priority and a CPU usage up to 1 lead to a sum in the range of `int`. -/
theorem fits_prioritySum {priority : Int32} (hvalid : validPriority priority = true) {cpu : ℚ}
    (hnonneg : 0 ≤ cpu) (hle : cpu ≤ 1) (time : Int) (io : Bool) :
    FloatArith.Fits (prioritySum priority cpu time io) := by
  obtain ⟨hlo, hhi⟩ := (validPriority_iff priority).mp hvalid
  have hp : (-20 : ℚ) ≤ priority.toInt := by exact_mod_cast hlo
  have hp' : (priority.toInt : ℚ) ≤ 19 := by exact_mod_cast hhi
  have hd := deduction_nonneg time io
  have hd' := deduction_le time io
  have hlower : ((-30 : Int) : ℚ) ≤ prioritySum priority cpu time io := by
    unfold prioritySum
    push_cast
    linarith
  have hupper : prioritySum priority cpu time io ≤ ((33 : Int) : ℚ) := by
    unfold prioritySum
    push_cast
    linarith
  have hlower' := truncate_mono hlower
  have hupper' := truncate_mono hupper
  rw [truncate_intCast] at hlower' hupper'
  rw [FloatArith.Fits]
  omega

/-- **A lower sum does not lead to a higher priority**, if both are in the range
of `int`. -/
theorem dynamicPriorityOf_mono {float : FloatArith} (hexact : float.Exact) {p p' : Int32}
    {cpu cpu' : ℚ} {time time' : Int} {io io' : Bool}
    (hfits : FloatArith.Fits (prioritySum p cpu time io))
    (hfits' : FloatArith.Fits (prioritySum p' cpu' time' io'))
    (hle : prioritySum p cpu time io ≤ prioritySum p' cpu' time' io') :
    (dynamicPriorityOf float p cpu time io).toInt ≤
      (dynamicPriorityOf float p' cpu' time' io').toInt := by
  rw [dynamicPriorityOf_sum hexact, dynamicPriorityOf_sum hexact, FloatArith.converted,
    FloatArith.converted, if_pos hfits, if_pos hfits']
  exact clamp_mono (by decide) (truncate_mono hle)

theorem dynamicPriorityOf_exact {float : FloatArith} (hexact : float.Exact) {priority : Int32}
    (hvalid : validPriority priority = true) (time : Int) (io : Bool) :
    (dynamicPriorityOf float priority 0 time io).toInt =
      clamp (truncate (priority.toInt - deduction time io)) (-20) 19 := by
  have hsum : prioritySum priority 0 time io = priority.toInt - deduction time io := by
    unfold prioritySum
    ring
  rw [dynamicPriorityOf_sum hexact, FloatArith.converted,
    if_pos (fits_prioritySum hvalid le_rfl zero_le_one time io), hsum]

/-- **One decoding.**  It never raises a priority, and keeps it exactly if
`Unmoved`. -/
theorem dynamicPriorityOf_drift {float : FloatArith} (hexact : float.Exact) {priority : Int32}
    (hvalid : validPriority priority = true) (time : Int) (io : Bool) :
    (dynamicPriorityOf float priority 0 time io).toInt ≤ priority.toInt ∧
      (dynamicPriorityOf float priority 0 time io = priority ↔
        Unmoved priority io time) := by
  obtain ⟨hlo, hhi⟩ := (validPriority_iff priority).mp hvalid
  have hupper := truncate_sub_le priority.toInt (deduction_nonneg time io)
  have hkept := truncate_sub_eq_iff priority.toInt (deduction_nonneg time io)
  have hcut : clamp (truncate (priority.toInt - deduction time io)) (-20) 19 =
      max (truncate (priority.toInt - deduction time io)) (-20) := by
    unfold clamp
    by_cases hlow : truncate (priority.toInt - deduction time io) < -20
    · rw [if_pos hlow]
      omega
    · rw [if_neg hlow, if_neg (by omega)]
      omega
  rw [← Int32.toInt_inj, dynamicPriorityOf_exact hexact hvalid, hcut]
  refine ⟨by omega, ?_⟩
  have hmax : max (truncate (priority.toInt - deduction time io)) (-20) = priority.toInt ↔
      priority.toInt = -20 ∨ truncate (priority.toInt - deduction time io) = priority.toInt := by
    omega
  rw [hmax, hkept, Unmoved]
  refine or_congr_right ?_
  cases io with
  | true =>
      have hshare : (0 : ℚ) ≤ clamp ((time : ℚ) / 1000000000 / 10) 0 1 := le_clamp zero_le_one
      have hlarge : (4 : ℚ) ≤ deduction time true := by
        simp only [deduction, if_true]
        linarith
      constructor
      · rintro (h | ⟨-, h⟩) <;> linarith
      · rintro ⟨h, -⟩
        cases h
  | false =>
      have hd : deduction time false = 6 * clamp ((time : ℚ) / 1000000000 / 10) 0 1 := by
        simp only [deduction, Bool.false_eq_true, if_false, add_zero]
      rw [hd]
      rcases starved_cases time with ⟨hneg, hzero⟩ | ⟨hpos, hshare, hless⟩
      · simp [hneg, hzero]
      · rw [hless]
        have hne : 6 * clamp ((time : ℚ) / 1000000000 / 10) 0 1 ≠ 0 := by linarith
        simp [hne, hpos]

/-! ## One pass over the queue -/

/-- Every entry survives a pass whose first clock reading is number `r`: entry
`i` is decoded at readings `r + 2 i` and `r + 2 i + 1`. -/
def SteadyPass (env : Env) : Nat → List SharedTask → Prop
  | _, [] => True
  | r, st :: rest =>
      Unmoved st.priority st.isIoBound (env.clock.read (r + 1)) ∧ SteadyPass env (r + 2) rest

/-- The entries are not completed and have valid priorities. -/
structure Unfinished (q : List SharedTask) : Prop where
  fresh : ∀ st ∈ q, st.completed = false
  valid : ValidPriorities q

theorem Unfinished.tail {st : SharedTask} {rest : List SharedTask}
    (h : Unfinished (st :: rest)) : Unfinished rest :=
  ⟨fun x hx => h.fresh x (List.mem_cons_of_mem _ hx),
    fun x hx => h.valid x (List.mem_cons_of_mem _ hx)⟩

theorem Unfinished.cons {st : SharedTask} {rest : List SharedTask}
    (hfresh : st.completed = false) (hvalid : validPriority st.priority = true)
    (h : Unfinished rest) : Unfinished (st :: rest) := by
  constructor
  · intro x hx
    rcases List.mem_cons.mp hx with rfl | hx
    · exact hfresh
    · exact h.fresh x hx
  · intro x hx
    rcases List.mem_cons.mp hx with rfl | hx
    · exact hvalid
    · exact h.valid x hx

/-- What happened to an entry: same kind, and a priority that is not higher. -/
structure Lowered (after before : SharedTask) : Prop where
  priority : after.priority.toInt ≤ before.priority.toInt
  isIoBound : after.isIoBound = before.isIoBound

/-- Steadiness depends on the priorities and classes only. -/
theorem steadyPass_congr {env : Env} {q q' : List SharedTask}
    (h : List.Forall₂ Lowered q' q)
    (hsame : q'.map SharedTask.priority = q.map SharedTask.priority) (r : Nat) :
    SteadyPass env r q' ↔ SteadyPass env r q := by
  induction h generalizing r with
  | nil => exact Iff.rfl
  | cons hst _ ih =>
      simp only [List.map_cons, List.cons.injEq] at hsame
      simp only [SteadyPass, hst.isIoBound, hsame.1, ih hsame.2]

/-- An entry written back for the task decoded from `st` at `time`. -/
theorem encodes_decoded {float : FloatArith} {st st' : SharedTask} {arrival time : Int}
    (hfresh : st.completed = false) (h : Encodes (decoded float st arrival time) st') :
    st'.completed = false ∧
      st'.priority = dynamicPriorityOf float st.priority 0 time st.isIoBound ∧
      st'.isIoBound = st.isIoBound := by
  have hkept := decoded_decodes float st arrival time
  have hdone := hkept.completed.trans hfresh
  refine ⟨h.completed.trans hdone, h.priority.trans hkept.dynamicPriority, ?_⟩
  rw [SharedTask.isIoBound, h.type hdone]
  exact hkept.type

/-- **One pass.**  It lowers priorities or keeps them, and keeps all of them
exactly if the pass is steady. -/
theorem pass_priorities {env : Env} (hexact : env.float = FloatArith.exact)
    {q sts : List SharedTask} (hq : Unfinished q) (r : Nat)
    (h : List.Forall₂ Encodes (decodedFrom env r q) sts) :
    Unfinished sts ∧ List.Forall₂ Lowered sts q ∧
      (sts.map SharedTask.priority = q.map SharedTask.priority ↔ SteadyPass env r q) := by
  induction q generalizing r sts with
  | nil =>
      cases h
      exact ⟨hq, .nil, by simp [SteadyPass]⟩
  | cons st rest ih =>
      cases h with
      | cons hst hrest =>
          rename_i st' sts
          obtain ⟨hunfinished, hlowered, hsteady⟩ := ih hq.tail (r + 2) hrest
          obtain ⟨hfresh, hpriority, hio⟩ :=
            encodes_decoded (hq.fresh st List.mem_cons_self) hst
          rw [hexact] at hpriority
          obtain ⟨hle, hkept⟩ := dynamicPriorityOf_drift exact_exact
            (hq.valid st List.mem_cons_self) (env.clock.read (r + 1)) st.isIoBound
          rw [← hpriority] at hle hkept
          refine ⟨hunfinished.cons hfresh ?_, .cons ⟨hle, hio⟩ hlowered, ?_⟩
          · rw [hpriority]
            exact validPriority_dynamicPriorityOf _ _ _ _ _
          · simp only [List.map_cons, List.cons.injEq, SteadyPass, hkept, hsteady]

/-! ## Any number of passes -/

/-- `k` successive runs of `reorder_tasks` with round robin. -/
def reorderPasses (env : Env) (currentIndex fuel : Nat) : Nat → Program World Unit
  | 0 => return ()
  | k + 1 => do
      reorderTasks env (.roundRobinScheduling currentIndex) fuel
      reorderPasses env currentIndex fuel k

/-- Every one of `k` passes is steady; a pass takes three clock readings for
each entry. -/
def Steady (env : Env) (r : Nat) (q : List SharedTask) (k : Nat) : Prop :=
  ∀ j < k, SteadyPass env (r + 3 * q.length * j) q

/-- Priorities that were only lowered and end as they began never moved. -/
theorem lowered_antisymm {before between after : List SharedTask}
    (h₁ : List.Forall₂ Lowered between before) (h₂ : List.Forall₂ Lowered after between)
    (h : after.map SharedTask.priority = before.map SharedTask.priority) :
    between.map SharedTask.priority = before.map SharedTask.priority := by
  induction h₁ generalizing after with
  | nil => rfl
  | cons hfirst _ ih =>
      cases h₂ with
      | cons hsecond hrest =>
          simp only [List.map_cons, List.cons.injEq] at h ⊢
          refine ⟨Int32.toInt_inj.mp ?_, ih hrest h.2⟩
          have hdown := hfirst.priority
          have hup := hsecond.priority
          rw [h.1] at hup
          omega

theorem lowered_trans {before between after : List SharedTask}
    (h₁ : List.Forall₂ Lowered between before) (h₂ : List.Forall₂ Lowered after between) :
    List.Forall₂ Lowered after before := by
  induction h₁ generalizing after with
  | nil => exact h₂
  | cons hfirst _ ih =>
      cases h₂ with
      | cons hsecond hrest =>
          refine .cons ⟨?_, hsecond.isIoBound.trans hfirst.isIoBound⟩ (ih hrest)
          exact hsecond.priority.trans hfirst.priority

/-- **Any number of passes** returns, only lowers priorities, and keeps all of
them exactly if every pass is steady. -/
theorem reorderPasses_returns {env : Env} (hexact : env.float = FloatArith.exact)
    (hwaits : env.WaitsSucceed) {fuel : Nat} (currentIndex k : Nat) {w : World}
    {q : List SharedTask} (h : Quiescent env.capacity w.shm q) (hq : Unfinished q)
    (hfuel : q.length < fuel) :
    ∃ w' q', reorderPasses env currentIndex fuel k w = .ok () w' ∧
      Quiescent env.capacity w'.shm q' ∧ List.Forall₂ Lowered q' q ∧
      (q'.map SharedTask.priority = q.map SharedTask.priority ↔
        Steady env w.readings q k) := by
  induction k generalizing w q with
  | zero =>
      refine ⟨w, q, rfl, h, List.forall₂_same.mpr fun st _ => ⟨le_refl _, rfl⟩, ?_⟩
      simp [Steady]
  | succ k ih =>
      obtain ⟨sts, w₁, hrun, hw₁, hall, hread⟩ :=
        reorderTasks_returns hwaits h hq.valid hfuel (.roundRobinScheduling currentIndex)
      obtain ⟨hsts, hlow, hsteady⟩ := pass_priorities hexact hq w.readings hall
      have hlen : sts.length = q.length := hlow.length_eq
      obtain ⟨w', q', hruns, hw', hlow', hrest⟩ := ih hw₁ hsts (by omega)
      have hread₁ : w₁.readings = w.readings + 3 * q.length := by
        rw [hread hq.fresh]
        simp only [SchedulingAlgorithm.readings]
        omega
      refine ⟨w', q', ?_, hw', ?_, ?_⟩
      · rw [reorderPasses, returns hrun, hruns]
      · exact lowered_trans hlow hlow'
      · have hlater : ∀ j, sts.map SharedTask.priority = q.map SharedTask.priority →
            (SteadyPass env (w₁.readings + 3 * sts.length * j) sts ↔
              SteadyPass env (w.readings + 3 * q.length * (j + 1)) q) := by
          intro j hsame
          have hstart : w₁.readings + 3 * sts.length * j =
              w.readings + 3 * q.length * (j + 1) := by
            rw [hread₁, hlen, Nat.mul_succ]
            omega
          rw [steadyPass_congr hlow hsame, hstart]
        constructor
        · intro hkept
          have hsame := lowered_antisymm hlow hlow' hkept
          have hfirst := hsteady.mp hsame
          have hlast := hrest.mp (hkept.trans hsame.symm)
          intro j hj
          cases j with
          | zero => simpa only [Nat.mul_zero, Nat.add_zero] using hfirst
          | succ j => exact (hlater j hsame).mp (hlast j (by omega))
        · intro hall
          have hfirst : SteadyPass env w.readings q := by
            simpa only [Nat.mul_zero, Nat.add_zero] using hall 0 (by omega)
          have hsame := hsteady.mpr hfirst
          refine (hrest.mpr fun j hj => ?_).trans hsame
          exact (hlater j hsame).mpr (hall (j + 1) (by omega))

/-- **Round robin leaves priorities alone exactly when every pass is steady.**
From every queue of unfinished tasks with valid priorities, `k` successive
runs of `reorder_tasks` with round robin return, and the stored priorities
are then as they were if and only if in each of the passes every entry is
`Unmoved` by the clock reading at which it is decoded. -/
theorem round_robin_keeps_priorities_iff {env : Env} (hexact : env.float = FloatArith.exact)
    (hwaits : env.WaitsSucceed) {w : World} {q : List SharedTask}
    (h : Quiescent env.capacity w.shm q) (hq : Unfinished q) {fuel : Nat}
    (hfuel : q.length < fuel) (currentIndex k : Nat) :
    ∃ w' q', reorderPasses env currentIndex fuel k w = .ok () w' ∧
      Quiescent env.capacity w'.shm q' ∧
      (q'.map SharedTask.priority = q.map SharedTask.priority ↔
        Steady env w.readings q k) := by
  obtain ⟨w', q', hrun, hw', -, hiff⟩ :=
    reorderPasses_returns hexact hwaits currentIndex k h hq hfuel
  exact ⟨w', q', hrun, hw', hiff⟩

/-- The surroundings of a one-slot segment whose clock shows `time`. -/
def envAt (time : Int) : Env := Env.quiet 1 one_le_countTasks (Clock.still time)

theorem unfinished_numbered {id priority : Int32} (h : validPriority priority = true) :
    Unfinished [SharedTask.numbered id priority] :=
  Unfinished.cons rfl h ⟨by simp, by simp [ValidPriorities]⟩

/-- An entry with priority 0, one second after the zero of the clock, is not
moved by three passes. -/
theorem round_robin_keeps_priorities_early :
    ∃ w' q', reorderPasses (envAt 1000000000) 0 2 3
        (World.begin (Shm.holding (.numbered 7 0))) = .ok () w' ∧
      Quiescent 1 w'.shm q' ∧ q'.map SharedTask.priority = [0] := by
  have hexact : (envAt 1000000000).float = FloatArith.exact := rfl
  have hwaits : (envAt 1000000000).WaitsSucceed := fun _ => rfl
  have hq : Quiescent (envAt 1000000000).capacity
      (World.begin (Shm.holding (.numbered 7 0))).shm [.numbered 7 0] := quiescent_holding _
  have hfuel : [SharedTask.numbered 7 0].length < 2 := by decide
  obtain ⟨w', q', hrun, hw', hiff⟩ := round_robin_keeps_priorities_iff hexact hwaits hq
    (unfinished_numbered (by decide)) hfuel 0 3
  have hsoon : (6 : Int) * 1000000000 < 10000000000 := by decide
  refine ⟨w', q', hrun, hw', hiff.mpr fun j _ => ⟨?_, trivial⟩⟩
  exact .inr ⟨rfl, .inr ⟨by decide, hsoon⟩⟩

/-- Ten seconds after the zero of the clock, a single pass moves it. -/
theorem round_robin_lowers_priority :
    ∃ w' q', reorderPasses (envAt 10000000000) 0 2 1
        (World.begin (Shm.holding (.numbered 7 0))) = .ok () w' ∧
      Quiescent 1 w'.shm q' ∧ q'.map SharedTask.priority ≠ [0] := by
  have hexact : (envAt 10000000000).float = FloatArith.exact := rfl
  have hwaits : (envAt 10000000000).WaitsSucceed := fun _ => rfl
  have hq : Quiescent (envAt 10000000000).capacity
      (World.begin (Shm.holding (.numbered 7 0))).shm [.numbered 7 0] := quiescent_holding _
  have hfuel : [SharedTask.numbered 7 0].length < 2 := by decide
  obtain ⟨w', q', hrun, hw', -, hiff⟩ := reorderPasses_returns hexact hwaits 0 1 hq
    (unfinished_numbered (by decide)) hfuel
  refine ⟨w', q', hrun, hw', fun hkept => ?_⟩
  obtain ⟨hfirst, -⟩ := hiff.mp hkept 0 Nat.one_pos
  rcases hfirst with hbottom | ⟨-, hearly | ⟨-, hsoon⟩⟩
  · exact absurd hbottom (by decide)
  · exact absurd hearly (by decide)
  · exact absurd hsoon (by decide)

end TaskSheduler
