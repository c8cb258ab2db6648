import TaskSheduler.PriorityDrift

/-!
# Which task `select_next_task` returns

`PriorityScheduling::select_next_task` returns the first task of the highest
dynamic priority.  The adjustment takes starvation and the I/O boost away from
the priority, so of two tasks that differ in these only, the favoured one ends
with the lower number.  `select_spares_iff` says what it then takes for the
other one not to be selected: a third task.
-/

namespace TaskSheduler

open Programs FloatArithmetic

/-! ## The scan -/

/-- The first task of the highest priority stands at index `i`. -/
def FirstHighest (tasks : List UnixTask) (i : Nat) : Prop :=
  ∃ task, tasks[i]? = some task ∧ ∀ (j : Nat) (other : UnixTask), tasks[j]? = some other →
    other.dynamicPriority.toInt ≤ task.dynamicPriority.toInt ∧
      (j < i → other.dynamicPriority.toInt < task.dynamicPriority.toInt)

/-- **The scan** keeps the first highest of what it has seen. -/
theorem selectLoop_firstHighest {seen : List UnixTask} {selected : Nat} {task : UnixTask}
    (hselected : seen[selected]? = some task) (hseen : FirstHighest seen selected)
    (rest : List UnixTask) :
    FirstHighest (seen ++ rest)
      (selectLoop selected task.dynamicPriority seen.length rest) := by
  induction rest generalizing seen selected task with
  | nil => simpa only [List.append_nil, selectLoop] using hseen
  | cons next rest ih =>
      obtain ⟨best, hbest, hhighest⟩ := hseen
      obtain rfl : best = task := Option.some.inj (hbest.symm.trans hselected)
      have hassoc : seen ++ next :: rest = (seen ++ [next]) ++ rest := by simp
      have hlen : (seen ++ [next]).length = seen.length + 1 := by simp
      have hlt : selected < seen.length := (List.getElem?_eq_some_iff.mp hselected).1
      have hold : (seen ++ [next])[selected]? = some best := by
        rw [List.getElem?_append_left hlt, hselected]
      have hnew : (seen ++ [next])[seen.length]? = some next := by simp
      have hcases : ∀ (j : Nat) (other : UnixTask), (seen ++ [next])[j]? = some other →
          seen[j]? = some other ∨ (j = seen.length ∧ other = next) := by
        intro j other hj
        by_cases hin : j < seen.length
        · rw [List.getElem?_append_left hin] at hj
          exact .inl hj
        · obtain ⟨hbound, -⟩ := List.getElem?_eq_some_iff.mp hj
          obtain rfl : j = seen.length := by omega
          exact .inr ⟨rfl, Option.some.inj (hj.symm.trans hnew)⟩
      rw [hassoc, selectLoop, ← hlen]
      by_cases hhigher : best.dynamicPriority < next.dynamicPriority
      · rw [if_pos hhigher]
        rw [Int32.lt_iff_toInt_lt] at hhigher
        refine ih hnew ⟨next, hnew, fun j other hj => ?_⟩
        rcases hcases j other hj with hearlier | ⟨rfl, rfl⟩
        · have hle := (hhighest j other hearlier).1
          exact ⟨by omega, fun _ => by omega⟩
        · exact ⟨le_refl _, fun hj => absurd hj (lt_irrefl _)⟩
      · rw [if_neg hhigher]
        rw [Int32.lt_iff_toInt_lt] at hhigher
        refine ih hold ⟨best, hold, fun j other hj => ?_⟩
        rcases hcases j other hj with hearlier | ⟨rfl, rfl⟩
        · exact hhighest j other hearlier
        · exact ⟨by omega, fun hj => by omega⟩

/-- **`select_next_task` returns the first task of the highest priority.** -/
theorem selectNextTask_firstHighest {tasks : List UnixTask} (hne : tasks ≠ []) :
    ∃ i, PriorityScheduling.selectNextTask tasks = .ok i ∧ FirstHighest tasks i := by
  obtain ⟨task, rest, rfl⟩ := List.exists_cons_of_ne_nil hne
  refine ⟨_, rfl, ?_⟩
  have hfirst : ([task] : List UnixTask)[0]? = some task := rfl
  refine selectLoop_firstHighest hfirst ?_ rest
  refine ⟨task, rfl, fun j other hj => ?_⟩
  obtain ⟨hbound, heq⟩ := List.getElem?_eq_some_iff.mp hj
  obtain rfl : j = 0 := by simpa using hbound
  obtain rfl : task = other := heq
  exact ⟨le_refl _, fun hlt => absurd hlt (lt_irrefl _)⟩

/-- The task at index `c` stands in the way of the one at `b`: it has a higher
priority, or the same one and stands before it. -/
def Outranks (tasks : List UnixTask) (c b : Nat) : Prop :=
  ∃ task other, tasks[b]? = some task ∧ tasks[c]? = some other ∧
    (task.dynamicPriority.toInt < other.dynamicPriority.toInt ∨
      (c < b ∧ task.dynamicPriority.toInt = other.dynamicPriority.toInt))

/-- A task is not selected exactly if another one stands in its way. -/
theorem not_selected_iff {tasks : List UnixTask} {i b : Nat} (h : FirstHighest tasks i)
    (hb : b < tasks.length) : i ≠ b ↔ ∃ c, Outranks tasks c b := by
  obtain ⟨task, htask, hhighest⟩ := h
  have hget : tasks[b]? = some tasks[b] := List.getElem?_eq_getElem hb
  constructor
  · intro hne
    refine ⟨i, tasks[b], task, hget, htask, ?_⟩
    obtain ⟨hle, hearlier⟩ := hhighest b tasks[b] hget
    by_cases hlt : b < i
    · exact .inl (hearlier hlt)
    · by_cases heq : tasks[b].dynamicPriority.toInt = task.dynamicPriority.toInt
      · exact .inr ⟨by omega, heq⟩
      · exact .inl (by omega)
  · rintro ⟨c, first, other, hfirst, hother, hrank⟩ rfl
    obtain rfl : task = first := Option.some.inj (htask.symm.trans hfirst)
    obtain ⟨hle, hearlier⟩ := hhighest c other hother
    rcases hrank with hlt | ⟨hc, heq⟩
    · omega
    · have hless := hearlier hc
      omega

/-! ## The favoured task -/

/-- The adjustment favours `first` over `second`: they differ in their waits
and their classes only, and `first` has waited at least as long and is bound
by I/O unless `second` is not. -/
structure Favours (first second : UnixTask) : Prop where
  staticPriority : first.staticPriority = second.staticPriority
  cpuUsage : first.cpuUsage = second.cpuUsage
  waited : first.lastExecutionTime ≤ second.lastExecutionTime
  isIoBound : first.isIoBound = true ∨ second.isIoBound = false

/-- The sum from which the adjusted priority of a task is made. -/
def UnixTask.sumAt (task : UnixTask) (time : Int) : ℚ :=
  prioritySum task.staticPriority task.cpuUsage (time - task.lastExecutionTime) task.isIoBound

/-- **The favoured task does not get the higher number**, as long as both sums
are in the range of `int`. -/
theorem favoured_le {float : FloatArith} (hexact : float.Exact) {first second : UnixTask}
    (h : Favours first second) {time : Int} (hfirst : FloatArith.Fits (first.sumAt time))
    (hsecond : FloatArith.Fits (second.sumAt time)) :
    (first.adjustedAt float time).dynamicPriority.toInt ≤
      (second.adjustedAt float time).dynamicPriority.toInt := by
  have hwaited := h.waited
  have hdeduction := deduction_mono
    (show time - second.lastExecutionTime ≤ time - first.lastExecutionTime by omega) h.isIoBound
  have hsum : first.sumAt time ≤ second.sumAt time := by
    unfold UnixTask.sumAt prioritySum
    rw [h.staticPriority, h.cpuUsage]
    linarith
  exact dynamicPriorityOf_mono hexact hfirst hsecond hsum

/-- The favoured task does not stand in the way of the other one. -/
theorem favoured_not_outranks {float : FloatArith} (hexact : float.Exact)
    {tasks : List UnixTask} {time : Int} {a b : Nat} {first second : UnixTask}
    (ha : tasks[a]? = some first) (hb : tasks[b]? = some second) (h : Favours first second)
    (hdiffer : (first.adjustedAt float time).dynamicPriority ≠
      (second.adjustedAt float time).dynamicPriority)
    (hfirst : FloatArith.Fits (first.sumAt time))
    (hsecond : FloatArith.Fits (second.sumAt time)) :
    ¬ Outranks (tasks.map (UnixTask.adjustedAt float time)) a b := by
  have hle := favoured_le hexact h hfirst hsecond
  rw [Ne, ← Int32.toInt_inj] at hdiffer
  rintro ⟨task, other, htask, hother, hrank⟩
  rw [List.getElem?_map, hb] at htask
  rw [List.getElem?_map, ha] at hother
  cases htask
  cases hother
  rcases hrank with hlt | ⟨-, heq⟩
  · omega
  · exact hdiffer heq.symm

/-- **Starvation and the I/O boost do not help to be chosen.**  Let a list be
adjusted at one clock reading, and let the adjustment favour the task at `a`
over the one at `b` with different resulting priorities.  Then
`select_next_task` returns another task than the one at `b` if and only if a
third task stands in its way; the favoured one can do so only if a sum is out
of the range of `int`. -/
theorem select_spares_iff {float : FloatArith} (hexact : float.Exact) {tasks : List UnixTask}
    {time : Int} {a b : Nat} {first second : UnixTask} (ha : tasks[a]? = some first)
    (hb : tasks[b]? = some second) (h : Favours first second)
    (hdiffer : (first.adjustedAt float time).dynamicPriority ≠
      (second.adjustedAt float time).dynamicPriority) :
    ∃ chosen, PriorityScheduling.selectNextTask
        (tasks.map (UnixTask.adjustedAt float time)) = .ok chosen ∧
      (chosen ≠ b ↔ ∃ c, Outranks (tasks.map (UnixTask.adjustedAt float time)) c b ∧
        (c ≠ a ∨ ¬ (FloatArith.Fits (first.sumAt time) ∧
          FloatArith.Fits (second.sumAt time)))) := by
  obtain ⟨hbound, -⟩ := List.getElem?_eq_some_iff.mp hb
  have hlen : b < (tasks.map (UnixTask.adjustedAt float time)).length := by
    rw [List.length_map]
    exact hbound
  have hne : tasks.map (UnixTask.adjustedAt float time) ≠ [] :=
    List.ne_nil_of_length_pos (by omega)
  obtain ⟨chosen, hselect, hhighest⟩ := selectNextTask_firstHighest hne
  refine ⟨chosen, hselect, (not_selected_iff hhighest hlen).trans ?_⟩
  constructor
  · rintro ⟨c, hrank⟩
    refine ⟨c, hrank, ?_⟩
    by_contra hneither
    rw [not_or, not_not, not_not] at hneither
    obtain ⟨rfl, hfirst, hsecond⟩ := hneither
    exact favoured_not_outranks hexact ha hb h hdiffer hfirst hsecond hrank
  · rintro ⟨c, hrank, -⟩
    exact ⟨c, hrank⟩

/-- A plain task of static priority 0 that last ran at `time`. -/
def ranAt (time : Int) : UnixTask :=
  { UnixTask.built 7 (textBytes "plain") 0 0 with lastExecutionTime := time }

theorem favours_ranAt {earlier later : Int} (h : earlier ≤ later) :
    Favours (ranAt earlier) (ranAt later) :=
  ⟨rfl, rfl, h, .inr rfl⟩

/-- A starved task, one that has just run, and a third of higher priority. -/
def threeTasks : List UnixTask :=
  [ranAt 0, ranAt 10000000000, { ranAt 10000000000 with staticPriority := 5 }]

/-- With a third task of higher priority behind them, the task that has not
starved is not selected. -/
theorem select_spares_behind_third :
    ∃ chosen, PriorityScheduling.selectNextTask
        (threeTasks.map (UnixTask.adjustedAt FloatArith.exact 10000000000)) = .ok chosen ∧
      chosen ≠ 1 := by
  have hfirst : threeTasks[0]? = some (ranAt 0) := rfl
  have hsecond : threeTasks[1]? = some (ranAt 10000000000) := rfl
  have hdiffer : ((ranAt 0).adjustedAt FloatArith.exact 10000000000).dynamicPriority ≠
      ((ranAt 10000000000).adjustedAt FloatArith.exact 10000000000).dynamicPriority := by
    decide +kernel
  obtain ⟨chosen, hselect, hiff⟩ :=
    select_spares_iff exact_exact hfirst hsecond (favours_ranAt (by decide)) hdiffer
  refine ⟨chosen, hselect, hiff.mpr ⟨2, ⟨_, _, rfl, rfl, .inl ?_⟩, .inl (by decide)⟩⟩
  decide +kernel

/-- Of a task that has starved for ten seconds and one that has just run, the
one that has just run is selected. -/
theorem select_prefers_rested :
    Favours (ranAt 0) (ranAt 10000000000) ∧
      ((ranAt 0).adjustedAt FloatArith.exact 10000000000).dynamicPriority ≠
        ((ranAt 10000000000).adjustedAt FloatArith.exact 10000000000).dynamicPriority ∧
      PriorityScheduling.selectNextTask ([ranAt 0, ranAt 10000000000].map
        (UnixTask.adjustedAt FloatArith.exact 10000000000)) = .ok 1 := by
  refine ⟨favours_ranAt (by decide), by decide +kernel, ?_⟩
  decide +kernel

end TaskSheduler
