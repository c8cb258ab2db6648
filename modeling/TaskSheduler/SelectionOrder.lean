import TaskSheduler.PrioritySelection
import TaskSheduler.StableOrder

/-!
# Selecting until the list is empty

`PriorityScheduling::select_next_task` returns the first task of the highest
priority.  Who removes that task and selects again, until no task is left,
gets the tasks by non-increasing priority, tasks of one priority in the order
in which they stood.
-/

namespace TaskSheduler

open StableOrder

/-- Selecting a task, removing it and going on with the others until none is
left takes the tasks out in this order. -/
inductive SelectedInOrder : List UnixTask → List UnixTask → Prop
  | empty : SelectedInOrder [] []
  | next {tasks order : List UnixTask} {task : UnixTask} {i : Nat}
      (hselect : PriorityScheduling.selectNextTask tasks = .ok i)
      (htask : tasks[i]? = some task) (rest : SelectedInOrder (tasks.eraseIdx i) order) :
      SelectedInOrder tasks (task :: order)

/-- `get_priority` as a number. -/
def UnixTask.priorityValue (task : UnixTask) : Int := task.dynamicPriority.toInt

/-- The list around the index that was selected. -/
theorem FirstHighest.split {tasks : List UnixTask} {i : Nat} {task : UnixTask}
    (h : FirstHighest tasks i) (htask : tasks[i]? = some task) :
    tasks = tasks.take i ++ task :: tasks.drop (i + 1) ∧
      FirstMax UnixTask.priorityValue (tasks.take i) task (tasks.drop (i + 1)) := by
  obtain ⟨best, hbest, hhighest⟩ := h
  obtain rfl : best = task := Option.some.inj (hbest.symm.trans htask)
  obtain ⟨hi, hget⟩ := List.getElem?_eq_some_iff.mp htask
  refine ⟨?_, fun other hother => ?_, fun other hother => ?_⟩
  · rw [← hget, List.getElem_cons_drop, List.take_append_drop]
  · obtain ⟨j, hj, hmem⟩ := List.mem_take_iff_getElem.mp hother
    have hbefore : tasks[j]? = some other := by
      rw [List.getElem?_eq_getElem (by omega), hmem]
    exact (hhighest j other hbefore).2 (by omega)
  · obtain ⟨j, hj⟩ := List.mem_iff_getElem?.mp (List.mem_of_mem_drop hother)
    exact (hhighest j other hj).1

/-- **One selection.**  Whoever takes out the selected task and the others in
stable order takes out all of them in stable order. -/
theorem select_stablyOrders {tasks order : List UnixTask} {task : UnixTask} {i : Nat}
    (hselect : PriorityScheduling.selectNextTask tasks = .ok i) (htask : tasks[i]? = some task)
    (hrest : StablyOrders UnixTask.priorityValue (tasks.eraseIdx i) order) :
    StablyOrders UnixTask.priorityValue tasks (task :: order) := by
  have hne : tasks ≠ [] := by
    rintro rfl
    cases hselect
  obtain ⟨j, hj, hhighest⟩ := selectNextTask_firstHighest hne
  rw [hselect] at hj
  cases hj
  obtain ⟨hsplit, hmax⟩ := hhighest.split htask
  rw [List.eraseIdx_eq_take_drop_succ] at hrest
  have horder := hmax.stablyOrders hrest
  rwa [← hsplit] at horder

/-- The order in which all tasks are selected is stable. -/
theorem SelectedInOrder.stablyOrders {tasks order : List UnixTask}
    (h : SelectedInOrder tasks order) :
    StablyOrders UnixTask.priorityValue tasks order := by
  induction h with
  | empty => exact .nil
  | next hselect htask _ ih => exact select_stablyOrders hselect htask ih

/-- All tasks are selected at some time. -/
theorem selectedInOrder_exists (n : Nat) {tasks : List UnixTask} (hlen : tasks.length = n) :
    ∃ order, SelectedInOrder tasks order := by
  induction n generalizing tasks with
  | zero =>
      obtain rfl := List.length_eq_zero_iff.mp hlen
      exact ⟨[], .empty⟩
  | succ n ih =>
      have hne : tasks ≠ [] := List.ne_nil_of_length_eq_add_one hlen
      obtain ⟨i, hselect, task, htask, -⟩ := selectNextTask_firstHighest hne
      obtain ⟨hi, -⟩ := List.getElem?_eq_some_iff.mp htask
      have hshorter : (tasks.eraseIdx i).length = n := by
        rw [List.length_eraseIdx_of_lt hi]
        omega
      obtain ⟨order, hrest⟩ := ih hshorter
      exact ⟨task :: order, .next hselect htask hrest⟩

/-- **`select_next_task` returns the first maximum**, and selecting and removing
until the list is empty takes the tasks out in stable order of their
priorities. -/
theorem selects_first_maximum {tasks : List UnixTask} (hne : tasks ≠ []) :
    (∃ i, PriorityScheduling.selectNextTask tasks = .ok i ∧ i < tasks.length ∧
        FirstHighest tasks i) ∧
      (∃ order, SelectedInOrder tasks order) ∧
      ∀ order, SelectedInOrder tasks order → StablyOrders UnixTask.priorityValue tasks order := by
  refine ⟨?_, selectedInOrder_exists tasks.length rfl, fun order h => h.stablyOrders⟩
  obtain ⟨i, hselect, hhighest⟩ := selectNextTask_firstHighest hne
  have hbound : i < tasks.length := by
    obtain ⟨task, htask, -⟩ := hhighest
    exact (List.getElem?_eq_some_iff.mp htask).1
  exact ⟨i, hselect, hbound, hhighest⟩

/-- Two tasks of priority 0 with one of priority 5 between them: the one in the
middle is selected. -/
theorem selects_first_maximum_middle :
    ∃ i, PriorityScheduling.selectNextTask [ranAt 0, { ranAt 0 with dynamicPriority := 5 },
        ranAt 1] = .ok i ∧
      i < 3 ∧ FirstHighest [ranAt 0, { ranAt 0 with dynamicPriority := 5 }, ranAt 1] i :=
  (selects_first_maximum (by simp)).1

end TaskSheduler
