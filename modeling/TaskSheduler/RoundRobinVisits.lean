import Mathlib.Data.List.Rotate
import TaskSheduler.SchedulingAlgorithm

/-!
# Round-robin selection visits everyone

`RoundRobinScheduling::select_next_task` moves `current_index_` on by one,
modulo the number of tasks it is given.  The index may stem from a longer or a
shorter list; all that a history leaves behind is that it is below the size of
some list (`IndexFits`).  From there `n` calls on lists of size `n` return the
indices from some point on, and then those before it.
-/

namespace TaskSheduler

open Programs

/-- Moving on from the index does not overflow. -/
def IndexFits (currentIndex : Nat) : Prop := currentIndex + 1 < 2 ^ 64

/-- **One call** on a list that is not empty. -/
theorem selectNextTask_returns {tasks : List UnixTask} {currentIndex : Nat} (hne : tasks ≠ [])
    (hfits : IndexFits currentIndex) :
    RoundRobinScheduling.selectNextTask tasks currentIndex =
      .ok ((currentIndex + 1) % tasks.length) ((currentIndex + 1) % tasks.length) := by
  have hsome : tasks.isEmpty = false := by simpa using hne
  have hnext : sizeAdd currentIndex 1 = currentIndex + 1 := sizeAdd_one hfits
  simp only [RoundRobinScheduling.selectNextTask, hsome, Bool.false_eq_true, if_false]
  rw [← hnext]
  rfl

/-- An index into a list can be moved on. -/
theorem indexFits_mod {n : Nat} (m : Nat) (hpos : 0 < n) (hsize : n < 2 ^ 64) :
    IndexFits (m % n) := by
  have hlt := Nat.mod_lt m hpos
  unfold IndexFits
  omega

/-- **Any history** of calls on lists that are not empty returns indices into
the lists, and leaves an index that can be moved on. -/
theorem selectNextTask_history {history : List (List UnixTask)} {currentIndex : Nat}
    (hne : ∀ tasks ∈ history, tasks ≠ []) (hsize : ∀ tasks ∈ history, tasks.length < 2 ^ 64)
    (hfits : IndexFits currentIndex) :
    ∃ indices last, history.mapM RoundRobinScheduling.selectNextTask currentIndex =
        .ok indices last ∧
      List.Forall₂ (fun i tasks => i < tasks.length) indices history ∧ IndexFits last := by
  induction history generalizing currentIndex with
  | nil => exact ⟨[], currentIndex, rfl, .nil, hfits⟩
  | cons tasks rest ih =>
      obtain ⟨hfirst, hrest⟩ := List.forall_mem_cons.mp hne
      obtain ⟨hfirstSize, hrestSize⟩ := List.forall_mem_cons.mp hsize
      have hpos : 0 < tasks.length := List.length_pos_of_ne_nil hfirst
      obtain ⟨indices, last, hrun, hbounds, hlast⟩ :=
        ih hrest hrestSize (indexFits_mod (currentIndex + 1) hpos hfirstSize)
      refine ⟨(currentIndex + 1) % tasks.length :: indices, last, ?_,
        .cons (Nat.mod_lt _ hpos) hbounds, hlast⟩
      rw [List.mapM_cons, returns (selectNextTask_returns hfirst hfits), returns hrun]
      rfl

/-- Calls on lists of one size count on, modulo that size. -/
theorem selectNextTask_counts {n : Nat} (hpos : 0 < n) (hsize : n < 2 ^ 64)
    {rounds : List (List UnixTask)} {currentIndex : Nat}
    (hrounds : ∀ tasks ∈ rounds, tasks.length = n) (hfits : IndexFits currentIndex) :
    ∃ last, rounds.mapM RoundRobinScheduling.selectNextTask currentIndex =
      .ok ((List.range rounds.length).map fun k => (k + (currentIndex + 1)) % n) last := by
  induction rounds generalizing currentIndex with
  | nil => exact ⟨currentIndex, rfl⟩
  | cons tasks rest ih =>
      obtain ⟨hfirst, hrest⟩ := List.forall_mem_cons.mp hrounds
      have hne : tasks ≠ [] := List.ne_nil_of_length_pos (hfirst ▸ hpos)
      obtain ⟨last, hrun⟩ := ih hrest (indexFits_mod (currentIndex + 1) hpos hsize)
      refine ⟨last, ?_⟩
      rw [List.mapM_cons, returns (selectNextTask_returns hne hfits), hfirst, returns hrun,
        List.length_cons, List.range_succ_eq_map]
      have hlater : ∀ k, (k + ((currentIndex + 1) % n + 1)) % n =
          (k + 1 + (currentIndex + 1)) % n := by
        intro k
        rw [← Nat.add_assoc, Nat.add_right_comm, Nat.add_mod_mod]
      simp only [List.map_cons, List.map_map, Function.comp_def, hlater, Nat.zero_add,
        Nat.succ_eq_add_one, pure_apply]

/-- Counting on `n` times modulo `n` from anywhere is going once round. -/
theorem range_isRotated (n start : Nat) :
    (List.range n).IsRotated ((List.range n).map fun k => (k + start) % n) := by
  refine ⟨start, List.ext_getElem ?_ fun i hi hi' => ?_⟩
  · rw [List.length_rotate, List.length_map]
  · rw [List.getElem_rotate, List.getElem_map, List.getElem_range, List.getElem_range,
      List.length_range]

/-- **Round robin visits everyone.**  Whatever lists a new `RoundRobinScheduling`
has been called on, none of them empty, every index it returned was within its
list; and `n` further calls on lists of size `n` return the indices below `n`
once each, in cyclic order.  The sizes are those a `size_t` can hold. -/
theorem round_robin_visits_everyone {history : List (List UnixTask)}
    (hne : ∀ tasks ∈ history, tasks ≠ []) (hsize : ∀ tasks ∈ history, tasks.length < 2 ^ 64) :
    ∃ indices current, history.mapM RoundRobinScheduling.selectNextTask 0 =
        .ok indices current ∧
      List.Forall₂ (fun i tasks => i < tasks.length) indices history ∧
      ∀ (n : Nat) (rounds : List (List UnixTask)), rounds.length = n →
        (∀ tasks ∈ rounds, tasks.length = n) → n < 2 ^ 64 →
        ∃ order last, rounds.mapM RoundRobinScheduling.selectNextTask current =
            .ok order last ∧
          (List.range n).IsRotated order := by
  have hstart : IndexFits 0 := by
    unfold IndexFits
    decide
  obtain ⟨indices, current, hrun, hbounds, hfits⟩ := selectNextTask_history hne hsize hstart
  refine ⟨indices, current, hrun, hbounds, fun n rounds hlen hrounds hn => ?_⟩
  cases rounds with
  | nil =>
      obtain rfl : 0 = n := hlen
      exact ⟨[], current, rfl, List.IsRotated.refl _⟩
  | cons tasks rest =>
      have hpos : 0 < n := by
        rw [← hlen]
        exact Nat.succ_pos _
      obtain ⟨last, hcounts⟩ := selectNextTask_counts hpos hn hrounds hfits
      refine ⟨_, last, hcounts, ?_⟩
      rw [hlen]
      exact range_isRotated n (current + 1)

/-- `n` plain tasks. -/
def plainTasks (n : Nat) : List UnixTask :=
  List.replicate n (UnixTask.built 7 (textBytes "plain") 0 0)

/-- After a call on three tasks and one on a single task, two calls on two tasks
return each of the two indices. -/
theorem round_robin_visits_both :
    ∃ indices current order last,
      [plainTasks 3, plainTasks 1].mapM RoundRobinScheduling.selectNextTask 0 =
        .ok indices current ∧
      [plainTasks 2, plainTasks 2].mapM RoundRobinScheduling.selectNextTask current =
        .ok order last ∧
      (List.range 2).IsRotated order := by
  have hne : ∀ tasks ∈ [plainTasks 3, plainTasks 1], tasks ≠ [] := by decide
  have hsize : ∀ tasks ∈ [plainTasks 3, plainTasks 1], tasks.length < 2 ^ 64 := by decide
  obtain ⟨indices, current, hrun, -, hround⟩ := round_robin_visits_everyone hne hsize
  obtain ⟨order, last, hlast, hrotated⟩ :=
    hround 2 [plainTasks 2, plainTasks 2] rfl (by decide) (by decide)
  exact ⟨indices, current, order, last, hrun, hlast, hrotated⟩

end TaskSheduler
