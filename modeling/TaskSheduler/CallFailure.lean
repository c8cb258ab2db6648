import TaskSheduler.ReorderFailure
import TaskSheduler.PassProgress

/-!
# What a failed `add_task` or `get_next_task` leaves behind

Both calls work in two parts: `add_task` prints the queue after it has stored
its entry, `get_next_task` decodes the entry after it has taken it out.  When
the first part throws, nothing has happened; when the second part throws, the
first one is not undone.  `calls_allOrNothing_iff` says for which failing
waits and which entries a call is all or nothing.
-/

namespace TaskSheduler

open Programs

/-- If `x` throws, the segment is exactly as it was before. -/
def AllOrNothing {α : Type} (x : Program World α) (w : World) : Prop :=
  ∀ message w', x w = .error (.thrown message) w' → w'.shm = w.shm

theorem AllOrNothing.of_returned {α : Type} {x : Program World α} {w w₁ : World} {a : α}
    (h : x w = .ok a w₁) : AllOrNothing x w := by
  intro message w' hthrow
  rw [h] at hthrow
  cases hthrow

/-- A call that stops is all or nothing exactly if it stops by blocking or
has left the segment alone. -/
theorem allOrNothing_thrown_iff {α : Type} {x : Program World α} {w w₁ : World}
    {message : String} (h : x w = .error (.thrown message) w₁) :
    AllOrNothing x w ↔ w₁.shm = w.shm := by
  constructor
  · intro hall
    exact hall message w₁ h
  · intro hsame other w' hthrow
    rw [h] at hthrow
    cases hthrow
    exact hsame

theorem AllOrNothing.of_blocked {α : Type} {x : Program World α} {w w₁ : World}
    (h : x w = .error .blocked w₁) : AllOrNothing x w := by
  intro message w' hthrow
  rw [h] at hthrow
  cases hthrow

/-- A wait on a semaphore without tokens fails or blocks. -/
theorem waitOn_empty (env : Env) (w : World) (sem : Semaphore) (h : w.shm.value sem = 0) :
    waitOn env sem w = .ok false { w with waits := w.waits + 1 } ∨
      waitOn env sem w = .error .blocked w := by
  cases hfail : env.waitFails w.waits with
  | true => exact .inl (waitOn_fails sem hfail)
  | false => exact .inr (by simp [waitOn, hfail, h, semWait])

section Calls

variable {env : Env} {w : World} {q : List SharedTask}

/-- On a full queue `add_task` stops at its first wait. -/
theorem addTask_full (h : Quiescent env.capacity w.shm q) (hfull : q.length = env.capacity)
    (task : UnixTask) : AllOrNothing (addTask env task) w := by
  obtain ⟨w₁, hadd, hshm, -⟩ := addTask_apply env w task
  have hnone : w₁.shm.value .enqueueSem = 0 := by
    have hslots := h.slots
    show w₁.shm.enqueueSem = 0
    rw [hshm]
    omega
  rcases waitOn_empty env w₁ .enqueueSem hnone with hfails | hblocks
  · have hthrow : enqueue env (storedEntry env w task) w₁ =
        .error (.thrown "Enqueue semaphore wait failed") { w₁ with waits := w₁.waits + 1 } := by
      unfold enqueue
      rw [returns hfails]
      rfl
    rw [stops hthrow] at hadd
    exact (allOrNothing_thrown_iff hadd).mpr hshm
  · have hblock : enqueue env (storedEntry env w task) w₁ = .error .blocked w₁ :=
      stops hblocks
    rw [stops hblock] at hadd
    exact .of_blocked hadd

/-- On an empty queue `get_next_task` stops at its first wait. -/
theorem getNextTask_empty (h : Quiescent env.capacity w.shm []) :
    AllOrNothing (getNextTask env) w := by
  have hnone : w.shm.value .dequeueSem = 0 := h.items
  rcases waitOn_empty env w .dequeueSem hnone with hfails | hblocks
  · have hthrow : dequeue env w =
        .error (.thrown "Dequeue semaphore wait failed") { w with waits := w.waits + 1 } := by
      unfold dequeue
      rw [returns hfails]
      rfl
    have hget : getNextTask env w = _ := stops hthrow
    exact (allOrNothing_thrown_iff hget).mpr rfl
  · have hblock : dequeue env w = .error .blocked w := stops hblocks
    have hget : getNextTask env w = _ := stops hblock
    exact .of_blocked hget

/-- **When `add_task` is all or nothing**: not when the entry is stored and the
wait of `print` fails. -/
theorem addTask_allOrNothing_iff (h : Quiescent env.capacity w.shm q) (task : UnixTask) :
    AllOrNothing (addTask env task) w ↔
      q.length = env.capacity ∨ FirstFails env w ∨ env.waitFails (w.waits + 2) = false := by
  by_cases hfull : q.length = env.capacity
  · exact iff_of_true (addTask_full h hfull task) (.inl hfull)
  · have hroom : q.length < env.capacity := lt_of_le_of_ne h.length_le hfull
    obtain ⟨w₁, -, -, ⟨hfirst, ⟨message, hthrow⟩, hshm⟩ | ⟨hsucceed, hstored, -, hends⟩⟩ :=
      addTask_cases h hroom task
    · exact iff_of_true ((allOrNothing_thrown_iff hthrow).mpr hshm) (.inr (.inl hfirst))
    · rcases hends with ⟨hprint, message, hthrow⟩ | ⟨hprint, hreturn⟩
      · rw [allOrNothing_thrown_iff hthrow]
        refine iff_of_false (fun hshm => ?_) ?_
        · rw [hshm] at hstored
          exact not_longer h hstored
        · rintro (hlen | hfirst | hlast)
          · exact hfull hlen
          · rw [FirstFails, hsucceed.1, hsucceed.2] at hfirst
            simp at hfirst
          · rw [hprint] at hlast
            cases hlast
      · exact iff_of_true (.of_returned hreturn) (.inr (.inr hprint))

/-- **When `get_next_task` is all or nothing**: not when the entry it takes out
has a priority that the decoder rejects. -/
theorem getNextTask_allOrNothing_iff (h : Quiescent env.capacity w.shm q) :
    AllOrNothing (getNextTask env) w ↔
      FirstFails env w ∨ ∀ st ∈ q.head?, validPriority st.priority = true := by
  cases q with
  | nil => exact iff_of_true (getNextTask_empty h) (.inr fun st hst => by cases hst)
  | cons st rest =>
      have hhead : (∀ st' ∈ (st :: rest).head?, validPriority st'.priority = true) ↔
          validPriority st.priority = true := by simp
      rw [hhead]
      obtain ⟨w₁, ⟨hfirst, ⟨message, hthrow⟩, hshm⟩ | ⟨hsucceed, htaken, -, hends⟩⟩ :=
        getNextTask_cases h
      · exact iff_of_true ((allOrNothing_thrown_iff hthrow).mpr hshm) (.inl hfirst)
      · rcases hends with ⟨hreject, message, hthrow⟩ | ⟨hvalid, hreturn⟩
        · rw [allOrNothing_thrown_iff hthrow]
          refine iff_of_false (fun hshm => ?_) ?_
          · rw [hshm] at htaken
            have hlen := congrArg List.length (h.unique htaken)
            simp at hlen
          · rintro (hfirst | hvalid)
            · rw [FirstFails, hsucceed.1, hsucceed.2] at hfirst
              simp at hfirst
            · rw [hreject] at hvalid
              cases hvalid
        · exact iff_of_true (.of_returned hreturn) (.inr hvalid)

end Calls

/-- **When the calls are all or nothing.**  On a queue with any entries, with
any failing waits and no other thread: an `add_task` that throws has changed
nothing, unless its three waits come to succeed, succeed and fail on a queue
with room; a `get_next_task` that throws has changed nothing, unless it took
out an entry with an invalid priority. -/
theorem calls_allOrNothing_iff {env : Env} {w : World} {q : List SharedTask}
    (h : Quiescent env.capacity w.shm q) (task : UnixTask) :
    (AllOrNothing (addTask env task) w ↔
        q.length = env.capacity ∨ FirstFails env w ∨ env.waitFails (w.waits + 2) = false) ∧
      (AllOrNothing (getNextTask env) w ↔
        FirstFails env w ∨ ∀ st ∈ q.head?, validPriority st.priority = true) :=
  ⟨addTask_allOrNothing_iff h task, getNextTask_allOrNothing_iff h⟩

/-- On an empty queue, with no failing wait, both are. -/
theorem calls_allOrNothing_quiet :
    AllOrNothing (addTask envTwo (UnixTask.built 7 [] 0 0)) (World.begin (Shm.create 2)) ∧
      AllOrNothing (getNextTask envTwo) (World.begin (Shm.create 2)) := by
  obtain ⟨hadd, hget⟩ := @calls_allOrNothing_iff envTwo (World.begin (Shm.create 2)) []
    (quiescent_create Nat.two_pos) (UnixTask.built 7 [] 0 0)
  exact ⟨hadd.mpr (.inr (.inr rfl)), hget.mpr (.inr fun st hst => by cases hst)⟩

/-- An entry with a priority that the decoder rejects. -/
def rejectedEntry : SharedTask := SharedTask.numbered 7 20

/-- When the third wait fails, the task is in the queue although `add_task`
threw; an entry with priority 20 is gone although `get_next_task` threw. -/
theorem calls_not_allOrNothing :
    (Quiescent (envFailingAt 2).capacity (World.begin (Shm.create 2)).shm [] ∧
      ¬ AllOrNothing (addTask (envFailingAt 2) (UnixTask.built 7 [] 0 0))
        (World.begin (Shm.create 2))) ∧
    Quiescent envOne.capacity (World.begin (Shm.holding rejectedEntry)).shm [rejectedEntry] ∧
      ¬ AllOrNothing (getNextTask envOne) (World.begin (Shm.holding rejectedEntry)) := by
  refine ⟨⟨quiescent_create Nat.two_pos, fun hall => ?_⟩, quiescent_holding _, fun hall => ?_⟩
  · have hcount := congrArg Shm.count (hall _ _ rfl)
    exact absurd hcount (by decide)
  · have hcount := congrArg Shm.count (hall _ _ rfl)
    exact absurd hcount (by decide)

end TaskSheduler
