import TaskSheduler.TaskHistory
import Mathlib.Logic.Relation

/-!
# Descriptions in the fixed-size field

`strncpy` cuts a description at its first NUL and at the size of the field;
`convert_from_shared_task` makes a string of the field, or gives the task the
description of its class.  `passedDescription` is what comes out, and passing
it on changes it no more.
-/

namespace TaskSheduler

open Programs

/-- A pass through the queue, at any time. -/
def Pass (env : Env) (task task' : UnixTask) : Prop :=
  ∃ w w', throughQueue env task w = .ok task' w'

/-- A task whose description was replaced through `get_description`. -/
def UnixTask.described (task : UnixTask) (description : List UInt8) : UnixTask :=
  { task with description := description }

/-- The description of a task of a given class after a pass. -/
def passedDescription (type : TaskType) (description : List UInt8) : List UInt8 :=
  match type with
  | .unixTask => (cString description).take (maxPath - 1)
  | .cpuIntensiveTask => textBytes "CPU-Intensive Task"
  | .ioBoundTask => textBytes "I/O-Bound Task: " ++ textBytes "output.txt"

/-! ## The field -/

/-- The field holds the description, cut, and NULs up to its end. -/
theorem storedDescription_toList (description : List UInt8) :
    (storedDescription description).toList = (cString description).take (maxPath - 1) ++
      0 :: List.replicate (maxPath - 1 - (cString description).length) 0 := by
  have hsize : maxPath = 256 := rfl
  rw [storedDescription, List.Vector.toList_ofFn]
  refine List.ext_getElem ?_ fun i hi hi' => ?_
  · simp only [List.length_ofFn, List.length_append, List.length_take, List.length_cons,
      List.length_replicate]
    omega
  · rw [List.length_ofFn] at hi
    rw [List.getElem_ofFn]
    by_cases hlt : i < maxPath - 1
    · rw [if_pos hlt, List.getD_eq_getElem?_getD]
      by_cases hlen : i < (cString description).length
      · rw [List.getElem?_eq_getElem hlen, Option.getD_some,
          List.getElem_append_left (by simp only [List.length_take]; omega), List.getElem_take]
      · rw [List.getElem?_eq_none (not_lt.mp hlen), Option.getD_none,
          List.getElem_append_right (by simp only [List.length_take]; omega)]
        simp [List.getElem_cons]
    · rw [if_neg hlt, List.getElem_append_right (by simp only [List.length_take]; omega)]
      simp [List.getElem_cons]

/-- Reading the field back yields the description, cut. -/
theorem cString_storedDescription (description : List UInt8) :
    cString (storedDescription description).toList =
      (cString description).take (maxPath - 1) := by
  rw [storedDescription_toList]
  refine cString_append_nul fun hmem => ?_
  exact not_mem_cString description (List.mem_of_mem_take hmem)

/-- The last byte of the field is a NUL. -/
theorem storedDescription_terminated (description : List UInt8) :
    ∃ i, (storedDescription description).get i = 0 := by
  refine ⟨⟨maxPath - 1, by decide⟩, ?_⟩
  rw [storedDescription, List.Vector.get_ofFn, if_neg (Nat.lt_irrefl _)]

/-- A description that has passed once passes unchanged. -/
theorem passedDescription_idem (type : TaskType) (description : List UInt8) :
    passedDescription type (passedDescription type description) =
      passedDescription type description := by
  cases type with
  | unixTask =>
      have hnul : 0 ∉ (cString description).take (maxPath - 1) :=
        fun hmem => not_mem_cString description (List.mem_of_mem_take hmem)
      show (cString ((cString description).take (maxPath - 1))).take (maxPath - 1) = _
      rw [cString_eq_self hnul, List.take_take, Nat.min_self]
      rfl
  | cpuIntensiveTask => rfl
  | ioBoundTask => rfl

/-! ## A pass -/

/-- The description of a decoded task. -/
theorem decoded_description (float : FloatArithmetic.FloatArith) (st : SharedTask)
    (arrival adjusted : Int) :
    (decoded float st arrival adjusted).description =
      match classOfTag st.type with
      | .unixTask => cString st.description.toList
      | .cpuIntensiveTask => textBytes "CPU-Intensive Task"
      | .ioBoundTask => textBytes "I/O-Bound Task: " ++ textBytes "output.txt" := by
  have hkeeps : (decoded float st arrival adjusted).description =
      (taskOfType st arrival).description := by
    unfold decoded
    cases st.completed <;> rfl
  rw [hkeeps, taskOfType_eq]
  cases classOfTag st.type with
  | unixTask => rfl
  | cpuIntensiveTask => rfl
  | ioBoundTask => rfl

/-- What a pass hands on of an unfinished task. -/
structure Passed (task task' : UnixTask) : Prop where
  id : task'.id = task.id
  type : task'.kind.type = task.kind.type
  completed : task'.completed = false
  description : task'.description = passedDescription task.kind.type task.description

/-- A pass of an unfinished task returns, and hands on just that. -/
theorem throughQueue_passed {env : Env} {task : UnixTask} (htask : Coherent task)
    (hopen : task.completed = false) (w : World) :
    ∃ task' w', throughQueue env task w = .ok task' w' ∧ Coherent task' ∧
      Passed task task' := by
  obtain ⟨w', hpass, -⟩ := throughQueue_apply env htask.priority w
  refine ⟨_, w', hpass, decoded_coherent _ _ _ _, ?_⟩
  have hkept := decoded_decodes env.float (storedEntry env w task)
    (env.clock.read (encodedReadings w task)) (env.clock.read (encodedReadings w task + 1))
  have hentry := encoded_encodes env w task (env.uninitialised w.locals)
  have htag : classOfTag (storedEntry env w task).type = task.kind.type := by
    rw [storedEntry, hentry.type hopen, classOfTag_value]
  refine ⟨hkept.id, ?_, ?_, ?_⟩
  · rw [decoded_type, htag]
  · rw [hkept.completed]
    exact hopen
  · rw [decoded_description, htag, storedEntry, hentry.description]
    cases task.kind.type with
    | unixTask => exact cString_storedDescription task.description
    | cpuIntensiveTask => rfl
    | ioBoundTask => rfl

/-- After a first pass, any number of further ones change nothing of it. -/
theorem passes_keep {env : Env} {task task₁ task₂ : UnixTask} (hpassed : Passed task task₁)
    (hcoherent : Coherent task₁) (h : Relation.ReflTransGen (Pass env) task₁ task₂) :
    Coherent task₂ ∧ Passed task task₂ := by
  induction h with
  | refl => exact ⟨hcoherent, hpassed⟩
  | tail _ hlast ih =>
      obtain ⟨hcoherent₂, hpassed₂⟩ := ih
      obtain ⟨w, w', hpass⟩ := hlast
      obtain ⟨task', w'', hpass', hcoherent', hnext⟩ :=
        throughQueue_passed hcoherent₂ hpassed₂.completed w
      rw [hpass] at hpass'
      cases hpass'
      refine ⟨hcoherent', hnext.id.trans hpassed₂.id, hnext.type.trans hpassed₂.type,
        hnext.completed, ?_⟩
      rw [hnext.description, hpassed₂.type, hpassed₂.description, passedDescription_idem]

/-- **Descriptions survive the fixed-size field.**  Whatever the description of
an unfinished task, the field is NUL-terminated; a plain `UnixTask` comes back
with its description cut at the first NUL and at `MAX_PATH - 1` bytes; and for
every class further passes leave id, class, description and completion as the
first one left them. -/
theorem descriptions_survive {env : Env} {task : UnixTask} (htask : Reachable env task)
    (hopen : task.completed = false) (description : List UInt8) (w : World) :
    (∃ i, (storedEntry env w (task.described description)).description.get i = 0) ∧
    ∃ task₁ w₁, throughQueue env (task.described description) w = .ok task₁ w₁ ∧
      (task.kind = .unixTask →
        task₁.description = (cString description).take (maxPath - 1)) ∧
      ∀ task₂, Relation.ReflTransGen (Pass env) task₁ task₂ →
        task₂.id = task₁.id ∧ task₂.kind.type = task₁.kind.type ∧
          task₂.description = task₁.description ∧ task₂.completed = task₁.completed := by
  have hcoherent : Coherent (task.described description) :=
    ⟨(reachable_coherent htask).priority, (reachable_coherent htask).isIoBound⟩
  have hfield : (storedEntry env w (task.described description)).description =
      storedDescription description :=
    (encoded_encodes env w (task.described description) (env.uninitialised w.locals)).description
  rw [hfield]
  refine ⟨storedDescription_terminated description, ?_⟩
  obtain ⟨task₁, w₁, hpass, hcoherent₁, hpassed₁⟩ := throughQueue_passed hcoherent hopen w
  refine ⟨task₁, w₁, hpass, fun hkind => ?_, fun task₂ hpasses => ?_⟩
  · have hclass : (task.described description).kind.type = .unixTask := congrArg _ hkind
    rw [hpassed₁.description, hclass]
    rfl
  · obtain ⟨-, hpassed₂⟩ := passes_keep hpassed₁ hcoherent₁ hpasses
    refine ⟨hpassed₂.id.trans hpassed₁.id.symm, hpassed₂.type.trans hpassed₁.type.symm,
      hpassed₂.description.trans hpassed₁.description.symm, ?_⟩
    rw [hpassed₂.completed, hpassed₁.completed]

/-- A plain task. -/
def plainUnixTask : UnixTask := UnixTask.built 7 (textBytes "plain") 0 0

theorem reachable_plainUnixTask : Reachable envOne plainUnixTask := by
  have hrun : (Construction.unixTask 7 (textBytes "plain") 0).run envOne
      (World.begin (Shm.create 1)) = .ok plainUnixTask
        { World.begin (Shm.create 1) with readings := 1 } := rfl
  exact .constructed hrun

/-- A description with a NUL in it comes back cut. -/
theorem descriptions_survive_plain :
    ∃ task₁ w₁, throughQueue envOne (plainUnixTask.described [65, 66, 0, 67])
        (World.begin (Shm.create 1)) = .ok task₁ w₁ ∧ task₁.description = [65, 66] := by
  obtain ⟨-, task₁, w₁, hpass, hplain, -⟩ := descriptions_survive reachable_plainUnixTask rfl
    [65, 66, 0, 67] (World.begin (Shm.create 1))
  exact ⟨task₁, w₁, hpass, hplain rfl⟩

end TaskSheduler
