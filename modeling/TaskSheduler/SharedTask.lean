import Mathlib.Data.List.TakeWhile
import Mathlib.Data.Vector.Basic

/-!
# The queue entry

`SharedTask` is the struct that is copied into and out of the shared memory
segment.  Its `int` fields are 32-bit, its description is a fixed buffer of
`MAX_PATH` bytes read as a C string, and its type tag is kept as the raw value
of the enumeration, because one path of the encoder leaves it uninitialised.
-/

namespace TaskSheduler

/-- `MAX_PATH`: the size of the description buffer. -/
def maxPath : Nat := 256

/-- `enum class TaskType`. -/
inductive TaskType
  | unixTask
  | cpuIntensiveTask
  | ioBoundTask
deriving DecidableEq, Repr

/-- The underlying value of an enumerator. -/
def TaskType.value : TaskType → Int32
  | .unixTask => 0
  | .cpuIntensiveTask => 1
  | .ioBoundTask => 2

/-- `char description_[MAX_PATH]`. -/
abbrev Description := List.Vector UInt8 maxPath

/-- The bytes of a C string: everything before the first NUL. -/
def cString (bytes : List UInt8) : List UInt8 :=
  bytes.takeWhile (· ≠ 0)

/-- Without a NUL, all bytes are read. -/
theorem cString_eq_self {bytes : List UInt8} (h : 0 ∉ bytes) : cString bytes = bytes := by
  refine List.takeWhile_eq_self_iff.mpr fun b hb => ?_
  exact decide_eq_true fun hzero => h (hzero ▸ hb)

/-- Reading stops at the first NUL. -/
theorem cString_append_nul {bytes rest : List UInt8} (h : 0 ∉ bytes) :
    cString (bytes ++ 0 :: rest) = bytes := by
  have hall : ∀ b ∈ bytes, decide (b ≠ 0) = true :=
    fun b hb => decide_eq_true fun hzero => h (hzero ▸ hb)
  rw [cString, List.takeWhile_append_of_pos hall, List.takeWhile_cons_of_neg (by decide),
    List.append_nil]

/-- What is read holds no NUL. -/
theorem not_mem_cString (bytes : List UInt8) : 0 ∉ cString bytes := by
  intro hmem
  have hne := List.mem_takeWhile_imp hmem
  simp at hne

/-- A byte string as it appears on an output stream. -/
def byteText (bytes : List UInt8) : String :=
  String.ofList (bytes.map fun b => Char.ofNat b.toNat)

/-- `struct SharedTask`. -/
@[ext]
structure SharedTask where
  id : Int32
  priority : Int32
  description : Description
  type : Int32
  completed : Bool
  remainingTimeMs : Int32
deriving DecidableEq

/-- The entry a zero-filled slot reads as. -/
def SharedTask.zeroed : SharedTask where
  id := 0
  priority := 0
  description := List.Vector.replicate maxPath 0
  type := 0
  completed := false
  remainingTimeMs := 0

/-- A zeroed entry with an id and a priority. -/
def SharedTask.numbered (id priority : Int32) : SharedTask :=
  { SharedTask.zeroed with id := id, priority := priority }

/-- A CPU entry with the given remaining time. -/
def cpuEntry (remaining : Int32) : SharedTask :=
  { SharedTask.numbered 7 0 with
    type := TaskType.cpuIntensiveTask.value
    remainingTimeMs := remaining }

/-- The line `print` writes for one entry. -/
def SharedTask.line (task : SharedTask) : String :=
  "  Task ID: " ++ toString task.id.toInt ++
  ", Priority: " ++ toString task.priority.toInt ++
  ", Description: " ++ byteText (cString task.description.toList) ++
  ", Completed: " ++ (if task.completed then "Yes" else "No") ++
  ", Remaining Time: " ++ toString task.remainingTimeMs.toInt ++ " ms"

end TaskSheduler
