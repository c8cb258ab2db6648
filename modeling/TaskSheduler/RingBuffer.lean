import Mathlib.Logic.Function.Basic
import Mathlib.Data.List.Basic
import Mathlib.Data.Nat.ModEq

/-!
# Ring buffers over an arbitrary slot store

A ring of capacity `cap` keeps its elements, oldest first, in the slots
`front, front + 1, …` modulo `cap`; `rear` is the slot the next element goes
to.  `Holds cap front rear slots q` says that the ring represents the queue
`q`.  The store is any function of the slot number, so nothing here depends
on what the elements are or on how many slots physically exist.

The rules follow the operations: `Holds.empty`, `Holds.push` (write the rear
slot, advance rear), `Holds.pop` (advance front), and `Holds.head_slot`,
`Holds.walk` for reading the front element and walking the ring from it.
-/

namespace RingBuffer

variable {α : Type*}

/-- The ring with capacity `cap` and indices `front`, `rear` over `slots`
represents the queue `q`, oldest element first. -/
structure Holds (cap front rear : Nat) (slots : Nat → α) (q : List α) : Prop where
  front_lt : front < cap
  rear_eq : rear = (front + q.length) % cap
  length_le : q.length ≤ cap
  slot : ∀ i (h : i < q.length), slots ((front + i) % cap) = q[i]

/-- Two offsets below the capacity name the same slot only if they agree. -/
theorem offset_inj {cap front i j : Nat} (hi : i < cap) (hj : j < cap)
    (h : (front + i) % cap = (front + j) % cap) : i = j := by
  have hmod : i % cap = j % cap := Nat.ModEq.add_left_cancel' front h
  rwa [Nat.mod_eq_of_lt hi, Nat.mod_eq_of_lt hj] at hmod

/-- A ring whose indices agree and that represents nothing is the empty queue. -/
theorem Holds.empty {cap : Nat} (hcap : 0 < cap) (slots : Nat → α) :
    Holds cap 0 0 slots [] := by
  refine ⟨hcap, ?_, Nat.zero_le _, ?_⟩
  · simp
  · intro i h
    simp at h

namespace Holds

variable {cap front rear : Nat} {slots : Nat → α} {q : List α}

/-- The rear index names a slot of the ring. -/
theorem rear_lt (h : Holds cap front rear slots q) : rear < cap := by
  rw [h.rear_eq]
  exact Nat.mod_lt _ (by have := h.front_lt; omega)

/-- The front slot holds the oldest element. -/
theorem head_slot {x : α} {rest : List α} (h : Holds cap front rear slots (x :: rest)) :
    slots front = x := by
  have hslot := h.slot 0 (by simp)
  simpa [Nat.mod_eq_of_lt h.front_lt] using hslot

/-- A ring represents one queue of a given length. -/
theorem unique {q' : List α} (h : Holds cap front rear slots q)
    (h' : Holds cap front rear slots q') (hlen : q.length = q'.length) : q = q' := by
  apply List.ext_getElem hlen
  intro i hi hi'
  rw [← h.slot i hi, ← h'.slot i hi']

/-- Writing the rear slot does not disturb a ring that is not full. -/
theorem write_rear (h : Holds cap front rear slots q) (hroom : q.length < cap) (x : α) :
    Holds cap front rear (Function.update slots rear x) q := by
  refine ⟨h.front_lt, h.rear_eq, h.length_le, ?_⟩
  intro i hi
  have hne : (front + i) % cap ≠ rear := by
    intro heq
    rw [h.rear_eq] at heq
    have := offset_inj (h := heq) (by omega) hroom
    omega
  rw [Function.update_of_ne hne]
  exact h.slot i hi

/-- **Push.**  Once the rear slot holds `x`, advancing the rear index appends
`x` to the queue. -/
theorem push (h : Holds cap front rear slots q) (hroom : q.length < cap) {x : α}
    (hx : slots rear = x) : Holds cap front ((rear + 1) % cap) slots (q ++ [x]) := by
  refine ⟨h.front_lt, ?_, by simp; omega, ?_⟩
  · rw [h.rear_eq, Nat.mod_add_mod, List.length_append, List.length_singleton, Nat.add_assoc]
  · intro i hi
    by_cases hlt : i < q.length
    · rw [List.getElem_append_left hlt]
      exact h.slot i hlt
    · have hi' : i = q.length := by
        simp only [List.length_append, List.length_singleton] at hi
        omega
      subst hi'
      simpa [← h.rear_eq] using hx

/-- **Pop.**  Advancing the front index drops the oldest element. -/
theorem pop {x : α} {rest : List α} (h : Holds cap front rear slots (x :: rest)) :
    Holds cap ((front + 1) % cap) rear slots rest := by
  have hcap : 0 < cap := by
    have := h.front_lt
    omega
  refine ⟨Nat.mod_lt _ hcap, ?_, ?_, ?_⟩
  · rw [h.rear_eq, Nat.mod_add_mod, List.length_cons]
    congr 1
    omega
  · have := h.length_le
    simp only [List.length_cons] at this
    omega
  · intro i hi
    have hslot := h.slot (i + 1) (by simpa using hi)
    rw [Nat.mod_add_mod]
    have harith : front + 1 + i = front + (i + 1) := by omega
    simpa [harith] using hslot

/-- Only the slots in use matter. -/
theorem congr {slots' : Nat → α} (h : Holds cap front rear slots q)
    (hsame : ∀ i < q.length, slots' ((front + i) % cap) = slots ((front + i) % cap)) :
    Holds cap front rear slots' q :=
  ⟨h.front_lt, h.rear_eq, h.length_le, fun i hi => (hsame i hi).trans (h.slot i hi)⟩

/-- Walking `i` slots from the front reaches the `i`-th oldest element. -/
theorem walk (h : Holds cap front rear slots q) {i index : Nat} (hi : i < q.length)
    (hindex : index = (front + i) % cap) : slots index = q[i] := by
  rw [hindex]
  exact h.slot i hi

end Holds

end RingBuffer
