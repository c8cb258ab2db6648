import Mathlib.Algebra.Group.Nat.Defs
import Mathlib.Data.List.Basic
import Mathlib.Data.Nat.Basic

/-!
# Byte-addressed memory

A memory maps every offset to a byte.  `store` writes a byte string at an
offset and `load` reads one; they meet in two rules, `load_store_same` for the
string just written and `store_outside` for every other byte.  Unsigned
integers are kept little-endian, `leBytes` one way and `leValue` the other.
-/

namespace ByteMemory

/-- The contents of a mapping, by offset. -/
abbrev Memory := Nat → UInt8

/-- A run of `len` bytes from offset `off`. -/
structure Span where
  off : Nat
  len : Nat

/-- The span covers the byte at offset `b`. -/
def Span.Covers (s : Span) (b : Nat) : Prop := s.off ≤ b ∧ b < s.off + s.len

/-- Two spans share no byte. -/
def Span.Apart (s t : Span) : Prop := ∀ b, ¬ (s.Covers b ∧ t.Covers b)

/-- The span lies within the first `size` bytes. -/
def Span.Within (s : Span) (size : Nat) : Prop := s.off + s.len ≤ size

/-- Spans one of which ends before the other begins share no byte. -/
theorem Span.apart_of_le {s t : Span}
    (h : s.off + s.len ≤ t.off ∨ t.off + t.len ≤ s.off) : s.Apart t := by
  rintro b ⟨hs, ht⟩
  unfold Span.Covers at hs ht
  omega

/-- Read `n` bytes at `off`. -/
def load (mem : Memory) (off n : Nat) : List UInt8 :=
  (List.range n).map fun i => mem (off + i)

/-- Write a byte string at `off`. -/
def store (mem : Memory) (off : Nat) (bytes : List UInt8) : Memory :=
  fun b => if off ≤ b ∧ b < off + bytes.length then bytes.getD (b - off) 0 else mem b

@[simp] theorem load_length (mem : Memory) (off n : Nat) : (load mem off n).length = n := by
  simp [load]

/-- A byte string just written reads back. -/
theorem load_store_same (mem : Memory) (off : Nat) (bytes : List UInt8) :
    load (store mem off bytes) off bytes.length = bytes := by
  apply List.ext_getElem
  · simp
  · intro i hi hi'
    simp only [load, store, List.getElem_map, List.getElem_range, Nat.le_add_right,
      Nat.add_lt_add_iff_left, hi', and_self, ↓reduceIte, Nat.add_sub_cancel_left]
    exact (List.getElem_eq_getD 0).symm

/-- A write leaves every byte outside its span alone. -/
theorem store_outside {mem : Memory} {off b : Nat} {bytes : List UInt8}
    (h : b < off ∨ off + bytes.length ≤ b) : store mem off bytes b = mem b := by
  unfold store
  rw [if_neg (by omega)]

/-! ## Little-endian integers -/

/-- The `width` low bytes of a number, least significant first. -/
def leBytes : Nat → Nat → List UInt8
  | 0, _ => []
  | width + 1, value => UInt8.ofNat (value % 256) :: leBytes width (value / 256)

/-- The number a byte string denotes. -/
def leValue : List UInt8 → Nat
  | [] => 0
  | b :: rest => b.toNat + 256 * leValue rest

@[simp] theorem leBytes_length (width value : Nat) : (leBytes width value).length = width := by
  induction width generalizing value with
  | zero => rfl
  | succ w ih => simp [leBytes, ih]

/-- Writing a number in `width` bytes keeps it modulo `256 ^ width`. -/
theorem leValue_leBytes (width value : Nat) :
    leValue (leBytes width value) = value % 256 ^ width := by
  induction width generalizing value with
  | zero => simp [leBytes, leValue, Nat.mod_one]
  | succ w ih =>
      have hbyte : (UInt8.ofNat (value % 256)).toNat = value % 256 := by
        rw [UInt8.toNat_ofNat']
        exact Nat.mod_eq_of_lt (Nat.mod_lt _ (by decide))
      rw [leBytes, leValue, ih, hbyte, Nat.pow_succ, Nat.mul_comm (256 ^ w) 256,
        Nat.mod_mul]

/-- Read a little-endian number of `width` bytes. -/
def loadNat (mem : Memory) (off width : Nat) : Nat := leValue (load mem off width)

/-- Write a little-endian number of `width` bytes. -/
def storeNat (mem : Memory) (off width value : Nat) : Memory :=
  store mem off (leBytes width value)

theorem loadNat_storeNat_same (mem : Memory) (off width value : Nat) :
    loadNat (storeNat mem off width value) off width = value % 256 ^ width := by
  have h := load_store_same mem off (leBytes width value)
  rw [leBytes_length] at h
  rw [loadNat, storeNat, h, leValue_leBytes]

/-- A read depends on its own bytes only. -/
theorem load_congr {mem mem' : Memory} {off n : Nat}
    (h : ∀ b, off ≤ b → b < off + n → mem b = mem' b) : load mem off n = load mem' off n := by
  apply List.map_congr_left
  intro i hi
  have hlt := List.mem_range.mp hi
  exact h (off + i) (by omega) (by omega)

/-- Two reads of bytes that agree one by one. -/
theorem load_agree {mem mem' : Memory} {off off' n : Nat}
    (h : ∀ k < n, mem (off + k) = mem' (off' + k)) : load mem off n = load mem' off' n := by
  apply List.map_congr_left
  intro k hk
  exact h k (List.mem_range.mp hk)

theorem loadNat_congr {mem mem' : Memory} {off n : Nat}
    (h : ∀ b, off ≤ b → b < off + n → mem b = mem' b) :
    loadNat mem off n = loadNat mem' off n := by
  rw [loadNat, load_congr h, loadNat]

theorem storeNat_outside {mem : Memory} {off b width value : Nat}
    (h : b < off ∨ off + width ≤ b) : storeNat mem off width value b = mem b :=
  store_outside (by rwa [leBytes_length])

/-! ## Zero-filled memory -/

/-- A write of zeros leaves zeros. -/
theorem store_zero_inside {mem : Memory} {off b : Nat} {bytes : List UInt8}
    (hbytes : ∀ x ∈ bytes, x = 0) (hlo : off ≤ b) (hhi : b < off + bytes.length) :
    store mem off bytes b = 0 := by
  unfold store
  rw [if_pos ⟨hlo, hhi⟩, List.getD_eq_getElem?_getD]
  cases hx : bytes[b - off]? with
  | none => rfl
  | some x => exact hbytes x (List.mem_of_getElem? hx)

/-- Writing zeros keeps a zero-filled memory zero-filled. -/
theorem store_zero {mem : Memory} (h : ∀ b, mem b = 0) {off : Nat} {bytes : List UInt8}
    (hbytes : ∀ x ∈ bytes, x = 0) (b : Nat) : store mem off bytes b = 0 := by
  by_cases hin : off ≤ b ∧ b < off + bytes.length
  · exact store_zero_inside hbytes hin.1 hin.2
  · rw [store_outside (by omega), h b]

theorem leBytes_zero {width : Nat} : ∀ x ∈ leBytes width 0, x = 0 := by
  induction width with
  | zero => simp [leBytes]
  | succ w ih =>
      intro x hx
      rcases List.mem_cons.mp hx with rfl | hx
      · rfl
      · exact ih x hx

/-- A number all of whose bytes are zero is zero. -/
theorem loadNat_zero {mem : Memory} {off width : Nat}
    (h : ∀ b, off ≤ b → b < off + width → mem b = 0) : loadNat mem off width = 0 := by
  have hall : ∀ x ∈ load mem off width, x = 0 := by
    intro x hx
    obtain ⟨i, hi, rfl⟩ := List.mem_map.mp hx
    have hlt := List.mem_range.mp hi
    exact h _ (by omega) (by omega)
  unfold loadNat
  generalize load mem off width = bytes at hall ⊢
  induction bytes with
  | nil => rfl
  | cons x rest ih =>
      rw [leValue, hall x List.mem_cons_self, ih fun y hy => hall y (List.mem_cons_of_mem _ hy)]
      rfl

end ByteMemory
