import Mathlib.Data.List.Basic

/-! Files with a length and a byte at every position. -/

/-- Positions from `len` on are not part of the file. -/
structure SparseFile where
  len : Nat
  byte : Nat → UInt8

namespace SparseFile

variable {f : SparseFile} {n p size : Nat} {ys : List UInt8}

def empty : SparseFile := ⟨0, fun _ => 0⟩

/-- The first `n` bytes. -/
def bytes (f : SparseFile) (n : Nat) : List UInt8 := (List.range n).map f.byte

def contents (f : SparseFile) : List UInt8 := f.bytes f.len

/-- Cut to a length, or extend with zeros. -/
def truncate (f : SparseFile) (size : Nat) : SparseFile :=
  ⟨size, fun i => if i < f.len then f.byte i else 0⟩

/-- Overwrite the bytes from `p` on; the length stays. -/
def write (f : SparseFile) (p : Nat) (ys : List UInt8) : SparseFile :=
  { f with byte := fun i => if p ≤ i then ys.getD (i - p) (f.byte i) else f.byte i }

@[simp] theorem length_bytes : (f.bytes n).length = n := by simp [bytes]

@[simp] theorem length_contents : f.contents.length = f.len := length_bytes

@[simp] theorem len_truncate : (f.truncate size).len = size := rfl

theorem take_bytes (h : p ≤ n) : (f.bytes n).take p = f.bytes p := by
  rw [bytes, bytes, ← List.map_take, List.take_range, Nat.min_eq_left h]

theorem bytes_truncate (h : n ≤ f.len) : (f.truncate size).bytes n = f.bytes n := by
  refine List.map_congr_left fun i hi => if_pos ?_
  have := List.mem_range.mp hi
  omega

/-- The bytes in front of a write stay, and those written follow them. -/
theorem bytes_write : (f.write p ys).bytes (p + ys.length) = f.bytes p ++ ys := by
  refine List.ext_getElem (by simp) fun i hi hi' => ?_
  simp only [length_bytes] at hi
  rcases Nat.lt_or_ge i p with hlt | hge
  · rw [List.getElem_append_left (by simpa using hlt)]
    simp [bytes, write, Nat.not_le.mpr hlt]
  · rw [List.getElem_append_right (by simpa using hge)]
    have hsub : i - p < ys.length := by omega
    simp [bytes, write, hge, hsub]

end SparseFile
