import FxIP.Lib.Circular

/-!
# Buffers written from the start

A buffer has a fixed number of cells, and that is a field of the structure. A
block that fits is read back as it was written.
-/

universe u

structure Buffer (α : Type u) (n : Nat) where
  cells : List α
  size : cells.length = n
  deriving Repr, DecidableEq

namespace Buffer

open Circular

variable {α : Type u} {n : Nat}

def fill (n : Nat) (x : α) : Buffer α n := ⟨List.replicate n x, List.length_replicate⟩

def write (b : Buffer α n) (data : List α) : Buffer α n :=
  ⟨overwrite b.cells 0 data, length_overwrite.trans b.size⟩

theorem eq_of_cells {b c : Buffer α n} (h : b.cells = c.cells) : b = c := by
  cases b
  cases c
  obtain rfl := h
  rfl

theorem write_prefix {b : Buffer α n} {data : List α} (h : data <+: b.cells) : b.write data = b :=
  eq_of_cells <| overwrite_prefix h

theorem take_write (b : Buffer α n) (data : List α) (h : data.length ≤ n) :
    (b.write data).cells.take data.length = data :=
  take_overwrite_zero b.cells data (b.size.symm ▸ h)

theorem take_write_append (b : Buffer α n) {data more : List α} (h : data.length ≤ n) :
    (b.write (data ++ more)).cells.take data.length = data := by
  apply List.ext_getElem?
  intro i
  by_cases hi : i < data.length
  · have hcell : 0 + i < b.cells.length := by
      rw [b.size]
      omega
    have hread := getElem?_overwrite b.cells (data ++ more) 0 (i := i)
      (by rw [List.length_append]; omega) hcell
    rw [Nat.zero_add, List.getElem?_append_left hi] at hread
    rw [List.getElem?_take_of_lt hi]
    exact hread
  · rw [List.getElem?_take, if_neg hi, List.getElem?_eq_none (Nat.le_of_not_lt hi)]

theorem cells_write (b : Buffer α n) (data : List α) (h : data.length ≤ n) :
    (b.write data).cells = data ++ b.cells.drop data.length := by
  rw [← List.take_append_drop data.length (b.write data).cells, take_write b data h, write,
    drop_overwrite_zero, List.drop_length, overwrite_nil]

theorem drop_write (b : Buffer α n) (data : List α) {k : Nat} (h : data.length ≤ k) :
    (b.write data).cells.drop k = b.cells.drop k := by
  apply List.ext_getElem?
  intro i
  rw [List.getElem?_drop, List.getElem?_drop]
  exact getElem?_overwrite_ge (by omega)

end Buffer
