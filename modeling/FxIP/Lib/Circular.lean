import Mathlib.Data.List.Nodup

/-!
# Circular buffers as windows over a tape

The elements ever written to a circular buffer form a tape; the buffer of
size `S` holds the last `S` of them, the element at position `i` in cell
`i % S`. `Holds` says so. Positions on the tape never wrap, so order and
disjointness are facts about them and not about cells.
-/

universe u

namespace Circular

variable {α : Type u} {buf tape data : List α} {S a b i k pos : Nat} {x : α}

-- ---------------------------------------------------------------------------
-- Cells of positions
-- ---------------------------------------------------------------------------

theorem mod_add_cases (hS : 0 < S) (hk : k ≤ S) :
    ((a + k) % S = a % S + k ∧ a % S + k < S) ∨
      ((a + k) % S + S = a % S + k ∧ S ≤ a % S + k) := by
  have ha := Nat.mod_lt a hS
  rw [Nat.add_mod_eq_add_mod_right k (Nat.mod_mod a S).symm]
  by_cases h : a % S + k < S
  · exact .inl ⟨Nat.mod_eq_of_lt h, h⟩
  · refine .inr ⟨?_, by omega⟩
    rw [Nat.mod_eq_sub_mod (by omega), Nat.mod_eq_of_lt (by omega)]
    omega

theorem mod_ne (hab : a < b) (hb : b < a + S) : a % S ≠ b % S := by
  obtain ⟨k, rfl⟩ : ∃ k, b = a + k := ⟨b - a, by omega⟩
  have hS : 0 < S := by omega
  have ha := Nat.mod_lt a hS
  rcases mod_add_cases (a := a) hS (show k ≤ S by omega) with h | h <;> omega

theorem mod_add_of_lt (h : a % S + k < S) : (a + k) % S = a % S + k := by
  rcases mod_add_cases (a := a) (show 0 < S by omega) (show k ≤ S by omega) with h' | h' <;> omega

theorem mod_add_of_eq (h : a % S + k = S) : (a + k) % S = 0 := by
  rcases Nat.eq_zero_or_pos S with rfl | hS
  · simp at h ⊢; omega
  · rcases mod_add_cases (a := a) hS (show k ≤ S by omega) with h' | h' <;> omega

/-- A walk from position `a` that goes on from `b` by `n` crosses the cell of `a`
exactly if it has come once around. -/
theorem crosses_iff {a b n : Nat} (hS : 0 < S) (hab : a ≤ b) (hn : 0 < n) (hlap : b + n ≤ a + S) :
    (b % S < a % S ∧ (b + n) % S ≥ a % S ∨
      b % S > a % S ∧ (b + n) % S ≥ a % S ∧ (b + n) % S < b % S) ↔ a < b ∧ b + n = a + S := by
  obtain ⟨d, rfl⟩ : ∃ d, b = a + d := ⟨b - a, by omega⟩
  have hmod := Nat.mod_lt a hS
  have hfrom := mod_add_cases (a := a) hS (show d ≤ S by omega)
  have hto := mod_add_cases (a := a) hS (show d + n ≤ S by omega)
  rw [← Nat.add_assoc] at hto
  omega

/-- The cells of `n` positions from `a` on. -/
def cellsOf (S a n : Nat) : List Nat := (List.range' a n).map (· % S)

@[simp] theorem length_cellsOf {n : Nat} : (cellsOf S a n).length = n := by
  simp [cellsOf]

theorem cellsOf_add (m n : Nat) : cellsOf S a (m + n) = cellsOf S a m ++ cellsOf S (a + m) n := by
  rw [cellsOf, ← List.range'_append_1, List.map_append]
  rfl

theorem cellsOf_inside {n : Nat} (h : a % S + n ≤ S) : cellsOf S a n = List.range' (a % S) n := by
  apply List.ext_getElem
  · simp
  · intro i hi _
    rw [length_cellsOf] at hi
    simp only [cellsOf, List.getElem_map, List.getElem_range', Nat.one_mul]
    exact mod_add_of_lt (by omega)

theorem nodup_cellsOf {n : Nat} (h : n ≤ S) : (cellsOf S a n).Nodup := by
  refine List.Nodup.map_on ?_ (List.nodup_range' ..)
  intro i hi j hj hcell
  rw [List.mem_range'_1] at hi hj
  by_contra hne
  rcases Nat.lt_or_gt_of_ne hne with hlt | hgt
  · exact mod_ne hlt (by omega) hcell
  · exact mod_ne hgt (by omega) hcell.symm

theorem newest_position {n : Nat} (hS : 0 < S) (hlt : a < n) :
    ∃ p, a ≤ p ∧ p < n ∧ n ≤ p + S ∧ p % S = a % S ∧ (n ≤ a + S → p = a) := by
  refine ⟨a + S * ((n - 1 - a) / S), ?_, ?_, ?_, ?_, ?_⟩
  · exact Nat.le_add_right ..
  · have := Nat.mul_div_le (n - 1 - a) S
    omega
  · have := Nat.lt_mul_div_succ (n - 1 - a) hS
    rw [Nat.mul_add] at this
    omega
  · exact Nat.add_mul_mod_self_left ..
  · intro hle
    rw [Nat.div_eq_of_lt (by omega), Nat.mul_zero, Nat.add_zero]

-- ---------------------------------------------------------------------------
-- Storing a block
-- ---------------------------------------------------------------------------

/-- Store `data` from cell `pos` on. Cells past the end are dropped. -/
def overwrite (buf : List α) (pos : Nat) : List α → List α
  | [] => buf
  | x :: xs => overwrite (buf.set pos x) (pos + 1) xs

@[simp] theorem overwrite_nil : overwrite buf pos [] = buf := rfl

@[simp] theorem length_overwrite : (overwrite buf pos data).length = buf.length := by
  induction data generalizing buf pos with
  | nil => rfl
  | cons x xs ih => simp [overwrite, ih]

theorem getElem?_overwrite_lt (h : i < pos) : (overwrite buf pos data)[i]? = buf[i]? := by
  induction data generalizing buf pos with
  | nil => rfl
  | cons x xs ih =>
    rw [overwrite, ih (by omega), List.getElem?_set_ne (by omega)]

theorem getElem?_overwrite_ge (h : pos + data.length ≤ i) :
    (overwrite buf pos data)[i]? = buf[i]? := by
  induction data generalizing buf pos with
  | nil => rfl
  | cons x xs ih =>
    rw [List.length_cons] at h
    rw [overwrite, ih (by omega), List.getElem?_set_ne (by omega)]

theorem getElem?_overwrite_outside (h : i ∉ List.range' pos data.length) :
    (overwrite buf pos data)[i]? = buf[i]? := by
  rw [List.mem_range'_1, not_and, Nat.not_lt] at h
  rcases Nat.lt_or_ge i pos with hlt | hge
  · exact getElem?_overwrite_lt hlt
  · exact getElem?_overwrite_ge (h hge)

theorem getElem?_overwrite (buf data : List α) (pos : Nat) (hlt : i < data.length)
    (hin : pos + i < buf.length) :
    (overwrite buf pos data)[pos + i]? = data[i]? := by
  induction data generalizing buf pos i with
  | nil => simp at hlt
  | cons x xs ih =>
    cases i with
    | zero =>
      rw [overwrite, getElem?_overwrite_lt (by omega)]
      simp [show pos < buf.length by omega]
    | succ i =>
      have h := ih (buf.set pos x) (pos + 1) (i := i) (by simpa using hlt) (by simp; omega)
      simpa [overwrite, Nat.add_assoc, Nat.add_comm 1 i] using h

theorem take_overwrite_zero (buf data : List α) (h : data.length ≤ buf.length) :
    (overwrite buf 0 data).take data.length = data := by
  apply List.ext_getElem?
  intro i
  by_cases hi : i < data.length
  · have h1 := getElem?_overwrite buf data 0 hi (by omega)
    simpa [hi] using h1
  · simp only [List.getElem?_eq_none (Nat.le_of_not_lt hi), List.getElem?_take, if_neg hi]

theorem getElem?_overwrite_zero (buf data : List α) (i : Nat) :
    (overwrite buf 0 data)[i]? = if i < data.length ∧ i < buf.length then data[i]?
      else buf[i]? := by
  split
  · rename_i h
    have hread := getElem?_overwrite buf data 0 h.1 (by omega)
    rwa [Nat.zero_add] at hread
  · rename_i h
    by_cases hi : i < data.length
    · have hlen : buf.length ≤ i := by omega
      rw [List.getElem?_eq_none hlen, List.getElem?_eq_none (by rwa [length_overwrite])]
    · exact getElem?_overwrite_ge (by omega)

theorem drop_overwrite_zero (buf data : List α) (k : Nat) :
    (overwrite buf 0 data).drop k = overwrite (buf.drop k) 0 (data.drop k) := by
  apply List.ext_getElem?
  intro i
  rw [List.getElem?_drop, getElem?_overwrite_zero, getElem?_overwrite_zero, List.getElem?_drop,
    List.getElem?_drop, List.length_drop, List.length_drop]
  have hiff : k + i < data.length ∧ k + i < buf.length ↔ i < data.length - k ∧
    i < buf.length - k := by omega
  simp only [hiff]

theorem take_overwrite (buf data : List α) (k : Nat) :
    (overwrite buf 0 data).take k = overwrite (buf.take k) 0 data := by
  apply List.ext_getElem?
  intro i
  rw [List.getElem?_take, getElem?_overwrite_zero, getElem?_overwrite_zero, List.getElem?_take,
    List.length_take]
  by_cases hi : i < k
  · have hiff : i < min k buf.length ↔ i < buf.length := by omega
    simp only [if_pos hi, hiff]
  · rw [if_neg hi, if_neg fun h => hi (by omega), if_neg hi]

theorem overwrite_prefix {buf data : List α} (h : data <+: buf) : overwrite buf 0 data = buf := by
  apply List.ext_getElem?
  intro i
  rw [getElem?_overwrite_zero]
  split
  · rename_i hi
    obtain ⟨rest, rfl⟩ := h
    rw [List.getElem?_append_left hi.1]
  · rfl

-- ---------------------------------------------------------------------------
-- The window
-- ---------------------------------------------------------------------------

/-- Each of the last `buf.length` elements of the tape is in its cell. -/
def Holds (buf tape : List α) : Prop :=
  ∀ i, i < tape.length → tape.length ≤ i + buf.length → buf[i % buf.length]? = tape[i]?

theorem holds_nil : Holds buf [] := by
  intro i hi
  simp at hi

theorem Holds.push (h : Holds buf tape) (hpos : 0 < buf.length) :
    Holds (buf.set (tape.length % buf.length) x) (tape ++ [x]) := by
  intro i hi hw
  simp only [List.length_set, List.length_append, List.length_singleton] at hi hw ⊢
  by_cases he : i = tape.length
  · subst he
    simp [Nat.mod_lt _ hpos]
  · have hne := mod_ne (S := buf.length) (show i < tape.length by omega) (by omega)
    rw [List.getElem?_set_ne hne.symm, List.getElem?_append_left (by omega)]
    exact h i (by omega) (by omega)

theorem Holds.append (h : Holds buf tape) (data : List α)
    (hfit : tape.length % buf.length + data.length ≤ buf.length) :
    Holds (overwrite buf (tape.length % buf.length) data) (tape ++ data) := by
  induction data generalizing buf tape with
  | nil => simpa using h
  | cons x xs ih =>
    simp only [List.length_cons] at hfit
    have hpush := h.push (x := x) (by omega)
    rcases Nat.lt_or_ge (tape.length % buf.length + 1) buf.length with hlt | hge
    · have hcell := mod_add_of_lt hlt
      have h2 := ih hpush (by
        simp only [List.length_set, List.length_append, List.length_singleton]
        omega)
      simpa [overwrite, hcell] using h2
    · have hxs : xs = [] := List.eq_nil_of_length_eq_zero (by omega)
      subst hxs
      simpa [overwrite] using hpush

theorem Holds.slice (h : Holds buf tape) (hk : a + k ≤ tape.length)
    (hw : tape.length ≤ a + buf.length) (hfit : a % buf.length + k ≤ buf.length) :
    (buf.drop (a % buf.length)).take k = (tape.drop a).take k := by
  apply List.ext_getElem?
  intro i
  by_cases hi : i < k
  · have hcell : (a + i) % buf.length = a % buf.length + i := mod_add_of_lt (by omega)
    have hread := h (a + i) (by omega) (by omega)
    rw [hcell] at hread
    simpa [List.getElem?_take, hi] using hread
  · rw [List.getElem?_take, List.getElem?_take, if_neg hi, if_neg hi]

theorem Holds.unique {buf' : List α} (h : Holds buf tape) (h' : Holds buf' tape)
    (hlen : buf.length = buf'.length) (hfull : buf.length ≤ tape.length) : buf = buf' := by
  apply List.ext_getElem?
  intro i
  by_cases hi : i < buf.length
  · obtain ⟨p, -, hp, hw, hcell, -⟩ :=
      newest_position (S := buf.length) (by omega) (Nat.lt_of_lt_of_le hi hfull)
    have hread := h p hp hw
    have hread' := h' p hp (hlen ▸ hw)
    rw [hcell, Nat.mod_eq_of_lt hi] at hread
    rw [← hlen, hcell, Nat.mod_eq_of_lt hi] at hread'
    rw [hread, hread']
  · rw [List.getElem?_eq_none (by omega), List.getElem?_eq_none (by omega)]

/-- What is before the window can be any other tape that ends at the same cell. -/
theorem Holds.replace_front {front : List α} (front' : List α) (h : Holds buf (front ++ data))
    (hfull : buf.length ≤ data.length)
    (hcell : front'.length % buf.length = front.length % buf.length) :
    Holds buf (front' ++ data) := by
  intro i hi hw
  rw [List.length_append] at hi hw
  obtain ⟨j, rfl⟩ : ∃ j, i = front'.length + j := ⟨i - front'.length, by omega⟩
  have hread :=
    h (front.length + j) (by rw [List.length_append]; omega) (by rw [List.length_append]; omega)
  rw [List.getElem?_append_right (Nat.le_add_right ..), Nat.add_sub_cancel_left] at hread ⊢
  rw [← hread, Nat.add_mod_eq_add_mod_right j hcell]

/-- What a buffer holds, read from cell 0 on and once more up to `pos`, is a
tape that comes to its end at cell `pos`. -/
theorem holds_self (hpos : pos ≤ buf.length) : Holds buf (buf ++ buf.take pos) := by
  intro i hi hw
  simp only [List.length_append, List.length_take, Nat.min_eq_left hpos] at hi hw
  by_cases hlt : i < buf.length
  · rw [Nat.mod_eq_of_lt hlt, List.getElem?_append_left hlt]
  · rw [Nat.mod_eq_sub_mod (by omega), Nat.mod_eq_of_lt (by omega),
      List.getElem?_append_right (by omega), List.getElem?_take_of_lt (by omega)]

end Circular
