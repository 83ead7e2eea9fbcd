import Mathlib.Data.Nat.Init

/-!
# Ones' complement sums

Addition of words with the carry added back, as in the checksums of IP. The
greatest word is `m`; `fold m n` is the word that a sum `n` comes down to. It is
zero for the empty sum only, so a sum that `m` divides shows as `m`.
-/

namespace OnesComplement

variable {m a b n : Nat}

def fold (m n : Nat) : Nat := if n = 0 then 0 else (n - 1) % m + 1

@[simp] theorem fold_zero : fold m 0 = 0 := rfl

theorem fold_pos (hn : 0 < n) : fold m n = (n - 1) % m + 1 := if_neg (Nat.ne_of_gt hn)

theorem fold_eq_zero_iff : fold m n = 0 ↔ n = 0 := by
  rw [fold]
  split <;> omega

theorem fold_le (hm : 0 < m) : fold m n ≤ m := by
  rw [fold]
  split
  · exact Nat.zero_le m
  · exact Nat.mod_lt _ hm

theorem fold_of_le (hn : n ≤ m) : fold m n = n := by
  rw [fold]
  split
  · omega
  · rw [Nat.mod_eq_of_lt (by omega)]
    omega

theorem fold_add_mul (hn : 0 < n) (k : Nat) : fold m (n + m * k) = fold m n := by
  have hsub : n + m * k - 1 = (n - 1) + m * k := by omega
  rw [fold_pos hn, fold_pos (by omega), hsub, Nat.add_mul_mod_self_left]

theorem fold_fold_add : fold m (fold m a + b) = fold m (a + b) := by
  rcases Nat.eq_zero_or_pos a with rfl | ha
  · rw [fold_zero]
  · have hdiv := Nat.mod_add_div (a - 1) m
    have hsum : a + b = (fold m a + b) + m * ((a - 1) / m) := by
      rw [fold_pos ha]
      omega
    have hpos : 0 < fold m a + b := by
      rw [fold_pos ha]
      omega
    rw [hsum, fold_add_mul hpos]

theorem fold_add (ha : a ≤ m) (hb : b ≤ m) : fold m (a + b) = if a + b ≤ m then a + b
    else a + b - m := by
  split
  · rename_i h
    exact fold_of_le h
  · rename_i h
    have hsum : a + b = (a + b - m) + m * 1 := by omega
    rw [hsum, fold_add_mul (by omega), fold_of_le (by omega)]
    omega

theorem fold_eq_top_iff (hm : 0 < m) : fold m n = m ↔ 0 < n ∧ m ∣ n := by
  rcases Nat.eq_zero_or_pos n with rfl | hn
  · simp [Nat.ne_of_lt hm]
  · have hdiv := Nat.mod_add_div (n - 1) m
    have hlt := Nat.mod_lt (n - 1) hm
    rw [fold_pos hn]
    constructor
    · intro h
      refine ⟨hn, (n - 1) / m + 1, ?_⟩
      rw [Nat.mul_add, Nat.mul_one]
      omega
    · rintro ⟨_, k, rfl⟩
      obtain ⟨k, rfl⟩ : ∃ j, k = j + 1 := ⟨k - 1, by
        have := Nat.pos_of_ne_zero (n := k) (by rintro rfl; simp at hn)
        omega⟩
      have hsub : m * (k + 1) - 1 = (m - 1) + m * k := by
        rw [Nat.mul_add, Nat.mul_one]
        omega
      rw [hsub, Nat.add_mul_mod_self_left, Nat.mod_eq_of_lt (by omega)]
      omega

theorem fold_bottom_or_top_iff (hm : 0 < m) : fold m n = 0 ∨ fold m n = m ↔ m ∣ n := by
  rw [fold_eq_zero_iff, fold_eq_top_iff hm]
  constructor
  · rintro (rfl | ⟨_, h⟩)
    · exact Nat.dvd_zero m
    · exact h
  · intro h
    rcases Nat.eq_zero_or_pos n with rfl | hn
    · exact .inl rfl
    · exact .inr ⟨hn, h⟩

theorem fold_add_complement (hm : 0 < m) : fold m (n + (m - fold m n)) = m := by
  rw [Nat.add_comm, ← Nat.add_comm n, ← fold_fold_add, Nat.add_sub_cancel' (fold_le hm)]
  exact fold_of_le (Nat.le_refl m)

theorem dvd_add_complement (hm : 0 < m) (hc : fold m n = a ∨ fold m n = 0 ∧ a = m) :
    m ∣ n + (m - a) := by
  rcases hc with rfl | ⟨hn, rfl⟩
  · exact ((fold_eq_top_iff hm).mp (fold_add_complement hm)).2
  · obtain rfl := fold_eq_zero_iff.mp hn
    simp

-- ---------------------------------------------------------------------------
-- Bytes as words
-- ---------------------------------------------------------------------------

/-- The sum of the big-endian words; a last byte is the high byte of its word. -/
def sumWords : List UInt8 → Nat
  | [] => 0
  | [b] => b.toNat * 256
  | b :: b' :: rest => b.toNat * 256 + b'.toNat + sumWords rest

variable {l l' : List UInt8}

theorem sumWords_append (heven : 2 ∣ l.length) : sumWords (l ++ l') = sumWords l + sumWords l' := by
  induction l using sumWords.induct with
  | case1 => simp [sumWords]
  | case2 b =>
    rw [List.length_singleton] at heven
    omega
  | case3 b b' rest ih =>
    rw [List.length_cons, List.length_cons] at heven
    simp only [List.cons_append, sumWords, ih (by omega)]
    omega

theorem sumWords_eq_zero_iff : sumWords l = 0 ↔ ∀ b ∈ l, b = 0 := by
  have hbyte (b : UInt8) : b.toNat * 256 = 0 ↔ b = 0 := by
    rw [Nat.mul_eq_zero, or_iff_left (by decide), ← UInt8.toNat_inj]
    rfl
  induction l using sumWords.induct with
  | case1 => simp [sumWords]
  | case2 b => rw [sumWords, hbyte, List.forall_mem_singleton]
  | case3 b b' rest ih =>
    have hzero : b'.toNat = 0 ↔ b' = 0 := UInt8.toNat_inj (b := 0)
    simp only [sumWords, Nat.add_eq_zero_iff, hbyte, hzero, ih, List.forall_mem_cons, and_assoc]

end OnesComplement
