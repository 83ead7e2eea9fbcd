import Mathlib.Algebra.BigOperators.Group.List.Basic
import Mathlib.Algebra.Ring.Int.Defs

/-!
# A pen that wraps

Items of given widths are placed one after the other, at a pen that is kept
modulo `M`, until the pen is beyond `L`. What is placed is exact unless the
items get beyond `L`, with more to follow, and the pen does not.
-/

universe u

namespace Pen

variable {α : Type u} (width : α → Int) (M L : Nat)

def total (as : List α) : Int := (as.map width).sum

/-- The items placed, each with its place, and where the pen is left. -/
def place : Nat → List α → List (Nat × α) × Nat
  | x, [] => ([], x)
  | x, a :: as =>
    let next := ((x + width a) % M).toNat
    if next > L then ([(x, a)], next)
    else
      let (placed, last) := place next as
      ((x, a) :: placed, last)

/-- Behind `z`, every item is placed at the total width of those before it,
and none of them after more than `L`. -/
def Exact (z : Int) (placed : List (Nat × α)) : Prop :=
  ∀ (before : List (Nat × α)) (x : Nat) (a : α) (after : List (Nat × α)),
    placed = before ++ (x, a) :: after →
    (x : Int) = z + total width (before.map Prod.snd) ∧ z + total width (before.map Prod.snd) ≤ L

/-- Behind `z`, the first width beyond `L` with more to follow is also beyond
it for the pen. -/
def Caught (z : Int) (as : List α) : Prop :=
  ∀ i < as.length, L < z + total width (as.take i) → (∀ j < i, z + total width (as.take j) ≤ L) →
    L < (z + total width (as.take i)) % M

variable {width M L} {z : Int} {x : Nat} {a : α} {as bs : List α} {placed : List (Nat × α)}

@[simp] theorem total_nil : total width [] = 0 := rfl

@[simp] theorem total_cons : total width (a :: as) = width a + total width as := by
  simp [total]

@[simp] theorem total_append : total width (as ++ bs) = total width as + total width bs := by
  simp [total]

-- ---------------------------------------------------------------------------
-- What is placed
-- ---------------------------------------------------------------------------

theorem place_isPrefix (x : Nat) (as : List α) : (place width M L x as).1.map Prod.snd <+: as := by
  induction as generalizing x with
  | nil => exact List.prefix_rfl
  | cons a as ih =>
    rw [place]
    split
    · exact ⟨as, rfl⟩
    · exact (List.prefix_cons_inj a).mpr (ih _)

theorem emod_le_self {n : Int} (hn : 0 ≤ n) : n % M ≤ n := by
  obtain ⟨k, rfl⟩ := Int.eq_ofNat_of_zero_le hn
  exact Int.ofNat_le.mpr (Nat.mod_le k M)

theorem place_complete (hwidth : ∀ a, 0 ≤ width a) (hM : 0 < M) (x : Nat) (as : List α) :
    (place width M L x as).1.map Prod.snd = as ∨
      L < x + total width ((place width M L x as).1.map Prod.snd) := by
  induction as generalizing x with
  | nil => exact .inl rfl
  | cons a as ih =>
    have hle : (x + width a) % M ≤ x + width a :=
      emod_le_self (Int.add_nonneg (Int.natCast_nonneg x) (hwidth a))
    have hpos : 0 ≤ (x + width a) % M := Int.emod_nonneg _ (by omega)
    rw [place]
    split
    · next hstop =>
      right
      simp only [List.map_cons, List.map_nil, total_cons, total_nil]
      omega
    · simp only [List.map_cons, total_cons]
      rcases ih ((x + width a) % M).toNat with hall | hwide
      · exact .inl (by rw [hall])
      · right
        omega

-- ---------------------------------------------------------------------------
-- Where it is placed
-- ---------------------------------------------------------------------------

theorem exact_nil : Exact width L z [] := by
  intro before x a after h
  simp at h

theorem exact_cons :
    Exact width L z ((x, a) :: placed) ↔ ((x : Int) = z ∧ z ≤ L) ∧
      Exact width L (z + width a) placed := by
  constructor
  · intro h
    refine ⟨by simpa using h [] x a placed rfl, fun before y b after hsplit => ?_⟩
    have hnext := h ((x, a) :: before) y b after (by rw [hsplit]; rfl)
    simpa [Int.add_assoc] using hnext
  · rintro ⟨hfirst, hrest⟩ before y b after hsplit
    cases before with
    | nil =>
      obtain ⟨h, -⟩ := List.cons.inj hsplit
      obtain ⟨rfl, rfl⟩ := Prod.mk.inj h
      simpa using hfirst
    | cons c before =>
      obtain ⟨rfl, htail⟩ := List.cons.inj hsplit
      simpa [Int.add_assoc] using hrest before y b after htail

theorem caught_cons (hz : z ≤ L) :
    Caught width M L z (a :: as) ↔ Caught width M L (z + width a) as := by
  have htake : ∀ i, z + total width ((a :: as).take (i + 1)) =
      z + width a + total width (as.take i) := by
    intro i
    rw [List.take_succ_cons, total_cons, Int.add_assoc]
  constructor
  · intro h i hi hwide hbefore
    have hcaught := h (i + 1) (by simpa using hi) (by rwa [htake]) (fun j hj => ?_)
    · rwa [htake] at hcaught
    · cases j with
      | zero => simpa using hz
      | succ j =>
        rw [htake]
        exact hbefore j (by omega)
  · intro h i hi hwide hbefore
    cases i with
    | zero =>
      simp only [List.take_zero, total_nil] at hwide
      omega
    | succ i =>
      rw [htake] at hwide ⊢
      exact h i (by simpa using hi) hwide fun j hj => by
        rw [← htake]
        exact hbefore (j + 1) (by omega)

theorem caught_first (hz : z ≤ L) (ha : L < z + width a) :
    Caught width M L z (a :: as) ↔ as = [] ∨ L < (z + width a) % M := by
  constructor
  · intro h
    cases as with
    | nil => exact .inl rfl
    | cons b bs =>
      have hone := h 1 (by simp) (by simpa using ha) fun j hj => by
        obtain rfl : j = 0 := by omega
        simpa using hz
      exact .inr (by simpa using hone)
  · intro h i hi hwide hbefore
    match i with
    | 0 =>
      simp only [List.take_zero, total_nil] at hwide
      omega
    | 1 =>
      rcases h with rfl | h
      · simp at hi
      · simpa using h
    | i + 2 =>
      have hfirst := hbefore 1 (by omega)
      simp only [List.take_succ_cons, List.take_zero, total_cons, total_nil] at hfirst
      omega

theorem place_exact_iff (hwidth : ∀ a, 0 ≤ width a) (hL : L < M) (hz : (x : Int) = z)
    (hle : z ≤ L) :
    Exact width L z (place width M L x as).1 ↔ Caught width M L z as := by
  induction as generalizing x z with
  | nil => exact iff_of_true exact_nil fun i hi => absurd hi (Nat.not_lt_zero i)
  | cons a as ih =>
    have ha := hwidth a
    rw [place, hz]
    by_cases hin : z + width a ≤ L
    · -- the pen is still exact
      have hpen : (z + width a) % M = z + width a := Int.emod_eq_of_lt (by omega) (by omega)
      have hnext : (((z + width a) % M).toNat : Int) = z + width a := by omega
      rw [if_neg (by omega), exact_cons, caught_cons hle, ← ih hnext hin]
      exact and_iff_right ⟨hz, hle⟩
    · have hpos : 0 ≤ (z + width a) % M := Int.emod_nonneg _ (by omega)
      rw [caught_first hle (by omega)]
      split
      · next hstop =>
        exact iff_of_true (exact_cons.mpr ⟨⟨hz, hle⟩, exact_nil⟩) (.inr (by omega))
      · next hgo =>
        rw [exact_cons, and_iff_right ⟨hz, hle⟩]
        cases as with
        | nil => exact iff_of_true exact_nil (.inl rfl)
        | cons b bs =>
          refine iff_of_false (fun h => ?_) (by simp; omega)
          rw [place] at h
          split at h
          · exact hin (exact_cons.mp h).1.2
          · exact hin (exact_cons.mp h).1.2

end Pen
