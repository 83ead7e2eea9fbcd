import FxIP.Objectlog

/-!
# The layout of a stored object

`Encodes S w data enc`: written at position `w` of the tape of a ring of `S`
cells, the object `data` is the bytes `enc`. The relation is the intent of the
copy loop: every fragment is as long as the data, `MAX_FRAGMENT_LEN` and the
end of the storage allow.
-/

namespace FxIP

open Circular

-- ---------------------------------------------------------------------------
-- Header bytes
-- ---------------------------------------------------------------------------

theorem fragmentHdr_decode : ∀ n : Fin 128, ∀ final : Bool,
    FRAGMENT_LEN (fragmentHdr n final).toNat = n ∧
      ((fragmentHdr n final).toNat &&& FRAGMENT_FINAL = 0 ↔ final = false) := by
  decide +kernel

theorem fragmentLen_hdr {n : Nat} {final : Bool} (hn : n ≤ MAX_FRAGMENT_LEN) :
    FRAGMENT_LEN (fragmentHdr n final).toNat = n :=
  (fragmentHdr_decode ⟨n, Nat.lt_succ_of_le hn⟩ final).1

theorem fragmentFinal_hdr {n : Nat} {final : Bool} (hn : n ≤ MAX_FRAGMENT_LEN) :
    (fragmentHdr n final).toNat &&& FRAGMENT_FINAL = 0 ↔ final = false :=
  (fragmentHdr_decode ⟨n, Nat.lt_succ_of_le hn⟩ final).2

-- ---------------------------------------------------------------------------
-- Fragments
-- ---------------------------------------------------------------------------

/-- The most data bytes a fragment with its header at position `w` can hold. -/
def fragmentRoom (S w : Nat) : Nat := min MAX_FRAGMENT_LEN (S - w % S - 1)

inductive Encodes (S : Nat) : Nat → List UInt8 → List UInt8 → Prop
  | last {w data} : data.length ≤ fragmentRoom S w →
      Encodes S w data (fragmentHdr data.length true :: data)
  | more {w data rest} : fragmentRoom S w < data.length →
      Encodes S (w + 1 + fragmentRoom S w) (data.drop (fragmentRoom S w)) rest →
      Encodes S w data
        (fragmentHdr (fragmentRoom S w) false :: (data.take (fragmentRoom S w) ++ rest))

variable {S w : Nat} {data enc enc' : List UInt8}

theorem fragmentRoom_le : fragmentRoom S w ≤ MAX_FRAGMENT_LEN := Nat.min_le_left ..

theorem fragmentRoom_mod : fragmentRoom S (w % S) = fragmentRoom S w := by
  unfold fragmentRoom
  rw [Nat.mod_mod]

theorem fragmentRoom_fits (hS : 0 < S) : w % S + 1 + fragmentRoom S w ≤ S := by
  have := Nat.mod_lt w hS
  unfold fragmentRoom
  omega

/-- Only a header in the last cell has no room, and the next is in the first. -/
theorem fragmentRoom_next (hS : 2 ≤ S) (h : fragmentRoom S w = 0) : 0 < fragmentRoom S (w + 1) := by
  have hlt := Nat.mod_lt w (show 0 < S by omega)
  unfold fragmentRoom MAX_FRAGMENT_LEN at h ⊢
  have hend : (w + 1) % S = 0 := mod_add_of_eq (by omega)
  omega

/-- The rounds left before `n` bytes at `w` are written. -/
def roundsLeft (S w n : Nat) : Nat := 2 * n + if fragmentRoom S w = 0 then 1 else 0

theorem roundsLeft_lt (hS : 2 ≤ S) {n : Nat} (hn : fragmentRoom S w < n) :
    roundsLeft S (w + 1 + fragmentRoom S w) (n - fragmentRoom S w) < roundsLeft S w n := by
  unfold roundsLeft
  by_cases h0 : fragmentRoom S w = 0
  · have := fragmentRoom_next hS h0
    rw [h0, if_pos rfl, if_neg (by simp; omega)]
    omega
  · rw [if_neg h0]
    split <;> omega

theorem encodes_exists (hS : 2 ≤ S) (w : Nat) (data : List UInt8) :
    ∃ enc, Encodes S w data enc := by
  induction hn : roundsLeft S w data.length using Nat.strongRecOn generalizing w data with
  | _ n ih =>
    by_cases hfit : data.length ≤ fragmentRoom S w
    · exact ⟨_, .last hfit⟩
    · have hlt := roundsLeft_lt hS (w := w) (n := data.length) (by omega)
      obtain ⟨rest, hrest⟩ := ih _ (by simpa [hn] using hlt) (w + 1 + fragmentRoom S w)
        (data.drop (fragmentRoom S w)) (by rw [List.length_drop])
      exact ⟨_, .more (by omega) hrest⟩

theorem Encodes.unique (h : Encodes S w data enc) (h' : Encodes S w data enc') : enc = enc' := by
  induction h generalizing enc' with
  | last hfit =>
    cases h' with
    | last _ => rfl
    | more hlt _ => omega
  | more hlt _ ih =>
    cases h' with
    | last hfit => omega
    | more _ hrest => rw [ih hrest]

theorem Encodes.length_pos (h : Encodes S w data enc) : 0 < enc.length := by
  cases h <;> simp

theorem Encodes.data_lt (h : Encodes S w data enc) : data.length < enc.length := by
  induction h with
  | last _ => simp
  | more hlt _ ih =>
    simp only [List.length_drop, List.length_cons, List.length_append, List.length_take] at ih ⊢
    omega

-- ---------------------------------------------------------------------------
-- The size of the encoding
-- ---------------------------------------------------------------------------

/-- The space an object of `dataLen` bytes needs from `logEnd` on: a header
for each fragment, and an extra one if the object wraps. -/
def encodedLen (S logEnd dataLen : Nat) : Nat :=
  dataLen + DIV_ROUND_UP dataLen MAX_FRAGMENT_LEN +
    if logEnd + (dataLen + DIV_ROUND_UP dataLen MAX_FRAGMENT_LEN) > S then 1 else 0

theorem encodedLen_le (S e n : Nat) :
    encodedLen S e n ≤ n + DIV_ROUND_UP n MAX_FRAGMENT_LEN + 1 := by
  unfold encodedLen
  split <;> omega

theorem Encodes.length_inside (hS : 0 < S) (h : Encodes S w data enc) (hne : data ≠ [])
    (hin : w % S + (data.length + DIV_ROUND_UP data.length MAX_FRAGMENT_LEN) ≤ S) :
    enc.length = data.length + DIV_ROUND_UP data.length MAX_FRAGMENT_LEN := by
  induction h with
  | @last w data hfit =>
    have hpos := List.length_pos_iff.mpr hne
    have hle := fragmentRoom_le (S := S) (w := w)
    unfold DIV_ROUND_UP MAX_FRAGMENT_LEN at *
    simp only [List.length_cons]
    omega
  | @more w data rest hlt _ ih =>
    have hmod := Nat.mod_lt w hS
    have hroom : fragmentRoom S w = MAX_FRAGMENT_LEN := by
      unfold fragmentRoom DIV_ROUND_UP MAX_FRAGMENT_LEN at *
      omega
    rw [hroom] at hlt ih ⊢
    have hnext : (w + 1 + MAX_FRAGMENT_LEN) % S = w % S + 1 + MAX_FRAGMENT_LEN := by
      rw [Nat.add_assoc, Nat.add_assoc]
      apply mod_add_of_lt
      unfold DIV_ROUND_UP MAX_FRAGMENT_LEN at *
      omega
    have hdrop := ih (by simpa using hlt) (by
      rw [hnext]
      simp only [List.length_drop]
      unfold DIV_ROUND_UP MAX_FRAGMENT_LEN at *
      omega)
    simp only [List.length_cons, List.length_append, List.length_take, hdrop, List.length_drop]
    unfold DIV_ROUND_UP MAX_FRAGMENT_LEN at *
    omega

theorem Encodes.length_le (hS : 0 < S) (h : Encodes S w data enc) (hne : data ≠ [])
    (htotal : data.length + DIV_ROUND_UP data.length MAX_FRAGMENT_LEN ≤ S) :
    enc.length ≤ encodedLen S (w % S) data.length := by
  by_cases hin : w % S + (data.length + DIV_ROUND_UP data.length MAX_FRAGMENT_LEN) ≤ S
  · rw [h.length_inside hS hne hin, encodedLen, if_neg (by omega)]
    exact Nat.le_refl _
  · rw [encodedLen, if_pos (by omega)]
    clear hin
    induction h with
    | @last w data hfit =>
      simp only [List.length_cons]
      omega
    | @more w data rest hlt hrest ih =>
      have hmod := Nat.mod_lt w hS
      have hdrop : data.drop (fragmentRoom S w) ≠ [] := by
        simpa using hlt
      by_cases hend : w % S + 1 + fragmentRoom S w = S
      · -- the rest starts at cell 0 and ends before the end of the storage
        have hnext : (w + 1 + fragmentRoom S w) % S = 0 := by
          rw [Nat.add_assoc]
          exact mod_add_of_eq (by omega)
        have hlen := hrest.length_inside hS hdrop (by
          rw [hnext]
          simp only [List.length_drop]
          unfold DIV_ROUND_UP MAX_FRAGMENT_LEN at *
          omega)
        simp only [List.length_cons, List.length_append, List.length_take, hlen, List.length_drop]
        unfold DIV_ROUND_UP MAX_FRAGMENT_LEN at *
        omega
      · have hroom : fragmentRoom S w = MAX_FRAGMENT_LEN := by
          unfold fragmentRoom at *
          omega
        have hlen := ih hdrop (by
          simp only [List.length_drop]
          unfold DIV_ROUND_UP MAX_FRAGMENT_LEN at *
          omega)
        simp only [List.length_cons, List.length_append, List.length_take, List.length_drop]
          at hlen ⊢
        rw [hroom] at hlt hlen ⊢
        unfold DIV_ROUND_UP MAX_FRAGMENT_LEN at *
        omega

end FxIP
