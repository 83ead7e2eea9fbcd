import FxIP.Objectlog.Eviction

/-!
# Rejected writes

What a write returns when the ring cannot hold the object, against the encoded
size computed without overflow. The documented result is the number of bytes
missing; the code subtracts the other way round, in 16 bits, and what it
subtracts may have wrapped before.
-/

namespace FxIP

variable {S n : Nat} {objs : List (List UInt8)} {log log' : Objectlog} {list : List ScatterObject}

/-- The contract of a write: it returns, and with something else than 0 exactly
if the object exceeds the ring; then nothing but the read pointer has changed,
and the result is the number of bytes missing. -/
def RejectsExactly (log : Objectlog) (list : List ScatterObject) : Prop :=
  (objectlogWriteScatteredObject log list).Ensures fun r =>
    (r.1 ≠ 0 ↔ log.ring.size < encodedLen log.ring.size log.ring.writePtr list.flatten.length) ∧
    (log.ring.size < encodedLen log.ring.size log.ring.writePtr list.flatten.length →
      r.1 = encodedLen log.ring.size log.ring.writePtr list.flatten.length - log.ring.size ∧
      ∃ p, r.2 = log.withReadPtr p)

theorem Stores.write_status (h : Stores S log objs) (hS : 2 ≤ S) (hlt : S < 65536)
    (hrej : ¬ IsRejected log list) (hstep : WriteStep log (list, n) log') : n = 0 := by
  obtain ⟨log₁, log₂, -, -, hresult⟩ :=
    (h.write_accepts_iff hS hlt (h.isRejected_iff.not.mp hrej)).mp hstep
  exact (Prod.mk.inj hresult).1.symm

theorem reservedLen_mod {w : Nat} (hn : n < 65536) :
    reservedLen S w n =
      if w + (n + DIV_ROUND_UP n MAX_FRAGMENT_LEN) % 65536 > S then
        ((n + DIV_ROUND_UP n MAX_FRAGMENT_LEN) % 65536 + 1) % 65536
      else (n + DIV_ROUND_UP n MAX_FRAGMENT_LEN) % 65536 := by
  have hfragments : u16 (DIV_ROUND_UP n MAX_FRAGMENT_LEN) = DIV_ROUND_UP n MAX_FRAGMENT_LEN := by
    unfold u16 DIV_ROUND_UP MAX_FRAGMENT_LEN
    omega
  have hadd : ∀ a b : Nat, u16 (a + b) = (a + b) % 65536 := fun a b => u16_ofNat (a + b)
  unfold reservedLen
  simp only [hfragments, hadd]
  rw [← hadd _ 1]
  rfl

/-- The result is the number of bytes missing exactly if that is the same
modulo 65536 with the other sign, and nothing wrapped before. -/
theorem missing_iff {w D : Nat} (hlt : S < 65536) (hrej : S < reservedLen S w (D % 65536)) :
    S < encodedLen S w D ∧
      (u16 (S - reservedLen S w (D % 65536)) = encodedLen S w D - S ↔
        encodedLen S w D = S + 32768 ∧ encodedLen S w D < 65536) := by
  by_cases hfits : encodedLen S w D < 65536
  · have hD : D % 65536 = D := Nat.mod_eq_of_lt (by unfold encodedLen at hfits; omega)
    rw [hD, reservedLen_eq hfits] at hrej ⊢
    refine ⟨hrej, ?_⟩
    unfold u16
    omega
  · refine ⟨by omega, iff_of_false ?_ fun h => hfits h.2⟩
    rw [reservedLen_mod (Nat.mod_lt _ (by decide))] at hrej ⊢
    -- the bytes beyond 65535 have fragments of their own
    have hfragments : DIV_ROUND_UP (D % 65536) MAX_FRAGMENT_LEN + 516 * (D / 65536) ≤
        DIV_ROUND_UP D MAX_FRAGMENT_LEN := by
      unfold DIV_ROUND_UP MAX_FRAGMENT_LEN
      omega
    have hfew : D % 65536 = D → DIV_ROUND_UP (D % 65536) MAX_FRAGMENT_LEN =
        DIV_ROUND_UP D MAX_FRAGMENT_LEN :=
      congrArg (DIV_ROUND_UP · MAX_FRAGMENT_LEN)
    unfold encodedLen at hfits ⊢
    generalize DIV_ROUND_UP D MAX_FRAGMENT_LEN = fragments at *
    generalize DIV_ROUND_UP (D % 65536) MAX_FRAGMENT_LEN = fragments' at *
    unfold u16
    by_cases hwrap : w + (D + fragments) > S <;>
      by_cases hwrap' : w + (D % 65536 + fragments') % 65536 > S <;>
      simp only [hwrap, hwrap', ↓reduceIte] at hrej hfits ⊢ <;> omega

theorem Stores.rejectsExactly_iff (h : Stores S log objs) (hS : 2 ≤ S) (hlt : S < 65536)
    (hlist : IsScatterList list) :
    RejectsExactly log list ↔
      encodedLen S log.ring.writePtr list.flatten.length ≤ S ∨
        encodedLen S log.ring.writePtr list.flatten.length = S + 32768 ∧
          encodedLen S log.ring.writePtr list.flatten.length < 65536 := by
  have hscatter : scatterLen 0 list = list.flatten.length % 65536 := by
    rw [scatterLen_eq (fun e he => (hlist e he).1) (by decide), Nat.zero_add]
  unfold RejectsExactly
  rw [h.size]
  by_cases hrej : IsRejected log list
  · have hrej' := hrej
    rw [h.isRejected_iff, hscatter] at hrej'
    obtain ⟨hlarge, hmissing⟩ := missing_iff hlt hrej'
    obtain ⟨r, hret⟩ := h.write_rejected hS hlt (hscatter ▸ hrej')
    obtain ⟨r', status, hstatus, hret'⟩ := h.rejected_step hS hlt hrej
    rw [hscatter] at hret
    have hne := (Prod.mk.inj (hret'.unique hret)).1 ▸ hstatus
    rw [← hmissing]
    constructor
    · intro hex
      exact .inr ((hex.of_returns hret).2 hlarge).1
    · intro hor
      have heq := hor.resolve_left (by omega)
      exact hret.ensures ⟨iff_of_true hne hlarge, fun _ => ⟨heq, r, rfl⟩⟩
  · have hsmall : ¬ (S < encodedLen S log.ring.writePtr list.flatten.length ∧
        encodedLen S log.ring.writePtr list.flatten.length < 65536) := by
      rintro ⟨hlarge, hfits⟩
      have hD : list.flatten.length % 65536 = list.flatten.length :=
        Nat.mod_eq_of_lt (by unfold encodedLen at hfits; omega)
      rw [h.isRejected_iff, hscatter, hD, reservedLen_eq hfits] at hrej
      exact hrej hlarge
    constructor
    · rintro ⟨⟨status, log'⟩, hret, hiff, -⟩
      obtain rfl := h.write_status hS hlt hrej hret
      exact .inl (Nat.le_of_not_lt fun hlarge => hiff.mpr hlarge rfl)
    · intro hor
      have hle : encodedLen S log.ring.writePtr list.flatten.length ≤ S := by omega
      obtain ⟨⟨status, log'⟩, hret, -⟩ := h.write_sound hS hlt hlist hrej
        (by unfold encodedLen at hle; omega)
      obtain rfl := h.write_status hS hlt hrej hret
      exact hret.ensures ⟨iff_of_false (fun hne => hne rfl) (by omega), fun hlarge =>
        absurd hle (by omega)⟩

/-- A write meets its contract exactly if the object fits, or 32768 bytes are
missing and no length wraps around. In a ring of one cell it never returns. -/
theorem rejection_iff (h : Stores S log objs) (hpos : 0 < S) (hlt : S < 65536)
    (hlist : IsScatterList list) :
    RejectsExactly log list ↔ 2 ≤ S ∧
      (encodedLen S log.ring.writePtr list.flatten.length ≤ S ∨
        encodedLen S log.ring.writePtr list.flatten.length = S + 32768 ∧
          encodedLen S log.ring.writePtr list.flatten.length < 65536) := by
  by_cases hS : 2 ≤ S
  · rw [h.rejectsExactly_iff hS hlt hlist, and_iff_right hS]
  · obtain rfl : S = 1 := by omega
    refine iff_of_false ?_ fun hand => hS hand.1
    rintro ⟨r, hret, -⟩
    cases h with
    | fresh hf => exact hf.write_diverges _ hret
    | holding hsize hh => exact absurd hh.two_le (by omega)

theorem rejection_iff_eight :
    RejectsExactly (objectlogInit (List.replicate 8 0) 8) [[1, 2, 3, 4, 5, 6], [7]] ↔ 2 ≤ 8 ∧
      (encodedLen 8 0 7 ≤ 8 ∨ encodedLen 8 0 7 = 8 + 32768 ∧ encodedLen 8 0 7 < 65536) :=
  rejection_iff (keeps_init 8).stores (by decide) (by decide) (by simp [IsScatterList])

/-- Two bytes are missing, and the result is 65534. -/
theorem rejection_underflows :
    (objectlogWriteObject (objectlogInit (List.replicate 8 0) 8) [1, 2, 3, 4, 5, 6, 7, 8]).Returns
        (65534, objectlogInit (List.replicate 8 0) 8) ∧
      ¬ RejectsExactly (objectlogInit (List.replicate 8 0) 8) [[1, 2, 3, 4, 5, 6, 7, 8]] := by
  have hret : (objectlogWriteScatteredObject (objectlogInit (List.replicate 8 0) 8)
      [[1, 2, 3, 4, 5, 6, 7, 8]]).Returns (65534, objectlogInit (List.replicate 8 0) 8) := ⟨12, rfl⟩
  refine ⟨hret, fun h => ?_⟩
  exact absurd ((h.of_returns hret).2 (by decide)).1 (by decide)

end FxIP
