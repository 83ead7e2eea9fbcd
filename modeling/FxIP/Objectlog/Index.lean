import FxIP.Objectlog.Eviction

/-!
# Indices of the iterator

Where the objects of a log start, and which index `objectlog_iterator` finds
them under. A negative index counts from the newest object, but the count is
compared so that the oldest one is not found.
-/

namespace FxIP

open Circular

variable {S w w' i p q : Nat} {objs : List (List UInt8)} {log : Objectlog}
variable {data enc bytes : List UInt8}

-- ---------------------------------------------------------------------------
-- Positions with the same cell
-- ---------------------------------------------------------------------------

theorem fragmentRoom_congr (h : w % S = w' % S) : fragmentRoom S w = fragmentRoom S w' := by
  unfold fragmentRoom
  rw [h]

theorem Encodes.congr (henc : Encodes S w data enc) (h : w % S = w' % S) :
    Encodes S w' data enc := by
  induction henc generalizing w' with
  | last hfit => exact .last (fragmentRoom_congr h ▸ hfit)
  | @more w data rest hlt _ ih =>
    have hroom := fragmentRoom_congr h
    have hrest : Encodes S (w' + 1 + fragmentRoom S w') _ rest := ih (by
      rw [hroom]
      simp only [Nat.add_assoc]
      exact Nat.add_mod_eq_add_mod_right _ h)
    rw [hroom] at hlt hrest ⊢
    exact .more hlt hrest

theorem EncodesAll.congr (hall : EncodesAll S w objs bytes) (h : w % S = w' % S) :
    EncodesAll S w' objs bytes := by
  induction hall generalizing w' with
  | nil => exact .nil
  | cons hne henc _ ih => exact .cons hne (henc.congr h) (ih (Nat.add_mod_eq_add_mod_right _ h))

-- ---------------------------------------------------------------------------
-- Where objects start
-- ---------------------------------------------------------------------------

/-- The `i`-th oldest object starts at cell `p`, where the objects before it,
end to end from `ptr_first` on, come to their end. -/
structure StartsAt (log : Objectlog) (objs : List (List UInt8)) (i p : Nat) : Prop where
  place : ∃ bytes, EncodesAll log.ring.size log.ptrFirst (objs.take i) bytes ∧
    p = (log.ptrFirst + bytes.length) % log.ring.size
  stored : ∃ obj, objs[i]? = some obj ∧ StoredAt log.ring p obj

theorem StartsAt.unique (h : StartsAt log objs i p) (h' : StartsAt log objs i q) : p = q := by
  obtain ⟨bytes, hall, hp⟩ := h.place
  obtain ⟨bytes', hall', hq⟩ := h'.place
  rw [hp, hq, hall.unique hall']

theorem Stores.startsAt (h : Stores S log objs) (hi : i < objs.length) :
    ∃ p r, StartsAt log objs i p ∧ (skipEntries i log.ptrFirst log).Returns
      (p, log.withReadPtr r) := by
  have hobj := List.getElem?_eq_getElem hi
  cases h with
  | fresh _ => simp at hi
  | @holding objs newest old front enc hS hh =>
    obtain ⟨b₁, b₂, r, -, hbefore, hret, hstored⟩ := hh.skipEntries
      (show _ = (objs ++ [newest]).take i ++ _ :: (objs ++ [newest]).drop (i + 1) by
        rw [← List.drop_eq_getElem_cons hi, List.take_append_drop])
    rw [List.length_take_of_le (Nat.le_of_lt hi)] at hret
    refine ⟨_, r, ⟨⟨b₁, hbefore.congr ?_, ?_⟩, _, hobj, hstored.storedAt⟩, hret⟩
    · rw [hh.first, Nat.mod_mod]
    · rw [hh.first, Nat.mod_add_mod]

theorem EncodesAll.take_length_lt {j : Nat} (hij : i < j) (hj : j ≤ objs.length)
    {bᵢ bⱼ : List UInt8}
    (hᵢ : EncodesAll S w (objs.take i) bᵢ) (hⱼ : EncodesAll S w (objs.take j) bⱼ) :
    bᵢ.length < bⱼ.length := by
  have hsplit : objs.take j = objs.take i ++ (objs.take j).drop i := by
    conv => lhs; rw [← List.take_append_drop i (objs.take j)]
    rw [List.take_take, Nat.min_eq_left (Nat.le_of_lt hij)]
  rw [hsplit] at hⱼ
  obtain ⟨b, c, rfl, hb, hc⟩ := hⱼ.split
  obtain rfl := hb.unique hᵢ
  have hle := hc.length_le
  simp only [List.length_drop, List.length_take, List.length_append] at hle ⊢
  omega

theorem Stores.startsAt_inj (h : Stores S log objs) {j : Nat} (hᵢ : StartsAt log objs i p)
    (hⱼ : StartsAt log objs j p) : i = j := by
  have hlt : ∀ {i j : Nat}, StartsAt log objs i p → StartsAt log objs j p → ¬ i < j := by
    intro i j hᵢ hⱼ hij
    obtain ⟨bᵢ, hallᵢ, hpᵢ⟩ := hᵢ.place
    obtain ⟨bⱼ, hallⱼ, hpⱼ⟩ := hⱼ.place
    obtain ⟨_, hobj, -⟩ := hⱼ.stored
    have hj := (List.getElem?_eq_some_iff.mp hobj).1
    cases h with
    | fresh _ => simp at hj
    | @holding objs newest old front enc hS hh =>
      have hall : EncodesAll log.ring.size log.ptrFirst (objs ++ [newest]) (front ++ enc) :=
        hh.all.congr (by rw [hh.first, Nat.mod_mod])
      have hwhole : EncodesAll log.ring.size log.ptrFirst
        ((objs ++ [newest]).take (objs ++ [newest]).length)
          (front ++ enc) := by rwa [List.take_length]
      have hbelow := EncodesAll.take_length_lt hij (Nat.le_of_lt hj) hallᵢ hallⱼ
      have habove := EncodesAll.take_length_lt hj (Nat.le_refl _) hallⱼ hwhole
      have hwin := hh.window
      exact mod_ne (by omega) (by omega) (hpᵢ.symm.trans hpⱼ)
  have := hlt hᵢ hⱼ
  have := hlt hⱼ hᵢ
  omega

-- ---------------------------------------------------------------------------
-- The indices
-- ---------------------------------------------------------------------------

theorem Stores.iterator_startsAt (h : Stores S log objs) {objectIdx : Int} (hint : IsInt objectIdx)
    (hidx : resolveIdx objs.length objectIdx = some i) :
    ∃ p r, StartsAt log objs i p ∧
      (objectlogIterator log objectIdx).Returns ((p : Nat), log.withReadPtr r) := by
  obtain ⟨p, r, hstart, hret⟩ := h.startsAt (resolveIdx_lt hidx)
  refine ⟨p, r, hstart, ?_⟩
  rw [objectlogIterator_eq hint h.count_lt, h.count, hidx]
  simp only
  rw [hret.bind_iff, Comp.returns_pure]

/-- Both indices of the `i`-th oldest object find it exactly if it is not the
oldest; every index out of range finds nothing. -/
theorem iterator_indices_iff (h : Stores S log objs) :
    (∀ i < log.numEntries,
      ((∃ p log₁ log₂, StartsAt log objs i p ∧ (objectlogIterator log i).Returns (p, log₁) ∧
          (objectlogIterator log ((i : Int) - log.numEntries)).Returns (p, log₂)) ↔ 0 < i)) ∧
      ∀ objectIdx, IsInt objectIdx → objectIdx < -(log.numEntries : Int) ∨
        log.numEntries ≤ objectIdx →
        ∃ log', (objectlogIterator log objectIdx).Returns (-1, log') := by
  have hcount := h.count
  have hlt := h.count_lt
  constructor
  · intro i hi
    have hint : IsInt ((i : Int) - log.numEntries) := by unfold IsInt; omega
    constructor
    · rintro ⟨p, -, log₂, -, -, hret⟩
      by_contra h0
      -- the index of the oldest object is taken for one out of range
      have hidx : resolveIdx objs.length ((i : Int) - log.numEntries) = none := by
        rw [resolveIdx, if_neg (by omega), if_neg (by omega)]
      have := congrArg Prod.fst ((h.iterator_none hint hidx).unique hret)
      simp only at this
      omega
    · intro hpos
      have hidx : resolveIdx objs.length ((i : Int) - log.numEntries) = some i := by
        rw [resolveIdx, if_neg (by omega), if_pos (by omega)]
        congr 1
        omega
      obtain ⟨p, r, hstart, hret⟩ := h.iterator_startsAt (by unfold IsInt; omega)
        (resolveIdx_natCast (hcount ▸ hi))
      obtain ⟨q, r', hstart', hret'⟩ := h.iterator_startsAt hint hidx
      obtain rfl := hstart.unique hstart'
      exact ⟨p, _, _, hstart, hret, hret'⟩
  · intro objectIdx hint hout
    refine ⟨log, h.iterator_none hint ?_⟩
    rw [resolveIdx, if_neg (by omega), if_neg (by omega)]

theorem stores_eight : Stores 8 logEight [[9], [4, 5]] := by
  obtain ⟨objs, hkeeps⟩ := run_keeps (by decide) run_eight (by simp [IsScatterList])
  have hlength : objs.length = 2 := hkeeps.stores.count.symm
  have hdrop := List.suffix_iff_eq_drop.mp hkeeps.suffix
  rw [hlength] at hdrop
  have hobjs : objs = [[9], [4, 5]] := hdrop.trans rfl
  exact hobjs ▸ hkeeps.stores

/-- The newer of two objects is found under 1 and -1, the older one not under -2. -/
theorem iterator_indices_iff_eight :
    (∃ p log₁ log₂, StartsAt logEight [[9], [4, 5]] 1 p ∧
      (objectlogIterator logEight 1).Returns (p, log₁) ∧
      (objectlogIterator logEight (-1)).Returns (p, log₂)) ∧
    (¬ ∃ p log₁ log₂, StartsAt logEight [[9], [4, 5]] 0 p ∧
      (objectlogIterator logEight 0).Returns (p, log₁) ∧
      (objectlogIterator logEight (-2)).Returns (p, log₂)) ∧
    ∃ log', (objectlogIterator logEight 2).Returns (-1, log') := by
  obtain ⟨hinside, houtside⟩ := iterator_indices_iff stores_eight
  refine ⟨(hinside 1 (by decide)).mpr (by decide), fun h => ?_, houtside 2 ⟨by decide, by decide⟩
    (by decide)⟩
  exact absurd ((hinside 0 (by decide)).mp h) (by decide)

/-- The only object of a log of eight cells is not found under -1. -/
theorem iterator_misses_oldest :
    ∃ log, (objectlogWriteObject (objectlogInit (List.replicate 8 0) 8) [7, 8, 9]).Returns
      (0, log) ∧
      log.numEntries = 1 ∧ (objectlogIterator log 0).Returns (0, log) ∧
      (objectlogIterator log (-1)).Returns (-1, log) :=
  ⟨⟨⟨[0x83, 7, 8, 9, 0, 0, 0, 0], 0, 4, 8⟩, 0, 0, 1⟩, ⟨12, rfl⟩, rfl, ⟨12, rfl⟩, ⟨12, rfl⟩⟩

end FxIP
