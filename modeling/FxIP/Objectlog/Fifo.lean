import FxIP.Objectlog.Read

/-!
# What a log stores

`EncodesAll` lays objects end to end on the tape. A log is `Holding` objects
when they are the end of its tape, all in the window, with the pointers at the
first and the newest of them; `Stores` adds the log nothing was written to.
The operations are specified on that: the walk goes from object to object,
eviction drops from the front, a write appends.
-/

namespace FxIP

open Circular

-- ---------------------------------------------------------------------------
-- Objects end to end
-- ---------------------------------------------------------------------------

inductive EncodesAll (S : Nat) : Nat → List (List UInt8) → List UInt8 → Prop
  | nil {w} : EncodesAll S w [] []
  | cons {w obj objs enc rest} : obj ≠ [] → Encodes S w obj enc →
      EncodesAll S (w + enc.length) objs rest → EncodesAll S w (obj :: objs) (enc ++ rest)

variable {S w : Nat} {objs objs' : List (List UInt8)} {obj newest : List UInt8}
variable {bytes bytes' tape pre post old front enc : List UInt8} {log : Objectlog}

theorem EncodesAll.append (h : EncodesAll S w objs bytes)
    (h' : EncodesAll S (w + bytes.length) objs' bytes') :
    EncodesAll S w (objs ++ objs') (bytes ++ bytes') := by
  induction h with
  | nil => simpa using h'
  | cons hne henc _ ih =>
    rw [List.cons_append, List.append_assoc]
    refine .cons hne henc (ih ?_)
    simpa [Nat.add_assoc] using h'

theorem EncodesAll.split (h : EncodesAll S w (objs ++ objs') bytes) :
    ∃ b₁ b₂, bytes = b₁ ++ b₂ ∧ EncodesAll S w objs b₁ ∧ EncodesAll S (w + b₁.length) objs' b₂ := by
  induction objs generalizing w bytes with
  | nil => exact ⟨[], bytes, rfl, .nil, by simpa using h⟩
  | cons obj objs ih =>
    rw [List.cons_append] at h
    cases h with
    | @cons _ _ _ enc rest hne henc hrest =>
      obtain ⟨b₁, b₂, rfl, h1, h2⟩ := ih hrest
      refine ⟨enc ++ b₁, b₂, by rw [List.append_assoc], .cons hne henc h1, ?_⟩
      rwa [List.length_append, ← Nat.add_assoc]

theorem EncodesAll.unique (h : EncodesAll S w objs bytes) (h' : EncodesAll S w objs bytes') :
    bytes = bytes' := by
  induction h generalizing bytes' with
  | nil =>
    cases h'
    rfl
  | cons _ henc _ ih =>
    cases h' with
    | cons _ henc' hrest' =>
      obtain rfl := henc.unique henc'
      rw [ih hrest']

theorem EncodesAll.length_le (h : EncodesAll S w objs bytes) : objs.length ≤ bytes.length := by
  induction h with
  | nil => simp
  | cons _ henc _ ih =>
    have := henc.length_pos
    simp only [List.length_cons, List.length_append]
    omega

theorem skipEntries_all (h : Follows log.ring tape) (hS : log.ring.size = S)
    (hall : EncodesAll S pre.length objs bytes) (htape : tape = pre ++ bytes ++ post)
    (hpost : post ≠ []) (hwin : tape.length ≤ pre.length + S) :
    ∃ r, (skipEntries objs.length (pre.length % S) log).Returns
      ((pre.length + bytes.length) % S, log.withReadPtr r) := by
  generalize hw : pre.length = w at hall
  induction hall generalizing pre log with
  | nil => exact ⟨log.ring.readPtr, by simp [skipEntries]⟩
  | @cons w obj objs enc rest hne henc hrest ih =>
    subst hw
    have hpos := List.length_pos_iff.mpr hpost
    have hlen := congrArg List.length htape
    simp only [List.length_append] at hlen
    have hstep := getNextEntry_entry h (hS ▸ henc)
      (show tape = pre ++ enc ++ (rest ++ post) by rw [htape]; simp) (hS ▸ hwin)
        (fun hfull => by omega)
    rw [hS] at hstep
    have hpre : (pre ++ enc).length = pre.length + enc.length := List.length_append
    obtain ⟨r, hr⟩ := ih (h.withReadPtr ((pre.length + enc.length) % S)) hS
      (show tape = (pre ++ enc) ++ rest ++ post by rw [htape]; simp) (by omega) hpre
    refine ⟨r, ?_⟩
    rw [List.length_cons, skipEntries, hstep.bind_iff, List.length_append, ← Nat.add_assoc, ← hpre]
    simpa using hr

-- ---------------------------------------------------------------------------
-- The log
-- ---------------------------------------------------------------------------

/-- A log whose storage holds `objs` and after them `newest`: the tape is
`old`, then the bytes `front` of the objects and `enc` of the newest. -/
structure Holding (log : Objectlog) (objs : List (List UInt8)) (newest old front enc : List UInt8) :
    Prop where
  follows : Follows log.ring (old ++ front ++ enc)
  two_le : 2 ≤ log.ring.size
  older : EncodesAll log.ring.size old.length objs front
  newest_ne : newest ≠ []
  newest : Encodes log.ring.size (old ++ front).length newest enc
  window : (front ++ enc).length ≤ log.ring.size
  first : log.ptrFirst = old.length % log.ring.size
  last : log.ptrLast = (old ++ front).length % log.ring.size
  count : log.numEntries = objs.length + 1

/-- The log as `objectlog_init` leaves it on zeroed storage; the walk of a
rejected write moves the read pointer. -/
def Fresh (S : Nat) (log : Objectlog) : Prop :=
  ∃ r, log = (objectlogInit (List.replicate S 0) S).withReadPtr r

/-- The log stores exactly `objs`, oldest first. -/
inductive Stores (S : Nat) (log : Objectlog) : List (List UInt8) → Prop
  | fresh : Fresh S log → Stores S log []
  | holding {objs : List (List UInt8)} {newest old front enc : List UInt8} : log.ring.size = S →
      Holding log objs newest old front enc → Stores S log (objs ++ [newest])

theorem Holding.withReadPtr (h : Holding log objs newest old front enc) (r : Nat) :
    Holding (log.withReadPtr r) objs newest old front enc :=
  ⟨h.follows.withReadPtr r, h.two_le, h.older, h.newest_ne, h.newest, h.window, h.first,
    h.last, h.count⟩

theorem Stores.withReadPtr (h : Stores S log objs) (r : Nat) :
    Stores S (log.withReadPtr r) objs := by
  cases h with
  | fresh hf =>
    obtain ⟨r', rfl⟩ := hf
    exact .fresh ⟨r, rfl⟩
  | holding hS hh => exact .holding hS (hh.withReadPtr r)

theorem Stores.size (h : Stores S log objs) : log.ring.size = S := by
  cases h with
  | fresh hf => obtain ⟨r, rfl⟩ := hf; rfl
  | holding hS _ => exact hS

theorem Stores.count (h : Stores S log objs) : log.numEntries = objs.length := by
  cases h with
  | fresh hf => obtain ⟨r, rfl⟩ := hf; rfl
  | holding _ hh => simpa using hh.count

theorem Holding.all (h : Holding log objs newest old front enc) :
    EncodesAll log.ring.size old.length (objs ++ [newest]) (front ++ enc) := by
  refine h.older.append ?_
  simpa using EncodesAll.cons h.newest_ne h.newest .nil

theorem Holding.count_lt (h : Holding log objs newest old front enc) : log.numEntries < 65536 := by
  have hle := h.all.length_le
  have hw := h.window
  have hlt := h.follows.lt
  rw [h.count]
  simp only [List.length_append, List.length_singleton] at hle hw
  omega

theorem Holding.first_eq_last (h : Holding log objs newest old front enc) :
    log.ptrFirst = log.ptrLast ↔ objs = [] := by
  rw [h.first, h.last, List.length_append]
  have hw := h.window
  have hpos := h.newest.length_pos
  have hle := h.older.length_le
  have hold := h.older
  simp only [List.length_append] at hw
  constructor
  · intro heq
    by_contra hne
    have hobjs := List.length_pos_iff.mpr hne
    exact mod_ne (a := old.length) (b := old.length + front.length) (S := log.ring.size)
      (by omega) (by omega) heq
  · rintro rfl
    cases hold
    simp

theorem Holding.spaceBetween (h : Holding log objs newest old front enc) (b₁ b₂ : List UInt8)
    (hb : front = b₁ ++ b₂) :
    objectlogSpaceBetween log log.ring.writePtr ((old.length + b₁.length) % log.ring.size) =
      log.ring.size - (b₂ ++ enc).length := by
  have hw := h.window
  have hS := h.follows.pos
  have hlt := h.follows.lt
  have hwrite := h.follows.write
  have hpos := h.newest.length_pos
  have hmod := Nat.mod_lt (old.length + b₁.length) hS
  subst hb
  simp only [List.length_append] at hw hwrite ⊢
  have hcell := mod_add_cases (a := old.length + b₁.length) hS
    (show b₂.length + enc.length ≤ log.ring.size by omega)
  rw [show old.length + (b₁.length + b₂.length) + enc.length =
    old.length + b₁.length + (b₂.length + enc.length) by omega] at hwrite
  unfold objectlogSpaceBetween u16
  split <;> omega

theorem Holding.freeSpace (h : Holding log objs newest old front enc) :
    objectlogFreeSpace log log.ring.writePtr = log.ring.size - (front ++ enc).length := by
  rw [objectlogFreeSpace, h.first]
  simpa using h.spaceBetween [] front rfl

theorem Holding.getNextEntry_last (h : Holding log objs newest old front enc) :
    (getNextEntry log log.ptrLast).Returns
    (log.ring.writePtr, log.withReadPtr log.ring.writePtr) := by
  have hw := h.window
  simp only [List.length_append] at hw
  have hstep := getNextEntry_entry h.follows h.newest (List.append_nil _).symm
    (by simp only [List.length_append]; omega) (fun hfull => by
      rw [h.first, show front = [] from List.eq_nil_of_length_eq_zero (by omega), List.append_nil])
  rw [← List.length_append, ← h.follows.write] at hstep
  rwa [h.last]

theorem Holding.dropFirst (h : Holding log (obj :: objs) newest old front enc) :
    ∃ bytes front' log', front = bytes ++ front' ∧ (dropFirstEntry log).Returns log' ∧
      Holding log' objs newest (old ++ bytes) front' enc ∧ log'.ring.size = log.ring.size ∧
      log'.ring.writePtr = log.ring.writePtr ∧ log'.numEntries + 1 = log.numEntries ∧
      EncodesAll log.ring.size old.length [obj] bytes := by
  have hold := h.older
  cases hold with
  | @cons _ _ _ bytes front' hne henc hrest =>
    have hw := h.window
    have hpos := h.newest.length_pos
    have hlt := h.count_lt
    simp only [List.length_append] at hw
    have hstep := getNextEntry_entry h.follows henc
      (show old ++ (bytes ++ front') ++ enc = old ++ bytes ++ (front' ++ enc) by simp)
      (by simp only [List.length_append]; omega) (fun hfull => by omega)
    rw [← h.first] at hstep
    have hcount := h.count
    simp only [List.length_cons] at hcount
    have hu : u32 (log.numEntries - 1) = objs.length + 1 := by unfold u32; omega
    refine ⟨bytes, front', { log.withReadPtr ((old.length + bytes.length) % log.ring.size) with
        ptrFirst := (old.length + bytes.length) % log.ring.size, numEntries := objs.length + 1 },
      rfl, ?_, ?_, rfl, rfl, by simp only; omega, ?_⟩
    · rw [dropFirstEntry, hstep.bind_iff, Comp.returns_pure]
      simp [hu]
    · have hf := h.follows.withReadPtr ((old.length + bytes.length) % log.ring.size)
      refine ⟨by simpa [List.append_assoc] using hf, h.two_le, by simpa using hrest, h.newest_ne,
        by simpa [Nat.add_assoc] using h.newest, ?_, by simp, ?_, rfl⟩
      · simp only [List.length_append, withReadPtr_size]
        omega
      · simpa [Nat.add_assoc] using h.last
    · simpa using EncodesAll.cons hne henc .nil

-- ---------------------------------------------------------------------------
-- Reading
-- ---------------------------------------------------------------------------

theorem Holding.skipEntries (h : Holding log objs newest old front enc)
    {before after : List (List UInt8)} (hsplit : objs ++ [newest] = before ++ obj :: after) :
    ∃ b₁ b₂ r, front ++ enc = b₁ ++ b₂ ∧ EncodesAll log.ring.size old.length before b₁ ∧
      (skipEntries before.length log.ptrFirst log).Returns
        ((old.length + b₁.length) % log.ring.size, log.withReadPtr r) ∧
      ChainAt log.ring ((old.length + b₁.length) % log.ring.size) obj := by
  have hw := h.window
  have hall := h.all
  rw [hsplit] at hall
  obtain ⟨b₁, b₂, hb, hbefore, hafter⟩ := hall.split
  cases hafter with
  | @cons _ _ _ e rest hne henc hrest =>
    have htape : old ++ front ++ enc = old ++ b₁ ++ (e ++ rest) := by
      rw [List.append_assoc, hb, List.append_assoc]
    have hpos := henc.length_pos
    have hwin : (old ++ front ++ enc).length ≤ old.length + log.ring.size := by
      rw [List.append_assoc, List.length_append]
      exact Nat.add_le_add_left hw _
    obtain ⟨r, hr⟩ := skipEntries_all h.follows rfl hbefore htape
      (by simpa using fun he => absurd he (List.ne_nil_of_length_pos hpos)) hwin
    have hstored := h.follows.chainAt (by rw [List.length_append]; exact henc)
      (show _ = (old ++ b₁) ++ e ++ rest by rw [htape]; simp)
      (Nat.le_trans hwin (by rw [List.length_append]; omega))
    rw [List.length_append] at hstored
    exact ⟨b₁, e ++ rest, r, hb, hbefore, h.first ▸ hr, hstored⟩

/-- The entry an object index stands for, of `n`. -/
def resolveIdx (n : Nat) (objectIdx : Int) : Option Nat :=
  if 0 ≤ objectIdx ∧ objectIdx < n then some objectIdx.toNat
  else if objectIdx < 0 ∧ 0 < n + objectIdx then some (n + objectIdx).toNat
  else none

theorem resolveIdx_lt {n i : Nat} {objectIdx : Int} (h : resolveIdx n objectIdx = some i) :
    i < n := by
  unfold resolveIdx at h
  split at h
  · simp only [Option.some.injEq] at h
    omega
  · split at h <;> simp at h
    omega

@[simp] theorem resolveIdx_natCast {n i : Nat} (h : i < n) : resolveIdx n (i : Int) = some i := by
  rw [resolveIdx, if_pos (by omega), Int.toNat_natCast]

/-- The values of an `int`. -/
def IsInt (z : Int) : Prop := -2147483648 ≤ z ∧ z < 2147483648

theorem objectlogIterator_eq {objectIdx : Int} (hint : IsInt objectIdx)
    (hlt : log.numEntries < 65536) :
    objectlogIterator log objectIdx =
      match resolveIdx log.numEntries objectIdx with
      | none => pure (-1, log)
      | some i => skipEntries i log.ptrFirst log >>= fun s => pure ((s.1 : Int), s.2) := by
  unfold IsInt at hint
  unfold objectlogIterator resolveIdx u32
  by_cases h0 : objectIdx < 0
  · rw [if_pos h0, if_neg (by omega : ¬ (0 ≤ objectIdx ∧ objectIdx < log.numEntries))]
    by_cases hpos : 0 < log.numEntries + objectIdx
    · rw [if_neg (by omega), if_pos ⟨h0, hpos⟩]
      congr 2
      omega
    · rw [if_pos (by omega), if_neg (by omega)]
  · rw [if_neg h0]
    by_cases hle : objectIdx < log.numEntries
    · rw [if_neg (by omega), if_pos ⟨by omega, hle⟩]
    · rw [if_pos (by omega), if_neg (by omega), if_neg (by omega)]

theorem Stores.count_lt (h : Stores S log objs) : log.numEntries < 65536 := by
  cases h with
  | fresh hf =>
    obtain ⟨r, rfl⟩ := hf
    exact Nat.zero_lt_succ _
  | holding _ hh => exact hh.count_lt

theorem Stores.iterator_none (h : Stores S log objs) {objectIdx : Int} (hint : IsInt objectIdx)
    (hidx : resolveIdx objs.length objectIdx = none) :
    (objectlogIterator log objectIdx).Returns (-1, log) := by
  rw [objectlogIterator_eq hint h.count_lt, h.count, hidx, Comp.returns_pure]

theorem Stores.iterator_chain (h : Stores S log objs) {objectIdx : Int} (hint : IsInt objectIdx)
    {i : Nat} (hidx : resolveIdx objs.length objectIdx = some i) (hobj : objs[i]? = some obj) :
    ∃ p r, (objectlogIterator log objectIdx).Returns ((p : Nat), log.withReadPtr r) ∧
      ChainAt log.ring p obj := by
  obtain ⟨hi, rfl⟩ := List.getElem?_eq_some_iff.mp hobj
  rw [objectlogIterator_eq hint h.count_lt, h.count, hidx]
  cases h with
  | fresh _ => simp at hi
  | @holding objs newest old front enc hS hh =>
    obtain ⟨b₁, b₂, r, -, -, hret, hstored⟩ := hh.skipEntries
      (show _ = (objs ++ [newest]).take i ++ _ :: (objs ++ [newest]).drop (i + 1) by
        rw [← List.drop_eq_getElem_cons hi, List.take_append_drop])
    rw [List.length_take_of_le (Nat.le_of_lt hi)] at hret
    exact ⟨_, r, by rw [hret.bind_iff, Comp.returns_pure], hstored⟩

theorem Stores.iterator_some (h : Stores S log objs) {objectIdx : Int} (hint : IsInt objectIdx)
    {i : Nat} (hidx : resolveIdx objs.length objectIdx = some i) (hobj : objs[i]? = some obj) :
    ∃ p r, (objectlogIterator log objectIdx).Returns ((p : Nat), log.withReadPtr r) ∧
      StoredAt log.ring p obj := by
  obtain ⟨p, r, hret, hchain⟩ := h.iterator_chain hint hidx hobj
  exact ⟨p, r, hret, hchain.storedAt⟩

end FxIP
