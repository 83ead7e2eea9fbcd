import FxIP.Objectlog.Fifo

/-!
# Writing to a log

What one write does to the objects stored. A write that finds the log empty, or
an object that fits next to the newest one, is stored after dropping just
enough of the oldest; a rejected write only moves the read pointer.
-/

namespace FxIP

open Circular

variable {S n total : Nat} {objs : List (List UInt8)} {obj newest : List UInt8}
variable {old front enc : List UInt8} {log : Objectlog} {list : List ScatterObject}

-- ---------------------------------------------------------------------------
-- The log nothing was written to
-- ---------------------------------------------------------------------------

/-- The log as `objectlog_init` leaves it on a storage of any contents. -/
def Blank (storage : List UInt8) (S : Nat) (log : Objectlog) : Prop :=
  ∃ r, log = (objectlogInit storage S).withReadPtr r

theorem Blank.follows {storage : List UInt8} (h : Blank storage S log) (hlen : storage.length = S)
    (hS : 0 < S) (hlt : S < 65536) : Follows log.ring [] := by
  obtain ⟨r, rfl⟩ := h
  exact Follows.withReadPtr (follows_init hlen hS hlt) r

theorem Fresh.blank (h : Fresh S log) : Blank (List.replicate S 0) S log := h

theorem Fresh.follows (h : Fresh S log) (hS : 0 < S) (hlt : S < 65536) : Follows log.ring [] :=
  h.blank.follows List.length_replicate hS hlt

theorem Fresh.fragmentAt (h : Fresh S log) {p : Nat} (hp : p < S) :
    FragmentAt log.ring p [] false := by
  obtain ⟨r, rfl⟩ := h
  refine ⟨by simp, hp, ?_, rfl⟩
  simp [objectlogInit, ringbufferInit, Ringbuffer.cell, hp]
  decide

theorem Fresh.round (h : Fresh S log) (hlt : S < 65536) {b : Nat} (hb : b < S) :
    getNextEntryRound 0 (log.withReadPtr b) =
      if 0 < b ∧ b + 1 = S then .inr (0, log.withReadPtr 0)
      else .inl (log.withReadPtr ((b + 1) % S)) := by
  have hsize : log.ring.size = S := by obtain ⟨r, rfl⟩ := h; rfl
  have hfirst : log.ptrFirst = 0 := by obtain ⟨r, rfl⟩ := h; rfl
  have hmod : b % log.ring.size = b := Nat.mod_eq_of_lt (by omega)
  have hround := getNextEntryRound_fragment (a := 0) (b := b) (h.follows (by omega) hlt)
    (by rw [hmod]; exact h.fragmentAt hb) (Nat.zero_le _) (by simp only [List.length_nil]; omega)
  rw [hmod, Nat.zero_mod, List.length_nil, Nat.add_zero, hfirst, hsize, Nat.zero_add] at hround
  rw [hround]
  simp only [Bool.false_eq_true, ↓reduceIte]
  split
  · next hend => rw [hend.2, Nat.mod_self]
  · rfl

theorem Fresh.walk (h : Fresh S log) (hS : 2 ≤ S) (hlt : S < 65536) {b : Nat} (hb : b < S) :
    (Comp.loop (fun log' => pure (getNextEntryRound 0 log')) (log.withReadPtr b)).Returns
      (0, log.withReadPtr 0) := by
  induction hk : S - b generalizing b with
  | zero => omega
  | succ k ih =>
    have hround := h.round hlt hb
    by_cases hend : b + 1 = S
    · rw [if_pos (by omega)] at hround
      exact .loop_exit (Comp.returns_pure.mpr hround)
    · rw [if_neg (by omega), Nat.mod_eq_of_lt (by omega)] at hround
      exact .loop_again (Comp.returns_pure.mpr hround) (ih (by omega) (by omega))

theorem Stores.getNextEntry_last (h : Stores S log objs) (hS : 2 ≤ S) (hlt : S < 65536) :
    (getNextEntry log log.ptrLast).Returns
    (log.ring.writePtr, log.withReadPtr log.ring.writePtr) := by
  cases h with
  | fresh hf =>
    have hwalk := hf.walk hS hlt (b := 0) (by omega)
    obtain ⟨r, rfl⟩ := hf
    exact hwalk
  | holding _ hh => exact hh.getNextEntry_last

-- ---------------------------------------------------------------------------
-- Eviction
-- ---------------------------------------------------------------------------

theorem evict_stops {logEnd : Nat}
    (h : objectlogFreeSpace log logEnd < total → log.ptrFirst = log.ptrLast) :
    (evict logEnd total log).Returns log := by
  apply Comp.Returns.loop_exit
  rw [evictRound, if_neg fun hmore => hmore.2 (h hmore.1), Comp.returns_pure]

theorem evict_again {logEnd : Nat} {log' log'' : Objectlog}
    (hfree : objectlogFreeSpace log logEnd < total)
    (hne : log.ptrFirst ≠ log.ptrLast) (hdrop : (dropFirstEntry log).Returns log')
    (h : (evict logEnd total log').Returns log'') : (evict logEnd total log).Returns log'' := by
  refine Comp.Returns.loop_again ?_ h
  rw [evictRound, if_pos ⟨hfree, hne⟩, hdrop.bind_iff, Comp.returns_pure]

/-- The log after the eviction of `dropped`, whose bytes are `bytes`. -/
structure Evicted (log : Objectlog) (total : Nat) (objs : List (List UInt8))
    (newest old front enc : List UInt8) (log' : Objectlog) (dropped kept : List (List UInt8))
    (bytes front' : List UInt8) : Prop where
  objs_eq : objs = dropped ++ kept
  front_eq : front = bytes ++ front'
  holding : Holding log' kept newest (old ++ bytes) front' enc
  size : log'.ring.size = log.ring.size
  writePtr : log'.ring.writePtr = log.ring.writePtr
  enough : kept = [] ∨ total ≤ log.ring.size - (front' ++ enc).length
  needed : ∀ before after b₁ b₂, dropped = before ++ after → after ≠ [] → front = b₁ ++ b₂ →
    EncodesAll log.ring.size old.length before b₁ → log.ring.size - (b₂ ++ enc).length < total

theorem Holding.evict (h : Holding log objs newest old front enc) (total : Nat) :
    (evict log.ring.writePtr total log).Ensures fun log' =>
      ∃ dropped kept bytes front',
        Evicted log total objs newest old front enc log' dropped kept bytes front' := by
  induction objs generalizing log old front with
  | nil =>
    refine (evict_stops fun _ => h.first_eq_last.mpr rfl).ensures
      ⟨[], [], [], front, rfl, rfl, by simpa using h, rfl, rfl, .inl rfl, ?_⟩
    intro before after _ _ hnil hne _ _
    simp_all
  | cons obj objs ih =>
    have hne : log.ptrFirst ≠ log.ptrLast := fun he => by simpa using h.first_eq_last.mp he
    by_cases hfree : objectlogFreeSpace log log.ring.writePtr < total
    · obtain ⟨bytes, front', log', rfl, hdrop, hh, hsize, hwrite, -, hobj⟩ := h.dropFirst
      obtain ⟨log'', hret, dropped, kept, bytes', front'', hev⟩ := ih hh
      rw [hwrite] at hret
      refine (evict_again hfree hne hdrop hret).ensures
        ⟨obj :: dropped, kept, bytes ++ bytes', front'', by rw [hev.objs_eq]; rfl,
          by rw [hev.front_eq, List.append_assoc], by simpa using
            hev.holding, by rw [hev.size, hsize],
          by rw [hev.writePtr, hwrite], by simpa [hsize] using hev.enough, ?_⟩
      intro before after b₁ b₂ heq hafter hb hall
      cases before with
      | nil =>
        cases hall
        rw [h.freeSpace] at hfree
        simp only [List.nil_append] at hb
        rwa [← hb]
      | cons o before =>
        obtain ⟨rfl, htail⟩ := List.cons.inj heq
        cases hall with
        | @cons _ _ _ _ rest _ henc hrest =>
          cases hobj with
          | cons _ henc' hnil =>
            cases hnil
            obtain rfl := henc.unique henc'
            rw [List.append_nil] at *
            rw [List.append_assoc] at hb
            have hneeded := hev.needed before after rest b₂ htail hafter
              (List.append_cancel_left hb) (by rw [List.length_append, hsize]; exact hrest)
            rwa [hsize] at hneeded
    · refine (evict_stops fun hmore => absurd hmore hfree).ensures
        ⟨[], obj :: objs, [], front, rfl, rfl, by simpa using h, rfl, rfl, ?_, ?_⟩
      · rw [h.freeSpace] at hfree
        exact .inr (by omega)
      · intro before after _ _ hnil hne _ _
        simp_all

-- ---------------------------------------------------------------------------
-- The sizes
-- ---------------------------------------------------------------------------

theorem scatterLen_eq (hentries : ∀ e ∈ list, e ≠ []) (hn : n < 65536) :
    scatterLen n list = (n + list.flatten.length) % 65536 := by
  induction list generalizing n with
  | nil => simpa [scatterLen] using (Nat.mod_eq_of_lt hn).symm
  | cons e es ih =>
    have he := List.length_pos_iff.mpr (hentries e (by simp))
    have hu : u16 (n + e.length) = (n + e.length) % 65536 := by unfold u16; omega
    rw [scatterLen, if_neg (by omega), hu, ih (fun x hx => hentries x (by simp [hx]))
      (Nat.mod_lt _ (by decide)), List.flatten_cons, List.length_append]
    omega

theorem reservedLen_lt (size logEnd n : Nat) : reservedLen size logEnd n < 65536 := by
  unfold reservedLen
  simp only
  split <;> exact u16_lt _

theorem reservedLen_eq {logEnd : Nat} (hlt : encodedLen S logEnd n < 65536) :
    reservedLen S logEnd n = encodedLen S logEnd n := by
  unfold encodedLen at *
  unfold reservedLen u16 DIV_ROUND_UP MAX_FRAGMENT_LEN at *
  simp only
  split at hlt <;> split <;> omega

/-- An object of `n` bytes fits next to the newest entry. -/
def FitsBesideNewest (log : Objectlog) (n : Nat) : Prop :=
  encodedLen log.ring.size log.ring.writePtr n ≤
    objectlogSpaceBetween log log.ring.writePtr log.ptrLast

theorem Holding.spaceBesideNewest (h : Holding log objs newest old front enc) :
    objectlogSpaceBetween log log.ring.writePtr log.ptrLast = log.ring.size - enc.length := by
  rw [h.last, List.length_append]
  simpa using h.spaceBetween front [] (by simp)

-- ---------------------------------------------------------------------------
-- One write
-- ---------------------------------------------------------------------------

theorem Holding.append {log' : Objectlog} {data enc' : List UInt8}
    (h : Holding log objs newest old front enc) (hne : data ≠ [])
    (henc : Encodes log.ring.size (old ++ front ++ enc).length data enc')
    (hwin : (front ++ enc).length + enc'.length ≤ log.ring.size)
    (hlog : log' = { log with ring := log'.ring }) (hsize : log'.ring.size = log.ring.size)
    (hfollows : Follows log'.ring (old ++ front ++ enc ++ enc')) :
    Holding { log' with ptrLast := log.ring.writePtr, numEntries := u32 (log'.numEntries + 1) }
      (objs ++ [newest]) data old (front ++ enc) enc' := by
  have hcount := h.count
  have hlt := h.count_lt
  have hnum : log'.numEntries = log.numEntries := by rw [hlog]
  have hfirst : log'.ptrFirst = log.ptrFirst := by rw [hlog]
  refine ⟨by simpa [List.append_assoc] using hfollows, hsize ▸ h.two_le, ?_, hne, ?_,
    ?_, ?_, ?_, ?_⟩
  · simpa [hsize] using h.all
  · simpa [hsize, List.append_assoc] using henc
  · rw [hsize, List.length_append]
    exact hwin
  · simpa [hsize, hfirst] using h.first
  · simpa [hsize, List.append_assoc] using h.follows.write
  · simp only [hnum, List.length_append, List.length_singleton]
    unfold u32
    omega

theorem Blank.append {storage data enc' : List UInt8} {log' : Objectlog} (h : Blank storage S log)
    (hS : 2 ≤ S) (hne : data ≠ []) (henc : Encodes S 0 data enc') (hwin : enc'.length ≤ S)
    (hlog : log' = { log with ring := log'.ring }) (hsize : log'.ring.size = S)
    (hfollows : Follows log'.ring enc') :
    Holding { log' with ptrLast := log.ring.writePtr, numEntries := u32 (log'.numEntries + 1) }
      [] data [] [] enc' := by
  obtain ⟨r, rfl⟩ := h
  have hnum : log'.numEntries = 0 := by rw [hlog]; rfl
  have hfirst : log'.ptrFirst = 0 := by rw [hlog]; rfl
  refine ⟨hfollows, hsize ▸ hS, .nil, hne, ?_, ?_, ?_, ?_, ?_⟩
  · simpa [hsize] using henc
  · simpa [hsize] using hwin
  · simpa using hfirst
  · simp [objectlogInit, ringbufferInit]
  · simp [hnum, u32]

section
variable (hentries : ∀ e ∈ list, e ≠ [] ∧ e.length < 65536) (hne : list ≠ [])
include hentries hne

theorem flatten_ne_nil : list.flatten ≠ [] := by
  obtain ⟨e, es, rfl⟩ := List.exists_cons_of_ne_nil hne
  simp [(hentries e (by simp)).1]

variable (hS : 2 ≤ S)
include hS

theorem Fresh.store (h : Fresh S log) (hlt : S < 65536)
    (hlen : encodedLen S log.ring.writePtr list.flatten.length ≤ S) :
    (copyScattered log list list.flatten.length).Ensures fun log' =>
      Stores S { log' with ptrLast := log.ring.writePtr, numEntries := u32 (log'.numEntries + 1) }
        [list.flatten] := by
  have hsize : log.ring.size = S := by obtain ⟨r, rfl⟩ := h; rfl
  have hwrite : log.ring.writePtr = 0 := by obtain ⟨r, rfl⟩ := h; rfl
  have hdata := flatten_ne_nil hentries hne
  obtain ⟨enc', henc⟩ := encodes_exists hS 0 list.flatten
  have hle := henc.length_le (by omega) hdata (by unfold encodedLen at hlen; omega)
  rw [hwrite] at hlen
  rw [Nat.zero_mod] at hle
  refine (copyScattered_ensures (hsize ▸ hS) (h.follows (by omega) hlt) hentries hne
    (by unfold encodedLen at hlen; omega) (hsize ▸ henc)).mono ?_
  rintro log' ⟨hlog, hfollows, hsize', -⟩
  have hnew := h.blank.append hS hdata henc (by omega) hlog (by rw [hsize', hsize]) hfollows
  exact .holding (by rw [← hsize, ← hsize']) hnew

theorem Holding.store (h : Holding log objs newest old front enc) (hsize : log.ring.size = S)
    (hroom : (front ++ enc).length + encodedLen S log.ring.writePtr list.flatten.length ≤ S) :
    (copyScattered log list list.flatten.length).Ensures fun log' =>
      Stores S { log' with ptrLast := log.ring.writePtr, numEntries := u32 (log'.numEntries + 1) }
        (objs ++ [newest] ++ [list.flatten]) := by
  subst hsize
  have hlt := h.follows.lt
  have hdata := flatten_ne_nil hentries hne
  obtain ⟨enc', henc⟩ := encodes_exists hS (old ++ front ++ enc).length list.flatten
  have hle := henc.length_le (by omega) hdata (by unfold encodedLen at hroom; omega)
  rw [← h.follows.write] at hle
  refine (copyScattered_ensures hS h.follows hentries hne
    (by unfold encodedLen at hroom; omega) henc).mono ?_
  rintro log' ⟨hlog, hfollows, hsize', -⟩
  exact .holding hsize' (h.append hdata henc (by omega) hlog hsize' hfollows)

end

section
variable {logEnd : Nat} {log₁ : Objectlog}
variable (hwalk : (getNextEntry log log.ptrLast).Returns (logEnd, log₁))
include hwalk

theorem write_rejects
    (hrej : log₁.ring.size < reservedLen log₁.ring.size logEnd (scatterLen 0 list)) :
    (objectlogWriteScatteredObject log list).Returns
      (u16 (log₁.ring.size - reservedLen log₁.ring.size logEnd (scatterLen 0 list)), log₁) := by
  unfold objectlogWriteScatteredObject
  rw [hwalk.bind_iff]
  simp only
  rw [if_pos hrej, Comp.returns_pure]

theorem write_accepts_iff {r : Nat × Objectlog}
    (hacc : ¬ log₁.ring.size < reservedLen log₁.ring.size logEnd (scatterLen 0 list)) :
    (objectlogWriteScatteredObject log list).Returns r ↔ ∃ log₂ log₃,
      (evict logEnd (reservedLen log₁.ring.size logEnd (scatterLen 0 list)) log₁).Returns log₂ ∧
        (copyScattered log₂ list (scatterLen 0 list)).Returns log₃ ∧
        (0, { log₃ with ptrLast := log₂.ring.writePtr, numEntries := u32 (log₃.numEntries + 1) }) =
          r := by
  unfold objectlogWriteScatteredObject
  rw [hwalk.bind_iff]
  simp only
  rw [if_neg hacc]
  simp only [Comp.returns_bind, Comp.returns_pure, exists_and_left]

end

/-- What a write did to the objects stored: the oldest were dropped, each
because the free space was too small with it, and the new one is the last. -/
def Written (S : Nat) (log : Objectlog) (objs : List (List UInt8)) (data : List UInt8)
    (log' : Objectlog) : Prop :=
  ∃ dropped kept, objs = dropped ++ kept ∧ Stores S log' (kept ++ [data]) ∧
    log'.ptrLast = log.ring.writePtr ∧ (objs ≠ [] → kept ≠ []) ∧
    ∀ j < dropped.length, ∃ p r, (objectlogIterator log j).Returns ((p : Nat), log.withReadPtr r) ∧
      objectlogSpaceBetween log log.ring.writePtr p < reservedLen S log.ring.writePtr data.length

theorem Holding.iterator_space {before after : List (List UInt8)}
    (h : Holding log objs newest old front enc) (hsplit : objs = before ++ obj :: after) :
    ∃ p r b₁ b₂, (objectlogIterator log (before.length : Nat)).Returns
      ((p : Nat), log.withReadPtr r) ∧
      front = b₁ ++ b₂ ∧ EncodesAll log.ring.size old.length before b₁ ∧
      objectlogSpaceBetween log log.ring.writePtr p = log.ring.size - (b₂ ++ enc).length := by
  have hcount := h.count
  have hlt := h.count_lt
  have hlen : before.length < log.numEntries := by
    rw [hcount, hsplit, List.length_append, List.length_cons]
    omega
  obtain ⟨b₁, -, r, -, hbefore, hret, -⟩ := h.skipEntries
    (show objs ++ [newest] = before ++ obj :: (after ++ [newest]) by simp [hsplit])
  have holder := h.older
  rw [hsplit] at holder
  obtain ⟨c₁, c₂, hfront, hbefore', -⟩ := holder.split
  obtain rfl := hbefore.unique hbefore'
  refine ⟨_, r, b₁, c₂, ?_, hfront, hbefore, h.spaceBetween b₁ c₂ hfront⟩
  rw [objectlogIterator_eq (by unfold IsInt; omega) hlt, resolveIdx_natCast hlen]
  rw [hret.bind_iff, Comp.returns_pure]

theorem Blank.evict {storage : List UInt8} (h : Blank storage S log) (logEnd total : Nat) :
    (evict logEnd total log).Returns log := by
  obtain ⟨r, rfl⟩ := h
  exact evict_stops fun _ => rfl

/-- Where eviction stopped there is room, if there is room next to the newest. -/
theorem Holding.room {total : Nat} (h : Holding log objs newest old front enc) (hpos : 0 < total)
    (henough : objs = [] ∨ total ≤ log.ring.size - (front ++ enc).length)
    (hfits : total ≤ log.ring.size - enc.length) :
    (front ++ enc).length + total ≤ log.ring.size := by
  rcases henough with hobjs | hle
  · have hnil : front = [] := by
      have holder := h.older
      rw [hobjs] at holder
      cases holder
      rfl
    rw [hnil, List.nil_append]
    omega
  · omega

theorem Evicted.room {total : Nat} {dropped kept : List (List UInt8)}
    (h : Evicted log total objs newest old front enc log' dropped kept bytes front')
    (hpos : 0 < total) (hfits : total ≤ log.ring.size - enc.length) :
    (front' ++ enc).length + total ≤ log.ring.size := by
  have hroom := h.holding.room hpos (h.size.symm ▸ h.enough) (h.size.symm ▸ hfits)
  rwa [h.size] at hroom

theorem Evicted.dropped_needed {total j : Nat} {dropped kept : List (List UInt8)}
    (h : Evicted (log.withReadPtr r) total objs newest old front enc log' dropped kept bytes front')
    (hh : Holding log objs newest old front enc) (hj : j < dropped.length) :
    ∃ p r, (objectlogIterator log j).Returns ((p : Nat), log.withReadPtr r) ∧
      objectlogSpaceBetween log log.ring.writePtr p < total := by
  obtain ⟨p, r, b₁, b₂, hret, hfront, hbefore, hspace⟩ := hh.iterator_space
    (show _ = dropped.take j ++ dropped[j] :: (dropped.drop (j + 1) ++ kept) by
      rw [h.objs_eq, ← List.cons_append, ← List.drop_eq_getElem_cons hj, ← List.append_assoc,
        List.take_append_drop])
  rw [List.length_take_of_le (Nat.le_of_lt hj)] at hret
  refine ⟨p, r, hret, ?_⟩
  rw [hspace]
  exact h.needed _ (dropped.drop j) b₁ b₂ (List.take_append_drop j dropped).symm (by simpa using hj)
    hfront hbefore

theorem Holding.write (h : Holding log objs newest old front enc) (hS : 2 ≤ S)
    (hsize : log.ring.size = S) (hentries : ∀ e ∈ list, e ≠ [] ∧ e.length < 65536) (hne : list ≠ [])
    (hreserved : reservedLen S log.ring.writePtr list.flatten.length =
      encodedLen S log.ring.writePtr list.flatten.length)
    (hroom : FitsBesideNewest log list.flatten.length) :
    (FxIP.evict log.ring.writePtr (encodedLen S log.ring.writePtr list.flatten.length)
      (log.withReadPtr log.ring.writePtr)).Ensures fun log₁ =>
        (copyScattered log₁ list list.flatten.length).Ensures fun log' =>
          Written S log (objs ++ [newest]) list.flatten
            { log' with
              ptrLast := log₁.ring.writePtr, numEntries := u32 (log'.numEntries + 1) } := by
  refine ((h.withReadPtr log.ring.writePtr).evict _).mono ?_
  rintro log₁ ⟨dropped, kept, bytes, front', hev⟩
  have hsize₁ : log₁.ring.size = S := hev.size.trans hsize
  have hwrite₁ : log₁.ring.writePtr = log.ring.writePtr := hev.writePtr
  have hpos : 0 < encodedLen S log.ring.writePtr list.flatten.length := by
    have hdata := List.length_pos_iff.mpr (flatten_ne_nil hentries hne)
    unfold encodedLen
    omega
  rw [FitsBesideNewest, h.spaceBesideNewest, hsize] at hroom
  have hroom₁ := hev.room hpos (by rwa [withReadPtr_size, hsize])
  rw [withReadPtr_size, hsize, ← hwrite₁] at hroom₁
  refine (hev.holding.store hentries hne hS hsize₁ hroom₁).mono fun log' hstores => ?_
  refine ⟨dropped, kept ++ [newest], by rw [hev.objs_eq, List.append_assoc], hstores, hwrite₁,
    by simp, fun j hj => ?_⟩
  rw [hreserved]
  exact hev.dropped_needed h hj

theorem Fresh.write (h : Fresh S log) (hS : 2 ≤ S) (hlt : S < 65536)
    (hentries : ∀ e ∈ list, e ≠ [] ∧ e.length < 65536) (hne : list ≠ [])
    (hlen : encodedLen S log.ring.writePtr list.flatten.length ≤ S) :
    (FxIP.evict log.ring.writePtr (encodedLen S log.ring.writePtr list.flatten.length)
      (log.withReadPtr log.ring.writePtr)).Ensures fun log₁ =>
        (copyScattered log₁ list list.flatten.length).Ensures fun log' =>
          Written S log [] list.flatten
            { log' with
              ptrLast := log₁.ring.writePtr, numEntries := u32 (log'.numEntries + 1) } := by
  have h' : Fresh S (log.withReadPtr log.ring.writePtr) := by
    obtain ⟨r, rfl⟩ := h
    exact ⟨_, rfl⟩
  refine (h'.blank.evict _ _).ensures ?_
  refine (h'.store hentries hne hS hlt (by simpa using hlen)).mono fun log' hstores => ?_
  exact ⟨[], [], rfl, hstores, rfl, by simp, by simp⟩

theorem Stores.write (h : Stores S log objs) (hS : 2 ≤ S) (hlt : S < 65536)
    (hentries : ∀ e ∈ list, e ≠ [] ∧ e.length < 65536) (hne : list ≠ [])
    (hlen : encodedLen S log.ring.writePtr list.flatten.length ≤ S)
    (hroom : objs = [] ∨ FitsBesideNewest log list.flatten.length) :
    (objectlogWriteScatteredObject log list).Ensures fun r =>
      r.1 = 0 ∧ Written S log objs list.flatten r.2 := by
  have hscatter : scatterLen 0 list = list.flatten.length := by
    unfold encodedLen at hlen
    rw [scatterLen_eq (fun e he => (hentries e he).1) (by decide)]
    omega
  have hreserved : reservedLen S log.ring.writePtr list.flatten.length =
      encodedLen S log.ring.writePtr list.flatten.length := reservedLen_eq (by omega)
  have hwrite : (evict log.ring.writePtr (encodedLen S log.ring.writePtr list.flatten.length)
      (log.withReadPtr log.ring.writePtr)).Ensures fun log₁ =>
        (copyScattered log₁ list list.flatten.length).Ensures fun log' =>
          Written S log objs list.flatten
            { log' with
              ptrLast := log₁.ring.writePtr, numEntries := u32 (log'.numEntries + 1) } := by
    cases h with
    | fresh hf => exact hf.write hS hlt hentries hne hlen
    | holding hsize hh =>
      exact hh.write hS hsize hentries hne hreserved (hroom.resolve_left (by simp))
  unfold objectlogWriteScatteredObject
  rw [Comp.ensures_bind]
  refine (h.getNextEntry_last hS hlt).ensures ?_
  simp only [hscatter, withReadPtr_size, h.size, hreserved]
  rw [if_neg (by omega), Comp.ensures_bind]
  refine hwrite.mono fun log₁ hcopy => ?_
  rw [Comp.ensures_bind]
  exact hcopy.mono fun log' hwritten => Comp.ensures_pure.mpr ⟨rfl, hwritten⟩

theorem Stores.write_rejected (h : Stores S log objs) (hS : 2 ≤ S) (hlt : S < 65536)
    (hrej : S < reservedLen S log.ring.writePtr (scatterLen 0 list)) :
    ∃ r, (objectlogWriteScatteredObject log list).Returns
      (u16 (S - reservedLen S log.ring.writePtr (scatterLen 0 list)), log.withReadPtr r) := by
  refine ⟨log.ring.writePtr, ?_⟩
  have hret := write_rejects (h.getNextEntry_last hS hlt) (by rwa [withReadPtr_size, h.size])
  rwa [withReadPtr_size, h.size] at hret

theorem Stores.write_accepts_iff (h : Stores S log objs) (hS : 2 ≤ S) (hlt : S < 65536)
    {r : Nat × Objectlog} (hacc : ¬ S < reservedLen S log.ring.writePtr (scatterLen 0 list)) :
    (objectlogWriteScatteredObject log list).Returns r ↔ ∃ log₁ log₂,
      (evict log.ring.writePtr (reservedLen S log.ring.writePtr (scatterLen 0 list))
        (log.withReadPtr log.ring.writePtr)).Returns log₁ ∧
        (copyScattered log₁ list (scatterLen 0 list)).Returns log₂ ∧
        (0, { log₂ with ptrLast := log₁.ring.writePtr, numEntries := u32 (log₂.numEntries + 1) }) =
          r := by
  have hiff :=
    FxIP.write_accepts_iff (h.getNextEntry_last hS hlt) (r := r) (by rwa [withReadPtr_size, h.size])
  rwa [withReadPtr_size, h.size] at hiff

end FxIP
