import FxIP.Lib.Run
import FxIP.Objectlog.Refinement

/-!
# Writes that do not fit

The reservation is made in 16 bits, and eviction stops at the newest entry.
The runs in which neither matters keep the log what `Stores` says. What the
next write of such a run does is decided exactly: it returns unless the 16-bit
sum of its lengths is too small, and an object that does not fit next to the
newest entry is stored over it.
-/

namespace FxIP

variable {S n : Nat} {objs written : List (List UInt8)} {obj newest : List UInt8}
variable {old front enc : List UInt8} {log log' : Objectlog} {list : List ScatterObject}

/-- A call of `objectlog_write_scattered_object` with the status it returned. -/
def WriteStep (log : Objectlog) (e : List ScatterObject × Nat) (log' : Objectlog) : Prop :=
  (objectlogWriteScatteredObject log e.1).Returns (e.2, log')

/-- The entries before the terminating one are those of a non-zero length. -/
def IsScatterList (list : List ScatterObject) : Prop := ∀ e ∈ list, e ≠ [] ∧ e.length < 65536

def objectsAccepted (es : List (List ScatterObject × Nat)) : List (List UInt8) :=
  (es.filter (·.2 = 0)).map (·.1.flatten)

/-- The space reserved for the list exceeds the ring. -/
def IsRejected (log : Objectlog) (list : List ScatterObject) : Prop :=
  log.ring.size < reservedLen log.ring.size log.ring.writePtr (scatterLen 0 list)

/-- The write is rejected, or the ring holds the object and it is the first or
fits next to the newest entry. The length is the one that the write reserves, which
is a byte more than is stored where a fragment ends with the storage. -/
def HasRoom (log : Objectlog) (list : List ScatterObject) : Prop :=
  2 ≤ log.ring.size ∧ (IsRejected log list ∨ list ≠ [] ∧
    encodedLen log.ring.size log.ring.writePtr list.flatten.length ≤ log.ring.size ∧
    (log.numEntries = 0 ∨ FitsBesideNewest log list.flatten.length))

def ConsistsOf (log : Objectlog) (data : List UInt8) : Prop :=
  log.numEntries = 1 ∧ log.ptrFirst = log.ptrLast ∧
    ∃ it log', (objectlogIterator log 0).Returns (it, log') ∧ ReadsBack log' it data

-- ---------------------------------------------------------------------------
-- Runs whose writes have room
-- ---------------------------------------------------------------------------

theorem Stores.count_eq_zero (h : Stores S log objs) : log.numEntries = 0 ↔ objs = [] := by
  rw [h.count, List.length_eq_zero_iff]

theorem Stores.isRejected_iff (h : Stores S log objs) :
    IsRejected log list ↔ S < reservedLen S log.ring.writePtr (scatterLen 0 list) := by
  rw [IsRejected, h.size]

theorem Stores.rejected_step (h : Stores S log objs) (hS : 2 ≤ S) (hlt : S < 65536)
    (hrej : IsRejected log list) :
    ∃ r status, status ≠ 0 ∧
      (objectlogWriteScatteredObject log list).Returns (status, log.withReadPtr r) := by
  rw [h.isRejected_iff] at hrej
  obtain ⟨r, hret⟩ := h.write_rejected hS hlt hrej
  refine ⟨r, _, ?_, hret⟩
  have hsmall := reservedLen_lt S log.ring.writePtr (scatterLen 0 list)
  unfold u16
  omega

theorem Keeps.step {e : List ScatterObject × Nat} (h : Keeps S log written objs) (hlt : S < 65536)
    (hlist : IsScatterList e.1) (hroom : HasRoom log e.1) (hstep : WriteStep log e log') :
    ∃ objs', Keeps S log' (written ++ objectsAccepted [e]) objs' := by
  obtain ⟨hS, hroom⟩ := hroom
  rw [h.stores.size] at hS
  rcases hroom with hrej | ⟨hne, hlen, hroom⟩
  · obtain ⟨r, status, hstatus, hret⟩ := h.stores.rejected_step hS hlt hrej
    obtain ⟨he, hlog⟩ := Prod.mk.inj (hret.unique hstep)
    refine ⟨objs, hlog ▸ h.stores.withReadPtr r, ?_, ?_⟩ <;>
      simp only [objectsAccepted, List.filter_cons, ← he, hstatus, decide_false, Bool.false_eq_true,
        ↓reduceIte, List.filter_nil, List.map_nil, List.append_nil]
    · exact h.suffix
    · exact h.newest
  · rw [h.stores.size] at hlen
    rw [h.stores.count_eq_zero] at hroom
    have hspec := (h.stores.write hS hlt hlist hne hlen hroom).of_returns hstep
    have hstatus : e.2 = 0 := hspec.1
    obtain ⟨kept, -, hkeeps⟩ := h.append hspec.2
    exact ⟨kept ++
      [e.1.flatten], by simpa [objectsAccepted, List.filter_cons, hstatus] using hkeeps⟩

theorem run_keeps (hlt : S < 65536) {es : List (List ScatterObject × Nat)}
    (hrun : Run (Run.Guarded (fun log e => HasRoom log e.1) WriteStep)
      (objectlogInit (List.replicate S 0) S) es log)
    (hes : ∀ e ∈ es, IsScatterList e.1) : ∃ objs, Keeps S log (objectsAccepted es) objs := by
  induction hrun with
  | nil => exact ⟨[], keeps_init S⟩
  | @snoc es t e u _ hstep ih =>
    obtain ⟨objs, hkeeps⟩ := ih fun e he => hes e (by simp [he])
    obtain ⟨objs', hkeeps'⟩ := hkeeps.step hlt (hes e (by simp)) hstep.1 hstep.2
    refine ⟨objs', ?_⟩
    simpa only [objectsAccepted, List.filter_append, List.map_append] using hkeeps'

-- ---------------------------------------------------------------------------
-- The next write
-- ---------------------------------------------------------------------------

theorem copyScattered_frame {dataLen : Nat} (h : (copyScattered log list dataLen).Returns log') :
    log'.ptrFirst = log.ptrFirst ∧ log'.numEntries = log.numEntries := by
  refine h.loop_invariant
    (fun s => s.log.ptrFirst = log.ptrFirst ∧ s.log.numEntries = log.numEntries)
    (fun log' => log'.ptrFirst = log.ptrFirst ∧ log'.numEntries = log.numEntries) ?_ ?_ ⟨rfl, rfl⟩
  · intro s s' hs hround
    obtain ⟨-, hlog⟩ := copyRound_inl (Comp.returns_pure.mp hround)
    rw [hlog]
    exact hs
  · intro s r hs hround
    obtain ⟨-, rfl⟩ := copyRound_inr.mp (Comp.returns_pure.mp hround)
    exact hs

/-- The log in the states that the eviction loop of a write comes to. -/
def EvictionReaches (log : Objectlog) (list : List ScatterObject) (log' : Objectlog) : Prop :=
  ∃ logEnd log₁ freeSpace, (getNextEntry log log.ptrLast).Returns (logEnd, log₁) ∧
    Comp.Rounds (evictRound logEnd (reservedLen log.ring.size logEnd (scatterLen 0 list)))
      (log₁, objectlogFreeSpace log₁ logEnd) (log', freeSpace)

/-- The write returns, and its count does not wrap around on the way. -/
def ReturnsSoundly (log : Objectlog) (list : List ScatterObject) : Prop :=
  ((objectlogWriteScatteredObject log list).Ensures fun r =>
    r.2.numEntries ≤ log.numEntries + 1) ∧
  ∀ log', EvictionReaches log list log' → log'.numEntries ≤ log.numEntries

theorem Holding.evict_rounds {total freeSpace : Nat} (h : Holding log objs newest old front enc)
    (hrounds : Comp.Rounds (evictRound log.ring.writePtr total)
      (log, objectlogFreeSpace log log.ring.writePtr) (log', freeSpace)) :
    log'.numEntries ≤ log.numEntries := by
  refine (hrounds.invariant (fun s => ∃ objs' old' front',
    Holding s.1 objs' newest old' front' enc ∧ s.1.ring.writePtr = log.ring.writePtr ∧
      s.1.numEntries ≤ log.numEntries) ?_ ⟨objs, old, front, h, rfl, Nat.le_refl _⟩).elim
    fun _ ⟨_, _, _, _, hle⟩ => hle
  rintro ⟨log₁, free⟩ s' ⟨objs', old', front', hh, hwrite, hle⟩ hround
  rw [evictRound] at hround
  split at hround
  · next hcond =>
    cases objs' with
    | nil => exact absurd (hh.first_eq_last.mpr rfl) hcond.2
    | cons obj objs' =>
      obtain ⟨bytes, front'', log₂, -, hdrop, hh₂, -, hwrite₂, hcount, -⟩ := hh.dropFirst
      rw [hdrop.bind_iff, Comp.returns_pure] at hround
      cases hround
      have hle₁ : log₁.numEntries ≤ log.numEntries := hle
      exact ⟨objs', _, front'', hh₂, hwrite₂.trans hwrite, show log₂.numEntries ≤ _ by omega⟩
  · rw [Comp.returns_pure] at hround
    cases hround

theorem Fresh.pointers (h : Fresh S log) : log.ptrFirst = log.ptrLast := by
  obtain ⟨r, rfl⟩ := h
  rfl

theorem Stores.evictionReaches (h : Stores S log objs) (hS : 2 ≤ S) (hlt : S < 65536)
    (hreach : EvictionReaches log list log') : log'.numEntries ≤ log.numEntries := by
  obtain ⟨logEnd, log₁, freeSpace, hwalk, hrounds⟩ := hreach
  obtain ⟨rfl, rfl⟩ := Prod.mk.inj ((h.getNextEntry_last hS hlt).unique hwalk)
  cases h with
  | holding _ hh => exact (hh.withReadPtr log.ring.writePtr).evict_rounds hrounds
  | fresh hf =>
    have hsame : log' = log.withReadPtr log.ring.writePtr := by
      refine hrounds.invariant (fun s => s.1 = log.withReadPtr log.ring.writePtr) ?_ rfl
      rintro ⟨log₁, free⟩ s' rfl hround
      rw [evictRound, if_neg (by simp [hf.pointers]), Comp.returns_pure] at hround
      cases hround
    exact hsame ▸ Nat.le_refl _

theorem Stores.evict_any (h : Stores S log objs) (hS : 2 ≤ S) (hlt : S < 65536) (total : Nat) :
    (evict log.ring.writePtr total log).Ensures fun log₁ =>
      (∃ tape, Follows log₁.ring tape) ∧ log₁.ring.size = S ∧ log₁.numEntries ≤ log.numEntries ∧
        (log.numEntries ≠ 0 → log₁.numEntries ≠ 0) := by
  cases h with
  | fresh hf =>
    refine (hf.blank.evict log.ring.writePtr total).ensures
      ⟨⟨[], hf.follows (by omega) hlt⟩, ?_, Nat.le_refl _, id⟩
    obtain ⟨r, rfl⟩ := hf
    rfl
  | holding hsize hh =>
    refine (hh.evict total).mono ?_
    rintro log₁ ⟨dropped, kept, bytes, front', hev⟩
    have hobjs := congrArg List.length hev.objs_eq
    rw [List.length_append] at hobjs
    have hcount := hh.count
    have hcount₁ := hev.holding.count
    exact ⟨⟨_, hev.holding.follows⟩, hev.size.trans hsize, by omega, fun _ => by omega⟩

/-- A list whose lengths do not overflow is copied in full, an empty one too. -/
theorem copyScattered_returns {tape : List UInt8} (h : Follows log.ring tape)
    (hS : 2 ≤ log.ring.size) (hlist : IsScatterList list) (hsum : list.flatten.length < 65536) :
    ∃ log', (copyScattered log list list.flatten.length).Returns log' := by
  by_cases hne : list = []
  · subst hne
    exact ⟨log, .loop_exit (Comp.returns_pure.mpr rfl)⟩
  · obtain ⟨enc, henc⟩ := encodes_exists hS tape.length list.flatten
    obtain ⟨log', hret, -⟩ := copyScattered_ensures hS h hlist hne hsum henc
    exact ⟨log', hret⟩

theorem Fresh.write_diverges (h : Fresh 1 log) :
    (objectlogWriteScatteredObject log list).Diverges := by
  rintro ⟨status, log'⟩ hret
  obtain ⟨_, hwalk, -⟩ := Comp.returns_bind.mp hret
  obtain ⟨r, rfl⟩ := h
  refine Comp.loop_diverges (fun log => log = objectlogInit [0] 1) ?_ rfl _ hwalk
  rintro _ rfl o ho
  exact ⟨_, (Comp.returns_pure.mp ho).symm, rfl⟩

theorem Stores.write_diverges (h : Stores S log objs) (hS : 2 ≤ S) (hlt : S < 65536)
    (hlist : IsScatterList list) (hrej : ¬ IsRejected log list)
    (hsum : 65536 ≤ list.flatten.length) :
    (objectlogWriteScatteredObject log list).Diverges := by
  rintro ⟨status, log'⟩ hret
  have hscatter := scatterLen_eq (n := 0) (fun e he => (hlist e he).1) (by decide)
  rw [Nat.zero_add] at hscatter
  obtain ⟨log₁, log₂, hlog₁, hcopy, -⟩ :=
    (h.write_accepts_iff hS hlt (h.isRejected_iff.not.mp hrej)).mp hret
  obtain ⟨⟨tape, hfollows⟩, -⟩ :=
    ((h.withReadPtr log.ring.writePtr).evict_any hS hlt _).of_returns hlog₁
  exact copyScattered_diverges hfollows.pos hfollows.lt hfollows.writePtr_lt hlist
    (by omega) (by omega) _ hcopy

theorem Stores.write_sound (h : Stores S log objs) (hS : 2 ≤ S) (hlt : S < 65536)
    (hlist : IsScatterList list) (hrej : ¬ IsRejected log list)
    (hsum : list.flatten.length < 65536) :
    (objectlogWriteScatteredObject log list).Ensures fun r =>
      r.2.numEntries ≤ log.numEntries + 1 := by
  have hscatter := scatterLen_eq (n := 0) (fun e he => (hlist e he).1) (by decide)
  rw [Nat.zero_add, Nat.mod_eq_of_lt hsum] at hscatter
  obtain ⟨log₁, hlog₁, ⟨tape, hfollows⟩, hsize₁, hcount, -⟩ :=
    (h.withReadPtr log.ring.writePtr).evict_any hS hlt
      (reservedLen S log.ring.writePtr (scatterLen 0 list))
  obtain ⟨log₂, hcopy⟩ := copyScattered_returns hfollows (hsize₁ ▸ hS) hlist hsum
  rw [← hscatter] at hcopy
  refine ⟨_, (h.write_accepts_iff hS hlt (h.isRejected_iff.not.mp hrej)).mpr
    ⟨log₁, log₂, hlog₁, hcopy, rfl⟩, ?_⟩
  have hframe := copyScattered_frame hcopy
  simp only [hframe.2, withReadPtr_numEntries] at hcount ⊢
  unfold u32
  omega

/-- The next write returns unless the 16-bit sum of its lengths is too small. -/
theorem Stores.returnsSoundly_iff (h : Stores S log objs) (hpos : 0 < S) (hlt : S < 65536)
    (hlist : IsScatterList list) :
    ReturnsSoundly log list ↔ 2 ≤ S ∧ (IsRejected log list ∨ list.flatten.length < 65536) := by
  by_cases hS : 2 ≤ S
  · simp only [hS, true_and]
    constructor
    · rintro ⟨⟨r, hret, -⟩, -⟩
      by_contra hbad
      obtain ⟨hrej, hsum⟩ := not_or.mp hbad
      exact h.write_diverges hS hlt hlist hrej (Nat.not_lt.mp hsum) _ hret
    · intro hok
      refine ⟨?_, fun log' => h.evictionReaches hS hlt⟩
      by_cases hrej : IsRejected log list
      · obtain ⟨r, status, -, hret⟩ := h.rejected_step hS hlt hrej
        exact hret.ensures (Nat.le_succ _)
      · exact h.write_sound hS hlt hlist hrej (hok.resolve_left hrej)
  · obtain rfl : S = 1 := by omega
    simp only [hS, false_and, iff_false]
    rintro ⟨⟨r, hret, -⟩, -⟩
    cases h with
    | fresh hf => exact hf.write_diverges _ hret
    | holding hsize' hh => exact absurd hh.two_le (by omega)

theorem HasRoom.returns (h : HasRoom log list) (hlt : log.ring.size < 65536) :
    IsRejected log list ∨ list.flatten.length < 65536 := by
  obtain ⟨-, hrej | ⟨-, hlen, -⟩⟩ := h
  · exact .inl hrej
  · right
    unfold encodedLen at hlen
    omega

/-- In a run whose writes all have room, each returns and the count is that of
the objects that can be read back. From such a state a write of any list
returns with a sound count exactly if the reservation, made in 16 bits, is
refused or the lengths do not overflow. -/
theorem write_returns_iff (hpos : 0 < S) (hlt : S < 65536) {es : List (List ScatterObject × Nat)}
    (hrun : Run (Run.Guarded (fun log e => HasRoom log e.1) WriteStep)
      (objectlogInit (List.replicate S 0) S) es log)
    (hes : ∀ e ∈ es, IsScatterList e.1) :
    Retains log (objectsAccepted es) ∧
      (∀ list, IsScatterList list → HasRoom log list → ReturnsSoundly log list) ∧
      ∀ list, IsScatterList list →
        (ReturnsSoundly log list ↔ 2 ≤ S ∧ (IsRejected log list ∨
          list.flatten.length < 65536)) := by
  obtain ⟨objs, hkeeps⟩ := run_keeps hlt hrun hes
  have hsize := hkeeps.stores.size
  refine ⟨hkeeps.retains hlt, fun list hlist hroom => ?_, fun list hlist =>
    hkeeps.stores.returnsSoundly_iff hpos hlt hlist⟩
  exact (hkeeps.stores.returnsSoundly_iff hpos hlt hlist).mpr
    ⟨hsize ▸ hroom.1, hroom.returns (hsize ▸ hlt)⟩

/-- A ring of eight after three objects, of which the third has taken the first out
and goes on in cell 0. -/
def logEight : Objectlog := ⟨⟨[0x81, 5, 2, 3, 0x81, 9, 1, 4], 4, 2, 8⟩, 4, 6, 2⟩

theorem run_eight : Run (Run.Guarded (fun log e => HasRoom log e.1) WriteStep)
    (objectlogInit (List.replicate 8 0) 8)
    [([[1, 2, 3]], 0), ([[9]], 0), ([[4, 5]], 0)] logEight := by
  have hfirst : HasRoom (objectlogInit (List.replicate 8 0) 8) [[1, 2, 3]] :=
    ⟨by decide, .inr ⟨by decide, by decide, .inl rfl⟩⟩
  have hsecond : HasRoom ⟨⟨[0x83, 1, 2, 3, 0, 0, 0, 0], 0, 4, 8⟩, 0, 0, 1⟩ [[9]] :=
    ⟨by decide, .inr ⟨by decide, by decide, .inr (by unfold FitsBesideNewest; decide)⟩⟩
  have hthird : HasRoom ⟨⟨[0x83, 1, 2, 3, 0x81, 9, 0, 0], 4, 6, 8⟩, 0, 4, 2⟩ [[4, 5]] :=
    ⟨by decide, .inr ⟨by decide, by decide, .inr (by unfold FitsBesideNewest; decide)⟩⟩
  exact ((Run.nil.snoc ⟨hfirst, 12, rfl⟩).snoc ⟨hsecond, 12, rfl⟩).snoc ⟨hthird, 12, rfl⟩

theorem write_returns_iff_eight :
    Retains logEight [[1, 2, 3], [9], [4, 5]] ∧ ReturnsSoundly logEight [[6], [7]] := by
  obtain ⟨hretains, -, hiff⟩ :=
    write_returns_iff (by decide) (by decide) run_eight (by simp [IsScatterList])
  exact ⟨hretains, (hiff [[6], [7]] (by simp [IsScatterList])).mpr ⟨by decide, .inr (by decide)⟩⟩

theorem overflow_hangs (hn : 65533 ≤ n) (hlt : n < 65536) :
    IsScatterList [List.replicate 3 0, List.replicate n 0] ∧
      (objectlogWriteScatteredObject (objectlogInit (List.replicate 2048 0) 2048)
        [List.replicate 3 0, List.replicate n 0]).Diverges := by
  have hlist : IsScatterList [List.replicate 3 0, List.replicate n 0] := by
    intro e he
    rcases List.mem_cons.mp he with rfl | he
    · exact ⟨by decide, by decide⟩
    · rw [List.mem_singleton.mp he, ← List.length_pos_iff, List.length_replicate]
      omega
  have hflat : [List.replicate 3 (0 : UInt8), List.replicate n 0].flatten.length = n + 3 := by simp
  have hsum : scatterLen 0 [List.replicate 3 (0 : UInt8), List.replicate n 0] ≤ 2 := by
    rw [scatterLen_eq (fun e he => (hlist e he).1) (by decide), hflat]
    omega
  have hreserved : ∀ m : Fin 3, reservedLen 2048 0 m ≤ 2048 := by decide
  exact ⟨hlist, (keeps_init 2048).stores.write_diverges (by decide) (by decide) hlist
    (Nat.not_lt.mpr (hreserved ⟨_, Nat.lt_succ_of_le hsum⟩)) (by omega)⟩

/-- A 3-byte header and a payload whose length, computed from an empty text,
wrapped around to 65535. -/
theorem write_hangs :
    IsScatterList [List.replicate 3 0, List.replicate 65535 0] ∧
      (objectlogWriteScatteredObject (objectlogInit (List.replicate 2048 0) 2048)
        [List.replicate 3 0, List.replicate 65535 0]).Diverges :=
  overflow_hangs (by decide) (by decide)

theorem Stores.write_count (h : Stores S log objs) (hS : 2 ≤ S) (hlt : S < 65536)
    (hcount : log.numEntries ≠ 0) (hrej : ¬ IsRejected log list)
    (hstep : WriteStep log (list, n) log') : 2 ≤ log'.numEntries := by
  have hcount_lt := h.count_lt
  obtain ⟨log₁, log₂, hlog₁, hcopy, hresult⟩ :=
    (h.write_accepts_iff hS hlt (h.isRejected_iff.not.mp hrej)).mp hstep
  obtain ⟨-, -, hle, hne⟩ := ((h.withReadPtr log.ring.writePtr).evict_any hS hlt _).of_returns hlog₁
  obtain ⟨-, rfl⟩ := Prod.mk.inj hresult
  have hframe := copyScattered_frame hcopy
  have hpos := hne hcount
  simp only [withReadPtr_numEntries] at hle
  simp only [hframe.2]
  unfold u32
  omega

/-- In a run whose writes all have room, every index reads back the object it
stands for. From such a state an accepted object that does not fit next to the
newest entry never ends up alone: the write does what it should exactly if
there is room, that is if the object fits. -/
theorem write_clears_iff (hlt : S < 65536) {es : List (List ScatterObject × Nat)}
    (hrun : Run (Run.Guarded (fun log e => HasRoom log e.1) WriteStep)
      (objectlogInit (List.replicate S 0) S) es log)
    (hes : ∀ e ∈ es, IsScatterList e.1) :
    Retains log (objectsAccepted es) ∧
      ∀ list log', IsScatterList list → list ≠ [] → log.numEntries ≠ 0 →
        WriteStep log (list, 0) log' →
        ((¬ FitsBesideNewest log list.flatten.length → ConsistsOf log' list.flatten) ↔
          HasRoom log list) := by
  obtain ⟨objs, hkeeps⟩ := run_keeps hlt hrun hes
  have hsize := hkeeps.stores.size
  refine ⟨hkeeps.retains hlt, fun list log' hlist hne hcount hstep => ?_⟩
  have hS : 2 ≤ S := by
    cases hkeeps.stores with
    | fresh hf => exact absurd (hkeeps.stores.count_eq_zero.mpr rfl) hcount
    | holding hsize' hh => exact hsize' ▸ hh.two_le
  have hrej : ¬ IsRejected log list := by
    intro hrej
    obtain ⟨r, status, hstatus, hret⟩ := hkeeps.stores.rejected_step hS hlt hrej
    exact hstatus (Prod.mk.inj (hret.unique hstep)).1
  have htwo := hkeeps.stores.write_count hS hlt hcount hrej hstep
  constructor
  · intro hclear
    by_cases hfits : FitsBesideNewest log list.flatten.length
    · have hle : objectlogSpaceBetween log log.ring.writePtr log.ptrLast ≤ log.ring.size := by
        cases hkeeps.stores with
        | fresh hf => exact absurd (hkeeps.stores.count_eq_zero.mpr rfl) hcount
        | holding _ hh =>
          rw [hh.spaceBesideNewest]
          omega
      exact ⟨hsize ▸ hS, .inr ⟨hne, Nat.le_trans hfits hle, .inr hfits⟩⟩
    · have := (hclear hfits).1
      omega
  · rintro ⟨-, hroom⟩ hfits
    obtain ⟨-, -, hroom⟩ := hroom.resolve_left hrej
    exact absurd (hroom.resolve_left hcount) hfits

/-- One byte fits next to three; four do not, and do not replace them. -/
theorem write_clears_iff_eight :
    let log : Objectlog := ⟨⟨[0x83, 1, 2, 3, 0, 0, 0, 0], 0, 4, 8⟩, 0, 0, 1⟩
    let fits : Objectlog := ⟨⟨[0x83, 1, 2, 3, 0x81, 9, 0, 0], 4, 6, 8⟩, 0, 4, 2⟩
    let fitsNot : Objectlog := ⟨⟨[0x81, 7, 2, 3, 3, 4, 5, 6], 4, 2, 8⟩, 0, 4, 2⟩
    (¬ FitsBesideNewest log 1 → ConsistsOf fits [9]) ∧
      ¬ (¬ FitsBesideNewest log 4 → ConsistsOf fitsNot [4, 5, 6, 7]) := by
  intro log fits fitsNot
  have hrun : Run (Run.Guarded (fun log e => HasRoom log e.1) WriteStep)
      (objectlogInit (List.replicate 8 0) 8) [([[1, 2, 3]], 0)] log :=
    Run.nil.snoc ⟨⟨by decide, .inr ⟨by decide, by decide, .inl rfl⟩⟩, 12, rfl⟩
  obtain ⟨-, hiff⟩ := write_clears_iff (by decide) hrun (by simp [IsScatterList])
  have hfits : WriteStep ⟨⟨[0x83, 1, 2, 3, 0, 0, 0, 0], 0, 4, 8⟩, 0, 0, 1⟩ ([[9]], 0)
      ⟨⟨[0x83, 1, 2, 3, 0x81, 9, 0, 0], 4, 6, 8⟩, 0, 4, 2⟩ := ⟨12, rfl⟩
  have hfitsNot : WriteStep ⟨⟨[0x83, 1, 2, 3, 0, 0, 0, 0], 0, 4, 8⟩, 0, 0, 1⟩ ([[4, 5, 6, 7]], 0)
      ⟨⟨[0x81, 7, 2, 3, 3, 4, 5, 6], 4, 2, 8⟩, 0, 4, 2⟩ := ⟨12, rfl⟩
  have hone := hiff [[9]] fits (by simp [IsScatterList]) (by decide) (by decide) hfits
  have hfour :=
    hiff [[4, 5, 6, 7]] fitsNot (by simp [IsScatterList]) (by decide) (by decide) hfitsNot
  constructor
  · exact hone.mpr
      ⟨by decide, .inr ⟨by decide, by decide, .inr (by unfold FitsBesideNewest; decide)⟩⟩
  · intro hclears
    have hroom : ¬ HasRoom log [[4, 5, 6, 7]] := by
      unfold HasRoom IsRejected FitsBesideNewest
      decide
    exact hroom (hfour.mp hclears)

/-- Four bytes after three in a ring of eight: the first entry is overwritten
in part and stays listed. -/
theorem write_over_newest :
    ∃ log log', Run WriteStep (objectlogInit (List.replicate 8 0) 8) [([[1, 2, 3]], 0)] log ∧
      WriteStep log ([[4, 5, 6, 7]], 0) log' ∧ ¬ FitsBesideNewest log 4 ∧
      ¬ ConsistsOf log' [4, 5, 6, 7] ∧ log'.numEntries = 2 ∧
      (objectlogIterator log' 0).Returns (0, log') ∧ ReadsBack log' 0 [7] := by
  refine ⟨_, ⟨⟨[0x81, 7, 2, 3, 3, 4, 5, 6], 4, 2, 8⟩, 0, 4, 2⟩, Run.nil.snoc ⟨12, rfl⟩, ⟨12, rfl⟩,
    by unfold FitsBesideNewest; decide, fun h => absurd h.1 (by decide), rfl, ⟨12, rfl⟩, ?_⟩
  exact ⟨[(1, 1)], ⟨12, rfl⟩, rfl, by decide⟩

end FxIP
