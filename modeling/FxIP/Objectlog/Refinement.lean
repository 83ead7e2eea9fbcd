import FxIP.Lib.Run
import FxIP.Objectlog.Write

/-!
# The log is a FIFO of byte strings

`LogStep` is one call on a log, of any of the functions, with its result. Over
runs from `objectlog_init` on zeroed storage, with objects that take at most
half of the ring, the log holds the newest of the objects written: `Stores` is
the simulation, `Retains` what a reader sees of it.
-/

namespace FxIP

variable {S n : Nat} {objs written : List (List UInt8)} {obj newest : List UInt8}
variable {old front enc : List UInt8} {log log' : Objectlog} {list : List ScatterObject}

-- ---------------------------------------------------------------------------
-- Calls
-- ---------------------------------------------------------------------------

inductive LogCall
  | writeScatteredObject (list : List ScatterObject)
  | writeObject (data : List UInt8)
  | iterator (objectIdx : Int)
  | getFragment (iterator : Int)
  | next (iterator : Int)
  | getObjectSize (objectIdx : Int)

inductive LogResult
  | status (n : Nat)
  | iterator (it : Int)
  | fragment (f : Option (Nat × Nat))
  | size (n : Int)

def LogCall.exec (log : Objectlog) : LogCall → Comp (LogResult × Objectlog)
  | .writeScatteredObject list => do
    let (status, log) ← objectlogWriteScatteredObject log list
    pure (.status status, log)
  | .writeObject data => do
    let (status, log) ← objectlogWriteObject log data
    pure (.status status, log)
  | .iterator objectIdx => do
    let (it, log) ← objectlogIterator log objectIdx
    pure (.iterator it, log)
  | .getFragment it => pure (.fragment (objectlogGetFragment log it), log)
  | .next it => pure (.iterator (objectlogNext log it), log)
  | .getObjectSize objectIdx => do
    let (size, log) ← objectlogGetObjectSize log objectIdx
    pure (.size size, log)

def LogStep (log : Objectlog) (e : LogCall × LogResult) (log' : Objectlog) : Prop :=
  (e.1.exec log).Returns (e.2, log')

def LogCall.object : LogCall → Option (List UInt8)
  | .writeScatteredObject list => some list.flatten
  | .writeObject data => some data
  | _ => none

def objectsWritten (es : List (LogCall × LogResult)) : List (List UInt8) :=
  es.filterMap (·.1.object)

/-- The encoded size of an object of `n` bytes wherever it is written. -/
def worstCaseLen (n : Nat) : Nat := n + DIV_ROUND_UP n MAX_FRAGMENT_LEN + 1

/-- Calls with an `int` for an index and a non-empty object of at most half
the ring; a scatter list ends at its first empty entry. -/
def LogCall.Bounded (S : Nat) : LogCall → Prop
  | .writeScatteredObject list =>
    list ≠ [] ∧ (∀ e ∈ list, e ≠ []) ∧ 2 * worstCaseLen list.flatten.length ≤ S
  | .writeObject data => data ≠ [] ∧ 2 * worstCaseLen data.length ≤ S
  | .iterator objectIdx => IsInt objectIdx
  | .getObjectSize objectIdx => IsInt objectIdx
  | .getFragment _ => True
  | .next _ => True

-- ---------------------------------------------------------------------------
-- What a reader and a writer see
-- ---------------------------------------------------------------------------

/-- The log holds exactly the last `numEntries` of the objects written, oldest
first, and the newest is one of them. -/
structure Retains (log : Objectlog) (written : List (List UInt8)) : Prop where
  le : log.numEntries ≤ written.length
  newest : written ≠ [] → 0 < log.numEntries
  entries : ∀ i < log.numEntries, ∃ obj it log',
    written[written.length - log.numEntries + i]? = some obj ∧
    (objectlogIterator log i).Returns (it, log') ∧ ReadsBack log' it obj ∧
    (objectlogGetObjectSize log i).Ensures fun r => r.1 = obj.length

/-- From `log` to `log'`, in which one object was written, an entry was dropped
only where the free space without that was less than the space reserved. -/
def DropsForSpace (log log' : Objectlog) (n : Nat) : Prop :=
  ∀ j, j + log'.numEntries < log.numEntries + 1 → ∃ p logⱼ,
    (objectlogIterator log j).Returns ((p : Nat), logⱼ) ∧
    objectlogSpaceBetween log log.ring.writePtr p < reservedLen log.ring.size log.ring.writePtr n

-- ---------------------------------------------------------------------------
-- One call
-- ---------------------------------------------------------------------------

theorem EncodesAll.length_lt {w : Nat} {bytes : List UInt8} (h : EncodesAll S w objs bytes)
    (hobj : obj ∈ objs) : obj.length < bytes.length := by
  induction h with
  | nil => simp at hobj
  | cons _ henc _ ih =>
    have hlt := henc.data_lt
    rw [List.length_append]
    rcases List.mem_cons.mp hobj with rfl | hmem
    · omega
    · have := ih hmem
      omega

theorem Stores.length_lt (h : Stores S log objs) (hobj : obj ∈ objs) : obj.length < S := by
  cases h with
  | fresh _ => simp at hobj
  | holding hS hh => exact hS ▸ Nat.lt_of_lt_of_le (hh.all.length_lt hobj) hh.window

theorem Stores.storage (h : Stores S log objs) : log.ring.buffer.length = log.ring.size := by
  cases h with
  | fresh hf =>
    obtain ⟨r, rfl⟩ := hf
    exact List.length_replicate
  | holding _ hh => exact hh.follows.length

theorem Stores.getObjectSize (h : Stores S log objs) (hS : S < 65536) {objectIdx : Int}
    (hint : IsInt objectIdx) :
    (objectlogGetObjectSize log objectIdx).Ensures fun r => (∃ p, r.2 = log.withReadPtr p) ∧
      ∀ i obj, resolveIdx objs.length objectIdx = some i → objs[i]? = some obj →
        r.1 = obj.length := by
  unfold objectlogGetObjectSize
  rw [Comp.ensures_bind]
  cases hidx : resolveIdx objs.length objectIdx with
  | none =>
    refine (h.iterator_none hint hidx).ensures ?_
    simp only [show ((-1 : Int) < 0) from by decide, ↓reduceIte, Comp.ensures_pure]
    exact ⟨⟨log.ring.readPtr, rfl⟩, by simp⟩
  | some i =>
    have hobj := List.getElem?_eq_getElem (resolveIdx_lt hidx)
    obtain ⟨p, r, hret, hstored⟩ := h.iterator_some hint hidx hobj
    refine hret.ensures ?_
    have hlt := h.length_lt (List.mem_of_getElem? hobj)
    have hsize := (hstored.withReadPtr r).objectSize 0 (by omega)
    simp only
    rw [if_neg (by omega), Comp.ensures_bind]
    refine hsize.ensures ?_
    rw [Comp.ensures_pure]
    refine ⟨⟨r, rfl⟩, fun i' obj hi hobj' => ?_⟩
    obtain rfl := Option.some.inj hi
    rw [hobj] at hobj'
    rw [← Option.some.inj hobj', Nat.zero_add]

theorem Stores.iterator_last (h : Stores S log (objs ++ [newest])) :
    ∃ r, (objectlogIterator log objs.length).Returns (log.ptrLast, log.withReadPtr r) ∧
      ChainAt log.ring log.ptrLast newest := by
  have hlt := h.count_lt
  have hcount := h.count
  rw [List.length_append, List.length_singleton] at hcount
  generalize hall : objs ++ [newest] = all at h
  cases h with
  | fresh _ => simp at hall
  | @holding objs' newest' old front enc _ hh =>
    obtain ⟨rfl, hnewest⟩ := List.append_inj' hall rfl
    obtain rfl := List.singleton_inj.mp hnewest
    obtain ⟨b₁, -, r, -, hb, hret, hstored⟩ := hh.skipEntries
      (show objs ++ [newest] = objs ++ newest :: [] from rfl)
    obtain rfl := hb.unique hh.older
    rw [← List.length_append, ← hh.last] at hret hstored
    refine ⟨r, ?_, hstored⟩
    rw [objectlogIterator_eq (by unfold IsInt; omega) hlt, resolveIdx_natCast (by omega)]
    rw [hret.bind_iff, Comp.returns_pure]

theorem Stores.writePtr_inside (h : Stores S log (objs ++ [newest]))
    (hin : log.ptrLast + (newest.length + DIV_ROUND_UP newest.length MAX_FRAGMENT_LEN) ≤ S) :
    log.ring.writePtr =
      (log.ptrLast + (newest.length + DIV_ROUND_UP newest.length MAX_FRAGMENT_LEN)) % S := by
  generalize hall : objs ++ [newest] = all at h
  cases h with
  | fresh _ => simp at hall
  | @holding objs' newest' old front enc hS hh =>
    obtain ⟨rfl, hnewest⟩ := List.append_inj' hall rfl
    obtain rfl := List.singleton_inj.mp hnewest
    subst hS
    have hlen := hh.newest.length_inside hh.follows.pos hh.newest_ne (hh.last ▸ hin)
    rw [hh.follows.write, hh.last, List.length_append, Nat.mod_add_mod, hlen]

theorem Holding.fitsBesideNewest (h : Holding log objs newest old front enc)
    (hnewest : 2 * worstCaseLen newest.length ≤ log.ring.size)
    (hn : 2 * worstCaseLen n ≤ log.ring.size) : FitsBesideNewest log n := by
  have hle := h.newest.length_le h.follows.pos h.newest_ne
    (by unfold worstCaseLen at hnewest; omega)
  have hworst := encodedLen_le log.ring.size ((old ++ front).length % log.ring.size) newest.length
  have hnew := encodedLen_le log.ring.size log.ring.writePtr n
  unfold worstCaseLen at hnewest hn
  rw [FitsBesideNewest, h.spaceBesideNewest]
  omega

theorem Stores.write_half (h : Stores S log objs) (list : List ScatterObject) (hlt : S < 65536)
    (hobjs : ∀ obj ∈ objs, 2 * worstCaseLen obj.length ≤ S) (hentries : ∀ e ∈ list, e ≠ [])
    (hne : list ≠ []) (hlen : 2 * worstCaseLen list.flatten.length ≤ S) :
    (objectlogWriteScatteredObject log list).Ensures fun r =>
      r.1 = 0 ∧ Written S log objs list.flatten r.2 := by
  have hle := encodedLen_le S log.ring.writePtr list.flatten.length
  have hsub : ∀ e ∈ list, e.length ≤ list.flatten.length := fun e he =>
    (List.sublist_flatten_of_mem he).length_le
  unfold worstCaseLen at hlen
  refine h.write (by omega) hlt (fun e he => ⟨hentries e he, by have := hsub e he; omega⟩) hne
    (by omega) ?_
  cases h with
  | fresh _ => exact .inl rfl
  | @holding objs newest _ _ _ hS hh =>
    have hnewest := hobjs newest (by simp)
    exact .inr (hh.fitsBesideNewest (hS ▸ hnewest) (by unfold worstCaseLen; omega))

theorem LogCall.exec_spec {call : LogCall} (h : Stores S log objs) (hlt : S < 65536)
    (hobjs : ∀ obj ∈ objs, 2 * worstCaseLen obj.length ≤ S) (hcall : call.Bounded S) :
    (call.exec log).Ensures fun r =>
      match call.object with
      | none => ∃ p, r.2 = log.withReadPtr p
      | some data => r.1 = .status 0 ∧ 2 * worstCaseLen data.length ≤ S ∧
          Written S log objs data r.2 := by
  cases call with
  | writeScatteredObject list =>
    obtain ⟨hne, hentries, hlen⟩ := hcall
    rw [exec, Comp.ensures_bind]
    refine (h.write_half _ hlt hobjs hentries hne hlen).mono ?_
    rintro ⟨status, log'⟩ ⟨rfl, hwritten⟩
    exact Comp.ensures_pure.mpr ⟨rfl, hlen, hwritten⟩
  | writeObject data =>
    obtain ⟨hne, hlen⟩ := hcall
    have hflat : [data].flatten = data := by simp
    rw [exec, objectlogWriteObject, Comp.ensures_bind]
    refine (h.write_half [data] hlt hobjs (by simpa using hne) (by simp)
      (by rw [hflat]; exact hlen)).mono ?_
    rintro ⟨status, log'⟩ ⟨rfl, hwritten⟩
    rw [hflat] at hwritten
    exact Comp.ensures_pure.mpr ⟨rfl, hlen, hwritten⟩
  | iterator objectIdx =>
    rw [exec, Comp.ensures_bind]
    cases hidx : resolveIdx objs.length objectIdx with
    | none =>
      refine (h.iterator_none hcall hidx).ensures ?_
      exact Comp.ensures_pure.mpr ⟨log.ring.readPtr, rfl⟩
    | some i =>
      obtain ⟨p, r, hret, -⟩ :=
        h.iterator_some hcall hidx (List.getElem?_eq_getElem (resolveIdx_lt hidx))
      exact hret.ensures (Comp.ensures_pure.mpr ⟨r, rfl⟩)
  | getFragment it => exact Comp.ensures_pure.mpr ⟨log.ring.readPtr, rfl⟩
  | next it => exact Comp.ensures_pure.mpr ⟨log.ring.readPtr, rfl⟩
  | getObjectSize objectIdx =>
    rw [exec, Comp.ensures_bind]
    refine (h.getObjectSize hlt hcall).mono ?_
    rintro ⟨size, log'⟩ ⟨hlog, -⟩
    exact Comp.ensures_pure.mpr hlog

-- ---------------------------------------------------------------------------
-- Runs
-- ---------------------------------------------------------------------------

/-- The simulation: the log stores the last of the objects written. -/
structure Keeps (S : Nat) (log : Objectlog) (written objs : List (List UInt8)) : Prop where
  stores : Stores S log objs
  suffix : objs <:+ written
  newest : written ≠ [] → objs ≠ []

theorem keeps_init (S : Nat) : Keeps S (objectlogInit (List.replicate S 0) S) [] [] :=
  ⟨.fresh ⟨0, rfl⟩, List.suffix_rfl, fun h => absurd rfl h⟩

theorem Keeps.withReadPtr (h : Keeps S log written objs) (r : Nat) :
    Keeps S (log.withReadPtr r) written objs :=
  ⟨h.stores.withReadPtr r, h.suffix, h.newest⟩

theorem Keeps.append {data : List UInt8} (h : Keeps S log written objs)
    (hw : Written S log objs data log') :
    ∃ kept, kept <:+ objs ∧ Keeps S log' (written ++ [data]) (kept ++ [data]) := by
  obtain ⟨dropped, kept, rfl, hstores, -⟩ := hw
  obtain ⟨init, hinit⟩ := h.suffix
  exact ⟨kept, List.suffix_append _ _, hstores, ⟨init ++ dropped, by simp [← hinit]⟩, by simp⟩

theorem Keeps.retains (h : Keeps S log written objs) (hlt : S < 65536) : Retains log written := by
  have hcount := h.stores.count
  have hcount_lt := h.stores.count_lt
  obtain ⟨init, rfl⟩ := h.suffix
  refine ⟨by simp [hcount], fun hne => ?_, fun i hi => ?_⟩
  · rw [hcount]
    exact List.length_pos_iff.mpr (h.newest hne)
  · have hi' : i < objs.length := hcount ▸ hi
    have hidx : resolveIdx objs.length (i : Int) = some i := resolveIdx_natCast hi'
    have hobj := List.getElem?_eq_getElem hi'
    have hint : IsInt (i : Int) := by unfold IsInt; omega
    obtain ⟨p, r, hret, hstored⟩ := h.stores.iterator_some hint hidx hobj
    refine ⟨objs[i], p, log.withReadPtr r, ?_, hret, ?_, ?_⟩
    · rw [hcount, List.length_append, Nat.add_sub_cancel, List.getElem?_append_right (by omega),
        Nat.add_sub_cancel_left, hobj]
    · exact (hstored.withReadPtr r).readsBack (h.stores.withReadPtr r).storage
    · exact (h.stores.getObjectSize hlt hint).mono fun _ hr => hr.2 i objs[i] hidx hobj

theorem Written.dropsForSpace {data : List UInt8} (h : Stores S log objs)
    (hw : Written S log objs data log') : DropsForSpace log log' data.length := by
  obtain ⟨dropped, kept, rfl, hstores, -, -, hspace⟩ := hw
  intro j hj
  rw [h.count, hstores.count] at hj
  simp only [List.length_append, List.length_singleton] at hj
  obtain ⟨p, r, hret, hlt⟩ := hspace j (by omega)
  exact ⟨p, _, hret, by rw [h.size]; exact hlt⟩

/-- In a run of bounded calls every object stored takes at most half the ring. -/
structure Simulates (S : Nat) (log : Objectlog) (written objs : List (List UInt8)) : Prop
    extends Keeps S log written objs where
  half : ∀ obj ∈ objs, 2 * worstCaseLen obj.length ≤ S

theorem Simulates.append {data : List UInt8} (h : Simulates S log written objs)
    (hdata : 2 * worstCaseLen data.length ≤ S) (hw : Written S log objs data log') :
    ∃ objs', Simulates S log' (written ++ [data]) objs' := by
  obtain ⟨kept, hkept, hkeeps⟩ := h.toKeeps.append hw
  refine ⟨kept ++ [data], hkeeps, fun obj hmem => ?_⟩
  rcases List.mem_append.mp hmem with hold | hnew
  · exact h.half obj (hkept.subset hold)
  · rwa [List.mem_singleton.mp hnew]

theorem Simulates.step {e : LogCall × LogResult} (h : Simulates S log written objs)
    (hlt : S < 65536) (hcall : e.1.Bounded S) (hstep : LogStep log e log') :
    (∃ objs', Simulates S log' (written ++ (e.1.object).toList) objs') ∧
      (e.1.object ≠ none → e.2 = .status 0) := by
  have hspec := (LogCall.exec_spec h.stores hlt h.half hcall).of_returns hstep
  cases hobj : e.1.object with
  | none =>
    rw [hobj] at hspec
    obtain ⟨p, hp⟩ := hspec
    obtain rfl : log' = log.withReadPtr p := hp
    exact ⟨⟨objs, by simpa using h.toKeeps.withReadPtr p, h.half⟩, by simp⟩
  | some data =>
    rw [hobj] at hspec
    obtain ⟨hstatus, hdata, hw⟩ := hspec
    exact ⟨h.append hdata hw, fun _ => hstatus⟩

theorem run_simulates (hlt : S < 65536) {es : List (LogCall × LogResult)}
    (hrun : Run LogStep (objectlogInit (List.replicate S 0) S) es log)
    (hes : ∀ e ∈ es, e.1.Bounded S) :
    (∃ objs, Simulates S log (objectsWritten es) objs) ∧
      ∀ e ∈ es, e.1.object ≠ none → e.2 = .status 0 := by
  induction hrun with
  | nil => exact ⟨⟨[], keeps_init S, by simp⟩, by simp⟩
  | @snoc es t e u _ hstep ih =>
    obtain ⟨⟨objs, hsim⟩, hstatus⟩ := ih fun e he => hes e (by simp [he])
    obtain ⟨⟨objs', hsim'⟩, hlast⟩ := hsim.step hlt (hes e (by simp)) hstep
    refine ⟨⟨objs', ?_⟩, ?_⟩
    · convert hsim' using 1
      cases hobj : e.1.object <;> simp [objectsWritten, hobj]
    · intro e' he'
      rcases List.mem_append.mp he' with hmem | hmem
      · exact hstatus e' hmem
      · rw [List.mem_singleton.mp hmem]
        exact hlast

/-- In every run the log is the FIFO of the objects written, every write
succeeds, and whatever is called next returns. -/
theorem objectlog_refines_fifo (hlt : S < 65536) {es : List (LogCall × LogResult)}
    (hrun : Run LogStep (objectlogInit (List.replicate S 0) S) es log)
    (hes : ∀ e ∈ es, e.1.Bounded S) :
    Retains log (objectsWritten es) ∧ (∀ e ∈ es, e.1.object ≠ none → e.2 = .status 0) ∧
      ∀ call : LogCall, call.Bounded S → ∃ result log', LogStep log (call, result) log' ∧
        ∀ data, call.object = some data → result = .status 0 ∧
          DropsForSpace log log' data.length := by
  obtain ⟨⟨objs, hsim⟩, hstatus⟩ := run_simulates hlt hrun hes
  refine ⟨hsim.toKeeps.retains hlt, hstatus, fun call hcall => ?_⟩
  obtain ⟨⟨result, log'⟩, hret, hspec⟩ := LogCall.exec_spec hsim.stores hlt hsim.half hcall
  refine ⟨result, log', hret, fun data hdata => ?_⟩
  rw [hdata] at hspec
  exact ⟨hspec.1, hspec.2.2.dropsForSpace hsim.stores⟩

theorem objectlog_refines_fifo_eight :
    Retains ⟨⟨[0x81, 11, 0x81, 8, 0x81, 9, 0x81, 10], 2, 2, 8⟩, 2, 0, 4⟩
      [[7], [8], [9], [10], [11]] :=
  have hrun : Run LogStep (objectlogInit (List.replicate 8 0) 8) _ _ :=
    ((((Run.nil.snoc (e := (.writeObject [7], .status 0)) ⟨12, rfl⟩).snoc
      (e := (.writeObject [8], .status 0)) ⟨12, rfl⟩).snoc
      (e := (.writeObject [9], .status 0)) ⟨12, rfl⟩).snoc
      (e := (.writeObject [10], .status 0)) ⟨12, rfl⟩).snoc
      (e := (.writeObject [11], .status 0)) ⟨12, rfl⟩
  (objectlog_refines_fifo (by decide) hrun
    (by simp [LogCall.Bounded, worstCaseLen, DIV_ROUND_UP, MAX_FRAGMENT_LEN])).1

end FxIP
