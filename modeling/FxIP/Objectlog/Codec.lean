import FxIP.Objectlog.Read

/-!
# Encoding and reading back

The copy loop from any write position, with the cells that it stores to. They
are those of its fragments in order, no cell comes twice, and reading from the
first gives the object.
-/

namespace FxIP

open Circular

variable {ring : Ringbuffer} {log log₀ : Objectlog} {s : CopyState}
  {tape pre rem out data enc frag hdr block : List UInt8} {list : List ScatterObject}

-- ---------------------------------------------------------------------------
-- The cells stored to
-- ---------------------------------------------------------------------------

/-- The cells that `ringbuffer_write` stores to. -/
def ringbufferWriteCells (ring : Ringbuffer) (data : List UInt8) : List Nat :=
  if (ring.size : Int) - ring.writePtr < data.length then
    let data8 := if data.length > ring.size then data.drop (data.length - ring.size) else data
    let room := ring.size - ring.writePtr
    List.range' ring.writePtr (data8.take room).length ++ List.range' 0 (data8.drop room).length
  else List.range' ring.writePtr data.length

/-- The cells that a round of the copy loop stores to. -/
def roundCells (s : CopyState) : List Nat :=
  (if s.fragmentOffset = 0 then [s.log.ring.writePtr] else []) ++
    ringbufferWriteCells (roundOpened s).ring (s.data8.take (roundLen s))

/-- The copy loop with the cells that it stores to. -/
def copyCells (log : Objectlog) (scatterList : List ScatterObject) (dataLen : Nat) :
    Comp (List Nat × Objectlog) :=
  Comp.loop (fun (s, cells) => pure (match copyRound s with
    | .inl s' => .inl (s', cells ++ roundCells s)
    | .inr log => .inr (cells, log))) ({
      log, scList := scatterList, data8 := scatterList.headD [], dataLen
      scatterEntryOffset := 0, fragmentOffset := 0, fragmentLen := 0 }, [])

theorem ringbufferWrite_frame {i : Nat} (hi : i ∉ ringbufferWriteCells ring data) :
    (ringbufferWrite ring data).buffer[i]? = ring.buffer[i]? := by
  rw [ringbufferWriteCells] at hi
  rw [ringbufferWrite]
  dsimp only at hi ⊢
  split
  · next hwrap =>
    rw [if_pos hwrap, List.mem_append, not_or] at hi
    exact (getElem?_overwrite_outside hi.2).trans (getElem?_overwrite_outside hi.1)
  · next hfit =>
    rw [if_neg hfit] at hi
    exact getElem?_overwrite_outside hi

theorem copyNext_frame {i : Nat} (hi : i ∉ roundCells s) :
    (copyNext s).log.ring.buffer[i]? = s.log.ring.buffer[i]? := by
  rw [roundCells, List.mem_append, not_or] at hi
  refine (ringbufferWrite_frame hi.2).trans ?_
  rw [roundOpened]
  split
  · next h0 =>
    rw [if_pos h0, List.mem_singleton] at hi
    exact List.getElem?_set_ne (Ne.symm hi.1)
  · rfl

theorem RoundWrites.cells (h : RoundWrites log₀ s tape hdr block)
    (hfollows : Follows s.log.ring tape) (hsize : s.log.ring.size = log₀.ring.size) :
    roundCells s = cellsOf log₀.ring.size tape.length (hdr ++ block).length := by
  have hfits := h.fits
  have hopened := h.opened.write
  rw [h.size] at hopened
  have hblock : ringbufferWriteCells (roundOpened s).ring block =
      cellsOf log₀.ring.size (tape.length + hdr.length) block.length := by
    rw [List.length_append] at hopened hfits
    rw [ringbufferWriteCells, if_neg (by rw [h.size, hopened]; omega), hopened,
      cellsOf_inside hfits]
  rw [List.length_append, cellsOf_add, roundCells, h.copied, hblock, h.header]
  congr 1
  by_cases h0 : s.fragmentOffset = 0
  · rw [if_pos h0, if_pos h0, hfollows.write, hsize]
    rfl
  · rw [if_neg h0, if_neg h0]
    rfl

theorem copyCells_ensures (hS : 2 ≤ log.ring.size) (h : Follows log.ring tape)
    (hentries : ∀ e ∈ list, e ≠ [] ∧ e.length < 65536) (hne : list ≠ [])
    (hlt : list.flatten.length < 65536)
    (henc : Encodes log.ring.size tape.length list.flatten enc) :
    (copyCells log list list.flatten.length).Ensures fun (cells, log') =>
      Follows log'.ring (tape ++ enc) ∧ log'.ring.size = log.ring.size ∧
        cells = cellsOf log.ring.size tape.length enc.length ∧
        ∀ i ∉ cells, log'.ring.buffer[i]? = log.ring.buffer[i]? := by
  refine Comp.loop_ensures
    (fun (s, cells) => ∃ done rem out, CopyInv log s (tape ++ done) rem out ∧ done ++ out = enc ∧
      cells = cellsOf log.ring.size tape.length done.length ∧
      ∀ i ∉ cells, s.log.ring.buffer[i]? = log.ring.buffer[i]?)
    (fun (s, _) => copyMeasure s) _ ?_ ?_
  · rintro ⟨s, cells⟩ ⟨done, rem, out, hinv, hdone, hcells, hframe⟩
    rw [Comp.ensures_pure]
    by_cases hsc : s.scList = []
    · rw [hinv.out_nil hsc, List.append_nil] at hdone
      have hround : copyRound s = .inr s.log := by simp [copyRound, hsc]
      rw [hround, ← hdone]
      exact ⟨hinv.follows, hinv.size, hcells, hframe⟩
    · obtain ⟨hdr, block, rem', out', hwrites, hinv', happ⟩ := hinv.next hsc
      rw [hinv.round hsc]
      refine ⟨⟨done ++ (hdr ++ block), rem', out', by simpa using hinv', ?_, ?_, fun i hi => ?_⟩,
        hinv.measure_lt hS hsc⟩
      · rw [← hdone]
        simpa using happ
      · have hlength : (done ++ (hdr ++ block)).length = done.length + (hdr ++ block).length :=
          List.length_append
        rw [hwrites.cells hinv.follows hinv.size, hcells, hlength, cellsOf_add, List.length_append]
      · rw [List.mem_append, not_or] at hi
        exact (copyNext_frame hi.2).trans (hframe i hi.1)
  · exact ⟨[], list.flatten,
      enc, by simpa using CopyInv.init h hentries hne hlt henc, rfl, rfl, fun _ _ => rfl⟩

theorem copyCells_log {dataLen : Nat} {cells : List Nat} {log' : Objectlog}
    (h : (copyCells log list dataLen).Returns (cells, log')) :
    (copyScattered log list dataLen).Returns log' := by
  refine Comp.Returns.loop_forget Prod.fst Prod.snd ?_ h
  rintro ⟨s, cells⟩ o ho
  rw [Comp.returns_pure] at ho ⊢
  rw [← ho]
  cases copyRound s <;> rfl

-- ---------------------------------------------------------------------------
-- The fragments
-- ---------------------------------------------------------------------------

/-- The cells are those of a chain of fragments from cell `p` on, in order. Only
the last fragment is marked as final. -/
inductive Emitted (ring : Ringbuffer) : Nat → List UInt8 → List Nat → Prop
  | last {p frag} : FragmentAt ring p frag true →
      Emitted ring p frag (List.range' p (1 + frag.length))
  | more {p frag rest cells} : FragmentAt ring p frag false →
      Emitted ring ((p + 1 + frag.length) % ring.size) rest cells →
      Emitted ring p (frag ++ rest) (List.range' p (1 + frag.length) ++ cells)

theorem Follows.emitted (h : Follows ring tape) (henc : Encodes ring.size pre.length data enc)
    (htape : tape = pre ++ enc) (hwin : tape.length ≤ pre.length + ring.size) :
    Emitted ring (pre.length % ring.size) data (cellsOf ring.size pre.length enc.length) := by
  have hroom (w : Nat) := fragmentRoom_fits (w := w) h.pos
  generalize hw : pre.length = w at henc
  induction henc generalizing pre with
  | @last w data hfit =>
    subst hw
    have hfrag := h.fragmentAt true pre data [] (by simpa using htape) hwin hfit
    have hcells : cellsOf ring.size pre.length (1 + data.length) =
        List.range' (pre.length % ring.size) (1 + data.length) :=
      cellsOf_inside (by have := hfrag.fits; omega)
    rw [List.length_cons, Nat.add_comm data.length, hcells]
    exact .last hfrag
  | @more w data rest hlt hrest ih =>
    subst hw
    have htake : (data.take (fragmentRoom ring.size pre.length)).length =
        fragmentRoom ring.size pre.length :=
      List.length_take_of_le (by omega)
    have hfrag := h.fragmentAt false pre (data.take (fragmentRoom ring.size pre.length)) rest
      (by rw [htake, htape]; simp) hwin (Nat.le_of_eq htake)
    have hnext : (pre ++ fragmentHdr (fragmentRoom ring.size pre.length) false ::
        data.take (fragmentRoom ring.size pre.length)).length = pre.length + 1 + fragmentRoom
            ring.size pre.length := by
      rw [List.length_append, List.length_cons, htake]
      omega
    have hemitted : Emitted ring ((pre.length + 1 + fragmentRoom ring.size pre.length) % ring.size)
        (data.drop (fragmentRoom ring.size pre.length)) (cellsOf ring.size _ rest.length) :=
      ih (by rw [htape]; simp) (by omega) hnext
    have hcells : cellsOf ring.size pre.length (1 + fragmentRoom ring.size pre.length) =
        List.range' (pre.length % ring.size) (1 + fragmentRoom ring.size pre.length) :=
      cellsOf_inside (by have := hroom pre.length; omega)
    have hlength : (fragmentHdr (fragmentRoom ring.size pre.length) false ::
        (data.take (fragmentRoom ring.size pre.length) ++ rest)).length =
        1 + fragmentRoom ring.size pre.length + rest.length := by
      rw [List.length_cons, List.length_append, htake]
      omega
    have hcell : (pre.length % ring.size + 1 + fragmentRoom ring.size pre.length) % ring.size =
        (pre.length + 1 + fragmentRoom ring.size pre.length) % ring.size := by
      simp only [Nat.add_assoc, Nat.mod_add_mod]
    have hmore : Emitted ring _ (data.take _ ++ data.drop _) (List.range' _ _ ++ _) :=
      .more hfrag (by rw [htake, hcell]; exact hemitted)
    rw [List.take_append_drop, htake, ← hcells] at hmore
    rw [hlength, cellsOf_add, ← Nat.add_assoc]
    exact hmore

-- ---------------------------------------------------------------------------
-- The round trip
-- ---------------------------------------------------------------------------

/-- The most ring bytes that an object of `n` bytes takes. -/
def mostBytes (n : Nat) : Nat := n + DIV_ROUND_UP n MAX_FRAGMENT_LEN + 1

/-- From any write position and whatever the ring held, an object that may fill
the ring is stored in one chain of fragments, each cell once and no other cell,
and read back. -/
theorem codec_round_trip (hlength : log.ring.buffer.length = log.ring.size)
    (hlt : log.ring.size < 65536)
    (hw : log.ring.writePtr < log.ring.size) (hentries : ∀ e ∈ list, e ≠ []) (hne : list ≠ [])
    (hfit : mostBytes list.flatten.length ≤ log.ring.size) :
    ∃ cells log', (copyScattered log list list.flatten.length).Returns log' ∧
      (copyCells log list list.flatten.length).Returns (cells, log') ∧
      Emitted log'.ring log.ring.writePtr list.flatten cells ∧
      cells.length ≤ mostBytes list.flatten.length ∧ cells.Nodup ∧
      (∀ i ∉ cells, log'.ring.buffer[i]? = log.ring.buffer[i]?) ∧
      ReadsBack log' log.ring.writePtr list.flatten := by
  have hfollows := follows_self hlength hlt hw
  have hshort : ∀ e ∈ list, e ≠ [] ∧ e.length < 65536 := by
    intro e he
    have hle := (List.sublist_flatten_of_mem he).length_le
    refine ⟨hentries e he, ?_⟩
    unfold mostBytes at hfit
    omega
  have hdata : list.flatten ≠ [] := by
    obtain ⟨e, es, rfl⟩ := List.exists_cons_of_ne_nil hne
    simp [hentries e (by simp)]
  have hpos := List.length_pos_iff.mpr hdata
  have hS : 2 ≤ log.ring.size := by
    unfold mostBytes at hfit
    omega
  obtain ⟨enc, henc⟩ :=
    encodes_exists hS (log.ring.buffer ++ log.ring.buffer.take log.ring.writePtr).length
      list.flatten
  have hbytes : enc.length ≤ mostBytes list.flatten.length :=
    Nat.le_trans (henc.length_le hfollows.pos hdata (by unfold mostBytes at hfit; omega))
      (encodedLen_le ..)
  obtain ⟨⟨cells, log'⟩, hret, hfollows', hsize, hcells, hframe⟩ :=
    copyCells_ensures hS hfollows hshort hne
    (by unfold mostBytes at hfit; omega) henc
  have hwin : (log.ring.buffer ++ log.ring.buffer.take log.ring.writePtr ++ enc).length ≤
      (log.ring.buffer ++ log.ring.buffer.take log.ring.writePtr).length + log'.ring.size := by
    rw [List.length_append, hsize]
    omega
  rw [← hsize] at henc
  have hemitted := hfollows'.emitted henc rfl hwin
  have hchain := hfollows'.chainAt henc (List.append_nil _).symm hwin
  rw [hsize, ← hfollows.write, ← hcells] at hemitted
  rw [hsize, ← hfollows.write] at hchain
  refine ⟨cells, log', copyCells_log hret, hret, hemitted, ?_, ?_, hframe, hchain.storedAt.readsBack
    hfollows'.length⟩
  · rw [hcells, length_cellsOf]
    exact hbytes
  · rw [hcells]
    exact nodup_cellsOf (Nat.le_trans hbytes hfit)

/-- Seven bytes in two entries fill a ring of nine cells, from the last cell on. -/
theorem codec_round_trip_full :
    ∃ cells log',
      (copyScattered ⟨⟨List.replicate 9 0x83, 3, 8, 9⟩, 0, 0, 1⟩ [[1, 2, 3], [4, 5, 6, 7]]
        7).Returns log' ∧
      (copyCells ⟨⟨List.replicate 9 0x83, 3, 8, 9⟩, 0, 0, 1⟩ [[1, 2, 3], [4, 5, 6, 7]] 7).Returns
      (cells, log') ∧
      Emitted log'.ring 8 [1, 2, 3, 4, 5, 6, 7] cells ∧ cells.length ≤ mostBytes 7 ∧ cells.Nodup ∧
      (∀ i ∉ cells, log'.ring.buffer[i]? = (List.replicate 9 0x83)[i]?) ∧
      ReadsBack log' 8 [1, 2, 3, 4, 5, 6, 7] :=
  codec_round_trip rfl (by decide) (by decide) (by decide) (by decide) (by decide)

end FxIP
