import FxIP.Objectlog.Index
import FxIP.Objectlog.Gather

/-!
# What the storage held before

`objectlog_init` does not clear the storage, and the first write walks over
it. Two logs on different storages are `Alike` while they store the same
objects; what only one of them ever held is not read, but for that walk.
-/

namespace FxIP

open Circular

variable {c₁ c₂ : List UInt8} {S e e₁ e₂ : Nat} {log₁ log₂ log₁' log₂' : Objectlog}
variable {objs : List (List UInt8)} {newest old front enc : List UInt8} {list : List ScatterObject}

/-- Logs that store the same, on storages that held `c₁` and `c₂`. -/
inductive Alike (c₁ c₂ : List UInt8) (S : Nat) (log₁ log₂ : Objectlog) : Prop
  | blank : Blank c₁ S log₁ → Blank c₂ S log₂ → Alike c₁ c₂ S log₁ log₂
  | holding {objs : List (List UInt8)} {newest old front enc : List UInt8} :
      log₁.ring.size = S → log₂.ring.size = S → Holding log₁ objs newest old front enc →
      Holding log₂ objs newest old front enc → Alike c₁ c₂ S log₁ log₂

/-- Logs that differ in the read pointer at most. -/
def SameBytes (log₁ log₂ : Objectlog) : Prop := ∃ r, log₂ = log₁.withReadPtr r

/-- The walk of the first write comes to cell `e`. -/
def FirstWalk (storage : List UInt8) (S e : Nat) : Prop :=
  ∃ log', (getNextEntry (objectlogInit storage S) 0).Returns (e, log')

/-- Both first walks end, and if the object would fill the storage, either
both at its start or neither. -/
def FirstWriteAgrees (c₁ c₂ : List UInt8) (S : Nat) (list : List ScatterObject) : Prop :=
  ∃ e₁ e₂, FirstWalk c₁ S e₁ ∧ FirstWalk c₂ S e₂ ∧
    (reservedLen S 0 (scatterLen 0 list) = S → S < 65535 → (e₁ = 0 ↔ e₂ = 0))

-- ---------------------------------------------------------------------------
-- The reservation
-- ---------------------------------------------------------------------------

theorem reservedLen_start {n : Nat} (hS : 0 < S) (hlt : S < 65536) (he : 0 < e) :
    (S < reservedLen S e n ↔ S < reservedLen S 0 n ∨ reservedLen S 0 n = S ∧ S < 65535) ∧
      (S < reservedLen S e n → reservedLen S e n = max (S + 1) (reservedLen S 0 n)) := by
  unfold reservedLen
  simp only [Nat.zero_add]
  have hunwrapped := u16_lt (n + (u16 (DIV_ROUND_UP n MAX_FRAGMENT_LEN) : Nat))
  generalize u16 (n + (u16 (DIV_ROUND_UP n MAX_FRAGMENT_LEN) : Nat)) = len at *
  have hmore : u16 (len + 1) = (len + 1) % 65536 := u16_ofNat (len + 1)
  rw [hmore]
  by_cases hwrap : len > S
  · rw [if_pos hwrap, if_pos (by omega)]
    omega
  · rw [if_neg hwrap]
    split <;> omega

/-- Two walks lead to the same status, unless only one starts the object that
fills the storage at its start. -/
theorem reservedLen_agrees {n : Nat} (hS : 0 < S) (hlt : S < 65536)
    (hagree : reservedLen S 0 n = S → S < 65535 → (e₁ = 0 ↔ e₂ = 0)) :
    (S < reservedLen S e₁ n ↔ S < reservedLen S e₂ n) ∧
      (S < reservedLen S e₁ n → reservedLen S e₁ n = reservedLen S e₂ n) := by
  rcases Nat.eq_zero_or_pos e₁ with rfl | h₁ <;> rcases Nat.eq_zero_or_pos e₂ with rfl | h₂
  · simp
  · obtain ⟨hiff, heq⟩ := reservedLen_start (n := n) hS hlt h₂
    omega
  · obtain ⟨hiff, heq⟩ := reservedLen_start (n := n) hS hlt h₁
    omega
  · obtain ⟨hiff₁, heq₁⟩ := reservedLen_start (n := n) hS hlt h₁
    obtain ⟨hiff₂, heq₂⟩ := reservedLen_start (n := n) hS hlt h₂
    omega

-- ---------------------------------------------------------------------------
-- Logs that are alike
-- ---------------------------------------------------------------------------

theorem FirstWriteAgrees.symm (h : FirstWriteAgrees c₁ c₂ S list) :
    FirstWriteAgrees c₂ c₁ S list := by
  obtain ⟨e₁, e₂, h₁, h₂, hagree⟩ := h
  exact ⟨e₂, e₁, h₂, h₁, fun hfull hlt => (hagree hfull hlt).symm⟩

theorem Alike.symm (h : Alike c₁ c₂ S log₁ log₂) : Alike c₂ c₁ S log₂ log₁ := by
  cases h with
  | blank h₁ h₂ => exact .blank h₂ h₁
  | holding hS₁ hS₂ h₁ h₂ => exact .holding hS₂ hS₁ h₂ h₁

theorem SameBytes.symm (h : SameBytes log₁ log₂) : SameBytes log₂ log₁ := by
  obtain ⟨r, rfl⟩ := h
  exact ⟨log₁.ring.readPtr, rfl⟩

theorem Alike.withReadPtr (h : Alike c₁ c₂ S log₁ log₂) (r₁ r₂ : Nat) :
    Alike c₁ c₂ S (log₁.withReadPtr r₁) (log₂.withReadPtr r₂) := by
  cases h with
  | blank h₁ h₂ =>
    obtain ⟨_, rfl⟩ := h₁
    obtain ⟨_, rfl⟩ := h₂
    exact .blank ⟨r₁, rfl⟩ ⟨r₂, rfl⟩
  | holding hS₁ hS₂ h₁ h₂ => exact .holding hS₁ hS₂ (h₁.withReadPtr r₁) (h₂.withReadPtr r₂)

theorem Alike.numEntries (h : Alike c₁ c₂ S log₁ log₂) : log₁.numEntries = log₂.numEntries := by
  cases h with
  | blank h₁ h₂ =>
    obtain ⟨_, rfl⟩ := h₁
    obtain ⟨_, rfl⟩ := h₂
    rfl
  | holding _ _ h₁ h₂ => rw [h₁.count, h₂.count]

/-- Rings that follow the same tape hold the same bytes once it is as long as
the storage. -/
theorem Follows.sameBytes {tape : List UInt8} (h₁ : Follows log₁.ring tape)
    (h₂ : Follows log₂.ring tape)
    (hsize : log₁.ring.size = log₂.ring.size) (hfull : log₁.ring.size ≤ tape.length)
    (hfirst : log₁.ptrFirst = log₂.ptrFirst) (hlast : log₁.ptrLast = log₂.ptrLast)
    (hcount : log₁.numEntries = log₂.numEntries) : SameBytes log₁ log₂ := by
  have hring : (log₁.withReadPtr log₂.ring.readPtr).ring = log₂.ring :=
    (h₁.withReadPtr _).unique h₂ hsize rfl hfull
  refine ⟨log₂.ring.readPtr, ?_⟩
  cases log₁
  cases log₂
  simp_all [Objectlog.withReadPtr]

-- ---------------------------------------------------------------------------
-- Writes to logs that are alike
-- ---------------------------------------------------------------------------

/-- What `log` becomes when an object is added at `newLast`. -/
def Objectlog.commit (log : Objectlog) (newLast : Nat) : Objectlog :=
  { log with ptrLast := newLast, numEntries := u32 (log.numEntries + 1) }

/-- What the copy loop leaves of the log it is given. -/
structure Copied (log log' : Objectlog) (tape : List UInt8) : Prop where
  frame : log' = { log with ring := log'.ring }
  follows : Follows log'.ring tape
  size : log'.ring.size = log.ring.size

theorem Holding.evict_alike (h₁ : Holding log₁ objs newest old front enc)
    (h₂ : Holding log₂ objs newest old front enc) (hsize : log₁.ring.size = log₂.ring.size)
    (total : Nat) :
    ∃ log₁' log₂' kept old' front', (FxIP.evict log₁.ring.writePtr total log₁).Returns log₁' ∧
      (FxIP.evict log₂.ring.writePtr total log₂).Returns log₂' ∧
      Holding log₁' kept newest old' front' enc ∧ Holding log₂' kept newest old' front' enc ∧
      log₁'.ring.size = log₁.ring.size ∧ log₂'.ring.size = log₂.ring.size ∧
      (kept = [] ∨ total ≤ log₁.ring.size - (front' ++ enc).length) := by
  induction objs generalizing log₁ log₂ old front with
  | nil =>
    exact ⟨log₁, log₂, [], old, front, evict_stops fun _ => h₁.first_eq_last.mpr rfl,
      evict_stops fun _ => h₂.first_eq_last.mpr rfl, h₁, h₂, rfl, rfl, .inl rfl⟩
  | cons obj objs ih =>
    have hne₁ : log₁.ptrFirst ≠ log₁.ptrLast := fun he => by simpa using h₁.first_eq_last.mp he
    have hne₂ : log₂.ptrFirst ≠ log₂.ptrLast := fun he => by simpa using h₂.first_eq_last.mp he
    have hfree₁ := h₁.freeSpace
    have hfree₂ : objectlogFreeSpace log₂ log₂.ring.writePtr =
        log₁.ring.size - (front ++ enc).length := by
      rw [h₂.freeSpace, hsize]
    by_cases hmore : log₁.ring.size - (front ++ enc).length < total
    · obtain ⟨bytes, front', log₁', rfl, hdrop₁, hh₁, hs₁, hw₁, -, hobj₁⟩ := h₁.dropFirst
      obtain ⟨bytes₂, front₂, log₂', heq, hdrop₂, hh₂, hs₂, hw₂, -, hobj₂⟩ := h₂.dropFirst
      obtain rfl := hobj₁.unique (hsize ▸ hobj₂)
      obtain rfl := List.append_cancel_left heq
      obtain ⟨log₁'', log₂'', kept, old', front'', hret₁, hret₂, hk₁, hk₂, hs₁', hs₂', henough⟩ :=
        ih hh₁ hh₂ (by rw [hs₁, hs₂, hsize])
      rw [hw₁] at hret₁
      rw [hw₂] at hret₂
      exact ⟨log₁'', log₂'', kept, old', front'', evict_again (hfree₁ ▸ hmore) hne₁ hdrop₁ hret₁,
        evict_again (hfree₂ ▸ hmore) hne₂ hdrop₂ hret₂, hk₁, hk₂, hs₁'.trans hs₁, hs₂'.trans hs₂,
          hs₁ ▸ henough⟩
    · exact ⟨log₁, log₂, obj :: objs, old, front, evict_stops fun hlt =>
        absurd (hfree₁ ▸ hlt) hmore,
        evict_stops fun hlt => absurd (hfree₂ ▸ hlt) hmore, h₁, h₂, rfl, rfl,
          .inr (Nat.le_of_not_lt hmore)⟩

section
variable (hlist : IsScatterList list) (hne : list ≠ [])
include hlist

theorem scatterLen_flatten : scatterLen 0 list = list.flatten.length % 65536 := by
  rw [scatterLen_eq (fun e he => (hlist e he).1) (by decide), Nat.zero_add]

theorem Follows.copyScattered_sum {tape : List UInt8} (h : Follows log₁.ring tape)
    (hret : (copyScattered log₁ list (scatterLen 0 list)).Returns log₁') :
    list.flatten.length < 65536 := by
  rw [scatterLen_flatten hlist] at hret
  by_contra hsum
  exact copyScattered_diverges h.pos h.lt h.writePtr_lt hlist (by omega) (by omega) _ hret

include hne

/-- Copied to rings that follow the same tape, an object is encoded alike; if
it comes to the end of the storage, the rings hold the same bytes. -/
theorem Follows.copyScattered_alike {tape : List UInt8} (h₁ : Follows log₁.ring tape)
    (h₂ : Follows log₂.ring tape) (hS : 2 ≤ log₁.ring.size)
    (hsize : log₁.ring.size = log₂.ring.size)
    (hfirst : log₁.ptrFirst = log₂.ptrFirst) (hcount : log₁.numEntries = log₂.numEntries)
    (hret : (copyScattered log₁ list (scatterLen 0 list)).Returns log₁') :
    ∃ log₂' enc', (copyScattered log₂ list (scatterLen 0 list)).Returns log₂' ∧
      Encodes log₁.ring.size tape.length list.flatten enc' ∧ Copied log₁ log₁' (tape ++ enc') ∧
      Copied log₂ log₂' (tape ++ enc') ∧ (log₁.ring.size ≤ (tape ++ enc').length →
        SameBytes (log₁'.commit log₁.ring.writePtr) (log₂'.commit log₂.ring.writePtr)) := by
  have hsum := h₁.copyScattered_sum hlist hret
  rw [scatterLen_flatten hlist, Nat.mod_eq_of_lt hsum] at hret ⊢
  obtain ⟨enc', henc⟩ := encodes_exists hS tape.length list.flatten
  obtain ⟨log, hret', hlog₁, hf₁, hs₁, -⟩ := copyScattered_ensures hS h₁ hlist hne hsum henc
  obtain rfl := hret'.unique hret
  obtain ⟨log₂', hret₂, hlog₂, hf₂, hs₂, -⟩ :=
    copyScattered_ensures (hsize ▸ hS) h₂ hlist hne hsum (hsize ▸ henc)
  refine ⟨log₂', enc', hret₂, henc, ⟨hlog₁, hf₁, hs₁⟩, ⟨hlog₂, hf₂, hs₂⟩, fun hfull => ?_⟩
  have hfirst' : log.ptrFirst = log₂'.ptrFirst := by rw [hlog₁, hlog₂]; exact hfirst
  have hcount' : log.numEntries = log₂'.numEntries := by rw [hlog₁, hlog₂]; exact hcount
  refine Follows.sameBytes hf₁ hf₂ (by simp only [Objectlog.commit]; rw [hs₁, hs₂, hsize])
    (by simp only [Objectlog.commit]; rwa [hs₁]) hfirst' ?_ ?_
  · simp only [Objectlog.commit]
    rw [h₁.write, h₂.write, hsize]
  · simp only [Objectlog.commit]
    rw [hcount']

/-- An object that has room fits next to the entries that the eviction for it kept. -/
theorem Holding.room_kept {v : Objectlog} {kept : List (List UInt8)} {old' front' enc' : List UInt8}
    (h : Holding log₁ objs newest old front enc) (hk : Holding v kept newest old' front' enc)
    (hv : v.ring.size = log₁.ring.size) (hwrite : v.ring.writePtr = log₁.ring.writePtr)
    (hroom : HasRoom log₁ list) (hacc : ¬ IsRejected log₁ list) (hsum : list.flatten.length < 65536)
    (henough : kept = [] ∨ reservedLen log₁.ring.size log₁.ring.writePtr (scatterLen 0 list) ≤
      log₁.ring.size - (front' ++ enc).length)
    (henc : Encodes v.ring.size (old' ++ front' ++ enc).length list.flatten enc') :
    (front' ++ enc).length + enc'.length ≤ log₁.ring.size := by
  obtain ⟨-, hlen, hbeside⟩ := hroom.2.resolve_left hacc
  have hfits := hbeside.resolve_left (by rw [h.count]; exact Nat.succ_ne_zero _)
  rw [FitsBesideNewest, h.spaceBesideNewest] at hfits
  have hsize := h.follows.lt
  rw [scatterLen_flatten hlist, Nat.mod_eq_of_lt hsum, reservedLen_eq (by omega)] at henough
  have hdata := flatten_ne_nil hlist hne
  have hle := henc.length_le hk.follows.pos hdata (by rw [hv]; unfold encodedLen at hlen; omega)
  rw [← hk.follows.write, hwrite, hv] at hle
  have hpos : 0 < encodedLen log₁.ring.size log₁.ring.writePtr list.flatten.length := by
    have := List.length_pos_iff.mpr hdata
    unfold encodedLen
    omega
  have hall := hk.room hpos (hv.symm ▸ henough) (hv.symm ▸ hfits)
  omega

variable (hlt : S < 65536) (hS : 2 ≤ S)

/-- What a write to one of two alike logs says about the other. -/
def WritesAlike (c₁ c₂ : List UInt8) (S : Nat) (list : List ScatterObject) (log₁ log₂ : Objectlog) :
    Prop :=
  ∀ status log₁', (objectlogWriteScatteredObject log₁ list).Returns (status, log₁') →
    ∃ log₂', (objectlogWriteScatteredObject log₂ list).Returns (status, log₂') ∧
      (Alike c₁ c₂ S log₁' log₂' ∨ SameBytes log₁' log₂') ∧
        (HasRoom log₁ list → Alike c₁ c₂ S log₁' log₂')

include hlt hS

theorem Blank.writesAlike (h₁ : Blank c₁ S log₁) (h₂ : Blank c₂ S log₂) (hc₁ : c₁.length = S)
    (hc₂ : c₂.length = S) (hfirst : FirstWriteAgrees c₁ c₂ S list) :
    WritesAlike c₁ c₂ S list log₁ log₂ := by
  intro status log₁' hret
  obtain ⟨e₁, e₂, ⟨w₁, hwalk₁⟩, ⟨w₂, hwalk₂⟩, hagree⟩ := hfirst
  obtain ⟨hiff, heq⟩ := reservedLen_agrees (show 0 < S by omega) hlt hagree
  obtain ⟨r₁, rfl⟩ := h₁
  obtain ⟨r₂, rfl⟩ := h₂
  obtain ⟨p₁, rfl : w₁ = (objectlogInit c₁ S).withReadPtr p₁⟩ := getNextEntry_frame hwalk₁
  obtain ⟨p₂, rfl : w₂ = (objectlogInit c₂ S).withReadPtr p₂⟩ := getNextEntry_frame hwalk₂
  have hb₁ : Blank c₁ S ((objectlogInit c₁ S).withReadPtr p₁) := ⟨p₁, rfl⟩
  have hb₂ : Blank c₂ S ((objectlogInit c₂ S).withReadPtr p₂) := ⟨p₂, rfl⟩
  by_cases hrej : S < reservedLen S e₁ (scatterLen 0 list)
  · obtain ⟨rfl, rfl⟩ := Prod.mk.inj ((write_rejects hwalk₁ hrej).unique hret)
    refine ⟨_, ?_, .inl (.blank hb₁ hb₂), fun _ => .blank hb₁ hb₂⟩
    show (objectlogWriteScatteredObject _ list).Returns
      (u16 (S - reservedLen S e₁ (scatterLen 0 list)), _)
    rw [heq hrej]
    exact write_rejects hwalk₂ (hiff.mp hrej)
  · obtain ⟨log, log', hevict, hcopy, hr⟩ := (write_accepts_iff hwalk₁ hrej).mp hret
    obtain rfl := (hb₁.evict _ _).unique hevict
    obtain ⟨rfl, rfl⟩ := Prod.mk.inj hr
    have hdata := flatten_ne_nil hlist hne
    obtain ⟨log₂', enc', hcopy₂, henc, hcopied₁, hcopied₂, hsame⟩ :=
      (hb₁.follows hc₁ (by omega) hlt).copyScattered_alike hlist hne
        (hb₂.follows hc₂ (by omega) hlt)
        hS rfl rfl rfl hcopy
    have hsum := (hb₁.follows hc₁ (by omega) hlt).copyScattered_sum hlist hcopy
    have halike : enc'.length ≤ S →
        Alike c₁ c₂ S (log'.commit 0) (log₂'.commit 0) :=
          fun hwin => .holding hcopied₁.size hcopied₂.size
      (hb₁.append hS hdata henc hwin hcopied₁.frame hcopied₁.size hcopied₁.follows)
      (hb₂.append hS hdata henc hwin hcopied₂.frame hcopied₂.size hcopied₂.follows)
    refine ⟨log₂'.commit 0, (write_accepts_iff hwalk₂ (hiff.not.mp hrej)).mpr
      ⟨_, log₂', hb₂.evict _ _, hcopy₂, rfl⟩, ?_, ?_⟩
    · by_cases hwin : enc'.length ≤ S
      · exact .inl (halike hwin)
      · exact .inr (hsame (Nat.le_of_lt (Nat.lt_of_not_le hwin)))
    · rintro ⟨-, hroom⟩
      refine halike ?_
      rcases hroom with hroom | ⟨-, hlen, -⟩
      · -- a rejection at the start of the storage is one everywhere
        rcases Nat.eq_zero_or_pos e₁ with rfl | hpos
        · exact absurd hroom hrej
        · exact absurd ((reservedLen_start (by omega) hlt hpos).1.mpr (.inl hroom)) hrej
      · have hlen' : encodedLen S 0 list.flatten.length ≤ S := hlen
        have henc' : Encodes S 0 list.flatten enc' := henc
        have hle := henc'.length_le (by omega) hdata (by unfold encodedLen at hlen'; omega)
        rw [Nat.zero_mod] at hle
        exact Nat.le_trans hle hlen'

theorem Holding.writesAlike (hs₁ : log₁.ring.size = S) (hs₂ : log₂.ring.size = S)
    (h₁ : Holding log₁ objs newest old front enc) (h₂ : Holding log₂ objs newest old front enc) :
    WritesAlike c₁ c₂ S list log₁ log₂ := by
  intro status log₁' hret
  have hstores₁ := Stores.holding hs₁ h₁
  have hstores₂ := Stores.holding hs₂ h₂
  have hwrite : log₁.ring.writePtr = log₂.ring.writePtr := by
    rw [h₁.follows.write, h₂.follows.write, hs₁, hs₂]
  by_cases hrej : S < reservedLen S log₁.ring.writePtr (scatterLen 0 list)
  · obtain ⟨r₁, hret₁⟩ := hstores₁.write_rejected hS hlt hrej
    obtain ⟨r₂, hret₂⟩ := hstores₂.write_rejected hS hlt (hwrite ▸ hrej)
    obtain ⟨rfl, rfl⟩ := Prod.mk.inj (hret₁.unique hret)
    have halike := (Alike.holding hs₁ hs₂ h₁ h₂ : Alike c₁ c₂ S log₁ log₂).withReadPtr r₁ r₂
    exact ⟨_, hwrite ▸ hret₂, .inl halike, fun _ => halike⟩
  · obtain ⟨w₁, log, hevict, hcopy, hr⟩ := (hstores₁.write_accepts_iff hS hlt hrej).mp hret
    obtain ⟨rfl, rfl⟩ := Prod.mk.inj hr
    obtain ⟨v₁, v₂, kept, old', front', hevict₁, hevict₂, hk₁, hk₂, hv₁, hv₂, henough⟩ :=
      (h₁.withReadPtr log₁.ring.writePtr).evict_alike (h₂.withReadPtr log₂.ring.writePtr)
        (hs₁.trans hs₂.symm) (reservedLen S log₁.ring.writePtr (scatterLen 0 list))
    simp only [withReadPtr_size, withReadPtr_writePtr] at hv₁ hv₂ henough hevict₂
    obtain rfl := hevict₁.unique hevict
    have hdata := flatten_ne_nil hlist hne
    have hsize : v₁.ring.size = v₂.ring.size := by rw [hv₁, hv₂, hs₁, hs₂]
    obtain ⟨log₂', enc', hcopy₂, henc, hcopied₁, hcopied₂, hsame⟩ :=
      hk₁.follows.copyScattered_alike hlist hne hk₂.follows hk₁.two_le hsize
        (by rw [hk₁.first, hk₂.first, hsize]) (by rw [hk₁.count, hk₂.count]) hcopy
    have halike : (front' ++ enc).length + enc'.length ≤ S → Alike c₁ c₂ S
        (log.commit v₁.ring.writePtr) (log₂'.commit v₂.ring.writePtr) := fun hwin =>
      .holding (hcopied₁.size.trans (hv₁.trans hs₁)) (hcopied₂.size.trans (hv₂.trans hs₂))
        (hk₁.append hdata henc (by rwa [hv₁, hs₁]) hcopied₁.frame hcopied₁.size hcopied₁.follows)
        (hk₂.append hdata (hsize ▸ henc) (by rwa [hv₂, hs₂]) hcopied₂.frame hcopied₂.size
          hcopied₂.follows)
    refine ⟨log₂'.commit v₂.ring.writePtr,
      (hstores₂.write_accepts_iff hS hlt (hwrite ▸ hrej)).mpr
        ⟨v₂, log₂', hwrite ▸ hevict₂, hcopy₂, rfl⟩, ?_, ?_⟩
    · by_cases hwin : (front' ++ enc).length + enc'.length ≤ S
      · exact .inl (halike hwin)
      · refine .inr (hsame ?_)
        simp only [List.length_append] at hwin ⊢
        omega
    · intro hroom
      subst hs₁
      obtain ⟨q, hq⟩ := evict_frame hevict
      exact halike (h₁.room_kept hlist hne hk₁ hv₁ (by rw [hq]; rfl) hroom hrej
        (hk₁.follows.copyScattered_sum hlist hcopy) henough henc)

end

-- ---------------------------------------------------------------------------
-- Reading
-- ---------------------------------------------------------------------------

/-- The bytes that the reading protocol gives for an index. -/
def ObjectBytes (log : Objectlog) (objectIdx : Int) (data : List UInt8) : Prop :=
  ∃ it log', (objectlogIterator log objectIdx).Returns (it, log') ∧ ReadsBack log' it data

variable {objectIdx it : Int} {data : List UInt8}

theorem ReadsBack.unique {data' : List UInt8} (h : ReadsBack log₁ it data)
    (h' : ReadsBack log₁ it data') :
    data = data' := by
  obtain ⟨fragments, hret, hbytes, -⟩ := h
  obtain ⟨fragments', hret', hbytes', -⟩ := h'
  obtain ⟨rfl, -⟩ := Prod.mk.inj (hret.unique hret')
  rw [← hbytes, hbytes']

theorem not_readsBack_neg : ¬ ReadsBack log₁ (-1) data := by
  rintro ⟨fragments, hret, -⟩
  have hnone : (readFragments log₁ (-1)).Returns ([], -1) := .loop_exit (Comp.returns_pure.mpr rfl)
  exact absurd (Prod.mk.inj (hret.unique hnone)).2 (by decide)

/-- What an index stands for in two alike logs: nothing, or an object that
starts at the same cell. -/
structure FoundAlike (log₁ log₂ : Objectlog) (objectIdx it : Int) : Prop where
  first : ∃ r, (objectlogIterator log₁ objectIdx).Returns (it, log₁.withReadPtr r)
  second : ∃ r, (objectlogIterator log₂ objectIdx).Returns (it, log₂.withReadPtr r)
  object : it = -1 ∨ ∃ p data, it = (p : Nat) ∧ data.length < 65536 ∧
    (StoredAt log₁.ring p data ∧ log₁.ring.buffer.length = log₁.ring.size) ∧
    (StoredAt log₂.ring p data ∧ log₂.ring.buffer.length = log₂.ring.size)

theorem FoundAlike.symm (h : FoundAlike log₁ log₂ objectIdx it) :
    FoundAlike log₂ log₁ objectIdx it :=
  ⟨h.second, h.first, h.object.imp_right fun ⟨p, data, hp, hlt, h₁, h₂⟩ =>
    ⟨p, data, hp, hlt, h₂, h₁⟩⟩

theorem Blank.iterator (h : Blank c₁ S log₁) (hint : IsInt objectIdx) :
    (objectlogIterator log₁ objectIdx).Returns (-1, log₁) := by
  obtain ⟨r, rfl⟩ := h
  have hcount : ((objectlogInit c₁ S).withReadPtr r).numEntries = 0 := rfl
  have hidx : resolveIdx 0 objectIdx = none := by
    rw [resolveIdx, if_neg (by omega), if_neg (by omega)]
  rw [objectlogIterator_eq hint (by rw [hcount]; decide), hcount, hidx, Comp.returns_pure]

theorem Alike.found (h : Alike c₁ c₂ S log₁ log₂) (hlt : S < 65536) (hint : IsInt objectIdx) :
    ∃ it, FoundAlike log₁ log₂ objectIdx it := by
  cases h with
  | blank h₁ h₂ => exact ⟨-1, ⟨_, h₁.iterator hint⟩, ⟨_, h₂.iterator hint⟩, .inl rfl⟩
  | @holding objs newest old front enc hs₁ hs₂ h₁ h₂ =>
    have hstores₁ := Stores.holding hs₁ h₁
    have hstores₂ := Stores.holding hs₂ h₂
    cases hidx : resolveIdx (objs ++ [newest]).length objectIdx with
    | none =>
      exact ⟨-1, ⟨_, hstores₁.iterator_none hint hidx⟩, ⟨_, hstores₂.iterator_none hint hidx⟩,
        .inl rfl⟩
    | some i =>
      have hi := resolveIdx_lt hidx
      obtain ⟨p, r₁, hstart₁, hret₁⟩ := hstores₁.iterator_startsAt hint hidx
      obtain ⟨q, r₂, hstart₂, hret₂⟩ := hstores₂.iterator_startsAt hint hidx
      have hfirst : log₁.ptrFirst = log₂.ptrFirst := by rw [h₁.first, h₂.first, hs₁, hs₂]
      obtain ⟨bytes, hbytes, rfl⟩ := hstart₁.place
      obtain ⟨bytes', hbytes', rfl⟩ := hstart₂.place
      rw [hs₂, ← hs₁, ← hfirst] at hbytes'
      obtain rfl := hbytes.unique hbytes'
      obtain ⟨obj, hobj, hat₁⟩ := hstart₁.stored
      obtain ⟨obj', hobj', hat₂⟩ := hstart₂.stored
      obtain rfl := Option.some.inj (hobj.symm.trans hobj')
      have hcell : (log₂.ptrFirst + bytes.length) % log₂.ring.size =
          (log₁.ptrFirst + bytes.length) % log₁.ring.size := by rw [hfirst, hs₁, hs₂]
      rw [hcell] at hret₂ hat₂
      refine ⟨_, ⟨r₁, hret₁⟩, ⟨r₂, hret₂⟩, .inr ⟨_, obj, rfl, ?_, ⟨hat₁, h₁.follows.length⟩, hat₂,
        h₂.follows.length⟩⟩
      have := hstores₁.length_lt (List.mem_of_getElem? hobj)
      omega

theorem FoundAlike.bytes (h : FoundAlike log₁ log₂ objectIdx it)
    (hbytes : ObjectBytes log₁ objectIdx data) :
    ObjectBytes log₂ objectIdx data := by
  obtain ⟨it', log', hret, hreads⟩ := hbytes
  obtain ⟨r₁, hret₁⟩ := h.first
  obtain ⟨r₂, hret₂⟩ := h.second
  obtain ⟨rfl, rfl⟩ := Prod.mk.inj (hret₁.unique hret)
  rcases h.object with rfl | ⟨p, data', rfl, -, ⟨hat₁, hlen₁⟩, hat₂, hlen₂⟩
  · exact absurd hreads not_readsBack_neg
  · obtain rfl := hreads.unique ((hat₁.withReadPtr r₁).readsBack hlen₁)
    exact ⟨_, _, hret₂, (hat₂.withReadPtr r₂).readsBack hlen₂⟩

theorem StoredAt.getObjectSize {p r : Nat} (h : StoredAt log₁.ring p data)
    (hlen : data.length < 65536)
    (hret : (objectlogIterator log₁ objectIdx).Returns ((p : Nat), log₁.withReadPtr r)) :
    (objectlogGetObjectSize log₁ objectIdx).Returns ((data.length : Nat), log₁.withReadPtr r) := by
  have hsize := (h.withReadPtr r).objectSize 0 (by omega)
  rw [Nat.zero_add] at hsize
  unfold objectlogGetObjectSize
  simp only [hret.bind_iff]
  rw [if_neg (by omega), hsize.bind_iff, Comp.returns_pure]

theorem FoundAlike.objectSize (h : FoundAlike log₁ log₂ objectIdx it) :
    ∃ n r₁ r₂, (objectlogGetObjectSize log₁ objectIdx).Returns (n, log₁.withReadPtr r₁) ∧
      (objectlogGetObjectSize log₂ objectIdx).Returns (n, log₂.withReadPtr r₂) := by
  obtain ⟨r₁, hret₁⟩ := h.first
  obtain ⟨r₂, hret₂⟩ := h.second
  rcases h.object with rfl | ⟨p, data, rfl, hlen, ⟨hat₁, -⟩, hat₂, -⟩
  · refine ⟨-1, r₁, r₂, ?_, ?_⟩
    · unfold objectlogGetObjectSize
      rw [hret₁.bind_iff]
      exact Comp.returns_pure.mpr rfl
    · unfold objectlogGetObjectSize
      rw [hret₂.bind_iff]
      exact Comp.returns_pure.mpr rfl
  · exact ⟨_, r₁, r₂, hat₁.getObjectSize hlen hret₁, hat₂.getObjectSize hlen hret₂⟩

theorem skipEntries_withReadPtr {n p r : Nat} {s : Nat × Objectlog}
    (h : (skipEntries n p log₁).Returns s) :
    ∃ log₂', (skipEntries n p (log₁.withReadPtr r)).Returns (s.1, log₂') ∧ SameBytes s.2 log₂' := by
  cases n with
  | zero =>
    obtain rfl := Comp.returns_pure.mp h
    exact ⟨_, Comp.returns_pure.mpr rfl, r, rfl⟩
  | succ n => exact ⟨s.2, h, s.2.ring.readPtr, rfl⟩

/-- The steps that an index takes, for a count of any size. -/
def iteratorSkips (numEntries : Nat) (objectIdx : Int) : Option Nat :=
  if objectIdx < 0 then
    if u32 (-objectIdx) ≥ numEntries then none else some (u32 (numEntries - u32 (-objectIdx)))
  else if u32 objectIdx ≥ numEntries then none
  else some objectIdx.toNat

theorem objectlogIterator_skips (log : Objectlog) (objectIdx : Int) :
    objectlogIterator log objectIdx =
      match iteratorSkips log.numEntries objectIdx with
      | none => pure (-1, log)
      | some n => skipEntries n log.ptrFirst log >>= fun s => pure ((s.1 : Int), s.2) := by
  unfold objectlogIterator iteratorSkips
  by_cases hneg : objectIdx < 0
  · rw [if_pos hneg, if_pos hneg]
    split <;> rfl
  · rw [if_neg hneg, if_neg hneg]
    split <;> rfl

theorem SameBytes.iterator (h : SameBytes log₁ log₂)
    (hret : (objectlogIterator log₁ objectIdx).Returns (it, log₁')) :
    ∃ log₂', (objectlogIterator log₂ objectIdx).Returns (it, log₂') ∧ SameBytes log₁' log₂' := by
  obtain ⟨r, rfl⟩ := h
  rw [objectlogIterator_skips] at hret ⊢
  rw [withReadPtr_numEntries, withReadPtr_ptrFirst]
  cases hskips : iteratorSkips log₁.numEntries objectIdx with
  | none =>
    rw [hskips] at hret
    obtain ⟨rfl, rfl⟩ := Prod.mk.inj (Comp.returns_pure.mp hret)
    exact ⟨_, Comp.returns_pure.mpr rfl, r, rfl⟩
  | some n =>
    rw [hskips] at hret
    obtain ⟨s, hs, hpure⟩ := Comp.returns_bind.mp hret
    obtain ⟨rfl, rfl⟩ := Prod.mk.inj (Comp.returns_pure.mp hpure)
    obtain ⟨log₂', hret', hsame⟩ := skipEntries_withReadPtr (r := r) hs
    exact ⟨log₂', Comp.returns_bind.mpr ⟨_, hret', Comp.returns_pure.mpr rfl⟩, hsame⟩

theorem SameBytes.readsBack (h : SameBytes log₁ log₂) (hreads : ReadsBack log₁ it data) :
    ReadsBack log₂ it data := by
  obtain ⟨r, rfl⟩ := h
  exact hreads

theorem SameBytes.objectSize {n : Int} (h : SameBytes log₁ log₂)
    (hret : (objectlogGetObjectSize log₁ objectIdx).Returns (n, log₁')) :
    ∃ log₂', (objectlogGetObjectSize log₂ objectIdx).Returns (n, log₂') ∧
      SameBytes log₁' log₂' := by
  obtain ⟨⟨it, log⟩, hit, hret⟩ := Comp.returns_bind.mp hret
  obtain ⟨_, hit₂, r, rfl⟩ := h.iterator hit
  unfold objectlogGetObjectSize
  simp only [hit₂.bind_iff] at hret ⊢
  by_cases hneg : it < 0
  · rw [if_pos hneg] at hret ⊢
    obtain ⟨rfl, rfl⟩ := Prod.mk.inj (Comp.returns_pure.mp hret)
    exact ⟨_, Comp.returns_pure.mpr rfl, r, rfl⟩
  · rw [if_neg hneg] at hret ⊢
    obtain ⟨size, hsize, hpure⟩ := Comp.returns_bind.mp hret
    obtain ⟨rfl, rfl⟩ := Prod.mk.inj (Comp.returns_pure.mp hpure)
    exact ⟨_, hsize.bind_pure rfl, r, rfl⟩

-- ---------------------------------------------------------------------------
-- Calls
-- ---------------------------------------------------------------------------

/-- Logs that agree on everything that is read from now on. -/
def Paired (c₁ c₂ : List UInt8) (S : Nat) (log₁ log₂ : Objectlog) : Prop :=
  Alike c₁ c₂ S log₁ log₂ ∨ SameBytes log₁ log₂

/-- A write of some object, whose walk agrees while nothing is stored. -/
def WriteAgrees (c₁ c₂ : List UInt8) (log : Objectlog) (list : List ScatterObject) : Prop :=
  IsScatterList list ∧ list ≠ [] ∧
    (log.numEntries = 0 → FirstWriteAgrees c₁ c₂ log.ring.size list)

/-- Writes that agree and reads by index. What `objectlog_get_fragment` and
`objectlog_next` give in the course of a read is compared as `ObjectBytes`. -/
def LogCall.Agrees (c₁ c₂ : List UInt8) (log : Objectlog) : LogCall → Prop
  | .writeScatteredObject list => WriteAgrees c₁ c₂ log list
  | .writeObject data => WriteAgrees c₁ c₂ log [data]
  | .iterator objectIdx => IsInt objectIdx
  | .getObjectSize objectIdx => IsInt objectIdx
  | .getFragment _ => False
  | .next _ => False

def LogCall.HasRoom (log : Objectlog) : LogCall → Prop
  | .writeScatteredObject list => FxIP.HasRoom log list
  | .writeObject data => FxIP.HasRoom log [data]
  | _ => True

theorem Alike.size (h : Alike c₁ c₂ S log₁ log₂) : log₁.ring.size = S := by
  cases h with
  | blank h₁ _ =>
    obtain ⟨_, rfl⟩ := h₁
    rfl
  | holding hs₁ _ _ _ => exact hs₁

theorem Paired.symm (h : Paired c₁ c₂ S log₁ log₂) : Paired c₂ c₁ S log₂ log₁ :=
  h.imp Alike.symm SameBytes.symm

theorem Paired.size (h : Paired c₁ c₂ S log₁ log₂) : log₁.ring.size = log₂.ring.size := by
  rcases h with h | ⟨r, rfl⟩
  · rw [h.size, h.symm.size]
  · rfl

theorem Paired.numEntries (h : Paired c₁ c₂ S log₁ log₂) : log₁.numEntries = log₂.numEntries := by
  rcases h with h | ⟨r, rfl⟩
  · exact h.numEntries
  · rfl

theorem Paired.objectBytes (h : Paired c₁ c₂ S log₁ log₂) (hlt : S < 65536) (hint : IsInt objectIdx)
    (hbytes : ObjectBytes log₁ objectIdx data) : ObjectBytes log₂ objectIdx data := by
  rcases h with h | h
  · obtain ⟨it, hfound⟩ := h.found hlt hint
    exact hfound.bytes hbytes
  · obtain ⟨it, log', hret, hreads⟩ := hbytes
    obtain ⟨log₂', hret₂, hsame⟩ := h.iterator hret
    exact ⟨it, log₂', hret₂, hsame.readsBack hreads⟩

theorem WriteAgrees.symm (h : WriteAgrees c₁ c₂ log₁ list) (hpaired : Paired c₁ c₂ S log₁ log₂) :
    WriteAgrees c₂ c₁ log₂ list := by
  obtain ⟨hlist, hne, hfirst⟩ := h
  exact ⟨hlist, hne, fun hcount => hpaired.size ▸ (hfirst (hpaired.numEntries.trans hcount)).symm⟩

theorem LogCall.Agrees.symm {call : LogCall} (h : call.Agrees c₁ c₂ log₁)
    (hpaired : Paired c₁ c₂ S log₁ log₂) : call.Agrees c₂ c₁ log₂ := by
  cases call with
  | writeScatteredObject list => exact WriteAgrees.symm h hpaired
  | writeObject data => exact WriteAgrees.symm h hpaired
  | iterator objectIdx => exact h
  | getObjectSize objectIdx => exact h
  | getFragment it => exact h
  | next it => exact h

/-- A read gives the same on paired logs if it does on alike ones and on the
same bytes. -/
theorem Paired.read {f : Objectlog → Comp (Int × Objectlog)} {n : Int}
    (h : Paired c₁ c₂ S log₁ log₂)
    (hfound : Alike c₁ c₂ S log₁ log₂ → ∃ n r₁ r₂, (f log₁).Returns (n, log₁.withReadPtr r₁) ∧
      (f log₂).Returns (n, log₂.withReadPtr r₂))
    (hsame : SameBytes log₁ log₂ → ∀ log, (f log₁).Returns (n, log) →
      ∃ log', (f log₂).Returns (n, log') ∧ SameBytes log log')
    (hret : (f log₁).Returns (n, log₁')) :
    ∃ log₂', (f log₂).Returns (n, log₂') ∧ Paired c₁ c₂ S log₁' log₂' ∧
      (Alike c₁ c₂ S log₁ log₂ → Alike c₁ c₂ S log₁' log₂') := by
  by_cases halike : Alike c₁ c₂ S log₁ log₂
  · obtain ⟨n', r₁, r₂, hret₁, hret₂⟩ := hfound halike
    obtain ⟨rfl, rfl⟩ := Prod.mk.inj (hret₁.unique hret)
    have halike' := halike.withReadPtr r₁ r₂
    exact ⟨_, hret₂, .inl halike', fun _ => halike'⟩
  · obtain ⟨log₂', hret₂, hsame'⟩ := hsame (h.resolve_left halike) _ hret
    exact ⟨log₂', hret₂, .inr hsame', fun h => absurd h halike⟩

section
variable (hc₁ : c₁.length = S) (hc₂ : c₂.length = S) (hS : 2 ≤ S) (hlt : S < 65536)
include hc₁ hc₂ hS hlt

theorem Alike.writesAlike (h : Alike c₁ c₂ S log₁ log₂) (hagrees : WriteAgrees c₁ c₂ log₁ list) :
    WritesAlike c₁ c₂ S list log₁ log₂ := by
  obtain ⟨hlist, hne, hfirst⟩ := hagrees
  rw [h.size] at hfirst
  cases h with
  | blank h₁ h₂ =>
    refine h₁.writesAlike hlist hne hlt hS h₂ hc₁ hc₂ (hfirst ?_)
    obtain ⟨_, rfl⟩ := h₁
    rfl
  | holding hs₁ hs₂ h₁ h₂ => exact h₁.writesAlike hlist hne hlt hS hs₁ hs₂ h₂

theorem Paired.write {status : Nat} (h : Paired c₁ c₂ S log₁ log₂)
    (hagrees : WriteAgrees c₁ c₂ log₁ list)
    (hret : (objectlogWriteScatteredObject log₁ list).Returns (status, log₁')) :
    ∃ log₂', (objectlogWriteScatteredObject log₂ list).Returns (status, log₂') ∧
      Paired c₁ c₂ S log₁' log₂' ∧
      (Alike c₁ c₂ S log₁ log₂ → FxIP.HasRoom log₁ list → Alike c₁ c₂ S log₁' log₂') := by
  by_cases halike : Alike c₁ c₂ S log₁ log₂
  · obtain ⟨log₂', hret₂, hpaired, hroom⟩ := halike.writesAlike hc₁ hc₂ hS hlt hagrees _ _ hret
    exact ⟨log₂', hret₂, hpaired, fun _ => hroom⟩
  · -- the walk of the write sets the read pointer before it is read
    obtain ⟨r, rfl⟩ := h.resolve_left halike
    exact ⟨log₁', hret, .inr ⟨_, rfl⟩, fun h => absurd h halike⟩

theorem Paired.step {call : LogCall} {r : LogResult} (h : Paired c₁ c₂ S log₁ log₂)
    (hagrees : call.Agrees c₁ c₂ log₁) (hstep : LogStep log₁ (call, r) log₁') :
    ∃ log₂', LogStep log₂ (call, r) log₂' ∧ Paired c₁ c₂ S log₁' log₂' ∧
      (Alike c₁ c₂ S log₁ log₂ → call.HasRoom log₁ → Alike c₁ c₂ S log₁' log₂') := by
  cases call with
  | writeScatteredObject list =>
    obtain ⟨⟨status, log⟩, hret, hpure⟩ := Comp.returns_bind.mp hstep
    obtain ⟨rfl, rfl⟩ := Prod.mk.inj (Comp.returns_pure.mp hpure)
    obtain ⟨log₂', hret₂, hpaired⟩ := h.write hc₁ hc₂ hS hlt hagrees hret
    exact ⟨log₂', hret₂.bind_pure rfl, hpaired⟩
  | writeObject data =>
    obtain ⟨⟨status, log⟩, hret, hpure⟩ := Comp.returns_bind.mp hstep
    obtain ⟨rfl, rfl⟩ := Prod.mk.inj (Comp.returns_pure.mp hpure)
    obtain ⟨log₂', hret₂, hpaired⟩ := h.write hc₁ hc₂ hS hlt hagrees hret
    exact ⟨log₂', hret₂.bind_pure rfl, hpaired⟩
  | iterator objectIdx =>
    obtain ⟨⟨it, log⟩, hret, hpure⟩ := Comp.returns_bind.mp hstep
    obtain ⟨rfl, rfl⟩ := Prod.mk.inj (Comp.returns_pure.mp hpure)
    have hfound (halike : Alike c₁ c₂ S log₁ log₂) : ∃ it r₁ r₂,
        (objectlogIterator log₁ objectIdx).Returns (it, log₁.withReadPtr r₁) ∧
        (objectlogIterator log₂ objectIdx).Returns (it, log₂.withReadPtr r₂) := by
      obtain ⟨it', hfound⟩ := halike.found hlt hagrees
      obtain ⟨r₁, hret₁⟩ := hfound.first
      obtain ⟨r₂, hret₂⟩ := hfound.second
      exact ⟨_, r₁, r₂, hret₁, hret₂⟩
    obtain ⟨log₂', hret₂, hpaired, halike⟩ :=
      h.read (f := (objectlogIterator · objectIdx)) hfound (fun hsame _ => hsame.iterator) hret
    exact ⟨log₂', hret₂.bind_pure rfl, hpaired, fun h _ => halike h⟩
  | getObjectSize objectIdx =>
    obtain ⟨⟨n, log⟩, hret, hpure⟩ := Comp.returns_bind.mp hstep
    obtain ⟨rfl, rfl⟩ := Prod.mk.inj (Comp.returns_pure.mp hpure)
    have hfound (halike : Alike c₁ c₂ S log₁ log₂) : ∃ n r₁ r₂,
        (objectlogGetObjectSize log₁ objectIdx).Returns (n, log₁.withReadPtr r₁) ∧
        (objectlogGetObjectSize log₂ objectIdx).Returns (n, log₂.withReadPtr r₂) := by
      obtain ⟨it, hfound⟩ := halike.found hlt hagrees
      exact hfound.objectSize
    obtain ⟨log₂', hret₂, hpaired, halike⟩ :=
      h.read (f := (objectlogGetObjectSize · objectIdx)) hfound (fun hsame _ => hsame.objectSize)
        hret
    exact ⟨log₂', hret₂.bind_pure rfl, hpaired, fun h _ => halike h⟩
  | getFragment it => exact hagrees.elim
  | next it => exact hagrees.elim

-- ---------------------------------------------------------------------------
-- Runs
-- ---------------------------------------------------------------------------

theorem run_paired {es : List (LogCall × LogResult)}
    (hrun : Run (Run.Guarded (fun log e => e.1.Agrees c₁ c₂ log) LogStep) (objectlogInit c₁ S) es
      log₁) :
    ∃ log₂, Run LogStep (objectlogInit c₂ S) es log₂ ∧ Paired c₁ c₂ S log₁ log₂ := by
  induction hrun with
  | nil => exact ⟨_, .nil, .inl (.blank ⟨0, rfl⟩ ⟨0, rfl⟩)⟩
  | snoc _ hstep ih =>
    obtain ⟨log₂, hrun₂, hpaired⟩ := ih
    obtain ⟨log₂', hstep₂, hpaired', -⟩ := hpaired.step hc₁ hc₂ hS hlt hstep.1 hstep.2
    exact ⟨log₂', hrun₂.snoc hstep₂, hpaired'⟩

theorem run_forgets {es : List (LogCall × LogResult)}
    (hrun : Run (Run.Guarded (fun log e => e.1.Agrees c₁ c₂ log) LogStep) (objectlogInit c₁ S) es
      log₁) :
    ∃ log₂, Run LogStep (objectlogInit c₂ S) es log₂ ∧ log₁.numEntries = log₂.numEntries ∧
      (∀ objectIdx data, IsInt objectIdx →
        (ObjectBytes log₁ objectIdx data ↔ ObjectBytes log₂ objectIdx data)) ∧
      ∀ call, call.Agrees c₁ c₂ log₁ → ∀ r,
        (∃ log₁', LogStep log₁ (call, r) log₁') ↔ ∃ log₂', LogStep log₂ (call, r) log₂' := by
  obtain ⟨log₂, hrun₂, hpaired⟩ := run_paired hc₁ hc₂ hS hlt hrun
  refine ⟨log₂, hrun₂, hpaired.numEntries, fun objectIdx data hint => ?_, fun call hagrees r => ?_⟩
  · exact ⟨hpaired.objectBytes hlt hint, hpaired.symm.objectBytes hlt hint⟩
  · constructor
    · rintro ⟨log₁', hstep⟩
      obtain ⟨log₂', hstep₂, -⟩ := hpaired.step hc₁ hc₂ hS hlt hagrees hstep
      exact ⟨log₂', hstep₂⟩
    · rintro ⟨log₂', hstep⟩
      obtain ⟨log₁', hstep₁, -⟩ := hpaired.symm.step hc₂ hc₁ hS hlt (hagrees.symm hpaired) hstep
      exact ⟨log₁', hstep₁⟩

theorem run_alike {es : List (LogCall × LogResult)}
    (hrun : Run (Run.Guarded (fun log e => e.1.Agrees c₁ c₂ log ∧ e.1.HasRoom log) LogStep)
      (objectlogInit c₁ S) es log₁) : ∃ log₂, Alike c₁ c₂ S log₁ log₂ := by
  induction hrun with
  | nil => exact ⟨objectlogInit c₂ S, .blank ⟨0, rfl⟩ ⟨0, rfl⟩⟩
  | snoc _ hstep ih =>
    obtain ⟨log₂, halike⟩ := ih
    obtain ⟨log₂', -, -, halike'⟩ := Paired.step hc₁ hc₂ hS hlt (.inl halike) hstep.1.1 hstep.2
    exact ⟨log₂', halike' halike hstep.1.2⟩

theorem Blank.write_returns (h : Blank c₁ S log₁) (hlist : IsScatterList list)
    (hwalk : FirstWalk c₁ S e)
    (hsum : S < reservedLen S e (scatterLen 0 list) ∨ list.flatten.length < 65536) :
    ∃ r, (objectlogWriteScatteredObject log₁ list).Returns r := by
  obtain ⟨w, hret⟩ := hwalk
  obtain ⟨r, rfl⟩ := h
  obtain ⟨p, rfl : w = (objectlogInit c₁ S).withReadPtr p⟩ := getNextEntry_frame hret
  have hb : Blank c₁ S ((objectlogInit c₁ S).withReadPtr p) := ⟨p, rfl⟩
  by_cases hrej : S < reservedLen S e (scatterLen 0 list)
  · exact ⟨_, write_rejects hret hrej⟩
  · have hsum' := hsum.resolve_left hrej
    obtain ⟨log', hcopy⟩ := copyScattered_returns (hb.follows hc₁ (by omega) hlt) hS hlist hsum'
    refine ⟨_, (write_accepts_iff hret hrej).mpr ⟨_, log', hb.evict _ _, ?_, rfl⟩⟩
    rwa [scatterLen_flatten hlist, Nat.mod_eq_of_lt hsum']

theorem Alike.write_returns (h : Alike c₁ c₂ S log₁ log₂) (hagrees : WriteAgrees c₁ c₂ log₁ list)
    (hroom : FxIP.HasRoom log₁ list) :
    ∃ r, (objectlogWriteScatteredObject log₁ list).Returns r := by
  obtain ⟨hlist, -, hfirst⟩ := hagrees
  rw [h.size] at hfirst
  have hreturns := hroom.returns (h.size.symm ▸ hlt)
  cases h with
  | blank h₁ _ =>
    have hcount : log₁.numEntries = 0 := by
      obtain ⟨_, rfl⟩ := h₁
      rfl
    obtain ⟨e₁, -, hwalk, -⟩ := hfirst hcount
    refine h₁.write_returns hc₁ hc₂ hS hlt hlist hwalk (hreturns.imp_left fun hrej => ?_)
    obtain ⟨_, rfl⟩ := h₁
    have hrej' : S < reservedLen S 0 (scatterLen 0 list) := hrej
    rcases Nat.eq_zero_or_pos e₁ with rfl | hpos
    · exact hrej'
    · exact (reservedLen_start (by omega) hlt hpos).1.mpr (.inl hrej')
  | holding hs₁ _ h₁ _ =>
    obtain ⟨r, hret, -⟩ := (((Stores.holding hs₁ h₁).returnsSoundly_iff (by omega) hlt hlist).mpr
      ⟨hS, hreturns⟩).1
    exact ⟨r, hret⟩

theorem Alike.returns {call : LogCall} (h : Alike c₁ c₂ S log₁ log₂)
    (hagrees : call.Agrees c₁ c₂ log₁)
    (hroom : call.HasRoom log₁) : ∃ r log₁', LogStep log₁ (call, r) log₁' := by
  cases call with
  | writeScatteredObject list =>
    obtain ⟨r, hret⟩ := h.write_returns hc₁ hc₂ hS hlt hagrees hroom
    exact ⟨_, _, hret.bind_pure rfl⟩
  | writeObject data =>
    obtain ⟨r, hret⟩ := h.write_returns hc₁ hc₂ hS hlt hagrees hroom
    exact ⟨_, _, hret.bind_pure rfl⟩
  | iterator objectIdx =>
    obtain ⟨it, hfound⟩ := h.found hlt hagrees
    obtain ⟨r₁, hret⟩ := hfound.first
    exact ⟨_, _, hret.bind_pure rfl⟩
  | getObjectSize objectIdx =>
    obtain ⟨it, hfound⟩ := h.found hlt hagrees
    obtain ⟨n, r₁, r₂, hret, -⟩ := hfound.objectSize
    exact ⟨_, _, hret.bind_pure rfl⟩
  | getFragment it => exact hagrees.elim
  | next it => exact hagrees.elim

omit hc₁ hc₂ hS in
theorem Blank.write_status (h : Blank c₁ S log₁) {status : Nat}
    (hret : (objectlogWriteScatteredObject log₁ list).Returns (status, log₁')) :
    ∃ e, FirstWalk c₁ S e ∧ (S < reservedLen S e (scatterLen 0 list) ↔ status ≠ 0) := by
  obtain ⟨r, rfl⟩ := h
  obtain ⟨⟨e, w⟩, hwalk, -⟩ := Comp.returns_bind.mp hret
  obtain ⟨p, rfl : w = (objectlogInit c₁ S).withReadPtr p⟩ := getNextEntry_frame hwalk
  refine ⟨e, ⟨_, hwalk⟩, ?_⟩
  by_cases hrej : S < reservedLen S e (scatterLen 0 list)
  · obtain ⟨rfl, -⟩ := Prod.mk.inj ((write_rejects hwalk hrej).unique hret)
    have hlen := reservedLen_lt S e (scatterLen 0 list)
    show S < reservedLen S e (scatterLen 0 list) ↔ u16 (S - reservedLen S e (scatterLen 0 list)) ≠ 0
    unfold u16
    omega
  · obtain ⟨_, _, -, -, hr⟩ := (write_accepts_iff hwalk hrej).mp hret
    obtain ⟨rfl, -⟩ := Prod.mk.inj hr
    exact iff_of_false hrej fun hne => hne rfl

/-- On both storages the first write has the same status exactly if the walks
over what they held agree. -/
theorem first_write_iff (hlist : IsScatterList list) (hne : list ≠ [])
    (hsum : list.flatten.length < 65536) :
    (∃ status log₁ log₂,
      (objectlogWriteScatteredObject (objectlogInit c₁ S) list).Returns (status, log₁) ∧
      (objectlogWriteScatteredObject (objectlogInit c₂ S) list).Returns (status, log₂)) ↔
      FirstWriteAgrees c₁ c₂ S list := by
  have hb₁ : Blank c₁ S (objectlogInit c₁ S) := ⟨0, rfl⟩
  have hb₂ : Blank c₂ S (objectlogInit c₂ S) := ⟨0, rfl⟩
  constructor
  · rintro ⟨status, log₁, log₂, hret₁, hret₂⟩
    obtain ⟨e₁, hwalk₁, hiff₁⟩ := hb₁.write_status hlt hret₁
    obtain ⟨e₂, hwalk₂, hiff₂⟩ := hb₂.write_status hlt hret₂
    refine ⟨e₁, e₂, hwalk₁, hwalk₂, fun hfull hsmall => ?_⟩
    -- only the object that starts with the storage is accepted
    have hpos : ∀ e, 0 < e → S < reservedLen S e (scatterLen 0 list) := fun e he =>
      (reservedLen_start (by omega) hlt he).1.mpr (.inr ⟨hfull, hsmall⟩)
    constructor
    · rintro rfl
      exact Nat.eq_zero_of_not_pos fun he => by have := hiff₂.mp (hpos _ he); omega
    · rintro rfl
      exact Nat.eq_zero_of_not_pos fun he => by have := hiff₁.mp (hpos _ he); omega
  · intro hagrees
    obtain ⟨e₁, -, hwalk, -⟩ := id hagrees
    obtain ⟨⟨status, log₁⟩, hret₁⟩ := hb₁.write_returns hc₁ hc₂ hS hlt hlist hwalk (.inr hsum)
    obtain ⟨log₂, hret₂, -⟩ := hb₁.writesAlike hlist hne hlt hS hb₂ hc₁ hc₂ hagrees _ _ hret₁
    exact ⟨status, log₁, log₂, hret₁, hret₂⟩

end

/-- What the storages held does not show in the calls that agree and have room: a run
on one is a run on the other with the same results, and from both every such call
returns, with the same result. Without room, what is a result on one storage is
one on the other; and the empty log agrees on exactly the writes it must. -/
theorem init_forgets_storage (hc₁ : c₁.length = S) (hc₂ : c₂.length = S) (hS : 2 ≤ S)
    (hlt : S < 65536) :
    (∀ es log₁, Run (Run.Guarded (fun log e => e.1.Agrees c₁ c₂ log ∧ e.1.HasRoom log) LogStep)
        (objectlogInit c₁ S) es log₁ →
      ∃ log₂, Run LogStep (objectlogInit c₂ S) es log₂ ∧ log₁.numEntries = log₂.numEntries ∧
        (∀ objectIdx data, IsInt objectIdx →
          (ObjectBytes log₁ objectIdx data ↔ ObjectBytes log₂ objectIdx data)) ∧
        ∀ call, call.Agrees c₁ c₂ log₁ → call.HasRoom log₁ →
          ∃ r log₁' log₂', LogStep log₁ (call, r) log₁' ∧ LogStep log₂ (call, r) log₂') ∧
    (∀ es log₁, Run (Run.Guarded (fun log e => e.1.Agrees c₁ c₂ log) LogStep)
      (objectlogInit c₁ S) es log₁ →
      ∃ log₂, Run LogStep (objectlogInit c₂ S) es log₂ ∧ log₁.numEntries = log₂.numEntries ∧
        (∀ objectIdx data, IsInt objectIdx →
          (ObjectBytes log₁ objectIdx data ↔ ObjectBytes log₂ objectIdx data)) ∧
        ∀ call, call.Agrees c₁ c₂ log₁ → ∀ r,
          (∃ log₁', LogStep log₁ (call, r) log₁') ↔ ∃ log₂', LogStep log₂ (call, r) log₂') ∧
    ∀ list, IsScatterList list → list ≠ [] → list.flatten.length < 65536 →
      ((∃ status log₁ log₂,
        (objectlogWriteScatteredObject (objectlogInit c₁ S) list).Returns (status, log₁) ∧
        (objectlogWriteScatteredObject (objectlogInit c₂ S) list).Returns (status, log₂)) ↔
        FirstWriteAgrees c₁ c₂ S list) := by
  have hcarries {es log₁} (hrun : Run (Run.Guarded (fun log e => e.1.Agrees c₁ c₂ log) LogStep)
      (objectlogInit c₁ S) es log₁) := run_forgets hc₁ hc₂ hS hlt hrun
  refine ⟨fun es log₁ hrun => ?_, fun es log₁ hrun => hcarries hrun, fun list hlist hne hsum =>
    first_write_iff hc₁ hc₂ hS hlt hlist hne hsum⟩
  obtain ⟨log₂, hrun₂, hcount, hbytes, hcalls⟩ :=
    hcarries (hrun.mono fun _ _ _ hstep => ⟨hstep.1.1, hstep.2⟩)
  refine ⟨log₂, hrun₂, hcount, hbytes, fun call hagrees hroom => ?_⟩
  obtain ⟨_, halike⟩ := run_alike hc₁ hc₂ hS hlt hrun
  obtain ⟨r, log₁', hstep⟩ := halike.returns hc₁ hc₂ hS hlt hagrees hroom
  obtain ⟨log₂', hstep₂⟩ := (hcalls call hagrees r).mp ⟨log₁', hstep⟩
  exact ⟨r, log₁', log₂', hstep, hstep₂⟩

/-- An object of three bytes, and then one of two next to it. -/
theorem init_forgets_storage_eight :
    ∃ log₁ log₂, Run LogStep (objectlogInit (List.replicate 8 0) 8)
      [(.writeObject [7, 8, 9], .status 0)] log₁ ∧
      Run LogStep (objectlogInit [0x83, 1, 2, 3, 4, 5, 6, 7] 8)
        [(.writeObject [7, 8, 9], .status 0)] log₂ ∧
      1 = log₂.numEntries ∧
      ∃ r log₁' log₂', LogStep log₁ (.writeObject [1, 2], r) log₁' ∧
        LogStep log₂ (.writeObject [1, 2], r) log₂' := by
  have hwalks : FirstWriteAgrees (List.replicate 8 0) [0x83, 1, 2, 3, 4, 5, 6, 7] 8 [[7, 8, 9]] :=
    ⟨0, 4, ⟨_, 12, rfl⟩, ⟨_, 12, rfl⟩, fun hfull _ => absurd hfull (by decide)⟩
  have hroom : LogCall.HasRoom (objectlogInit (List.replicate 8 0) 8) (.writeObject [7, 8, 9]) :=
    ⟨by decide, .inr ⟨by decide, by decide, .inl rfl⟩⟩
  have hrun : Run
    (Run.Guarded (fun log e => e.1.Agrees (List.replicate 8 0) [0x83, 1, 2, 3, 4, 5, 6, 7] log ∧
      e.1.HasRoom log) LogStep) (objectlogInit (List.replicate 8 0) 8)
        [(.writeObject [7, 8, 9], .status 0)]
      ⟨⟨[0x83, 7, 8, 9, 0, 0, 0, 0], 0, 4, 8⟩, 0, 0, 1⟩ :=
    Run.nil.snoc ⟨⟨⟨by simp [IsScatterList], by decide, fun _ => hwalks⟩, hroom⟩, 12, rfl⟩
  obtain ⟨log₂, hrun₂, hcount, -, hcalls⟩ :=
    (init_forgets_storage (show (List.replicate 8 (0 : UInt8)).length = 8 from rfl) rfl (by decide)
      (by decide)).1 _ _ hrun
  refine ⟨_, log₂, Run.of_guarded hrun, hrun₂, hcount,
    hcalls _ ⟨by simp [IsScatterList], by decide, ?_⟩ ?_⟩
  · exact fun hzero => absurd hzero (by decide)
  · exact ⟨by decide, .inr ⟨by decide, by decide, .inr (show 3 ≤ 4 by decide)⟩⟩

/-- Seven bytes are stored in a zeroed ring of eight, and rejected where an
old header leads the walk to cell 4. -/
theorem old_header_rejects :
    (∃ log', LogStep (objectlogInit (List.replicate 8 0) 8)
      (.writeObject [1, 2, 3, 4, 5, 6, 7], .status 0) log') ∧
    ∃ log', LogStep (objectlogInit [0x83, 0, 0, 0, 0, 0, 0, 0] 8)
      (.writeObject [1, 2, 3, 4, 5, 6, 7], .status 65535) log' :=
  ⟨⟨_, 12, rfl⟩, _, 12, rfl⟩

theorem old_header_hangs (list : List ScatterObject) :
    (objectlogWriteScatteredObject (objectlogInit [7, 0, 0, 0, 0, 0, 0, 0] 8) list).Diverges := by
  rintro ⟨status, log'⟩ hret
  obtain ⟨_, hwalk, -⟩ := Comp.returns_bind.mp hret
  refine Comp.loop_diverges (fun log => log = objectlogInit [7, 0, 0, 0, 0, 0, 0, 0] 8)
    ?_ rfl _ hwalk
  rintro _ rfl o ho
  exact ⟨_, (Comp.returns_pure.mp ho).symm, rfl⟩

end FxIP
