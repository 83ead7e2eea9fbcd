import FxIP.Irc.Parse
import Mathlib.Data.List.TakeWhile

/-!
# Strings in memory as lists

What the string functions find from a cell on depends on the memory behind it
alone. `cstr` is the string there; `cutAt` and `cutWord` split it where
`memchr` stops.
-/

namespace FxIP

variable {mem front rest word after bytes command name : List UInt8} {p n : Nat} {b c : UInt8}

-- ---------------------------------------------------------------------------
-- Strings
-- ---------------------------------------------------------------------------

def cstr (bytes : List UInt8) : List UInt8 := bytes.takeWhile (· ≠ 0)

@[simp] theorem cstr_zero : cstr (0 :: rest) = [] := rfl

theorem zero_not_mem_cstr : 0 ∉ cstr bytes := by
  intro h
  simpa using List.mem_takeWhile_imp h

theorem cstr_append (h : 0 ∉ word) : cstr (word ++ rest) = word ++ cstr rest := by
  apply List.takeWhile_append_of_pos
  intro b hb
  have hne : b ≠ 0 := fun hb0 => h (hb0 ▸ hb)
  simpa using hne

theorem cstr_terminated (h : 0 ∉ word) : cstr (word ++ 0 :: rest) = word := by
  rw [cstr_append h, cstr_zero, List.append_nil]

theorem cstr_append_zero : cstr (bytes ++ 0 :: rest) = cstr bytes := by
  induction bytes with
  | nil => rfl
  | cons b bytes ih =>
    unfold cstr at ih ⊢
    rw [List.cons_append, List.takeWhile_cons, List.takeWhile_cons, ih]

theorem cstr_append_of_mem (h : 0 ∈ bytes) (rest : List UInt8) :
    cstr (bytes ++ rest) = cstr bytes := by
  obtain ⟨front, back, rfl⟩ := List.append_of_mem h
  rw [List.append_assoc, List.cons_append, cstr_append_zero, cstr_append_zero]

theorem eq_cstr_append (h : 0 ∈ bytes) : ∃ rest, bytes = cstr bytes ++ 0 :: rest := by
  induction bytes with
  | nil => simp at h
  | cons b bytes ih =>
    by_cases hb : b = 0
    · exact ⟨bytes, by simp [hb]⟩
    · obtain ⟨rest, hrest⟩ := ih ((List.mem_cons.mp h).resolve_left (Ne.symm hb))
      refine ⟨rest, ?_⟩
      rw [cstr, List.takeWhile_cons, if_pos (by simpa using hb), List.cons_append, ← cstr, ← hrest]

theorem strlen_eq (h : 0 ∈ mem.drop p) : strlen mem p = some (cstr (mem.drop p)).length := by
  obtain ⟨rest, hrest⟩ := eq_cstr_append h
  have hnone : (cstr (mem.drop p)).findIdx? (· == 0) = none := by
    rw [List.findIdx?_eq_none_iff]
    intro b hb
    have hne : b ≠ 0 := fun hb0 => zero_not_mem_cstr (hb0 ▸ hb)
    simpa using hne
  rw [strlen]
  conv_lhs => rw [hrest]
  rw [List.findIdx?_append, hnone, List.findIdx?_cons]
  simp

theorem strlen_unterminated (h : 0 ∉ mem.drop p) : strlen mem p = none := by
  rw [strlen, List.findIdx?_eq_none_iff]
  intro b hb
  have hne : b ≠ 0 := fun hb0 => h (hb0 ▸ hb)
  simpa using hne

theorem cstring_eq (h : 0 ∈ mem.drop p) : cstring mem p = some (cstr (mem.drop p)) := by
  obtain ⟨rest, hrest⟩ := eq_cstr_append h
  rw [cstring, strlen_eq h, Option.map_some]
  conv_lhs => rw [hrest]
  rw [cstr_terminated zero_not_mem_cstr, List.take_left]

theorem cstring_some : cstring mem p = some word ↔ 0 ∉ word ∧
    ∃ rest, mem.drop p = word ++ 0 :: rest := by
  constructor
  · intro h
    by_cases hzero : 0 ∈ mem.drop p
    · rw [cstring_eq hzero, Option.some.injEq] at h
      subst h
      exact ⟨zero_not_mem_cstr, eq_cstr_append hzero⟩
    · rw [cstring, strlen_unterminated hzero] at h
      cases h
  · rintro ⟨hword, rest, hrest⟩
    rw [cstring_eq (by rw [hrest]; simp), hrest, cstr_terminated hword]

theorem store_append (front : List UInt8) (b c : UInt8) (rest : List UInt8) :
    store (front ++ b :: rest) front.length c = some (front ++ c :: rest) := by
  rw [store, if_pos (by simp), List.set_append_right _ _ (Nat.le_refl _), Nat.sub_self,
    List.set_cons_zero]

-- ---------------------------------------------------------------------------
-- Where memchr stops
-- ---------------------------------------------------------------------------

/-- The bytes in front of the first `c` and behind it. -/
def cutAt (c : UInt8) : List UInt8 → Option (List UInt8 × List UInt8)
  | [] => none
  | b :: bytes => if b = c then some ([], bytes) else (cutAt c bytes).map fun (x, y) => (b :: x, y)

theorem cutAt_some : cutAt c bytes = some (word, after) ↔ bytes = word ++ c :: after ∧
    c ∉ word := by
  induction bytes generalizing word with
  | nil => simp [cutAt]
  | cons b bytes ih =>
    rw [cutAt]
    split
    · rename_i hb
      cases word with
      | nil => simp [hb]
      | cons w word =>
        constructor
        · intro h
          cases h
        · rintro ⟨h, hmem⟩
          obtain ⟨hw, -⟩ := List.cons.inj h
          exact absurd (List.mem_cons.mpr (.inl (hb.symm.trans hw))) hmem
    · rename_i hb
      cases word with
      | nil => simp [hb]
      | cons w word =>
        simp only [Option.map_eq_some_iff, Prod.exists, Prod.mk.injEq, List.cons.injEq,
          List.cons_append, List.mem_cons, not_or]
        constructor
        · rintro ⟨x, y, hcut, ⟨rfl, rfl⟩, rfl⟩
          obtain ⟨hbytes, hmem⟩ := ih.mp hcut
          exact ⟨⟨rfl, hbytes⟩, Ne.symm hb, hmem⟩
        · rintro ⟨⟨rfl, hbytes⟩, -, hmem⟩
          exact ⟨word, after, ih.mpr ⟨hbytes, hmem⟩, ⟨rfl, rfl⟩, rfl⟩

theorem cutAt_none : cutAt c bytes = none ↔ c ∉ bytes := by
  induction bytes with
  | nil => simp [cutAt]
  | cons b bytes ih =>
    rw [cutAt]
    split
    · simp [*]
    · rename_i hb
      simp [ih, Ne.symm hb]

theorem memchr_succ (h : mem.drop p = b :: rest) :
    memchr mem p c (n + 1) = if b = c then some (some p) else memchr mem (p + 1) c n := by
  have hp : mem[p]? = some b := by
    rw [← Nat.add_zero p, ← List.getElem?_drop, h]
    rfl
  simp only [memchr, hp]

theorem memchr_eq (h : mem.drop p = bytes ++ rest) :
    memchr mem p c bytes.length = some ((cutAt c bytes).map fun (x, _) => p + x.length) := by
  induction bytes generalizing p with
  | nil => rfl
  | cons b bytes ih =>
    have hnext : mem.drop (p + 1) = bytes ++ rest := by
      rw [← List.drop_drop, h]
      rfl
    rw [List.length_cons, memchr_succ h, ih hnext, cutAt]
    split
    · rfl
    · simp [Function.comp_def, Nat.add_assoc, Nat.add_comm 1]

/-- The string's first word and the memory behind its space. -/
def cutWord (bytes : List UInt8) : Option (List UInt8 × List UInt8) :=
  if 0x20 ∈ cstr bytes then cutAt 0x20 bytes else none

theorem cutWord_some :
    cutWord bytes = some (word, after) ↔ bytes = word ++ 0x20 :: after ∧ 0x20 ∉ word ∧
      0 ∉ word := by
  rw [cutWord]
  constructor
  · intro h
    split at h
    · rename_i hmem
      obtain ⟨rfl, hspace⟩ := cutAt_some.mp h
      refine ⟨rfl, hspace, fun hzero => ?_⟩
      obtain ⟨rest, hrest⟩ := eq_cstr_append hzero
      rw [hrest, List.append_assoc, List.cons_append, cstr_terminated zero_not_mem_cstr] at hmem
      exact hspace (List.takeWhile_subset _ hmem)
    · cases h
  · rintro ⟨rfl, hspace, hzero⟩
    rw [if_pos]
    · exact cutAt_some.mpr ⟨rfl, hspace⟩
    · rw [cstr_append hzero]
      simp [cstr]

theorem cutWord_none : cutWord bytes = none ↔ 0x20 ∉ cstr bytes := by
  rw [cutWord]
  split
  · rename_i hmem
    have : 0x20 ∈ bytes := List.takeWhile_subset _ hmem
    simp [cutAt_none, hmem, this]
  · simp [*]

theorem memchr_cstr (h : 0 ∈ mem.drop p) :
    memchr mem p c (cstr (mem.drop p)).length =
      some ((cutAt c (cstr (mem.drop p))).map fun (x, _) => p + x.length) := by
  obtain ⟨rest, hrest⟩ := eq_cstr_append h
  exact memchr_eq hrest

theorem memchr_string (h : 0 ∈ mem.drop p) :
    memchr mem p 0x20 (cstr (mem.drop p)).length = some
      ((cutWord (mem.drop p)).map fun (x, _) => p + x.length) := by
  rw [memchr_cstr h]
  cases hcut : cutWord (mem.drop p) with
  | none => rw [cutAt_none.mpr (cutWord_none.mp hcut)]
  | some found =>
    obtain ⟨x, after⟩ := found
    obtain ⟨heq, hspace, hzero⟩ := cutWord_some.mp hcut
    have hcstr : cstr (mem.drop p) = x ++ 0x20 :: cstr after := by
      rw [heq, cstr_append hzero]
      simp [cstr]
    rw [cutAt_some.mpr ⟨hcstr, hspace⟩]
    rfl

-- ---------------------------------------------------------------------------
-- The names of commands
-- ---------------------------------------------------------------------------

/-- The command is the start of the name, ignoring case. -/
def Abbreviates (command : List UInt8) (name : String) : Prop :=
  command.map tolower <+: (ascii name).map tolower

instance (command : List UInt8) (name : String) : Decidable (Abbreviates command name) :=
  inferInstanceAs (Decidable (_ <+: _))

theorem tolower_eq_zero (c : UInt8) : tolower c = 0 ↔ c = 0 := by
  rw [← UInt8.toNat_inj]
  simp only [tolower]
  split
  · have hor : 0x20 ≤ c.toNat ||| 0x20 := Nat.right_le_or
    simp
    omega
  · rfl

theorem strncasecmp_eq {name : List UInt8} (hcommand : 0 ∉ command) (hname : 0 ∉ name)
    (rest rest' : List UInt8) :
    ∃ r, strncasecmp (command ++ rest) (name ++ 0 :: rest') command.length = some r ∧
      (r = 0 ↔ command.map tolower <+: name.map tolower) := by
  induction command generalizing name with
  | nil => exact ⟨0, by simp [strncasecmp], by simp⟩
  | cons c command ih =>
    rw [List.mem_cons, not_or] at hcommand
    obtain ⟨hc, hcommand⟩ := hcommand
    cases name with
    | nil =>
      refine ⟨tolower c - tolower 0, ?_, ?_⟩
      · simp [strncasecmp]
      · have hzero : tolower 0 = 0 := rfl
        have hne : tolower c ≠ 0 := fun h => hc ((tolower_eq_zero c).mp h).symm
        simp [hzero, hne]
    | cons d name =>
      rw [List.mem_cons, not_or] at hname
      obtain ⟨hd, hname⟩ := hname
      rw [List.map_cons, List.map_cons, List.cons_prefix_cons]
      by_cases hgo : 0 < command.length ∧ tolower c = tolower d
      · obtain ⟨r, hr, hiff⟩ := ih hcommand hname
        refine ⟨r, ?_, ?_⟩
        · simp only [List.cons_append, List.length_cons, strncasecmp]
          rw [if_pos ⟨hgo.1, Ne.symm hc, Ne.symm hd, hgo.2⟩, hr]
        · simp [hiff, hgo.2]
      · refine ⟨tolower c - tolower d, ?_, ?_⟩
        · simp only [List.cons_append, List.length_cons, strncasecmp]
          rw [if_neg fun h => hgo ⟨h.1, h.2.2.2⟩]
        · -- either the last character is compared, or the characters differ
          by_cases hlast : command = []
          · simp [hlast]
            omega
          · have hdiffer : tolower c ≠ tolower d := fun h => hgo ⟨List.length_pos_iff.mpr hlast, h⟩
            simp [hdiffer]
            omega

end FxIP
