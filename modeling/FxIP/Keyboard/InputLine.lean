import FxIP.Keyboard
import FxIP.Irc.Strings

/-!
# The input line

The input buffer with its offset is a string that cannot outgrow the buffer. An
editor that only has strings makes the same steps for every key event, and the
part of the buffer that is drawn lies inside the string.
-/

namespace FxIP

open Circular

variable {K : KeyCodes} {page : Page} {text : List UInt8} {messages : Messages}
    {key character : Int}
  {size n : Nat} {c : UInt8}

-- ---------------------------------------------------------------------------
-- Terminated strings
-- ---------------------------------------------------------------------------

def zeroPadded (size : Nat) (text : List UInt8) : List UInt8 :=
  text ++ List.replicate (size - text.length) 0

theorem zeroPadded_terminated :
    (zeroPadded size text).set text.length 0 = zeroPadded size text := by
  rw [zeroPadded, List.set_append_right _ _ (Nat.le_refl _), Nat.sub_self, List.set_replicate_self]

theorem zeroPadded_append (h : text.length < size) (c : UInt8) :
    (zeroPadded size text).set text.length c = zeroPadded size (text ++ [c]) := by
  obtain ⟨k, hk⟩ : ∃ k, size - text.length = k + 1 := ⟨size - text.length - 1, by omega⟩
  have hrest : size - (text ++ [c]).length = k := by
    simp
    omega
  rw [zeroPadded, zeroPadded, hk, hrest, List.set_append_right _ _ (Nat.le_refl _), Nat.sub_self,
    List.replicate_succ, List.set_cons_zero, List.append_assoc, List.singleton_append]

theorem zeroPadded_dropLast (h : text.length ≤ size) (hne : text ≠ []) :
    (zeroPadded size text).set (text.length - 1) 0 = zeroPadded size text.dropLast := by
  obtain ⟨text, c, rfl⟩ : ∃ init last, text = init ++ [last] :=
    ⟨text.dropLast, text.getLast hne, (List.dropLast_append_getLast hne).symm⟩
  simp only [List.length_append, List.length_singleton] at h
  have hinit : text.length < size := by omega
  rw [← zeroPadded_append hinit, List.length_append, List.length_singleton, Nat.add_sub_cancel,
    List.set_set, List.dropLast_concat, zeroPadded_terminated]

theorem overwrite_replicate_append (xs ys : List UInt8) :
    overwrite (xs ++ ys) 0 (List.replicate xs.length 0) = List.replicate xs.length 0 ++ ys := by
  have hgeneral (zs : List UInt8) :
      overwrite (zs ++ xs ++ ys) zs.length (List.replicate xs.length 0) =
        zs ++ List.replicate xs.length 0 ++ ys := by
    induction xs generalizing zs with
    | nil => simp
    | cons x xs ih =>
      have h := ih (zs ++ [0])
      simp only [List.length_append, List.length_singleton, List.append_assoc,
        List.singleton_append] at h
      simpa [List.replicate_succ, overwrite] using h
  simpa using hgeneral []

theorem overwrite_zeroPadded (h : text.length ≤ size) :
    overwrite (zeroPadded size text) 0 (List.replicate text.length 0) = zeroPadded size [] := by
  rw [zeroPadded, overwrite_replicate_append, List.replicate_append_replicate, zeroPadded]
  congr 1
  simp
  omega

theorem strlen_zeroPadded (h : text.length < size) (hz : 0 ∉ text) (hn : n ≤ text.length) :
    strlen (zeroPadded size text) n = some (text.length - n) := by
  have hdrop : (zeroPadded size text).drop n = text.drop n ++ 0 :: List.replicate
      (size - text.length - 1) 0 := by
    rw [zeroPadded, List.drop_append_of_le_length hn, ← List.replicate_succ]
    congr 2
    omega
  rw [strlen_eq (by rw [hdrop]; simp), hdrop, cstr_terminated fun hmem =>
    hz (List.mem_of_mem_drop hmem), List.length_drop]

theorem cstring_zeroPadded (h : text.length < size) (hz : 0 ∉ text) :
    cstring (zeroPadded size text) 0 = some text := by
  rw [cstring, strlen_zeroPadded h hz (Nat.zero_le _)]
  simp [zeroPadded]

-- ---------------------------------------------------------------------------
-- The line of a page
-- ---------------------------------------------------------------------------

/-- A page with a buffer of that size has the text in its input line. -/
structure InputLine (size : Nat) (page : Page) (text : List UInt8) : Prop where
  enabled : page.inputEnabled = true
  sized : page.inputBufferSize = size
  fits : size < 65536
  buffer : page.inputBuffer = zeroPadded size text
  offset : page.inputOffset = text.length
  room : text.length < size
  terminated : 0 ∉ text
  scrolled : page.inputScrollOffset ≤ text.length - UI_DISPLAY_CHARS

theorem InputLine.withScroll (h : InputLine size page text)
    (hn : n ≤ text.length - UI_DISPLAY_CHARS) :
    InputLine size { page with inputScrollOffset := n } text := { h with scrolled := hn }

@[simp] theorem inputScroll_key : (inputScroll K key page).key = page.key := by
  unfold inputScroll
  dsimp only
  split <;> split <;> rfl

theorem InputLine.scroll (h : InputLine size page text) (K : KeyCodes) (key : Int) :
    InputLine size (inputScroll K key page) text := by
  have hoffset := h.offset
  have hroom := h.room
  have hfits := h.fits
  have hleft : InputLine size
      (if key = K.KEY_LEFT ∧ page.inputScrollOffset ≠ 0 then
        { page with inputScrollOffset := u16 (page.inputScrollOffset - 1) }
      else page) text := by
    have hlimit := h.scrolled
    split
    · refine h.withScroll ?_
      simp only [u16]
      omega
    · exact h
  unfold inputScroll
  generalize (if key = K.KEY_LEFT ∧ page.inputScrollOffset ≠ 0 then
    { page with inputScrollOffset := u16 (page.inputScrollOffset - 1) } else page) = left at hleft ⊢
  have hlimit := hleft.scrolled
  have hoffset := hleft.offset
  dsimp only
  split
  · refine hleft.withScroll ?_
    simp only [u16]
    omega
  · exact hleft

theorem u8_lt (z : Int) : u8 z < 256 := by
  simp only [u8]
  omega

/-- What an editor with room for `limit` characters makes of a character, or of -1. -/
def editInsert (limit : Nat) (character : Int) (text : List UInt8) : List UInt8 :=
  if 0 ≤ character ∧ text.length < limit then text ++ [UInt8.ofNat (u8 character)] else text

@[simp] theorem inputCharacter_key : (inputCharacter character page).key = page.key := by
  unfold inputCharacter
  split <;> rfl

theorem InputLine.insert (h : InputLine size page text) (hc : 0 ≤ character → u8 character ≠ 0) :
    InputLine size (inputCharacter character page) (editInsert (size - 1) character text) := by
  have hsized := h.sized
  have hoffset := h.offset
  have hroom := h.room
  have hfits := h.fits
  have hlimit := h.scrolled
  unfold inputCharacter editInsert
  by_cases hgo : 0 ≤ character ∧ text.length < size - 1
  · rw [if_pos hgo, if_pos ⟨hgo.1, by omega⟩]
    have hnext : u16 (page.inputOffset + 1) = text.length + 1 := by
      simp only [u16]
      omega
    have hlength : (text ++ [UInt8.ofNat (u8 character)]).length = text.length + 1 := by simp
    have hbyte : UInt8.ofNat (u8 character) ≠ 0 := by
      intro hzero
      have h0 := congrArg UInt8.toNat hzero
      rw [UInt8.toNat_ofNat_of_lt' (u8_lt character)] at h0
      exact hc hgo.1 h0
    exact {
      enabled := h.enabled
      sized := hsized
      fits := hfits
      buffer := by
        change page.inputBuffer.set page.inputOffset _ = _
        rw [h.buffer, hoffset, zeroPadded_append hroom]
      offset := hnext.trans hlength.symm
      room := by omega
      terminated := by
        intro hmem
        rcases List.mem_append.mp hmem with hmem | hmem
        · exact h.terminated hmem
        · exact hbyte (List.mem_singleton.mp hmem).symm
      scrolled := by
        dsimp only
        rw [hnext, hlength]
        simp only [u16]
        split <;> omega }
  · rw [if_neg hgo, if_neg (by omega)]
    exact h

@[simp] theorem inputDelete_key : (inputDelete page).key = page.key := by
  unfold inputDelete
  split <;> rfl

theorem InputLine.delete (h : InputLine size page text) :
    InputLine size (inputDelete page) text.dropLast := by
  have hoffset := h.offset
  have hroom := h.room
  have hfits := h.fits
  have hlimit := h.scrolled
  unfold inputDelete
  by_cases hne : text = []
  · rw [if_neg (by simp [hoffset, hne])]
    simpa [hne] using h
  · have hpos := List.length_pos_iff.mpr hne
    have hnext : u16 (page.inputOffset - 1) = text.length - 1 := by
      simp only [u16]
      omega
    rw [if_pos (by omega)]
    exact {
      enabled := h.enabled
      sized := h.sized
      fits := hfits
      buffer := by
        change page.inputBuffer.set (page.inputOffset - 1) 0 = _
        rw [h.buffer, hoffset, zeroPadded_dropLast (Nat.le_of_lt hroom) hne]
      offset := by
        rw [List.length_dropLast]
        exact hnext
      room := by
        rw [List.length_dropLast]
        omega
      terminated := fun hmem => h.terminated (List.dropLast_subset text hmem)
      scrolled := by
        dsimp only
        rw [hnext, List.length_dropLast]
        simp only [u16]
        split
        · split <;> omega
        · omega }

theorem InputLine.submit (h : InputLine size page text) (messages : Messages) :
    ∃ page', inputSubmit page messages =
        some (page', if text = [] then messages else uiPageIrcMessageSubmit messages text) ∧
      InputLine size page' [] ∧ page'.key = page.key := by
  have hoffset := h.offset
  unfold inputSubmit
  by_cases hne : text = []
  · rw [if_neg (by simp [hoffset, hne]), if_pos hne]
    exact ⟨page, rfl, hne ▸ h, rfl⟩
  · have hpos := List.length_pos_iff.mpr hne
    have hset : page.inputBuffer.set page.inputOffset 0 = zeroPadded size text := by
      rw [h.buffer, hoffset, zeroPadded_terminated]
    rw [if_pos (by omega), if_neg hne]
    dsimp only
    rw [hset, cstring_zeroPadded h.room h.terminated]
    refine ⟨_, rfl, ?_, rfl⟩
    exact {
      enabled := h.enabled
      sized := h.sized
      fits := h.fits
      buffer := by
        change overwrite (zeroPadded size text) 0 (List.replicate page.inputOffset 0) = _
        rw [hoffset, overwrite_zeroPadded (Nat.le_of_lt h.room)]
      offset := rfl
      room := Nat.zero_lt_of_lt h.room
      terminated := List.not_mem_nil
      scrolled := Nat.zero_le _ }

@[simp] theorem pageScroll_key : (pageScroll K key page).key = page.key := by
  unfold pageScroll
  split
  · dsimp only
    split <;> split <;> rfl
  · rfl

@[simp] theorem pageScroll_inputEnabled :
    (pageScroll K key page).inputEnabled = page.inputEnabled := by
  unfold pageScroll
  split
  · dsimp only
    split <;> split <;> rfl
  · rfl

theorem InputLine.scrollPage (h : InputLine size page text) (K : KeyCodes) (key : Int) :
    InputLine size (pageScroll K key page) text := by
  unfold pageScroll
  split
  · dsimp only
    split <;> split <;> exact { h with }
  · exact h

theorem InputLine.drawn (h : InputLine size page text) :
    scrolledInput page ≤ text.length ∧
      strlen page.inputBuffer (scrolledInput page) = some (text.length - scrolledInput page) := by
  have hin : scrolledInput page ≤ text.length := by
    have hoffset := h.offset
    unfold scrolledInput
    split <;> omega
  rw [h.buffer]
  exact ⟨hin, strlen_zeroPadded h.room h.terminated hin⟩

-- ---------------------------------------------------------------------------
-- The editor
-- ---------------------------------------------------------------------------

/-- A character is -1 or not zero, as with the codes of the system library. -/
def KeyCodes.Characters (K : KeyCodes) : Prop :=
  ∀ shift alpha keycode,
    uiKeycodeCharacter K shift alpha keycode = -1 ∨
      u8 (uiKeycodeCharacter K shift alpha keycode) ≠ 0

/-- The text with the key's character inserted, or its last one removed. -/
def editKey (K : KeyCodes) (limit shift alpha : Nat) (key : Int) (text : List UInt8) : List UInt8 :=
  let text := editInsert limit (uiKeycodeCharacter K shift alpha key) text
  if key = K.KEY_DEL then text.dropLast else text

structure Editor where
  currentPage : Nat
  shift : Nat
  alpha : Nat
  text : List UInt8
  submitted : List (List UInt8)
  deriving Repr, DecidableEq

def Editor.init : Editor := ⟨0, 0, 0, [], []⟩

def Editor.release (K : KeyCodes) (key : Int) (e : Editor) : Editor :=
  let text := editKey K (SIZEOF_PAGE_IRC_CHANNEL_INPUT_BUFFER - 1) e.shift e.alpha key e.text
  if key = K.KEY_EXE then
    { e with text := [], submitted := if text = [] then e.submitted else e.submitted ++ [text] }
  else { e with text }

@[simp] theorem Editor.release_currentPage (e : Editor) :
    (e.release K key).currentPage = e.currentPage := by
  unfold Editor.release
  dsimp only
  split <;> rfl

@[simp] theorem Editor.release_shift (e : Editor) : (e.release K key).shift = e.shift := by
  unfold Editor.release
  dsimp only
  split <;> rfl

@[simp] theorem Editor.release_alpha (e : Editor) : (e.release K key).alpha = e.alpha := by
  unfold Editor.release
  dsimp only
  split <;> rfl

theorem Editor.release_text (e : Editor) :
    (e.release K key).text =
      if key = K.KEY_EXE then []
      else editKey K (SIZEOF_PAGE_IRC_CHANNEL_INPUT_BUFFER - 1) e.shift e.alpha key e.text := by
  unfold Editor.release
  dsimp only
  split <;> rfl

theorem Editor.foldl_submitted {α : Type} (submit : α → List UInt8 → α) (a : α) (e : Editor) :
    (e.release K key).submitted.foldl submit a =
      let edited := editKey K (SIZEOF_PAGE_IRC_CHANNEL_INPUT_BUFFER - 1) e.shift e.alpha key e.text
      if key = K.KEY_EXE ∧ edited ≠ [] then submit (e.submitted.foldl submit a) edited
      else e.submitted.foldl submit a := by
  unfold Editor.release
  dsimp only
  by_cases hexe : key = K.KEY_EXE
  · rw [if_pos hexe]
    by_cases hnone : editKey K (SIZEOF_PAGE_IRC_CHANNEL_INPUT_BUFFER - 1) e.shift e.alpha
      key e.text = []
    · simp [hnone]
    · rw [if_neg hnone, if_pos ⟨hexe, hnone⟩, List.foldl_append]
      rfl
  · simp [hexe]

/-- Keys count when they are released, and only on the page with the line. -/
def Editor.step (K : KeyCodes) (e : Editor) (event : KeyEvent) : Editor :=
  match event.type with
  | .KEYEV_DOWN =>
    { e with
      shift := if event.key = K.KEY_SHIFT then 1 else e.shift
      alpha := if event.key = K.KEY_ALPHA then 1 else e.alpha }
  | .KEYEV_UP =>
    let e := { e with
      shift := if event.key = K.KEY_SHIFT then 0 else e.shift
      alpha := if event.key = K.KEY_ALPHA then 0 else e.alpha
      currentPage := selectPage event.key (pages K []) e.currentPage }
    if event.key = K.KEY_EXIT ∨ e.currentPage ≠ PAGE_IRC_CHANNEL.toNat then e
      else e.release K event.key
  | .other => e

/-- A key on the page with the line does to the line what it does to the text. -/
theorem InputLine.release (h : InputLine size page text) (hK : K.Characters)
    (shift alpha : Nat) (key : Int) (messages : Messages) :
    let edited := editKey K (size - 1) shift alpha key text
    ∃ page', inputKey K shift alpha key page messages =
        some (page',
          if key = K.KEY_EXE ∧ edited ≠ [] then uiPageIrcMessageSubmit messages edited
            else messages) ∧
      InputLine size page' (if key = K.KEY_EXE then [] else edited) ∧ page'.key = page.key := by
  intro edited
  have hcharacter : 0 ≤ uiKeycodeCharacter K shift alpha key →
      u8 (uiKeycodeCharacter K shift alpha key) ≠ 0 := by
    intro hpos
    rcases hK shift alpha key with hnone | hsome
    · omega
    · exact hsome
  have hedited : InputLine size
      (if key = K.KEY_DEL then
        inputDelete (inputCharacter (uiKeycodeCharacter K shift alpha key) (inputScroll K key page))
      else inputCharacter (uiKeycodeCharacter K shift alpha key) (inputScroll K key page))
          edited := by
    have hinserted := (h.scroll K key).insert hcharacter
    unfold edited editKey
    split
    · exact hinserted.delete
    · exact hinserted
  have hkey : (if key = K.KEY_DEL then
        inputDelete (inputCharacter (uiKeycodeCharacter K shift alpha key) (inputScroll K key page))
      else inputCharacter (uiKeycodeCharacter K shift alpha key) (inputScroll K key page)).key =
          page.key := by
    split <;> simp
  unfold inputKey
  rw [if_pos h.enabled]
  dsimp only
  generalize (if key = K.KEY_DEL then
    inputDelete (inputCharacter (uiKeycodeCharacter K shift alpha key) (inputScroll K key page))
    else inputCharacter (uiKeycodeCharacter K shift alpha key) (inputScroll K key page)) =
      page₁ at hedited hkey ⊢
  by_cases hexe : key = K.KEY_EXE
  · obtain ⟨page₂, hsubmit, hline, hkey₂⟩ := hedited.submit messages
    refine ⟨pageScroll K key page₂, ?_, ?_, ?_⟩
    · rw [if_pos hexe, hsubmit]
      by_cases hne : edited = [] <;> simp [hexe, hne]
    · rw [if_pos hexe]
      exact hline.scrollPage K key
    · rw [pageScroll_key, hkey₂, hkey]
  · refine ⟨pageScroll K key page₁, ?_, ?_, ?_⟩
    · simp [hexe]
    · rw [if_neg hexe]
      exact hedited.scrollPage K key
    · rw [pageScroll_key, hkey]

-- ---------------------------------------------------------------------------
-- Runs
-- ---------------------------------------------------------------------------

/-- The globals after `ui_init`, on an input buffer of any contents. -/
def keyboardInit (K : KeyCodes) (inputBuffer : List UInt8) (messages : Messages) : Keyboard :=
  { pages := (pages K inputBuffer).map uiInitPage, currentPage := 0, shift := 0, alpha := 0,
    messages }

/-- The keyboard is where the editor is; the callback saw every text that the
editor submitted. -/
structure Edits (K : KeyCodes) (messages : Messages) (s : Keyboard) (e : Editor) : Prop where
  currentPage : s.currentPage = e.currentPage
  shift : s.shift = e.shift
  alpha : s.alpha = e.alpha
  keys : s.pages.map (·.key) = (pages K []).map (·.key)
  onPage : s.currentPage < 4
  disabled : ∀ i page, s.pages[i]? = some page → i ≠ PAGE_IRC_CHANNEL.toNat →
    page.inputEnabled = false
  line : ∃ page, s.pages[PAGE_IRC_CHANNEL.toNat]? = some page ∧
    InputLine SIZEOF_PAGE_IRC_CHANNEL_INPUT_BUFFER page e.text
  messages : s.messages = e.submitted.foldl uiPageIrcMessageSubmit messages

theorem Edits.length_pages {s : Keyboard} {e : Editor} (h : Edits K messages s e) :
    s.pages.length = 4 := by
  have hkeys := congrArg List.length h.keys
  rw [List.length_map, List.length_map] at hkeys
  exact hkeys

variable {s : Keyboard} {e : Editor} {inputBuffer : List UInt8} {event : KeyEvent}

theorem InputLine.init (henabled : page.inputEnabled = true) (hsized : page.inputBufferSize = size)
    (hfits : size < 65536) (hpos : 0 < size) (hbuffer : page.inputBuffer.length = size)
    (hoffset : page.inputOffset = 0) (hscroll : page.inputScrollOffset = 0) :
    InputLine size (uiInitPage page) [] where
  enabled := henabled
  sized := hsized
  fits := hfits
  buffer := by
    have hall := overwrite_replicate_append page.inputBuffer []
    simpa [uiInitPage, zeroPadded, hsized, hbuffer] using hall
  offset := hoffset
  room := hpos
  terminated := List.not_mem_nil
  scrolled := Nat.le_of_eq hscroll

theorem edits_init (hb : inputBuffer.length = SIZEOF_PAGE_IRC_CHANNEL_INPUT_BUFFER) :
    Edits K messages (keyboardInit K inputBuffer messages) Editor.init where
  currentPage := rfl
  shift := rfl
  alpha := rfl
  keys := by simp [keyboardInit, pages, uiInitPage]
  onPage := Nat.zero_lt_succ _
  disabled := by
    intro i page hpage hi
    match i with
    | 0 | 1 | 2 => rw [← Option.some.inj hpage]; rfl
    | 3 => exact absurd rfl hi
    | i + 4 => exact absurd hpage (by simp [keyboardInit, pages])
  line := by
    refine ⟨_, rfl, ?_⟩
    exact .init rfl rfl (by decide) (by decide) hb rfl rfl
  messages := rfl

theorem selectPage_keys {ps qs : List Page} (h : ps.map (·.key) = qs.map (·.key))
    (key : Int) (n : Nat) :
    selectPage key ps n = selectPage key qs n := by
  have hlength : ps.length = qs.length := by simpa using congrArg List.length h
  have hcell (i : Nat) : ps[i]?.map (·.key) = qs[i]?.map (·.key) := by
    rw [← List.getElem?_map, ← List.getElem?_map, h]
  simp only [selectPage, hlength, hcell]

theorem selectPage_lt {ps : List Page} (key : Int) (h : n < ps.length) :
    selectPage key ps n < ps.length := by
  unfold selectPage
  refine List.foldlRecOn (motive := (· < ps.length)) (List.range ps.length) _ h ?_
  intro current hcurrent i hi
  split
  · exact List.mem_range.mp hi
  · exact hcurrent

theorem Edits.release (h : Edits K messages s e) (hK : K.Characters) (key : Int) :
    ∃ page page' messages', s.pages[s.currentPage]? = some page ∧
      inputKey K s.shift s.alpha key page s.messages = some (page', messages') ∧
      Edits K messages { s with pages := s.pages.set s.currentPage page', messages := messages' }
        (if e.currentPage ≠ PAGE_IRC_CHANNEL.toNat then e else e.release K key) := by
  have hin : s.currentPage < s.pages.length := h.length_pages ▸ h.onPage
  obtain ⟨page, hpage⟩ : ∃ page, s.pages[s.currentPage]? = some page :=
    ⟨_, List.getElem?_eq_getElem hin⟩
  have hkeys {page' : Page} (hkey : page'.key = page.key) :
      (s.pages.set s.currentPage page').map (·.key) = (pages K []).map (·.key) := by
    have hcell : (s.pages.map (·.key))[s.currentPage]? = some page.key := by
      rw [List.getElem?_map, hpage, Option.map_some]
    obtain ⟨hlt, hget⟩ := List.getElem?_eq_some_iff.mp hcell
    rw [← h.keys, List.map_set, hkey, ← hget, List.set_getElem_self]
  by_cases hcurrent : s.currentPage = PAGE_IRC_CHANNEL.toNat
  · obtain ⟨page₃, hpage₃, hline⟩ := h.line
    obtain rfl : page = page₃ := Option.some.inj (hpage.symm.trans (hcurrent ▸ hpage₃))
    obtain ⟨page', hkey, hline', hsame⟩ := hline.release hK s.shift s.alpha key s.messages
    refine ⟨page, page', _, hpage, hkey, ?_⟩
    have hedits : ¬ e.currentPage ≠ PAGE_IRC_CHANNEL.toNat :=
      fun hne => hne (h.currentPage ▸ hcurrent)
    rw [if_neg hedits]
    rw [h.shift, h.alpha] at hline' ⊢
    exact {
      currentPage := by rw [Editor.release_currentPage, ← h.currentPage]
      shift := by rw [Editor.release_shift]
      alpha := by rw [Editor.release_alpha]
      keys := hkeys hsame
      onPage := h.onPage
      disabled := by
        intro i other hother hi
        rw [List.getElem?_set_ne (hcurrent ▸ hi.symm)] at hother
        exact h.disabled i other hother hi
      line := by
        rw [← hcurrent, List.getElem?_set_self hin, Editor.release_text]
        exact ⟨page', rfl, hline'⟩
      messages := by
        rw [Editor.foldl_submitted, h.messages] }
  · have hdisabled := h.disabled _ _ hpage hcurrent
    refine ⟨page, pageScroll K key page, s.messages, hpage, by simp [inputKey, hdisabled], ?_⟩
    rw [if_pos (h.currentPage ▸ hcurrent)]
    exact {
      h with
      keys := hkeys pageScroll_key
      disabled := by
        intro i other hother hi
        by_cases hsame : s.currentPage = i
        · rw [← hsame, List.getElem?_set_self hin] at hother
          rw [← Option.some.inj hother, pageScroll_inputEnabled, hdisabled]
        · rw [List.getElem?_set_ne hsame] at hother
          exact h.disabled i other hother hi
      line := by
        rw [List.getElem?_set_ne hcurrent]
        exact h.line }

theorem Keyboard.modifiers (s : Keyboard) (p q : Prop) [Decidable p] [Decidable q] (held : Nat) :
    (if q then { (if p then { s with shift := held } else s) with alpha := held }
      else if p then { s with shift := held } else s) =
        { s with shift := if p then held else s.shift, alpha := if q then held else s.alpha } := by
  split <;> split <;> rfl

theorem keyReleased_eq (K : KeyCodes) (s : Keyboard) (key : Int) :
    keyReleased K s key = { s with
      shift := if key = K.KEY_SHIFT then 0 else s.shift
      alpha := if key = K.KEY_ALPHA then 0 else s.alpha
      currentPage := selectPage key s.pages s.currentPage } := by
  unfold keyReleased
  dsimp only
  rw [Keyboard.modifiers]

theorem uiHandleKeyboardWritable_up (K : KeyCodes) (s : Keyboard) (key : Int) :
    uiHandleKeyboardWritable K s ⟨.KEYEV_UP, key⟩ =
      let s₁ := keyReleased K s key
      if key = K.KEY_EXIT then some (-1, s₁)
      else s₁.pages[s₁.currentPage]?.bind fun page =>
        (inputKey K s₁.shift s₁.alpha key page s₁.messages).bind fun r =>
          some (0, { s₁ with pages := s₁.pages.set s₁.currentPage r.1, messages := r.2 }) := rfl

theorem Edits.step (h : Edits K messages s e) (hK : K.Characters) (event : KeyEvent) :
    ∃ result s', uiHandleKeyboardWritable K s event = some (result, s') ∧
      Edits K messages s' (e.step K event) := by
  rcases event with ⟨_ | _ | _, key⟩
  case KEYEV_DOWN =>
    refine ⟨0, _, rfl, ?_⟩
    have hpressed : Edits K messages
        { s with
          shift := if key = K.KEY_SHIFT then 1 else s.shift
          alpha := if key = K.KEY_ALPHA then 1 else s.alpha }
        (e.step K ⟨.KEYEV_DOWN, key⟩) :=
      { h with
        shift := by simp [Editor.step, h.shift]
        alpha := by simp [Editor.step, h.alpha] }
    rw [Keyboard.modifiers]
    exact hpressed
  case KEYEV_UP =>
    -- the state and the editor after the modifiers and the page selection
    let s₁ : Keyboard := { s with
      shift := if key = K.KEY_SHIFT then 0 else s.shift
      alpha := if key = K.KEY_ALPHA then 0 else s.alpha
      currentPage := selectPage key s.pages s.currentPage }
    let e₁ : Editor := { e with
      shift := if key = K.KEY_SHIFT then 0 else e.shift
      alpha := if key = K.KEY_ALPHA then 0 else e.alpha
      currentPage := selectPage key (pages K []) e.currentPage }
    have h₁ : Edits K messages s₁ e₁ :=
      { h with
        shift := by simp [s₁, e₁, h.shift]
        alpha := by simp [s₁, e₁, h.alpha]
        currentPage := by simp only [s₁, e₁, selectPage_keys h.keys, h.currentPage]
        onPage := by
          have hlt := selectPage_lt key (h.length_pages ▸ h.onPage : s.currentPage < s.pages.length)
          rwa [h.length_pages] at hlt }
    have hreleased : keyReleased K s key = s₁ := keyReleased_eq K s key
    have hedit : e.step K ⟨.KEYEV_UP, key⟩ =
        if key = K.KEY_EXIT then e₁
        else if e₁.currentPage ≠ PAGE_IRC_CHANNEL.toNat then e₁ else e₁.release K key := by
      simp only [Editor.step, e₁]
      grind
    rw [uiHandleKeyboardWritable_up, hreleased, hedit]
    by_cases hexit : key = K.KEY_EXIT
    · rw [if_pos hexit, if_pos hexit]
      exact ⟨-1, s₁, rfl, h₁⟩
    · obtain ⟨page, page', messages', hpage, hkey, h'⟩ := h₁.release hK key
      rw [if_neg hexit, if_neg hexit, hpage]
      refine ⟨0, _, ?_, h'⟩
      change (inputKey K s₁.shift s₁.alpha key page s₁.messages).bind _ = _
      rw [hkey]
      rfl
  case other => exact ⟨0, s, rfl, h⟩

theorem Edits.run (h : Edits K messages s e) (hK : K.Characters) (events : List KeyEvent) :
    ∃ s', events.foldlM (fun s event => (uiHandleKeyboardWritable K s event).map Prod.snd) s =
      some s' ∧
      Edits K messages s' (events.foldl (Editor.step K) e) := by
  induction events generalizing s e with
  | nil => exact ⟨s, rfl, h⟩
  | cons event events ih =>
    obtain ⟨result, s₁, hstep, h₁⟩ := h.step hK event
    obtain ⟨s', hrun, h'⟩ := ih h₁
    refine ⟨s', ?_, h'⟩
    rw [List.foldlM_cons, hstep]
    exact hrun

/-- After the key events since `ui_init` the input line is the editor's text, in a
buffer that is zero behind it. Its callback saw the texts the editor submitted, and
what is drawn of it starts inside the text. -/
def EditsLine (K : KeyCodes) (handle : Keyboard → KeyEvent → Option (Int × Keyboard))
    (inputBuffer : List UInt8) (messages : Messages) (events : List KeyEvent) : Prop :=
  ∃ s page,
    events.foldlM (fun s event => (handle s event).map Prod.snd)
      (keyboardInit K inputBuffer messages) = some s ∧
    s.pages[PAGE_IRC_CHANNEL.toNat]? = some page ∧
    let e := events.foldl (Editor.step K) Editor.init
    page.inputBufferSize = SIZEOF_PAGE_IRC_CHANNEL_INPUT_BUFFER ∧
    page.inputBuffer = e.text ++ List.replicate (page.inputBufferSize - page.inputOffset) 0 ∧
    0 ∉ e.text ∧
    page.inputOffset = e.text.length ∧
    page.inputOffset < page.inputBufferSize ∧
    page.inputScrollOffset ≤ page.inputOffset - UI_DISPLAY_CHARS ∧
    s.messages = e.submitted.foldl uiPageIrcMessageSubmit messages ∧
    scrolledInput page ≤ e.text.length ∧
    strlen page.inputBuffer (scrolledInput page) = some (e.text.length - scrolledInput page)

theorem input_line_edits (hK : K.Characters)
    (hb : inputBuffer.length = SIZEOF_PAGE_IRC_CHANNEL_INPUT_BUFFER)
    (messages : Messages) (events : List KeyEvent) :
    EditsLine K (uiHandleKeyboardWritable K) inputBuffer messages events := by
  have hinit : Edits K messages (keyboardInit K inputBuffer messages) Editor.init := edits_init hb
  obtain ⟨s, hrun, hedits⟩ := hinit.run hK events
  obtain ⟨page, hpage, hline⟩ := hedits.line
  refine ⟨s, page, hrun, hpage, hline.sized, ?_, hline.terminated, hline.offset, ?_, ?_,
    hedits.messages, hline.drawn⟩
  · rw [hline.sized, hline.offset]
    exact hline.buffer
  · rw [hline.sized, hline.offset]
    exact hline.room
  · rw [hline.offset]
    exact hline.scrolled

-- ---------------------------------------------------------------------------
-- Constant pages
-- ---------------------------------------------------------------------------

/-- The keys that assign to a field of a page that is as `ui_init` left it. -/
def Editor.Stores (K : KeyCodes) (e : Editor) (event : KeyEvent) : Prop :=
  event.type = .KEYEV_UP ∧ event.key ≠ K.KEY_EXIT ∧
    (event.key = K.KEY_RIGHT ∨
      selectPage event.key (pages K []) e.currentPage = PAGE_IRC_CHANNEL.toNat ∧
        0 ≤ uiKeycodeCharacter K (if event.key = K.KEY_SHIFT then 0 else e.shift)
          (if event.key = K.KEY_ALPHA then 0 else e.alpha) event.key)

def KeepsPages (K : KeyCodes) : Editor → List KeyEvent → Prop
  | _, [] => True
  | e, event :: events => ¬ e.Stores K event ∧ KeepsPages K (e.step K event) events

instance (K : KeyCodes) (e : Editor) (event : KeyEvent) : Decidable (e.Stores K event) :=
  inferInstanceAs (Decidable (_ ∧ _ ∧ (_ ∨ _ ∧ _)))

instance decidableKeepsPages (K : KeyCodes) : (e : Editor) → (events : List KeyEvent) →
    Decidable (KeepsPages K e events)
  | _, [] => isTrue trivial
  | e, event :: events => @instDecidableAnd _ _ inferInstance
      (decidableKeepsPages K (e.step K event) events)

/-- The pages are as `ui_init` left them, and the editor has no text. -/
structure Untouched (K : KeyCodes) (inputBuffer : List UInt8) (messages : Messages) (s : Keyboard)
    (e : Editor) :
    Prop where
  keyboard : s = { keyboardInit K inputBuffer messages with
    currentPage := e.currentPage, shift := e.shift, alpha := e.alpha }
  text : e.text = []
  onPage : e.currentPage < 4

theorem untouched_init : Untouched K inputBuffer messages
    (keyboardInit K inputBuffer messages) Editor.init where
  keyboard := rfl
  text := rfl
  onPage := Nat.zero_lt_succ _

/-- On a page without text a key assigns only what scrolls the log to the right, or
the character inserted. -/
theorem pageStore_untouched {shift alpha : Nat} (hoffset : page.inputOffset = 0)
    (hscroll : page.inputScrollOffset = 0)
    (hx : page.scrollX = 0) (hsize : page.inputEnabled = true → 2 ≤ page.inputBufferSize) :
    pageStore K shift alpha key page = none ↔
      ¬ (key = K.KEY_RIGHT ∨ page.inputEnabled = true ∧
        0 ≤ uiKeycodeCharacter K shift alpha key) := by
  have hlog : scrollStore K key page = none ↔ ¬ key = K.KEY_RIGHT := by
    simp [scrollStore, hoffset, hx]
  cases henabled : page.inputEnabled with
  | false => simp [pageStore, henabled, hlog]
  | true =>
    have hroom : (2 : Int) ≤ page.inputBufferSize := Int.ofNat_le.mpr (hsize henabled)
    by_cases hcharacter : 0 ≤ uiKeycodeCharacter K shift alpha key
    · simp [pageStore, henabled, hoffset, hscroll, hcharacter, hroom]
    · simp [pageStore, henabled, hoffset, hscroll, hcharacter, hlog]

theorem inputKey_of_pageStore {shift alpha : Nat} (h : pageStore K shift alpha key page = none)
    (messages : Messages) :
    inputKey K shift alpha key page messages = some (page, messages) := by
  have hlog (hstore : scrollStore K key page = none) : pageScroll K key page = page := by
    unfold scrollStore at hstore
    unfold pageScroll
    grind
  unfold pageStore at h
  unfold inputKey
  cases henabled : page.inputEnabled with
  | false =>
    rw [henabled, if_neg Bool.false_ne_true] at h
    simp [hlog h]
  | true =>
    rw [henabled, if_pos rfl] at h
    split at h; · cases h
    rename_i hleft
    split at h; · cases h
    rename_i hright
    split at h; · cases h
    rename_i hcharacter
    split at h; · cases h
    rename_i hdelete
    split at h; · cases h
    rename_i hsubmit
    have hscroll : inputScroll K key page = page := by simp [inputScroll, hleft, hright]
    have hinsert : inputCharacter (uiKeycodeCharacter K shift alpha key) page = page :=
      if_neg hcharacter
    have hdel : (if key = K.KEY_DEL then inputDelete page else page) = page := by
      simp only [inputDelete]
      grind
    have hexe (hk : key = K.KEY_EXE) : inputSubmit page messages = some (page, messages) :=
      if_neg fun hne => hsubmit ⟨hk, hne⟩
    have hend : some (pageScroll K key page, messages) = some (page, messages) := by rw [hlog h]
    rw [if_pos rfl]
    dsimp only
    rw [hscroll, hinsert, hdel]
    split
    · rename_i hk
      rw [hexe hk]
      exact hend
    · exact hend

theorem page_init {i : Nat} (hi : i < 4) (inputBuffer : List UInt8) :
    ∃ page, ((pages K inputBuffer).map uiInitPage)[i]? = some page ∧
      page.inputOffset = 0 ∧ page.inputScrollOffset = 0 ∧ page.scrollX = 0 ∧
      (page.inputEnabled = true ↔ i = PAGE_IRC_CHANNEL.toNat) ∧
      (page.inputEnabled = true → 2 ≤ page.inputBufferSize) := by
  match i, hi with
  | 0, _ | 1, _ | 2, _ =>
    exact ⟨_, rfl, rfl, rfl, rfl, iff_of_false Bool.false_ne_true (by decide), fun h => by cases h⟩
  | 3, _ =>
    have hsize : 2 ≤ SIZEOF_PAGE_IRC_CHANNEL_INPUT_BUFFER := by decide
    exact ⟨_, rfl, rfl, rfl, rfl, iff_of_true rfl rfl, fun _ => hsize⟩

theorem Untouched.of_text {e' : Editor} (h : Untouched K inputBuffer messages s e)
    (hpage : e'.currentPage = e.currentPage) (hshift : e'.shift = e.shift)
    (halpha : e'.alpha = e.alpha)
    (htext : e'.text = []) : Untouched K inputBuffer messages s e' where
  keyboard := by rw [hpage, hshift, halpha, ← h.keyboard]
  text := htext
  onPage := hpage ▸ h.onPage

theorem Untouched.released (h : Untouched K inputBuffer messages s e) (key : Int) :
    Untouched K inputBuffer messages (keyReleased K s key) { e with
      shift := if key = K.KEY_SHIFT then 0 else e.shift
      alpha := if key = K.KEY_ALPHA then 0 else e.alpha
      currentPage := selectPage key (pages K []) e.currentPage } where
  keyboard := by
    have hkeys : ((pages K inputBuffer).map uiInitPage).map (·.key) = (pages K []).map (·.key) := by
      simp [pages, uiInitPage]
    rw [keyReleased_eq, h.keyboard]
    dsimp only [keyboardInit]
    rw [selectPage_keys hkeys]
  text := h.text
  onPage := @selectPage_lt _ (pages K []) key h.onPage

theorem Untouched.step (h : Untouched K inputBuffer messages s e) (event : KeyEvent) :
    (keyboardStore K s event = none ↔ ¬ e.Stores K event) ∧
      (¬ e.Stores K event → ∃ result s', uiHandleKeyboardWritable K s event = some (result, s') ∧
        Untouched K inputBuffer messages s' (e.step K event)) := by
  obtain ⟨type, key⟩ := event
  cases type with
  | KEYEV_DOWN =>
    refine ⟨iff_of_true rfl fun hstores => (nomatch hstores.1), fun _ =>
      ⟨0, _, rfl, ?_, h.text, h.onPage⟩⟩
    rw [Keyboard.modifiers, h.keyboard]
    rfl
  | other => exact ⟨iff_of_true rfl fun hstores => (nomatch hstores.1), fun _ => ⟨0, s, rfl, h⟩⟩
  | KEYEV_UP =>
    have hreleased := h.released key
    set e₁ : Editor := { e with
      shift := if key = K.KEY_SHIFT then 0 else e.shift
      alpha := if key = K.KEY_ALPHA then 0 else e.alpha
      currentPage := selectPage key (pages K []) e.currentPage } with he₁
    set s₁ := keyReleased K s key with hs₁
    by_cases hexit : key = K.KEY_EXIT
    · refine ⟨iff_of_true (if_pos hexit) fun hstores => hstores.2.1 hexit, fun _ =>
        ⟨-1, s₁, if_pos hexit, ?_⟩⟩
      have hstep : e.step K ⟨.KEYEV_UP, key⟩ = e₁ := if_pos (.inl hexit)
      rwa [hstep]
    · obtain ⟨page, hpage, hoffset, hscroll, hx, henabled, hsize⟩ :=
        page_init (K := K) hreleased.onPage inputBuffer
      have hcurrent : s₁.pages[s₁.currentPage]? = some page := by
        rw [hreleased.keyboard]
        exact hpage
      have hshift : s₁.shift = e₁.shift := by rw [hreleased.keyboard]
      have halpha : s₁.alpha = e₁.alpha := by rw [hreleased.keyboard]
      have hstore : keyboardStore K s ⟨.KEYEV_UP, key⟩ = pageStore K e₁.shift e₁.alpha
          key page := by
        have hread : keyboardStore K s ⟨.KEYEV_UP, key⟩ =
            s₁.pages[s₁.currentPage]?.bind (pageStore K s₁.shift s₁.alpha key) := if_neg hexit
        rw [hread, hcurrent, Option.bind_some, hshift, halpha]
      have hiff : pageStore K e₁.shift e₁.alpha key page = none ↔
          ¬ e.Stores K ⟨.KEYEV_UP, key⟩ := by
        rw [pageStore_untouched hoffset hscroll hx hsize, henabled]
        exact not_congr ⟨fun h => ⟨rfl, hexit, h⟩, fun h => h.2.2⟩
      refine ⟨hstore ▸ hiff, fun hkeeps => ⟨0, s₁, ?_, ?_⟩⟩
      · have hkey := inputKey_of_pageStore (hiff.mpr hkeeps) s₁.messages
        have hsame : s₁.pages.set s₁.currentPage page = s₁.pages := by
          obtain ⟨hlt, hget⟩ := List.getElem?_eq_some_iff.mp hcurrent
          rw [← hget, List.set_getElem_self]
        rw [← hshift, ← halpha] at hkey
        rw [uiHandleKeyboardWritable_up, ← hs₁]
        dsimp only
        rw [if_neg hexit, hcurrent, Option.bind_some, hkey, Option.bind_some, hsame]
      · by_cases hline : e₁.currentPage = PAGE_IRC_CHANNEL.toNat
        · have hnone : ¬ 0 ≤ uiKeycodeCharacter K e₁.shift e₁.alpha key :=
            fun hc => hkeeps ⟨rfl, hexit, .inr ⟨hline, hc⟩⟩
          have hstep : e.step K ⟨.KEYEV_UP, key⟩ = e₁.release K key :=
            if_neg (not_or.mpr ⟨hexit, not_not_intro hline⟩)
          rw [hstep]
          refine hreleased.of_text (Editor.release_currentPage _) (Editor.release_shift _)
            (Editor.release_alpha _) ?_
          have hinsert : editInsert (SIZEOF_PAGE_IRC_CHANNEL_INPUT_BUFFER - 1)
              (uiKeycodeCharacter K e₁.shift e₁.alpha key) [] = [] := if_neg fun hc => hnone hc.1
          rw [Editor.release_text, editKey, hreleased.text, hinsert]
          split
          · rfl
          · exact ite_self _
        · have hstep : e.step K ⟨.KEYEV_UP, key⟩ = e₁ := if_pos (.inr hline)
          rwa [hstep]

theorem Untouched.run_iff (h : Untouched K inputBuffer messages s e) (events : List KeyEvent) :
    (∃ s', events.foldlM (fun s event => (uiHandleKeyboard K s event).map Prod.snd) s = some s') ↔
      KeepsPages K e events := by
  induction events generalizing s e with
  | nil => exact iff_of_true ⟨s, rfl⟩ trivial
  | cons event events ih =>
    obtain ⟨hstore, hnext⟩ := h.step event
    rw [List.foldlM_cons, KeepsPages]
    by_cases hkeeps : e.Stores K event
    · refine iff_of_false ?_ fun hall => hall.1 hkeeps
      rintro ⟨s', hrun⟩
      rw [uiHandleKeyboard, if_neg fun hnone => hstore.mp hnone hkeeps] at hrun
      cases hrun
    · obtain ⟨result, s₁, hs₁, h₁⟩ := hnext hkeeps
      rw [uiHandleKeyboard, if_pos (hstore.mpr hkeeps), hs₁, and_iff_right hkeeps, ← ih h₁]
      rfl

/-- What the handler does is what it would do on pages that could be written. -/
theorem run_writable {events : List KeyEvent} {s' : Keyboard}
    (hrun : events.foldlM (fun s event => (uiHandleKeyboard K s event).map Prod.snd) s = some s') :
    events.foldlM (fun s event => (uiHandleKeyboardWritable K s event).map Prod.snd) s =
      some s' := by
  induction events generalizing s with
  | nil => exact hrun
  | cons event events ih =>
    rw [List.foldlM_cons] at hrun ⊢
    obtain ⟨s₁, hs₁, hrest⟩ := Option.bind_eq_some_iff.mp hrun
    refine Option.bind_eq_some_iff.mpr ⟨s₁, ?_, ih hrest⟩
    rw [uiHandleKeyboard] at hs₁
    split at hs₁
    · exact hs₁
    · cases hs₁

/-- The input line is the editor's exactly in the runs in which no key assigns to a
field of a page. -/
theorem input_line_iff (hK : K.Characters)
    (hb : inputBuffer.length = SIZEOF_PAGE_IRC_CHANNEL_INPUT_BUFFER)
    (messages : Messages) (events : List KeyEvent) :
    EditsLine K (uiHandleKeyboard K) inputBuffer messages events ↔
      KeepsPages K Editor.init events := by
  have hinit : Untouched K inputBuffer messages (keyboardInit K inputBuffer messages) Editor.init :=
    untouched_init
  have hiff := hinit.run_iff events
  constructor
  · rintro ⟨s, page, hrun, -⟩
    exact hiff.mp ⟨s, hrun⟩
  · intro hkeeps
    obtain ⟨s, hrun⟩ := hiff.mpr hkeeps
    obtain ⟨s', page, hrun', hline⟩ := input_line_edits hK hb messages events
    obtain rfl : s = s' := Option.some.inj ((run_writable hrun).symm.trans hrun')
    exact ⟨s, page, hrun, hline⟩

def gintKeys : KeyCodes where
  KEY_F1 := 0x91
  KEY_F2 := 0x92
  KEY_F3 := 0x93
  KEY_F4 := 0x94
  KEY_SHIFT := 0x81
  KEY_ALPHA := 0x71
  KEY_EXIT := 0x74
  KEY_LEFT := 0x85
  KEY_RIGHT := 0x76
  KEY_DEL := 0x44
  KEY_EXE := 0x15
  KEY_0 := 0x11
  KEY_1 := 0x21
  KEY_3 := 0x23
  KEY_4 := 0x31
  KEY_6 := 0x33
  KEY_7 := 0x41
  KEY_9 := 0x43
  KEY_DOT := 0x12
  KEY_EXP := 0x13
  KEY_ADD := 0x24
  KEY_SUB := 0x25
  KEY_MUL := 0x34
  KEY_DIV := 0x35
  KEY_LEFTP := 0x53
  KEY_RIGHTP := 0x54
  KEY_COMMA := 0x55
  KEY_XOT := 0x61
  KEY_TAN := 0x66
  KEY_FRAC := 0x51
  KEY_ARROW := 0x56

theorem gintKeys_symbol (keycode : Int) :
    keycodeSymbol gintKeys keycode = -1 ∨ u8 (keycodeSymbol gintKeys keycode) ≠ 0 := by
  simp only [keycodeSymbol, gintKeys, u8]
  omega

theorem keycodeLetter_lt (K : KeyCodes) (keycode : Int) : keycodeLetter K keycode < 256 := by
  unfold keycodeLetter
  dsimp only
  repeat' split
  all_goals first | exact u8_lt _ | decide

theorem gintKeys_characters : gintKeys.Characters := by
  intro shift alpha keycode
  have hletter := keycodeLetter_lt gintKeys keycode
  unfold uiKeycodeCharacter
  dsimp only
  split
  · exact gintKeys_symbol keycode
  · simp only [u8]
    repeat' split
    all_goals omega

/-- A character typed while another page is shown, then the channel's page. -/
theorem input_line_iff_selected :
    EditsLine gintKeys (uiHandleKeyboard gintKeys)
      (List.replicate 128 0x55) ⟨.fill _ 0, 0, 0, [], [], false⟩
      ([0x61, 0x94, 0x44, 0x15].map fun key => ⟨.KEYEV_UP, key⟩) := by
  have hb : (List.replicate 128 (0x55 : UInt8)).length = SIZEOF_PAGE_IRC_CHANNEL_INPUT_BUFFER :=
    List.length_replicate
  exact (input_line_iff gintKeys_characters hb _ _).mpr (by decide)

/-- The channel's page, and a letter. -/
theorem typing_stores_into_page :
    ¬ EditsLine gintKeys (uiHandleKeyboard gintKeys)
      (List.replicate 128 0) ⟨.fill _ 0, 0, 0, [], [], false⟩
      ([0x94, 0x61].map fun key => ⟨.KEYEV_UP, key⟩) := by
  rintro ⟨s, page, hrun, -⟩
  cases hrun

end FxIP
