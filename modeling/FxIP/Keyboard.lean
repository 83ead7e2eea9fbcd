import FxIP.Irc
import FxIP.Ui

/-!
# The keyboard

`ui_handle_keyboard` of `ui-keyboard.c` as written, on the pages of `ui.c`. The
key codes come from the system library. The pages are redrawn after a call;
what `ui_update` takes of the input line is `scrolledInput`.
-/

namespace FxIP

open Circular

structure KeyCodes where
  KEY_F1 : Int
  KEY_F2 : Int
  KEY_F3 : Int
  KEY_F4 : Int
  KEY_SHIFT : Int
  KEY_ALPHA : Int
  KEY_EXIT : Int
  KEY_LEFT : Int
  KEY_RIGHT : Int
  KEY_DEL : Int
  KEY_EXE : Int
  KEY_0 : Int
  KEY_1 : Int
  KEY_3 : Int
  KEY_4 : Int
  KEY_6 : Int
  KEY_7 : Int
  KEY_9 : Int
  KEY_DOT : Int
  KEY_EXP : Int
  KEY_ADD : Int
  KEY_SUB : Int
  KEY_MUL : Int
  KEY_DIV : Int
  KEY_LEFTP : Int
  KEY_RIGHTP : Int
  KEY_COMMA : Int
  KEY_XOT : Int
  KEY_TAN : Int
  KEY_FRAC : Int
  KEY_ARROW : Int
  deriving Repr, DecidableEq

/-- The character of a key while `alpha` is held, or -1. -/
def keycodeSymbol (K : KeyCodes) (keycode : Int) : Int :=
  if keycode ≥ K.KEY_7 ∧ keycode ≤ K.KEY_9 then 55 + (keycode - K.KEY_7)
  else if keycode ≥ K.KEY_4 ∧ keycode ≤ K.KEY_6 then 52 + (keycode - K.KEY_4)
  else if keycode ≥ K.KEY_1 ∧ keycode ≤ K.KEY_3 then 49 + (keycode - K.KEY_1)
  else if keycode = K.KEY_0 then 48
  else if keycode = K.KEY_DOT then 46
  else if keycode = K.KEY_ADD then 43
  else if keycode = K.KEY_SUB then 45
  else if keycode = K.KEY_MUL then 42
  else if keycode = K.KEY_DIV then 47
  else if keycode = K.KEY_LEFTP then 40
  else if keycode = K.KEY_RIGHTP then 41
  else if keycode = K.KEY_COMMA then 44
  else -1

/-- The upper-case letter, space or quote of a key, or 0. -/
def keycodeLetter (K : KeyCodes) (keycode : Int) : Nat :=
  let character := 0
  let character :=
    if keycode ≥ K.KEY_XOT ∧ keycode ≤ K.KEY_TAN then u8 (65 + (keycode - K.KEY_XOT)) else character
  let character :=
    if keycode ≥ K.KEY_FRAC ∧ keycode ≤ K.KEY_ARROW then u8 (71 + (keycode - K.KEY_FRAC))
    else character
  let character :=
    if keycode ≥ K.KEY_7 ∧ keycode ≤ K.KEY_9 then u8 (77 + (keycode - K.KEY_7)) else character
  let character :=
    if keycode ≥ K.KEY_4 ∧ keycode ≤ K.KEY_DIV then u8 (80 + (keycode - K.KEY_4)) else character
  let character :=
    if keycode ≥ K.KEY_1 ∧ keycode ≤ K.KEY_SUB then u8 (85 + (keycode - K.KEY_1)) else character
  let character := if keycode = K.KEY_0 then 90 else character
  let character := if keycode = K.KEY_DOT then 32 else character
  if keycode = K.KEY_EXP then 34 else character

def uiKeycodeCharacter (K : KeyCodes) (shift alpha : Nat) (keycode : Int) : Int :=
  if alpha ≠ 0 then keycodeSymbol K keycode
  else
    let character := keycodeLetter K keycode
    if shift = 0 ∧ character ≥ 65 ∧ character ≤ 90 then character + (97 - 65)
    else if character ≠ 0 then character
    else -1

-- ---------------------------------------------------------------------------
-- The pages
-- ---------------------------------------------------------------------------

def SIZEOF_PAGE_IRC_CHANNEL_INPUT_BUFFER : Nat := 128

/-- `pages` before `ui_init`, on an input buffer of any contents. -/
def pages (K : KeyCodes) (inputBuffer : List UInt8) : List Page := [
  ⟨0, u8 K.KEY_F1, false, [], 0, 0, 0, 0⟩,
  ⟨1, u8 K.KEY_F2, false, [], 0, 0, 0, 0⟩,
  ⟨PAGE_IRC_OVERVIEW, u8 K.KEY_F3, false, [], 0, 0, 0, 0⟩,
  ⟨PAGE_IRC_CHANNEL, u8 K.KEY_F4, true, inputBuffer, SIZEOF_PAGE_IRC_CHANNEL_INPUT_BUFFER, 0, 0, 0⟩]

/-- `ui_init` clears the input buffers. A page without one has no cells. -/
def uiInitPage (page : Page) : Page :=
  { page with inputBuffer := overwrite page.inputBuffer 0 (List.replicate page.inputBufferSize 0) }

/-- The first byte that `ui_update` draws of the input line. -/
def scrolledInput (page : Page) : Nat :=
  if page.inputOffset > UI_DISPLAY_CHARS then
    min page.inputScrollOffset (page.inputOffset - UI_DISPLAY_CHARS)
  else 0

-- ---------------------------------------------------------------------------
-- Events
-- ---------------------------------------------------------------------------

inductive KeyEvType
  | KEYEV_DOWN
  | KEYEV_UP
  | other
  deriving Repr, DecidableEq

structure KeyEvent where
  type : KeyEvType
  key : Int
  deriving Repr, DecidableEq

structure Keyboard where
  pages : List Page
  currentPage : Nat
  shift : Nat
  alpha : Nat
  messages : Messages
  deriving Repr, DecidableEq

def inputScroll (K : KeyCodes) (key : Int) (page : Page) : Page :=
  let page :=
    if key = K.KEY_LEFT ∧ page.inputScrollOffset ≠ 0 then
      { page with inputScrollOffset := u16 (page.inputScrollOffset - 1) }
    else page
  if key = K.KEY_RIGHT ∧ page.inputOffset > UI_DISPLAY_CHARS ∧
      page.inputScrollOffset < page.inputOffset - UI_DISPLAY_CHARS then
    { page with inputScrollOffset := u16 (page.inputScrollOffset + 1) }
  else page

/-- Text input, for a character and a buffer that is not full. -/
def inputCharacter (character : Int) (page : Page) : Page :=
  if character ≥ 0 ∧ (page.inputOffset : Int) ≤ page.inputBufferSize - 2 then
    let inputOffset := u16 (page.inputOffset + 1)
    { page with
      inputBuffer := page.inputBuffer.set page.inputOffset (UInt8.ofNat (u8 character))
      inputOffset
      inputScrollOffset :=
        if inputOffset > UI_DISPLAY_CHARS then u16 (inputOffset - UI_DISPLAY_CHARS)
        else page.inputScrollOffset }
  else page

def inputDelete (page : Page) : Page :=
  if page.inputOffset ≠ 0 then
    let inputOffset := u16 (page.inputOffset - 1)
    { page with
      inputBuffer := page.inputBuffer.set (page.inputOffset - 1) 0
      inputOffset
      inputScrollOffset :=
        if page.inputScrollOffset ≠ 0 then
          if inputOffset > UI_DISPLAY_CHARS then u16 (inputOffset - UI_DISPLAY_CHARS) else 0
        else page.inputScrollOffset }
  else page

/-- There is no result where the buffer is not terminated for the callback. -/
def inputSubmit (page : Page) (messages : Messages) : Option (Page × Messages) :=
  if page.inputOffset ≠ 0 then do
    let inputBuffer := page.inputBuffer.set page.inputOffset 0
    let messages := uiPageIrcMessageSubmit messages (← cstring inputBuffer 0)
    some ({ page with
      inputBuffer := overwrite inputBuffer 0 (List.replicate page.inputOffset 0)
      inputOffset := 0
      inputScrollOffset := 0 }, messages)
  else some (page, messages)

/-- Horizontal scrolling in the log, on a page without text in its buffer. -/
def pageScroll (K : KeyCodes) (key : Int) (page : Page) : Page :=
  if page.inputEnabled = false ∨ page.inputOffset = 0 then
    let page :=
      if key = K.KEY_LEFT ∧ page.scrollX ≠ 0 then { page with scrollX := u16 (page.scrollX - 1) }
      else page
    if key = K.KEY_RIGHT then { page with scrollX := u16 (page.scrollX + 1) } else page
  else page

/-- The input to the current page after a key was released. -/
def inputKey (K : KeyCodes) (shift alpha : Nat) (key : Int) (page : Page) (messages : Messages) :
    Option (Page × Messages) := do
  if page.inputEnabled then
    let page := inputScroll K key page
    let page := inputCharacter (uiKeycodeCharacter K shift alpha key) page
    let page := if key = K.KEY_DEL then inputDelete page else page
    let (page, messages) ←
      if key = K.KEY_EXE then inputSubmit page messages else some (page, messages)
    some (pageScroll K key page, messages)
  else some (pageScroll K key page, messages)

def selectPage (key : Int) (pages : List Page) (currentPage : Nat) : Nat :=
  (List.range pages.length).foldl
    (fun current pageid => if pages[pageid]?.map (·.key) = some key then pageid else current)
    currentPage

/-- The modifiers and the page selection of a key that was released. -/
def keyReleased (K : KeyCodes) (s : Keyboard) (key : Int) : Keyboard :=
  let s := if key = K.KEY_SHIFT then { s with shift := 0 } else s
  let s := if key = K.KEY_ALPHA then { s with alpha := 0 } else s
  { s with currentPage := selectPage key s.pages s.currentPage }

/-- `ui_handle_keyboard` for the event polled, with its result, as if `pages` were
not const. -/
def uiHandleKeyboardWritable (K : KeyCodes) (s : Keyboard) (event : KeyEvent) :
    Option (Int × Keyboard) :=
  match event.type with
  | .KEYEV_DOWN =>
    let s := if event.key = K.KEY_SHIFT then { s with shift := 1 } else s
    let s := if event.key = K.KEY_ALPHA then { s with alpha := 1 } else s
    some (0, s)
  | .KEYEV_UP => do
    let s := keyReleased K s event.key
    if event.key = K.KEY_EXIT then some (-1, s)
    else
      let (page, messages) ←
        inputKey K s.shift s.alpha event.key (← s.pages[s.currentPage]?) s.messages
      some (0, { s with pages := s.pages.set s.currentPage page, messages })
  | .other => some (0, s)

-- ---------------------------------------------------------------------------
-- Constant pages
-- ---------------------------------------------------------------------------

/-- The fields of a page that the handler assigns. -/
inductive PageField
  | inputOffset
  | inputScrollOffset
  | scrollX
  deriving Repr, DecidableEq

/-- What `pageScroll` assigns. -/
def scrollStore (K : KeyCodes) (key : Int) (page : Page) : Option PageField :=
  if page.inputEnabled = false ∨ page.inputOffset = 0 then
    if key = K.KEY_LEFT ∧ page.scrollX ≠ 0 then some .scrollX
    else if key = K.KEY_RIGHT then some .scrollX
    else none
  else none

/-- The first assignment that a key makes to a field of the current page. Until then
the page is as it was, and the input buffer is not part of it. -/
def pageStore (K : KeyCodes) (shift alpha : Nat) (key : Int) (page : Page) : Option PageField :=
  if page.inputEnabled then
    if key = K.KEY_LEFT ∧ page.inputScrollOffset ≠ 0 then some .inputScrollOffset
    else if key = K.KEY_RIGHT ∧ page.inputOffset > UI_DISPLAY_CHARS ∧
        page.inputScrollOffset < page.inputOffset - UI_DISPLAY_CHARS then some .inputScrollOffset
    else if uiKeycodeCharacter K shift alpha key ≥ 0 ∧
      (page.inputOffset : Int) ≤ page.inputBufferSize - 2 then
      some .inputOffset
    else if key = K.KEY_DEL ∧ page.inputOffset ≠ 0 then some .inputOffset
    else if key = K.KEY_EXE ∧ page.inputOffset ≠ 0 then some .inputOffset
    else scrollStore K key page
  else scrollStore K key page

/-- The first assignment that an event makes to a field of a page. -/
def keyboardStore (K : KeyCodes) (s : Keyboard) (event : KeyEvent) : Option PageField :=
  match event.type with
  | .KEYEV_UP =>
    let s := keyReleased K s event.key
    if event.key = K.KEY_EXIT then none
    else s.pages[s.currentPage]?.bind (pageStore K s.shift s.alpha event.key)
  | .KEYEV_DOWN | .other => none

/-- `ui_handle_keyboard`. There is no result where it assigns to a field of a page,
as `pages` is a const array. -/
def uiHandleKeyboard (K : KeyCodes) (s : Keyboard) (event : KeyEvent) : Option (Int × Keyboard) :=
  if keyboardStore K s event = none then uiHandleKeyboardWritable K s event else none

end FxIP
