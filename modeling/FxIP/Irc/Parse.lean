import FxIP.Ringbuffer

/-!
# Lines from the server

`irc_parse_line` and `irc_parse_command` of `irc.c` as written, on the memory
that the line is in. They end with one action on the globals. A step that
dereferences NULL or leaves the memory has no result.
-/

namespace FxIP

def ascii (s : String) : List UInt8 := s.toList.map fun c => UInt8.ofNat c.toNat

def literal (s : String) : List UInt8 := ascii s ++ [0]

-- ---------------------------------------------------------------------------
-- Strings in memory
-- ---------------------------------------------------------------------------

/-- `mem[p] = c`. -/
def store (mem : List UInt8) (p : Nat) (c : UInt8) : Option (List UInt8) :=
  if p < mem.length then some (mem.set p c) else none

def strlen (mem : List UInt8) (p : Nat) : Option Nat := (mem.drop p).findIdx? (· == 0)

def cstring (mem : List UInt8) (p : Nat) : Option (List UInt8) :=
  (strlen mem p).map fun n => (mem.drop p).take n

/-- The inner `none` is NULL. -/
def memchr (mem : List UInt8) (p : Nat) (c : UInt8) : Nat → Option (Option Nat)
  | 0 => some none
  | n + 1 =>
    match mem[p]? with
    | none => none
    | some b => if b = c then some (some p) else memchr mem (p + 1) c n

def tolower (c : UInt8) : Nat := if 65 ≤ c.toNat ∧ c.toNat ≤ 90 then c.toNat ||| 0x20 else c.toNat

def strncasecmp : List UInt8 → List UInt8 → Nat → Option Int
  | _, _, 0 => some 0
  | c1 :: s1, c2 :: s2, n + 1 =>
    if 0 < n ∧ c1 ≠ 0 ∧ c2 ≠ 0 ∧ tolower c1 = tolower c2 then strncasecmp s1 s2 n
    else some (tolower c1 - tolower c2)
  | _, _, _ + 1 => none

-- ---------------------------------------------------------------------------
-- The parser
-- ---------------------------------------------------------------------------

def PAGE_IRC_OVERVIEW : UInt8 := 2
def PAGE_IRC_CHANNEL : UInt8 := 3

/-- A call of `ui_write_log`; `data` is the memory from the pointer on. -/
structure UiWriteLog where
  pageId : UInt8
  data : List UInt8
  length : Nat
  deriving Repr, DecidableEq

inductive IrcAction
  | nothing
  | writeLog (call : UiWriteLog)
  | display (text : List UInt8)
  | reply (arguments : List UInt8)
  deriving Repr, DecidableEq

/-- The fields that are pointers are cells of the memory. -/
structure IrcMessage where
  linePrefix : Option Nat
  messageWithoutPrefix : Nat
  command : Nat
  commandArguments : Nat
  deriving Repr, DecidableEq

def ircParsePrivmsg (mem : List UInt8) (message : IrcMessage) :
    Option (IrcAction × List UInt8) := do
  match ← memchr mem message.commandArguments 0x20 (← strlen mem message.commandArguments) with
  | none => some (.nothing, mem)
  | some whitespace =>
    let mem ← store mem (whitespace + (2 + (← strlen mem (whitespace + 2)) - 1)) 0
    -- NULL where the line has no prefix, or the prefix no '!'
    let linePrefix ← message.linePrefix
    let prefixend ← ← memchr mem linePrefix 0x21 (← strlen mem linePrefix)
    let mem ← store mem prefixend 0
    let text := ascii "<" ++ (← cstring mem linePrefix) ++ ascii
      "> " ++ (← cstring mem (whitespace + 2))
    some (.display text, mem)

def ircParseOther (mem : List UInt8) (message : IrcMessage) : Option (IrcAction × List UInt8) := do
  match ← memchr mem message.commandArguments 0x20 (← strlen mem message.commandArguments) with
  | none => some (.nothing, mem)
  | some whitespace =>
    let mem ← store mem (whitespace + (2 + (← strlen mem (whitespace + 2)) - 1)) 0
    let length := u16 ((← strlen mem (whitespace + 2)) - 1 : Int)
    some (.writeLog ⟨PAGE_IRC_OVERVIEW, mem.drop (whitespace + 2), length⟩, mem)

def ircParseCommand (mem : List UInt8) (message : IrcMessage) :
    Option (IrcAction × List UInt8) := do
  let command := mem.drop message.command
  let n ← strlen mem message.command
  if n = 0 then some (.writeLog ⟨PAGE_IRC_OVERVIEW, literal "empty cmd", 11⟩, mem)
  else if (← strncasecmp command (literal "PRIVMSG") n) = 0 then ircParsePrivmsg mem message
  else if (← strncasecmp command (literal "PING") n) = 0 then
    some (.reply (← cstring mem message.commandArguments), mem)
  else if (← strncasecmp command (literal "JOIN") n) = 0 then
    some (.writeLog ⟨PAGE_IRC_OVERVIEW, literal "JOIN successful", 15⟩, mem)
  else ircParseOther mem message

/-- `irc_parse_line` up to the call of `irc_parse_command`; the inner `none`
where it finds no space. -/
def ircSplitLine (mem : List UInt8) (length : Nat) : Option (Option IrcMessage × List UInt8) := do
  let mem ← if length = 0 then none else store mem (length - 1) 0
  let split (linePrefix : Option Nat) (start : Nat) (mem : List UInt8) := do
    match ← memchr mem start 0x20 (← strlen mem start) with
    | none => some (none, mem)
    | some whitespace =>
      let mem ← store mem whitespace 0
      some (some ⟨linePrefix, start, start, whitespace + 1⟩, mem)
  if (← mem[0]?) = 0x3A then
    match ← memchr mem 0 0x20 length with
    | none => some (none, mem)
    | some whitespace => split (some 1) (whitespace + 1) (← store mem whitespace 0)
  else split none 0 mem

def ircParseLine (mem : List UInt8) (length : Nat) : Option (IrcAction × List UInt8) := do
  match ← ircSplitLine mem length with
  | (none, mem) => some (.writeLog ⟨PAGE_IRC_OVERVIEW, literal "no ws found", 11⟩, mem)
  | (some message, mem) => ircParseCommand mem message

end FxIP
