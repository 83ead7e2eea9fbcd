import FxIP.Irc.Line

/-!
# Which branch a command takes

`irc_parse_command` compares a name with the command up to the command's own
length, so that the start of a name is taken for it.
-/

namespace FxIP

variable {mem data command : List UInt8} {message : IrcMessage} {length : Nat}

/-- The branches of `irc_parse_command`. -/
inductive IrcBranch
  | empty
  | privmsg
  | ping
  | join
  | overview
  deriving Repr, DecidableEq

/-- The tests of `irc_parse_command` in order. -/
def ircBranch (mem : List UInt8) (message : IrcMessage) : Option IrcBranch := do
  let command := mem.drop message.command
  let n ← strlen mem message.command
  if n = 0 then some .empty
  else if (← strncasecmp command (literal "PRIVMSG") n) = 0 then some .privmsg
  else if (← strncasecmp command (literal "PING") n) = 0 then some .ping
  else if (← strncasecmp command (literal "JOIN") n) = 0 then some .join
  else some .overview

def IrcBranch.run (mem : List UInt8) (message : IrcMessage) :
    IrcBranch → Option (IrcAction × List UInt8)
  | .empty => some (.writeLog ⟨PAGE_IRC_OVERVIEW, literal "empty cmd", 11⟩, mem)
  | .privmsg => ircParsePrivmsg mem message
  | .ping => (cstring mem message.commandArguments).map fun arguments => (.reply arguments, mem)
  | .join => some (.writeLog ⟨PAGE_IRC_OVERVIEW, literal "JOIN successful", 15⟩, mem)
  | .overview => ircParseOther mem message

/-- The branch that `irc_parse_line` comes to, if it comes to a command. -/
def ircLineBranch (data : List UInt8) (length : Nat) : Option IrcBranch := do
  let (message, mem) ← ircSplitLine data length
  ircBranch mem (← message)

/-- The command token that `irc_parse_line` finds. -/
def ircLineCommand (data : List UInt8) (length : Nat) : Option (List UInt8) := do
  let (message, mem) ← ircSplitLine data length
  cstring mem (← message).command

-- ---------------------------------------------------------------------------
-- The branches are those of the parser
-- ---------------------------------------------------------------------------

theorem ircParseCommand_branch (mem : List UInt8) (message : IrcMessage) :
    ircParseCommand mem message = (ircBranch mem message).bind (IrcBranch.run mem message) := by
  unfold ircParseCommand ircBranch
  simp only [Option.bind_eq_bind, Option.bind_assoc]
  refine Option.bind_congr fun n _ => ?_
  by_cases hempty : n = 0
  · simp [hempty, IrcBranch.run]
  simp only [if_neg hempty, Option.bind_assoc]
  refine Option.bind_congr fun privmsg _ => ?_
  by_cases hprivmsg : privmsg = 0
  · simp [hprivmsg, IrcBranch.run]
  simp only [if_neg hprivmsg, Option.bind_assoc]
  refine Option.bind_congr fun ping _ => ?_
  by_cases hping : ping = 0
  · simp only [if_pos hping, Option.bind_some, IrcBranch.run]
    cases cstring mem message.commandArguments <;> rfl
  simp only [if_neg hping, Option.bind_assoc]
  refine Option.bind_congr fun join _ => ?_
  by_cases hjoin : join = 0 <;> simp [hjoin, IrcBranch.run]

theorem ircParseLine_branch (h : ircSplitLine data length = some (some message, mem)) :
    ircParseLine data length = (ircLineBranch data length).bind (IrcBranch.run mem message) := by
  unfold ircParseLine ircLineBranch
  rw [h]
  exact ircParseCommand_branch mem message

-- ---------------------------------------------------------------------------
-- By name
-- ---------------------------------------------------------------------------

def commandNames : List String := ["PRIVMSG", "PING", "JOIN"]

/-- The branch of the first name that satisfies a test, else the overview. -/
def branchBy (test : String → Prop) [DecidablePred test] : IrcBranch :=
  if test "PRIVMSG" then .privmsg
  else if test "PING" then .ping
  else if test "JOIN" then .join
  else .overview

def Names (command : List UInt8) (name : String) : Prop :=
  command.map tolower = (ascii name).map tolower

instance (command : List UInt8) (name : String) : Decidable (Names command name) :=
  inferInstanceAs (Decidable (_ = _))

theorem ircBranch_eq (h : cstring mem message.command = some command) (hne : command ≠ []) :
    ircBranch mem message = some (branchBy (Abbreviates command)) := by
  obtain ⟨hzero, rest, hrest⟩ := cstring_some.mp h
  unfold ircBranch branchBy
  rw [strlen_eq (by rw [hrest]; simp), hrest, cstr_terminated hzero]
  dsimp only [Option.bind_eq_bind, Option.bind_some]
  rw [if_neg (by simpa using hne), strncasecmp_bind hzero rest (by decide), strncasecmp_bind hzero
    rest (by decide), strncasecmp_bind hzero rest (by decide)]
  split
  · rfl
  split
  · rfl
  split <;> rfl

theorem Names.abbreviates {name : String} (h : Names command name) : Abbreviates command name :=
  ⟨[], (List.append_nil _).trans h⟩

theorem names_apart {name name' : String} (hname : name ∈ commandNames)
    (hname' : name' ∈ commandNames)
    (h : Names command name) (h' : Abbreviates command name') : name = name' := by
  have hapart : ∀ name ∈ commandNames, ∀ name' ∈ commandNames, Abbreviates (ascii name) name' →
      name = name' := by
    decide
  unfold Abbreviates at h'
  rw [h] at h'
  exact hapart name hname name' hname' h'

theorem branchBy_iff :
    branchBy (Abbreviates command) = branchBy (Names command) ↔
      ∀ name ∈ commandNames, Abbreviates command name → Names command name := by
  have hsame (name : String) (h : Names command name) : Abbreviates command name := h.abbreviates
  have hother (name name' : String) (hname : name ∈ commandNames) (hname' : name' ∈ commandNames)
      (h : Names command name) (h' : Abbreviates command name') : name = name' :=
        names_apart hname hname' h h'
  -- a command that is one name is the start of no other, so the first test that holds is its own
  simp only [commandNames, List.mem_cons, List.not_mem_nil, or_false, forall_eq_or_imp, forall_eq]
    at hother ⊢
  unfold branchBy
  grind

/-- The parser runs the branch that its tests come to, and exactly the commands that
are not a name cut short take the branch they name. -/
theorem dispatched_by_name_iff (h : ircLineCommand data length = some command)
    (hne : command ≠ []) :
    ∃ message mem branch, ircSplitLine data length = some (some message, mem) ∧
      ircLineBranch data length = some branch ∧ ircParseLine data length = branch.run mem message ∧
      (branch = branchBy (Names command) ↔ ∀ name ∈ commandNames, Abbreviates command name →
        Names command name) := by
  simp only [ircLineCommand, Option.bind_eq_bind, Option.bind_eq_some_iff] at h
  obtain ⟨⟨found, mem⟩, hsplit, message, rfl, hcommand⟩ := h
  have hbranch : ircLineBranch data length = some (branchBy (Abbreviates command)) := by
    rw [ircLineBranch, hsplit]
    exact ircBranch_eq hcommand hne
  have hparse := ircParseLine_branch hsplit
  rw [hbranch, Option.bind_some] at hparse
  exact ⟨message, mem, _, hsplit, hbranch, hparse, branchBy_iff⟩

theorem dispatched_by_name_iff_privmsg :
    ∃ message mem, ircSplitLine (ascii ":n!u@h privmsg #c :hi\r\n") 23 = some (some message, mem) ∧
      ircParseLine (ascii ":n!u@h privmsg #c :hi\r\n") 23 = IrcBranch.privmsg.run mem message := by
  have hcommand : ircLineCommand (ascii ":n!u@h privmsg #c :hi\r\n") 23 =
    some (ascii "privmsg") := by decide
  obtain ⟨message, mem, branch, hsplit, -, hparse, hiff⟩ :=
    dispatched_by_name_iff hcommand (by decide)
  have hnamed : branch = .privmsg := hiff.mpr (by decide)
  exact ⟨message, mem, hsplit, hnamed ▸ hparse⟩

/-- The command `JO` is taken for JOIN. -/
theorem jo_taken_for_join :
    ircLineCommand (ascii "JO ##whitequark\r\n") 17 = some (ascii "JO") ∧
      ircLineBranch (ascii "JO ##whitequark\r\n") 17 = some .join ∧
      (ircParseLine (ascii "JO ##whitequark\r\n") 17).map Prod.fst =
        some (.writeLog ⟨PAGE_IRC_OVERVIEW, literal "JOIN successful", 15⟩) ∧
      branchBy (Names (ascii "JO")) = .overview := by
  decide

end FxIP
