import FxIP.Irc.Strings

/-!
# What a line says

`lineAction` reads prefix, command and parameters off the line as a list.
`irc_parse_line` does what it says, or has no result where it has none.
-/

namespace FxIP

variable {mem front linePrefix command args line post : List UInt8} {c : UInt8} {p : Nat}

-- ---------------------------------------------------------------------------
-- Actions
-- ---------------------------------------------------------------------------

/-- A text for the channel page, from the parameters in the memory `args`. -/
def privmsgAction (linePrefix : Option (List UInt8)) (args : List UInt8) : Option IrcAction :=
  match cutWord args with
  | none => some .nothing
  | some (_, after) =>
    if 0 ∈ after.drop 1 then do
      let (nick, _) ← cutAt 0x21 (← linePrefix)
      some (.display (ascii "<" ++ nick ++ ascii "> " ++ (cstr (after.drop 1)).dropLast))
    else none

/-- The last character of the text is cut off in memory, and one more by the
length. -/
def otherAction (args : List UInt8) : Option IrcAction :=
  match cutWord args with
  | none => some .nothing
  | some (_, after) =>
    let text := cstr (after.drop 1)
    if 0 ∈ after.drop 1 then
      some (.writeLog
        ⟨PAGE_IRC_OVERVIEW, text.dropLast ++ 0 :: (after.drop 1).drop (max 1 text.length),
          u16 (text.dropLast.length - 1 : Int)⟩)
    else none

def commandAction (linePrefix : Option (List UInt8)) (command args : List UInt8) :
    Option IrcAction :=
  if command = [] then some (.writeLog ⟨PAGE_IRC_OVERVIEW, literal "empty cmd", 11⟩)
  else if Abbreviates command "PRIVMSG" then privmsgAction linePrefix args
  else if Abbreviates command "PING" then some (.reply (cstr args))
  else if Abbreviates command "JOIN" then some
    (.writeLog ⟨PAGE_IRC_OVERVIEW, literal "JOIN successful", 15⟩)
  else otherAction args

/-- The prefix as a string without its colon, if there is one, and the rest of
the line. -/
def cutPrefix (line : List UInt8) : Option (Option (List UInt8) × List UInt8) :=
  if line.head? = some 0x3A then (cutAt 0x20 line).map fun (x, rest) => (some (cstr x.tail), rest)
  else some (none, line)

/-- `post` is the memory behind the line, which ends with its terminator. -/
def lineAction (line post : List UInt8) : Option IrcAction :=
  match cutPrefix line with
  | none => some (.writeLog ⟨PAGE_IRC_OVERVIEW, literal "no ws found", 11⟩)
  | some (linePrefix, rest) =>
    match cutWord (rest ++ 0 :: post) with
    | none => some (.writeLog ⟨PAGE_IRC_OVERVIEW, literal "no ws found", 11⟩)
    | some (command, args) => commandAction linePrefix command args

-- ---------------------------------------------------------------------------
-- Commands
-- ---------------------------------------------------------------------------

theorem store_text {after : List UInt8} (front : List UInt8) (htext : 0 ∈ after.drop 1) :
    ∃ after', store (front ++ 0x20 :: after) (front.length + (2 + (cstr (after.drop 1)).length - 1))
      0 =
        some (front ++ 0x20 :: after') ∧
      after'.drop 1 =
        (cstr (after.drop 1)).dropLast ++ 0 :: (after.drop 1).drop
        (max 1 (cstr (after.drop 1)).length) := by
  cases after with
  | nil => simp at htext
  | cons a after =>
    rw [List.drop_succ_cons, List.drop_zero] at htext ⊢
    obtain ⟨rest, hrest⟩ := eq_cstr_append htext
    rcases List.eq_nil_or_concat (cstr after) with hnone | ⟨text, z, hsome⟩
    · -- the byte behind the space
      refine ⟨0 :: after, ?_, ?_⟩
      · have h := store_append (front ++ [0x20]) a 0 after
        simpa [hnone] using h
      · rw [hnone] at hrest ⊢
        rw [hrest]
        rfl
    · refine ⟨a :: (text ++ 0 :: 0 :: rest), ?_, ?_⟩
      · have h := store_append (front ++ 0x20 :: a :: text) z 0 (0 :: rest)
        rw [hsome] at hrest ⊢
        rw [hrest]
        simpa [Nat.add_assoc, Nat.add_comm, Nat.add_left_comm] using h
      · rw [hsome] at hrest ⊢
        conv_rhs => rw [hrest]
        simp

theorem drop_text (front after : List UInt8) :
    (front ++ 0x20 :: after).drop (front.length + 2) = after.drop 1 := by
  rw [List.drop_append]
  simp

/-- Where the text starts that both branches look for, and the memory after its
last character is cut off; the inner `none` where there is no space. -/
def cutText (mem : List UInt8) (start : Nat) : Option (Option (Nat × List UInt8)) := do
  match ← memchr mem start 0x20 (← strlen mem start) with
  | none => some none
  | some whitespace =>
    let mem ← store mem (whitespace + (2 + (← strlen mem (whitespace + 2)) - 1)) 0
    some (some (whitespace, mem))

section
variable (front : List UInt8) (hargs : 0 ∈ args)
include hargs

theorem cutText_none (hcut : cutWord args = none) :
    cutText (front ++ args) front.length = some none := by
  have hdrop : (front ++ args).drop front.length = args := List.drop_left
  unfold cutText
  rw [strlen_eq (by rwa [hdrop])]
  change (memchr (front ++ args) front.length 0x20 _).bind _ = _
  rw [memchr_string (by rwa [hdrop]), hdrop, hcut]
  rfl

theorem cutText_some {word after : List UInt8} (hcut : cutWord args = some (word, after)) :
    cutText (front ++ args) front.length =
      (strlen (front ++ word ++ 0x20 :: after) ((front ++ word).length + 2)).bind fun n =>
        (store (front ++ word ++ 0x20 :: after) ((front ++ word).length + (2 + n - 1)) 0).bind
          fun mem =>
          some (some ((front ++ word).length, mem)) := by
  have hdrop : (front ++ args).drop front.length = args := List.drop_left
  unfold cutText
  rw [strlen_eq (by rwa [hdrop])]
  change (memchr (front ++ args) front.length 0x20 _).bind _ = _
  rw [memchr_string (by rwa [hdrop]), hdrop, hcut]
  obtain ⟨rfl, -, -⟩ := cutWord_some.mp hcut
  rw [List.append_assoc, List.length_append]
  rfl

theorem cutText_terminated {word after : List UInt8} (hcut : cutWord args = some (word, after))
    (htext : 0 ∈ after.drop 1) :
    ∃ after', cutText (front ++ args) front.length =
        some (some ((front ++ word).length, front ++ word ++ 0x20 :: after')) ∧
      after'.drop 1 =
        (cstr (after.drop 1)).dropLast ++ 0 :: (after.drop 1).drop
        (max 1 (cstr (after.drop 1)).length) := by
  obtain ⟨after', hstore, hafter'⟩ := store_text (front ++ word) htext
  refine ⟨after', ?_, hafter'⟩
  rw [cutText_some front hargs hcut, strlen_eq (by rwa [drop_text]), drop_text,
    Option.bind_some, hstore, Option.bind_some]

theorem cutText_unterminated {word after : List UInt8} (hcut : cutWord args = some (word, after))
    (htext : 0 ∉ after.drop 1) : cutText (front ++ args) front.length = none := by
  rw [cutText_some front hargs hcut, strlen_unterminated (by rwa [drop_text]), Option.bind_none]

end

theorem ircParseOther_eq (mem : List UInt8) (message : IrcMessage) :
    ircParseOther mem message = (cutText mem message.commandArguments).bind fun
      | none => some (.nothing, mem)
      | some (whitespace, mem) => (strlen mem (whitespace + 2)).bind fun n =>
        some (.writeLog ⟨PAGE_IRC_OVERVIEW, mem.drop (whitespace + 2), u16 (n - 1 : Int)⟩,
            mem) := by
  unfold ircParseOther cutText
  simp only [Option.bind_eq_bind, Option.bind_assoc]
  refine Option.bind_congr fun n _ => Option.bind_congr fun found _ => ?_
  cases found with
  | none => rfl
  | some whitespace => simp only [Option.bind_assoc, Option.bind_some]

theorem ircParseOther_action (front : List UInt8) (hargs : 0 ∈ args) (message : IrcMessage)
    (hm : message.commandArguments = front.length) :
    (ircParseOther (front ++ args) message).map Prod.fst = otherAction args := by
  rw [ircParseOther_eq, hm]
  unfold otherAction
  cases hcut : cutWord args with
  | none =>
    rw [cutText_none front hargs hcut]
    rfl
  | some found =>
    obtain ⟨word, after⟩ := found
    dsimp only
    by_cases htext : 0 ∈ after.drop 1
    · obtain ⟨after', hcutText, hafter'⟩ := cutText_terminated front hargs hcut htext
      have hterminated : 0 ∈ after'.drop 1 := by simp [hafter']
      rw [hcutText, if_pos htext, Option.bind_some]
      dsimp only
      rw [strlen_eq (by rwa [drop_text]), drop_text, hafter',
        cstr_terminated fun h => zero_not_mem_cstr (List.dropLast_subset _ h)]
      rfl
    · rw [cutText_unterminated front hargs hcut htext, if_neg htext]
      rfl

theorem le_length_of_mem_drop (hzero : 0 ∈ front.drop p) : p ≤ front.length := by
  rcases Nat.le_total p front.length with h | h
  · exact h
  · rw [List.drop_eq_nil_of_le h] at hzero
    cases hzero

theorem drop_front (hzero : 0 ∈ front.drop p) (tail : List UInt8) :
    (front ++ tail).drop p = front.drop p ++ tail :=
  List.drop_append_of_le_length (le_length_of_mem_drop hzero)

theorem store_nick {nick host : List UInt8} (hzero : 0 ∈ front.drop p)
    (hcut : cutAt 0x21 (cstr (front.drop p)) = some (nick, host)) (tail : List UInt8) :
    ∃ front', store (front ++ tail) (p + nick.length) 0 = some (front' ++ tail) ∧
      front'.length = front.length ∧ cstring (front' ++ tail) p = some nick := by
  obtain ⟨rest, hrest⟩ := eq_cstr_append hzero
  obtain ⟨hnick, -⟩ := cutAt_some.mp hcut
  have hnickzero : 0 ∉ nick := by
    intro h
    exact zero_not_mem_cstr (hnick ▸ List.mem_append_left _ h)
  obtain ⟨start, rfl, hfront⟩ : ∃ start : List UInt8, start.length = p ∧
      front = start ++ nick ++ 0x21 :: (host ++ 0 :: rest) := by
    refine ⟨front.take p, List.length_take_of_le (le_length_of_mem_drop hzero), ?_⟩
    conv_lhs => rw [← List.take_append_drop p front, hrest, hnick]
    simp
  have hdrop : (start ++ nick ++ 0 :: (host ++ 0 :: rest) ++ tail).drop start.length =
      nick ++ 0 :: (host ++ 0 :: rest ++ tail) := by
    rw [List.append_assoc, List.append_assoc, List.drop_left]
    rfl
  refine ⟨start ++ nick ++ 0 :: (host ++ 0 :: rest), ?_, ?_, ?_⟩
  · have h := store_append (start ++ nick) 0x21 0 (host ++ 0 :: rest ++ tail)
    conv_lhs => rw [hfront]
    simpa using h
  · rw [hfront]
    simp
  · rw [cstring_eq (by rw [hdrop]; simp), hdrop, cstr_terminated hnickzero]

/-- The nick is the prefix up to its `!`, and ended there. -/
def displayText (linePrefix : Option Nat) (whitespace : Nat) (mem : List UInt8) :
    Option (IrcAction × List UInt8) := do
  let linePrefix ← linePrefix
  let prefixend ← ← memchr mem linePrefix 0x21 (← strlen mem linePrefix)
  let mem ← store mem prefixend 0
  let text := ascii "<" ++ (← cstring mem linePrefix) ++ ascii
    "> " ++ (← cstring mem (whitespace + 2))
  some (.display text, mem)

theorem ircParsePrivmsg_eq (mem : List UInt8) (message : IrcMessage) :
    ircParsePrivmsg mem message = (cutText mem message.commandArguments).bind fun
      | none => some (.nothing, mem)
      | some (whitespace, mem) => displayText message.linePrefix whitespace mem := by
  unfold ircParsePrivmsg cutText
  simp only [Option.bind_eq_bind, Option.bind_assoc]
  refine Option.bind_congr fun n _ => Option.bind_congr fun found _ => ?_
  cases found with
  | none => rfl
  | some whitespace =>
    simp only [Option.bind_assoc, Option.bind_some]
    rfl

theorem displayText_action (word : List UInt8) {after text : List UInt8} (hzero : 0 ∈ front.drop p)
    (htext : 0 ∉ text) (hafter : ∃ rest, after.drop 1 = text ++ 0 :: rest) :
    (displayText (some p) (front ++ word).length (front ++ word ++ 0x20 :: after)).map Prod.fst =
      (cutAt 0x21 (cstr (front.drop p))).map fun (nick, _) =>
        .display (ascii "<" ++ nick ++ ascii "> " ++ text) := by
  obtain ⟨rest, hafter⟩ := hafter
  have hmem := drop_front hzero (word ++ 0x20 :: after)
  rw [← List.append_assoc] at hmem
  have hzero' : 0 ∈ (front ++ word ++ 0x20 :: after).drop p := by
    rw [hmem]
    exact List.mem_append_left _ hzero
  unfold displayText
  dsimp only [Option.bind_eq_bind, Option.bind_some]
  rw [strlen_eq hzero', Option.bind_some, memchr_cstr hzero', hmem, cstr_append_of_mem hzero]
  cases hnick : cutAt 0x21 (cstr (front.drop p)) with
  | none => rfl
  | some found =>
    obtain ⟨nick, host⟩ := found
    obtain ⟨front', hstore, hlength, hcstring⟩ := store_nick hzero hnick (word ++ 0x20 :: after)
    rw [← List.append_assoc, ← List.append_assoc] at hstore
    rw [← List.append_assoc] at hcstring
    dsimp only [Option.map_some, Option.bind_some]
    have hsame : (front ++ word).length = (front' ++ word).length := by simp [hlength]
    have hterminated : 0 ∈ after.drop 1 := by simp [hafter]
    rw [hstore, Option.bind_some, hcstring, Option.bind_some, hsame,
      cstring_eq (by rwa [drop_text]), drop_text, hafter, cstr_terminated htext]
    rfl

theorem ircParsePrivmsg_action (front : List UInt8) (hargs : 0 ∈ args) (message : IrcMessage)
    (hm : message.commandArguments = front.length)
    (hpre : ∀ p, message.linePrefix = some p → 0 ∈ front.drop p) :
    (ircParsePrivmsg (front ++ args) message).map Prod.fst =
      privmsgAction (message.linePrefix.map fun p => cstr (front.drop p)) args := by
  rw [ircParsePrivmsg_eq, hm]
  unfold privmsgAction
  cases hcut : cutWord args with
  | none =>
    rw [cutText_none front hargs hcut]
    rfl
  | some found =>
    obtain ⟨word, after⟩ := found
    dsimp only
    by_cases htext : 0 ∈ after.drop 1
    · obtain ⟨after', hcutText, hafter'⟩ := cutText_terminated front hargs hcut htext
      rw [hcutText, if_pos htext, Option.bind_some]
      cases hp : message.linePrefix with
      | none => rfl
      | some p =>
        have hnozero : 0 ∉ (cstr (after.drop 1)).dropLast :=
          fun h => zero_not_mem_cstr (List.dropLast_subset _ h)
        have haction := displayText_action word (hpre p hp) hnozero ⟨_, hafter'⟩
        change _ = (cutAt 0x21 (cstr (front.drop p))).bind _
        dsimp only
        rw [haction]
        cases cutAt 0x21 (cstr (front.drop p)) <;> rfl
    · rw [cutText_unterminated front hargs hcut htext, if_neg htext]
      rfl

theorem strncasecmp_bind {α : Type} (hcommand : 0 ∉ command) (rest : List UInt8) {name : String}
    (hname : 0 ∉ ascii name) (yes no : Option α) :
    ((strncasecmp (command ++ 0 :: rest) (literal name) command.length).bind fun r => if r =
      0 then yes else no) =
      if Abbreviates command name then yes else no := by
  have htest : ∃ r, strncasecmp (command ++ 0 :: rest) (literal name) command.length = some r ∧
      (r = 0 ↔ Abbreviates command name) := strncasecmp_eq hcommand hname _ []
  obtain ⟨r, hr, hzero⟩ := htest
  rw [hr, Option.bind_some]
  exact if_congr hzero rfl rfl

theorem ircParseCommand_action (hcommand : 0 ∉ command) (hargs : 0 ∈ args) (message : IrcMessage)
    (hm : message.command = front.length)
    (hm' : message.commandArguments = front.length + command.length + 1)
    (hpre : ∀ p, message.linePrefix = some p → 0 ∈ front.drop p) :
    (ircParseCommand (front ++ command ++ 0 :: args) message).map Prod.fst =
      commandAction (message.linePrefix.map fun p => cstr (front.drop p)) command args := by
  have hdrop : (front ++ command ++ 0 :: args).drop front.length = command ++ 0 :: args := by
    rw [List.append_assoc, List.drop_left]
  have hmem : front ++ command ++ 0 :: args = front ++ command ++ [0] ++ args := by simp
  have hlength : message.commandArguments =
    (front ++ command ++ [0]).length := by simp [hm', Nat.add_assoc]
  have hpre' : ∀ p, message.linePrefix = some p → 0 ∈ (front ++ command ++ [0]).drop p := by
    intro p hp
    rw [List.append_assoc, drop_front (hpre p hp)]
    exact List.mem_append_left _ (hpre p hp)
  have hsame : (message.linePrefix.map fun p => cstr ((front ++ command ++ [0]).drop p)) =
      message.linePrefix.map fun p => cstr (front.drop p) := by
    cases hp : message.linePrefix with
    | none => rfl
    | some p =>
      rw [Option.map_some, Option.map_some, List.append_assoc, drop_front (hpre p hp),
        cstr_append_of_mem (hpre p hp)]
  unfold ircParseCommand commandAction
  rw [hm, strlen_eq (by rw [hdrop]; simp), hdrop, cstr_terminated hcommand]
  dsimp only [Option.bind_eq_bind, Option.bind_some]
  rw [strncasecmp_bind hcommand args (by decide), strncasecmp_bind hcommand args (by decide),
    strncasecmp_bind hcommand args (by decide)]
  by_cases hempty : command = []
  · simp [hempty]
  rw [if_neg (by simpa using hempty), if_neg hempty]
  by_cases hprivmsg : Abbreviates command "PRIVMSG"
  · rw [if_pos hprivmsg, if_pos hprivmsg, hmem, ircParsePrivmsg_action _ hargs message hlength
      hpre', hsame]
  rw [if_neg hprivmsg, if_neg hprivmsg]
  by_cases hping : Abbreviates command "PING"
  · rw [if_pos hping, if_pos hping, hlength, hmem, cstring_eq (by rwa [List.drop_left]),
      List.drop_left]
    rfl
  rw [if_neg hping, if_neg hping]
  by_cases hjoin : Abbreviates command "JOIN"
  · rw [if_pos hjoin, if_pos hjoin]
    rfl
  rw [if_neg hjoin, if_neg hjoin, hmem, ircParseOther_action _ hargs message hlength]

-- ---------------------------------------------------------------------------
-- Lines
-- ---------------------------------------------------------------------------

/-- The message after the command was split off at `start`. -/
def splitCommand (linePrefix : Option Nat) (start : Nat) (mem : List UInt8) :
    Option (Option IrcMessage × List UInt8) := do
  match ← memchr mem start 0x20 (← strlen mem start) with
  | none => some (none, mem)
  | some whitespace =>
    let mem ← store mem whitespace 0
    some (some ⟨linePrefix, start, start, whitespace + 1⟩, mem)

theorem splitCommand_eq (front : List UInt8) {bytes : List UInt8} (hzero : 0 ∈ bytes)
    (linePrefix : Option Nat) :
    splitCommand linePrefix front.length (front ++ bytes) =
      match cutWord bytes with
      | none => some (none, front ++ bytes)
      | some (command, args) =>
        some (some ⟨linePrefix, front.length, front.length, front.length + command.length + 1⟩,
          front ++ command ++ 0 :: args) := by
  have hdrop : (front ++ bytes).drop front.length = bytes := List.drop_left
  unfold splitCommand
  rw [strlen_eq (by rwa [hdrop])]
  change (memchr (front ++ bytes) front.length 0x20 _).bind _ = _
  rw [memchr_string (by rwa [hdrop]), hdrop]
  cases hcut : cutWord bytes with
  | none => rfl
  | some found =>
    obtain ⟨command, args⟩ := found
    obtain ⟨rfl, -, -⟩ := cutWord_some.mp hcut
    change (store (front ++ (command ++ 0x20 :: args)) (front.length + command.length) 0).bind _ = _
    rw [← List.append_assoc, ← List.length_append, store_append]
    rfl

/-- What `irc_parse_line` does with a message that it has split. -/
def splitAction : Option IrcMessage × List UInt8 → Option IrcAction
  | (none, _) => some (.writeLog ⟨PAGE_IRC_OVERVIEW, literal "no ws found", 11⟩)
  | (some message, mem) => (ircParseCommand mem message).map Prod.fst

def splitPrefix (n : Nat) (mem : List UInt8) : Option (Option IrcMessage × List UInt8) :=
  (memchr mem 0 0x20 n).bind fun
    | none => some (none, mem)
    | some whitespace => (store mem whitespace 0).bind (splitCommand (some 1) (whitespace + 1))

theorem ircSplitLine_eq {n : Nat} (hn : 0 < n) (mem : List UInt8) :
    ircSplitLine mem n = (store mem (n - 1) 0).bind fun mem =>
      mem[0]?.bind fun b => if b = 0x3A then splitPrefix n mem else splitCommand none 0 mem := by
  unfold ircSplitLine
  rw [if_neg (Nat.ne_of_gt hn)]
  rfl

theorem splitCommand_action (front bytes : List UInt8) (hzero : 0 ∈ bytes) (linePrefix : Option Nat)
    (hpre : ∀ p, linePrefix = some p → 0 ∈ front.drop p) :
    (splitCommand linePrefix front.length (front ++ bytes)).bind splitAction =
      match cutWord bytes with
      | none => some (.writeLog ⟨PAGE_IRC_OVERVIEW, literal "no ws found", 11⟩)
      | some (command, args) => commandAction (linePrefix.map fun p => cstr (front.drop p))
          command args := by
  rw [splitCommand_eq front hzero]
  cases hcut : cutWord bytes with
  | none => rfl
  | some found =>
    obtain ⟨command, args⟩ := found
    obtain ⟨rfl, -, hcommand⟩ := cutWord_some.mp hcut
    have hargs : 0 ∈ args := by
      rcases List.mem_append.mp hzero with h | h
      · exact absurd h hcommand
      · simpa using h
    exact ircParseCommand_action hcommand hargs
      ⟨linePrefix, front.length, front.length, front.length + command.length + 1⟩ rfl rfl hpre

/-- The memory `front` in front of the command, with the prefix in cell `p`. -/
structure SplitAt (linePrefix : Option (List UInt8)) (front : List UInt8) (p : Option Nat) :
    Prop where
  terminated : ∀ q, p = some q → 0 ∈ front.drop q
  linePrefix : p.map (fun q => cstr (front.drop q)) = linePrefix

theorem splitPrefix_cut (line post : List UInt8) (hcolon : line.head? = some 0x3A) :
    match cutAt 0x20 line with
    | none => splitPrefix (line.length + 1) (line ++ 0 :: post) = some (none, line ++ 0 :: post)
    | some (x, rest) => ∃ front p, SplitAt (some (cstr x.tail)) front p ∧
        splitPrefix (line.length + 1) (line ++ 0 :: post) =
            splitCommand p front.length (front ++ (rest ++ 0 :: post)) := by
  have hbytes : (line ++ 0 :: post).drop 0 = line ++ [0] ++ post := by simp
  have hmemchr := memchr_eq (c := 0x20) hbytes
  rw [List.length_append, List.length_singleton] at hmemchr
  unfold splitPrefix
  rw [hmemchr]
  cases hcut : cutAt 0x20 line with
  | none =>
    have hnone : cutAt 0x20 (line ++ [0]) = none := by
      rw [cutAt_none] at hcut ⊢
      simpa using hcut
    rw [hnone]
    rfl
  | some found =>
    obtain ⟨x, rest⟩ := found
    obtain ⟨rfl, hspace⟩ := cutAt_some.mp hcut
    have hsome : cutAt 0x20 (x ++ 0x20 :: rest ++ [0]) = some (x, rest ++ [0]) :=
      cutAt_some.mpr ⟨by simp, hspace⟩
    obtain ⟨x, rfl⟩ : ∃ x', x = 0x3A :: x' := by
      cases x with
      | nil => cases hcolon
      | cons b x => exact ⟨x, by rw [← Option.some.inj hcolon]⟩
    have hstring : cstr ((0x3A :: x ++ [0]).drop 1) = cstr x := cstr_append_zero
    have hstore : store (0x3A :: x ++ 0x20 :: rest ++ 0 :: post) (0 + (0x3A :: x).length) 0 =
        some (0x3A :: x ++ [0] ++ (rest ++ 0 :: post)) := by
      have h := store_append (0x3A :: x) 0x20 0 (rest ++ 0 :: post)
      simpa using h
    refine ⟨0x3A :: x ++ [0], some 1, ⟨by simp, by rw [Option.map_some, hstring]; rfl⟩, ?_⟩
    have hstart : 0 + (0x3A :: x).length + 1 = (0x3A :: x ++ [0]).length := by simp
    rw [hsome]
    change (store (0x3A :: x ++ 0x20 :: rest ++ 0 :: post) (0 + (0x3A :: x).length) 0).bind _ = _
    rw [hstore, Option.bind_some, hstart]

theorem ircSplitLine_cut (line post : List UInt8) (c : UInt8) :
    match cutPrefix line with
    | none => ∃ mem, ircSplitLine (line ++ c :: post) (line.length + 1) = some (none, mem)
    | some (linePrefix, rest) => ∃ front p, SplitAt linePrefix front p ∧
        ircSplitLine (line ++ c :: post) (line.length + 1) =
          splitCommand p front.length (front ++ (rest ++ 0 :: post)) := by
  have hsplit := ircSplitLine_eq (n := line.length + 1) (Nat.succ_pos _) (line ++ c :: post)
  rw [Nat.add_sub_cancel, store_append, Option.bind_some] at hsplit
  rw [hsplit]
  unfold cutPrefix
  by_cases hcolon : line.head? = some 0x3A
  · have hfirst : (line ++ 0 :: post)[0]? = some 0x3A := by
      cases line with
      | nil => cases hcolon
      | cons b line => exact hcolon
    have hcut := splitPrefix_cut line post hcolon
    rw [hfirst, Option.bind_some, if_pos rfl, if_pos hcolon]
    cases hspace : cutAt 0x20 line with
    | none =>
      rw [hspace] at hcut
      exact ⟨_, hcut⟩
    | some found =>
      rw [hspace] at hcut
      exact hcut
  · have hfirst : ∃ b, (line ++ 0 :: post)[0]? = some b ∧ b ≠ 0x3A := by
      cases line with
      | nil => exact ⟨0, rfl, by decide⟩
      | cons b rest => exact ⟨b, rfl, fun h => hcolon (by rw [h]; rfl)⟩
    obtain ⟨b, hb, hne⟩ := hfirst
    rw [hb, Option.bind_some, if_neg hne, if_neg hcolon]
    exact ⟨[], none, ⟨by simp, rfl⟩, rfl⟩

theorem ircParseLine_action (line post : List UInt8) (c : UInt8) :
    (ircParseLine (line ++ c :: post) (line.length + 1)).map Prod.fst = lineAction line post := by
  have hunfold : (ircParseLine (line ++ c :: post) (line.length + 1)).map Prod.fst =
      (ircSplitLine (line ++ c :: post) (line.length + 1)).bind splitAction := by
    unfold ircParseLine
    cases ircSplitLine (line ++ c :: post) (line.length + 1) with
    | none => rfl
    | some found => obtain ⟨_ | message, mem⟩ := found <;> rfl
  have hcut := ircSplitLine_cut line post c
  rw [hunfold]
  unfold lineAction
  cases hpre : cutPrefix line with
  | none =>
    rw [hpre] at hcut
    obtain ⟨mem, hsplit⟩ := hcut
    rw [hsplit]
    rfl
  | some found =>
    obtain ⟨linePrefix, rest⟩ := found
    rw [hpre] at hcut
    obtain ⟨front, p, hat, hsplit⟩ := hcut
    rw [hsplit, splitCommand_action front _ (by simp) p hat.terminated, hat.linePrefix]

-- ---------------------------------------------------------------------------
-- The size of the memory
-- ---------------------------------------------------------------------------

theorem store_length {mem' : List UInt8} {p : Nat} {c : UInt8} (h : store mem p c = some mem') :
    mem'.length = mem.length := by
  unfold store at h
  split at h
  · cases h
    exact List.length_set
  · cases h

theorem splitCommand_length {mem' : List UInt8} {linePrefix : Option Nat} {start : Nat}
    {message : Option IrcMessage}
    (h : splitCommand linePrefix start mem = some (message, mem')) : mem'.length = mem.length := by
  simp only [splitCommand, Option.bind_eq_bind, Option.bind_eq_some_iff] at h
  obtain ⟨n, -, found, -, h⟩ := h
  cases found with
  | none =>
    cases h
    rfl
  | some whitespace =>
    simp only [Option.bind_eq_some_iff] at h
    obtain ⟨mem₁, hstore, h⟩ := h
    cases h
    exact store_length hstore

theorem splitPrefix_length {mem' : List UInt8} {n : Nat} {message : Option IrcMessage}
    (h : splitPrefix n mem = some (message, mem')) : mem'.length = mem.length := by
  unfold splitPrefix at h
  rw [Option.bind_eq_some_iff] at h
  obtain ⟨found, -, h⟩ := h
  cases found with
  | none =>
    cases h
    rfl
  | some whitespace =>
    rw [Option.bind_eq_some_iff] at h
    obtain ⟨mem₁, hstore, h⟩ := h
    exact (splitCommand_length h).trans (store_length hstore)

theorem ircSplitLine_length {mem' : List UInt8} {n : Nat} {message : Option IrcMessage}
    (h : ircSplitLine mem n = some (message, mem')) : mem'.length = mem.length := by
  rcases Nat.eq_zero_or_pos n with rfl | hn
  · cases h
  rw [ircSplitLine_eq hn, Option.bind_eq_some_iff] at h
  obtain ⟨mem₁, hstore, h⟩ := h
  rw [← store_length hstore]
  rw [Option.bind_eq_some_iff] at h
  obtain ⟨b, -, h⟩ := h
  split at h
  · exact splitPrefix_length h
  · exact splitCommand_length h

theorem ircParsePrivmsg_length {mem' : List UInt8} {message : IrcMessage} {action : IrcAction}
    (h : ircParsePrivmsg mem message = some (action, mem')) : mem'.length = mem.length := by
  simp only [ircParsePrivmsg, Option.bind_eq_bind, Option.bind_eq_some_iff] at h
  obtain ⟨n, -, found, -, h⟩ := h
  cases found with
  | none =>
    cases h
    rfl
  | some whitespace =>
    simp only [Option.bind_eq_some_iff] at h
    obtain ⟨_, -, mem₁, hstore, _, -, _, -, _, -, _, -, mem₂, hstore', _, -, _, -, h⟩ := h
    cases h
    exact (store_length hstore').trans (store_length hstore)

theorem ircParseOther_length {mem' : List UInt8} {message : IrcMessage} {action : IrcAction}
    (h : ircParseOther mem message = some (action, mem')) : mem'.length = mem.length := by
  simp only [ircParseOther, Option.bind_eq_bind, Option.bind_eq_some_iff] at h
  obtain ⟨n, -, found, -, h⟩ := h
  cases found with
  | none =>
    cases h
    rfl
  | some whitespace =>
    simp only [Option.bind_eq_some_iff] at h
    obtain ⟨_, -, mem₁, hstore, _, -, h⟩ := h
    cases h
    exact store_length hstore

theorem ircParseCommand_length {mem' : List UInt8} {message : IrcMessage} {action : IrcAction}
    (h : ircParseCommand mem message = some (action, mem')) : mem'.length = mem.length := by
  simp only [ircParseCommand, Option.bind_eq_bind, Option.bind_eq_some_iff] at h
  obtain ⟨n, -, h⟩ := h
  split at h
  · cases h
    rfl
  simp only [Option.bind_eq_some_iff] at h
  obtain ⟨_, -, h⟩ := h
  split at h
  · exact ircParsePrivmsg_length h
  simp only [Option.bind_eq_some_iff] at h
  obtain ⟨_, -, h⟩ := h
  split at h
  · simp only [Option.bind_eq_some_iff] at h
    obtain ⟨_, -, h⟩ := h
    cases h
    rfl
  simp only [Option.bind_eq_some_iff] at h
  obtain ⟨_, -, h⟩ := h
  split at h
  · cases h
    rfl
  · exact ircParseOther_length h

theorem ircParseLine_length {mem' : List UInt8} {n : Nat} {action : IrcAction}
    (h : ircParseLine mem n = some (action, mem')) : mem'.length = mem.length := by
  unfold ircParseLine at h
  rw [Option.bind_eq_bind, Option.bind_eq_some_iff] at h
  obtain ⟨⟨message, mem₁⟩, hsplit, h⟩ := h
  have hlength := ircSplitLine_length hsplit
  cases message with
  | none =>
    cases h
    exact hlength
  | some message => exact (ircParseCommand_length h).trans hlength

end FxIP
