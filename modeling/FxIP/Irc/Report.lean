import FxIP.Irc.Dispatch
import FxIP.Irc.Safe

/-!
# What is shown of a line

A text is formatted with one byte less than `messagebuffer` has, but its length
is cut to all of it. The overview page gets one character less than the text.
-/

namespace FxIP

variable {m : Messages} {data line post nick userhost target text args command : List UInt8}
  {linePrefix : Option (List UInt8)} {action : IrcAction} {page : UInt8} {room : Nat}

-- ---------------------------------------------------------------------------
-- Lines
-- ---------------------------------------------------------------------------

/-- `[':' prefix SP] command SP args`. -/
def commandLine (linePrefix : Option (List UInt8)) (command args : List UInt8) : List UInt8 :=
  (match linePrefix with
    | none => []
    | some s => ascii ":" ++ s ++ ascii " ") ++
  command ++ ascii " " ++ args

/-- Prefix and command are words, and the command is not taken for a prefix. -/
structure CommandWords (linePrefix : Option (List UInt8)) (command : List UInt8) : Prop where
  prefixWord : ∀ s, linePrefix = some s → 0x20 ∉ s
  commandWord : 0x20 ∉ command
  noColon : linePrefix = none → command.head? ≠ some 0x3A

theorem lineAction_command (hwords : CommandWords linePrefix command)
    (hzero : 0 ∉ commandLine linePrefix command args)
    (hne : command ≠ []) (post : List UInt8) :
    lineAction (commandLine linePrefix command args) post = commandAction linePrefix command
      (args ++ 0 :: post) := by
  have hcommand : 0 ∉ command := fun h => hzero (by simp [commandLine, h])
  have hrest : cutWord (command ++ ascii " " ++ args ++ 0 :: post) =
      some (command, args ++ 0 :: post) :=
    cutWord_some.mpr ⟨by simp [ascii], hwords.commandWord, hcommand⟩
  have hcut : cutPrefix (commandLine linePrefix command args) =
      some (linePrefix, command ++ ascii " " ++ args) := by
    unfold cutPrefix commandLine
    cases linePrefix with
    | none =>
      obtain ⟨c, command, rfl⟩ := List.exists_cons_of_ne_nil hne
      have hstart := hwords.noColon rfl
      rw [if_neg (by simpa using hstart)]
      simp
    | some s =>
      have hs : 0 ∉ s := fun h => hzero (by simp [commandLine, h])
      have hsplit : cutAt 0x20 (ascii ":" ++ s ++ ascii " " ++ command ++ ascii " " ++ args) =
          some (ascii ":" ++ s, command ++ ascii " " ++ args) := by
        refine cutAt_some.mpr ⟨by simp [ascii], ?_⟩
        have hspace := hwords.prefixWord s rfl
        simpa [ascii] using hspace
      have htail : cstr (ascii ":" ++ s).tail = s := by
        have hcstr : cstr (s ++ []) = s ++ cstr [] := cstr_append hs
        simpa [ascii, cstr] using hcstr
      rw [if_pos (by simp [ascii]), hsplit, Option.map_some]
      dsimp only
      rw [htail]
  unfold lineAction
  rw [hcut]
  dsimp only
  rw [hrest]

/-- `target SP ':' text CR`. -/
def textArgs (target text : List UInt8) : List UInt8 := target ++ ascii " :" ++ text ++ ascii "\r"

theorem cutWord_textArgs (htarget : 0x20 ∉ target) (hzero : 0 ∉ textArgs target text)
    (post : List UInt8) :
    cutWord (textArgs target text ++ 0 :: post) = some
      (target, ascii ":" ++ text ++ ascii "\r" ++ 0 :: post) := by
  refine cutWord_some.mpr ⟨by simp [textArgs, ascii], htarget, fun h =>
    hzero (by simp [textArgs, h])⟩

theorem cstr_textArgs (hzero : 0 ∉ textArgs target text) (post : List UInt8) :
    0 ∈ (ascii ":" ++ text ++ ascii "\r" ++ 0 :: post).drop 1 ∧
      cstr ((ascii ":" ++ text ++ ascii "\r" ++ 0 :: post).drop 1) = text ++ ascii "\r" := by
  have hcr : 0 ∉ text ++ ascii "\r" := fun h => hzero (by simp [textArgs] at h ⊢; simp [h])
  have hdrop : (ascii ":" ++ text ++ ascii "\r" ++ 0 :: post).drop 1 =
      text ++ ascii "\r" ++ 0 :: post := by
    simp [ascii]
  rw [hdrop]
  exact ⟨by simp, cstr_terminated hcr⟩

-- ---------------------------------------------------------------------------
-- Formatting
-- ---------------------------------------------------------------------------

/-- The longest start of a text that `messagebuffer` holds as a string. -/
def fitting (text : List UInt8) : List UInt8 := text.take (SIZEOF_MESSAGEBUFFER - 1)

theorem formatted_iff (b : Buffer UInt8 SIZEOF_MESSAGEBUFFER) (hzero : 0 ∉ text)
    (hlength : text.length < 65536) (hroom : displayRoom ≤ room) :
    (b.write (text.take displayRoom ++ [0])).cells.take
    (min SIZEOF_MESSAGEBUFFER (u16 text.length)) = text.take room ↔
      text.length ≤ displayRoom := by
  have hu : u16 text.length = text.length := by
    unfold u16
    omega
  rw [hu]
  constructor
  · intro h
    by_contra hlong
    -- the terminator is among the bytes
    have hsize : (text.take displayRoom ++ [0]).length = displayRoom + 1 := by
      rw [List.length_append, List.length_take, List.length_singleton]
      omega
    have htake := b.take_write (text.take displayRoom ++ [0]) (by rw [hsize]; decide)
    have hmin : min (displayRoom + 1) (min SIZEOF_MESSAGEBUFFER text.length) = displayRoom + 1 := by
      unfold displayRoom SIZEOF_MESSAGEBUFFER at *
      omega
    rw [hsize, ← hmin, ← List.take_take, h] at htake
    have hmem : 0 ∈ (text.take room).take (displayRoom + 1) := by
      rw [htake]
      simp
    exact hzero (List.mem_of_mem_take (List.mem_of_mem_take hmem))
  · intro hshort
    have hmin : min SIZEOF_MESSAGEBUFFER text.length = text.length := by
      unfold displayRoom SIZEOF_MESSAGEBUFFER at *
      omega
    rw [hmin, List.take_of_length_le hshort, List.take_of_length_le (Nat.le_trans hshort hroom)]
    refine b.take_write_append ?_
    unfold displayRoom SIZEOF_MESSAGEBUFFER at *
    omega

-- ---------------------------------------------------------------------------
-- What a line leaves
-- ---------------------------------------------------------------------------

/-- The bytes that `ui_write_log` is given, if the memory has them all. -/
def UiWriteLog.payload (call : UiWriteLog) : Option (List UInt8) :=
  if call.length ≤ call.data.length then some (call.data.take call.length) else none

/-- The line in front of the memory `post` is parsed to one call of
`ui_write_log`, with these bytes for this page. -/
def Logs (m : Messages) (data post : List UInt8) (page : UInt8) (bytes : List UInt8) : Prop :=
  ∃ action mem call, ircParseLine (data ++ post) data.length = some (action, mem) ∧
    (m.perform action).logged = m.logged ++ [call] ∧ call.pageId = page ∧ call.payload = some bytes

/-- The line is parsed, and then these are the bytes to be sent. -/
def Queues (m : Messages) (data post bytes : List UInt8) : Prop :=
  ∃ action mem, ircParseLine (data ++ post) data.length = some (action, mem) ∧
    (m.perform action).messagebuffer.cells.take (m.perform action).messagelength = bytes

theorem exists_parsed_iff (haction : lineAction line post = some action) {P : IrcAction → Prop} :
    (∃ action mem, ircParseLine (line ++ [0x0A] ++ post) (line ++ [0x0A]).length =
      some (action, mem) ∧ P action) ↔
      P action := by
  have hparse := ircParseLine_action line post 0x0A
  rw [haction, Option.map_eq_some_iff] at hparse
  obtain ⟨⟨_, mem⟩, hparse, rfl⟩ := hparse
  have hdata : line ++ [0x0A] ++ post = line ++ 0x0A :: post := by simp
  rw [hdata, List.length_append, List.length_singleton, hparse]
  constructor
  · rintro ⟨action', mem', h, hP⟩
    cases h
    exact hP
  · exact fun hP => ⟨_, mem, rfl, hP⟩

theorem logs_iff {bytes : List UInt8} (haction : lineAction line post = some action) :
    Logs m (line ++ [0x0A]) post page bytes ↔
      ∃ call, (m.perform action).logged = m.logged ++ [call] ∧ call.pageId = page ∧
        call.payload = some bytes := by
  have h := exists_parsed_iff haction (P := fun action =>
    ∃ call, (m.perform action).logged = m.logged ++ [call] ∧ call.pageId = page ∧
      call.payload = some bytes)
  rw [← h]
  simp only [Logs, exists_and_left]

theorem logs_call_iff {bytes : List UInt8} {call : UiWriteLog}
    (haction : lineAction line post = some action)
    (hlogged : (m.perform action).logged = m.logged ++ [call]) :
    Logs m (line ++ [0x0A]) post page bytes ↔ call.pageId = page ∧ call.payload = some bytes := by
  rw [logs_iff haction, hlogged]
  simp

-- ---------------------------------------------------------------------------
-- Messages and pings
-- ---------------------------------------------------------------------------

/-- `':' nick '!' userhost SP PRIVMSG SP target SP ':' text CR LF`. -/
structure PrivmsgLine (data nick text : List UInt8) : Prop where
  form : ∃ userhost target, 0x20 ∉ userhost ∧ 0x20 ∉ target ∧
    data = commandLine (some (nick ++ ascii "!" ++ userhost)) (ascii "PRIVMSG")
      (textArgs target text) ++ [0x0A]
  nickWord : 0x20 ∉ nick ∧ 0x21 ∉ nick
  plain : 0 ∉ data
  short : data.length ≤ 1024

/-- A line with the command PING; its arguments are all that is in front of LF. -/
structure PingLine (data args : List UInt8) : Prop where
  form : ∃ linePrefix command, CommandWords linePrefix command ∧ Names command "PING" ∧
    data = commandLine linePrefix command args ++ [0x0A]
  plain : 0 ∉ data
  short : data.length ≤ 1024

/-- `<nick> text`. -/
def shown (nick text : List UInt8) : List UInt8 := ascii "<" ++ nick ++ ascii "> " ++ text

theorem commandLine_plain (h : 0 ∉ commandLine linePrefix command args) :
    (∀ s, linePrefix = some s → 0 ∉ s) ∧ 0 ∉ args := by
  refine ⟨?_, fun hargs => h (by simp [commandLine, hargs])⟩
  rintro s rfl hs
  exact h (by simp [commandLine, hs])

theorem privmsgAction_text (htarget : 0x20 ∉ target) (hbang : 0x21 ∉ nick)
    (hzero : 0 ∉ textArgs target text) (post) :
    privmsgAction (some (nick ++ ascii "!" ++ userhost)) (textArgs target text ++ 0 :: post) =
      some (.display (shown nick text)) := by
  obtain ⟨hterminated, hstring⟩ := cstr_textArgs hzero post
  have hnick : cutAt 0x21 (nick ++ ascii "!" ++ userhost) = some (nick, userhost) :=
    cutAt_some.mpr ⟨by simp [ascii], hbang⟩
  unfold privmsgAction
  rw [cutWord_textArgs htarget hzero]
  dsimp only
  rw [if_pos hterminated, hstring]
  change (cutAt 0x21 (nick ++ ascii "!" ++ userhost)).bind _ = _
  rw [hnick, Option.bind_some]
  simp [shown, ascii]

theorem PrivmsgLine.logs_iff (h : PrivmsgLine data nick text) (m : Messages) (post : List UInt8) :
    Logs m data post PAGE_IRC_CHANNEL (fitting (shown nick text)) ↔
      (shown nick text).length ≤ displayRoom := by
  obtain ⟨⟨userhost, target, huserhost, htarget, rfl⟩, ⟨hspace, hbang⟩, hplain, hshort⟩ := h
  have hplain : 0 ∉ commandLine (some (nick ++ ascii "!" ++ userhost)) (ascii "PRIVMSG")
      (textArgs target text) :=
    fun h => hplain (List.mem_append_left _ h)
  obtain ⟨hnick, hargs⟩ := commandLine_plain hplain
  have hwords : CommandWords (some (nick ++ ascii "!" ++ userhost)) (ascii "PRIVMSG") := by
    refine ⟨?_, by decide, by simp⟩
    intro s hs
    cases hs
    simp [ascii, hspace, huserhost]
  have haction := lineAction_command hwords hplain (by decide) post
  have hbranch : commandAction (some (nick ++ ascii "!" ++ userhost)) (ascii "PRIVMSG")
      (textArgs target text ++ 0 :: post) = privmsgAction _
        (textArgs target text ++ 0 :: post) := rfl
  rw [hbranch, privmsgAction_text htarget hbang hargs] at haction
  have hshown : 0 ∉ shown nick text := by
    have hnick := hnick _ rfl
    simp only [textArgs, List.mem_append, not_or] at hnick hargs
    simp only [shown, List.mem_append, not_or]
    exact ⟨⟨⟨by decide, hnick.1.1⟩, by decide⟩, hargs.1.2⟩
  have hlength : (shown nick text).length < 65536 := by
    simp [commandLine, textArgs, ascii] at hshort
    simp [shown, ascii]
    omega
  -- the call that `display` makes in the end
  let call : UiWriteLog := ⟨PAGE_IRC_CHANNEL,
    (m.messagebuffer.write ((shown nick text).take displayRoom ++ [0])).cells,
    min SIZEOF_MESSAGEBUFFER (u16 (shown nick text).length)⟩
  have hpayload : call.payload = some (call.data.take call.length) :=
    if_pos (Nat.le_trans (Nat.min_le_left ..) (Nat.le_of_eq (Buffer.size _).symm))
  calc
    _ ↔ call.payload = some (fitting (shown nick text)) :=
      (logs_call_iff haction rfl).trans (and_iff_right rfl)
    _ ↔ call.data.take call.length =
      fitting (shown nick text) := by rw [hpayload, Option.some.injEq]
    _ ↔ _ := formatted_iff m.messagebuffer hshown hlength (by decide)

theorem PingLine.queues_iff (h : PingLine data args) (m : Messages) (post : List UInt8) :
    Queues m data post (fitting (pong args)) ↔ (pong args).length ≤ displayRoom := by
  obtain ⟨⟨linePrefix, command, hwords, hping, rfl⟩, hplain, hshort⟩ := h
  have hplain : 0 ∉ commandLine linePrefix command args :=
    fun h => hplain (List.mem_append_left _ h)
  obtain ⟨-, hargs⟩ := commandLine_plain hplain
  have hne : command ≠ [] := by
    rintro rfl
    cases hping
  have haction := lineAction_command hwords hplain hne post
  have hbranch : commandAction linePrefix command (args ++ 0 :: post) = some (.reply args) := by
    have hother : ¬ Abbreviates command "PRIVMSG" := fun h =>
      absurd (names_apart (by decide) (by decide) hping h) (by decide)
    unfold commandAction
    rw [if_neg hne, if_neg hother, if_pos hping.abbreviates, cstr_terminated hargs]
  rw [hbranch] at haction
  have hpong : 0 ∉ pong args := by
    rw [pong, List.mem_append, not_or]
    exact ⟨by decide, hargs⟩
  have hlength : (pong args).length < 65536 := by
    simp [commandLine] at hshort
    simp [pong, ascii]
    omega
  calc
    _ ↔ (m.perform (.reply args)).messagebuffer.cells.take (m.perform (.reply args)).messagelength =
        fitting (pong args) := exists_parsed_iff haction (P := fun action =>
          (m.perform action).messagebuffer.cells.take (m.perform action).messagelength =
            fitting (pong args))
    _ ↔ _ := formatted_iff m.messagebuffer hpong hlength (by decide)

/-- Exactly the texts that were not cut are reported with their true length. -/
theorem reported_iff (m : Messages) (post : List UInt8) :
    (∀ data nick text, PrivmsgLine data nick text →
      (Logs m data post PAGE_IRC_CHANNEL (fitting (shown nick text)) ↔
        (shown nick text).length ≤ displayRoom)) ∧
    (∀ data args, PingLine data args →
      (Queues m data post (fitting (pong args)) ↔ (pong args).length ≤ displayRoom)) :=
  ⟨fun _ _ _ h => h.logs_iff m post, fun _ _ h => h.queues_iff m post⟩

def noMessages : Messages := ⟨.fill _ 0, 0, 0, [], [], false⟩

theorem reported_iff_hi :
    (Logs noMessages (ascii ":n!u@h PRIVMSG #c :hi\r\n") [7] PAGE_IRC_CHANNEL
        (fitting (shown (ascii "n") (ascii "hi"))) ↔
      (shown (ascii "n") (ascii "hi")).length ≤ displayRoom) ∧
    (Queues noMessages (ascii "PING :x\r\n") [7] (fitting (pong (ascii ":x\r"))) ↔
      (pong (ascii ":x\r")).length ≤ displayRoom) :=
  ⟨(reported_iff noMessages [7]).1 _ _ _
      ⟨⟨ascii "u@h", ascii "#c", by decide, by decide, by decide⟩, by decide, by decide, by decide⟩,
    (reported_iff noMessages [7]).2 _ _
      ⟨⟨none, ascii "PING",
        ⟨by simp, by decide, by decide⟩, by decide, by decide⟩, by decide, by decide⟩⟩

theorem privmsgLine_text (hzero : 0 ∉ text) (hlength : text.length ≤ 1000) :
    PrivmsgLine (commandLine (some (ascii "n!u@h")) (ascii "PRIVMSG")
      (textArgs (ascii "#c") text) ++ [0x0A]) (ascii "n") text := by
  refine ⟨⟨ascii "u@h", ascii "#c", by decide, by decide, rfl⟩, by decide, ?_, ?_⟩
  · simp [commandLine, textArgs, ascii, hzero]
  · simp [commandLine, textArgs, ascii]
    omega

/-- A text that is one byte too long. -/
theorem long_text_misreported :
    let text := List.replicate 251 0x61
    let data := commandLine (some (ascii "n!u@h")) (ascii "PRIVMSG")
      (textArgs (ascii "#c") text) ++ [0x0A]
    PrivmsgLine data (ascii "n") text ∧
      ¬ Logs noMessages data [] PAGE_IRC_CHANNEL (fitting (shown (ascii "n") text)) := by
  intro text data
  have hlength : text.length = 251 := List.length_replicate
  have hzero : 0 ∉ text := fun h => absurd (List.eq_of_mem_replicate h) (by decide)
  have hline : PrivmsgLine data (ascii "n") text := privmsgLine_text hzero (by omega)
  refine ⟨hline, ?_⟩
  rw [hline.logs_iff, shown, List.length_append, hlength]
  decide

-- ---------------------------------------------------------------------------
-- All other commands
-- ---------------------------------------------------------------------------

/-- `[':' prefix SP] command SP target SP ':' text CR LF`, where the command is
not the start of a name. -/
structure OverviewLine (data text : List UInt8) : Prop where
  form : ∃ linePrefix command target, CommandWords linePrefix command ∧ 0x20 ∉ target ∧
    (∀ name ∈ commandNames, ¬ Abbreviates command name) ∧
    data = commandLine linePrefix command (textArgs target text) ++ [0x0A]
  plain : 0 ∉ data
  short : data.length ≤ 1024

theorem otherAction_text (htarget : 0x20 ∉ target) (hzero : 0 ∉ textArgs target text)
    (post : List UInt8) :
    ∃ rest, otherAction (textArgs target text ++ 0 :: post) =
      some (.writeLog ⟨PAGE_IRC_OVERVIEW, text ++ 0 :: rest, u16 (text.length - 1 : Int)⟩) := by
  obtain ⟨hterminated, hstring⟩ := cstr_textArgs hzero post
  have hlast : (text ++ ascii "\r").dropLast = text := List.dropLast_concat
  unfold otherAction
  rw [cutWord_textArgs htarget hzero]
  dsimp only
  rw [if_pos hterminated, hstring, hlast]
  exact ⟨_, rfl⟩

/-- The length is one too small, and 65535 for the empty text. -/
theorem OverviewLine.not_logs (h : OverviewLine data text) (m : Messages) (post : List UInt8) :
    ¬ Logs m data post PAGE_IRC_OVERVIEW text := by
  obtain ⟨⟨linePrefix, command, target, hwords, htarget, hother, rfl⟩, hplain, hshort⟩ := h
  have hplain : 0 ∉ commandLine linePrefix command (textArgs target text) :=
    fun h => hplain (List.mem_append_left _ h)
  obtain ⟨-, hargs⟩ := commandLine_plain hplain
  have hne : command ≠ [] := by
    rintro rfl
    exact hother "PING" (by decide) (by decide)
  obtain ⟨rest, htext⟩ := otherAction_text htarget hargs post
  have haction := lineAction_command hwords hplain hne post
  have hbranch : commandAction linePrefix command (textArgs target text ++ 0 :: post) =
      otherAction (textArgs target text ++ 0 :: post) := by
    unfold commandAction
    rw [if_neg hne, if_neg (hother _ (by decide)), if_neg (hother _ (by decide)),
      if_neg (hother _ (by decide))]
  rw [hbranch, htext] at haction
  have hlength : text.length < 1024 := by
    simp [commandLine, textArgs, ascii] at hshort
    omega
  rw [logs_call_iff haction rfl]
  rintro ⟨-, hpayload⟩
  unfold UiWriteLog.payload at hpayload
  split at hpayload
  · next hin =>
    have hsame := congrArg List.length (Option.some.inj hpayload)
    rw [List.length_take_of_le hin] at hsame
    dsimp only at hsame
    unfold u16 at hsame
    omega
  · cases hpayload

theorem overview_notice : OverviewLine (ascii ":irc NOTICE * :hello\r\n") (ascii "hello") := by
  refine ⟨⟨some (ascii "irc"), ascii "NOTICE", ascii "*",
    ⟨?_, by decide, by simp⟩, by decide, by decide, by decide⟩,
    by decide, by decide⟩
  intro s hs
  cases hs
  decide

theorem notice_not_logs : ¬ Logs noMessages (ascii ":irc NOTICE * :hello\r\n") [7] PAGE_IRC_OVERVIEW
    (ascii "hello") :=
  overview_notice.not_logs noMessages [7]

/-- `hello` is shown as `hell`. -/
theorem hello_cut_short :
    OverviewLine (ascii ":irc NOTICE * :hello\r\n") (ascii "hello") ∧
      Logs noMessages (ascii ":irc NOTICE * :hello\r\n") [] PAGE_IRC_OVERVIEW (ascii "hell") ∧
      ¬ Logs noMessages (ascii ":irc NOTICE * :hello\r\n") [] PAGE_IRC_OVERVIEW
        (ascii "hello") := by
  have haction : lineAction (ascii ":irc NOTICE * :hello\r") [] =
      some (.writeLog ⟨PAGE_IRC_OVERVIEW, ascii "hello" ++ [0, 0], 4⟩) := by decide
  have hdata : ascii ":irc NOTICE * :hello\r\n" =
    ascii ":irc NOTICE * :hello\r" ++ [0x0A] := by decide
  refine ⟨overview_notice, ?_⟩
  rw [hdata, logs_call_iff haction rfl, logs_call_iff haction rfl]
  decide

end FxIP
