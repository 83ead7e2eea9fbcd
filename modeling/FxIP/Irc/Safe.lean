import FxIP.Irc.Line
import FxIP.Irc

/-!
# Lines the parser is safe for

The parser does not check what it looks for in a line: a prefix with a nick, a
text that is not empty, room in `messagebuffer`. `SafeLine` says what it
relies on, and it is safe for these lines only.
-/

namespace FxIP

variable {command args line word after text : List UInt8} {linePrefix : Option (List UInt8)}
    {action : IrcAction}
  {call : UiWriteLog}

-- ---------------------------------------------------------------------------
-- Safety
-- ---------------------------------------------------------------------------

/-- The length passed is not more than the string passed has. -/
def UiWriteLog.Within (call : UiWriteLog) : Prop :=
  ∃ n, strlen call.data 0 = some n ∧ call.length ≤ n

/-- Each call of `ui_write_log` in the end is within its string. -/
def IrcAction.Safe (action : IrcAction) : Prop :=
  ∀ m : Messages, ∀ call ∈ (m.perform action).logged.drop m.logged.length, call.Within

/-- With no memory but the line itself, the parser dereferences no NULL and
stays in the line and its constants, and its calls are within their strings. -/
def ParsedSafely (data : List UInt8) : Prop :=
  ∃ action mem, ircParseLine data data.length = some (action, mem) ∧ action.Safe

theorem safe_nothing : IrcAction.nothing.Safe := by
  intro m call hcall
  simp [Messages.perform] at hcall

theorem safe_reply : (IrcAction.reply args).Safe := by
  intro m call hcall
  simp [Messages.perform, Messages.queue] at hcall

theorem safe_writeLog_iff : (IrcAction.writeLog call).Safe ↔ call.Within := by
  constructor
  · intro h
    exact h ⟨.fill _ 0, 0, 0, [], [], false⟩ call (by simp [Messages.perform, Messages.writeLog])
  · intro h m call' hcall
    rw [Messages.perform, Messages.writeLog, List.drop_left, List.mem_singleton] at hcall
    exact hcall ▸ h

theorem within_literal {s : String} {n : Nat} (hzero : 0 ∉ ascii s) :
    UiWriteLog.Within ⟨PAGE_IRC_OVERVIEW, literal s, n⟩ ↔ n ≤ (ascii s).length := by
  have hlength : strlen (literal s) 0 = some (ascii s).length := by
    rw [strlen_eq (by simp [literal]), List.drop_zero, literal, cstr_terminated hzero]
  simp [UiWriteLog.Within, hlength]

theorem strlen_write {n : Nat} (b : Buffer UInt8 n) (hzero : 0 ∉ text) (hfit : text.length < n) :
    strlen (b.write (text ++ [0])).cells 0 = some text.length := by
  have htake := b.take_write (text ++ [0]) (by simpa using Nat.succ_le_of_lt hfit)
  have hcells : (b.write (text ++ [0])).cells =
      text ++ 0 :: (b.write (text ++ [0])).cells.drop (text ++ [0]).length := by
    conv_lhs => rw [← List.take_append_drop (text ++ [0]).length (b.write (text ++ [0])).cells,
      htake]
    simp
  rw [strlen_eq, List.drop_zero, hcells, cstr_terminated hzero]
  rw [List.drop_zero, hcells]
  simp

/-- The longest text that `messagebuffer` is formatted with to be displayed. -/
def displayRoom : Nat := SIZEOF_MESSAGEBUFFER - 2

theorem safe_display_iff (hzero : 0 ∉ text) (hlength : text.length < 65536) :
    (IrcAction.display text).Safe ↔ text.length ≤ displayRoom := by
  have hcut : 0 ∉ text.take (SIZEOF_MESSAGEBUFFER - 1 - 1) :=
    fun h => hzero (List.mem_of_mem_take h)
  have hcall (m : Messages) :
      (m.perform (.display text)).logged.drop m.logged.length =
        [⟨PAGE_IRC_CHANNEL,
          (m.messagebuffer.write (text.take (SIZEOF_MESSAGEBUFFER - 1 - 1) ++ [0])).cells,
          min SIZEOF_MESSAGEBUFFER (u16 text.length)⟩] := List.drop_left
  have hwithin (m : Messages) :
      UiWriteLog.Within ⟨PAGE_IRC_CHANNEL,
          (m.messagebuffer.write (text.take (SIZEOF_MESSAGEBUFFER - 1 - 1) ++ [0])).cells,
          min SIZEOF_MESSAGEBUFFER (u16 text.length)⟩ ↔ text.length ≤ displayRoom := by
    have hstrlen := strlen_write m.messagebuffer hcut (by
      rw [List.length_take]
      unfold SIZEOF_MESSAGEBUFFER
      omega)
    rw [List.length_take] at hstrlen
    simp only [UiWriteLog.Within, hstrlen, Option.some.injEq, exists_eq_left']
    unfold displayRoom SIZEOF_MESSAGEBUFFER u16
    omega
  constructor
  · intro h
    have hsafe := h ⟨.fill _ 0, 0, 0, [], [], false⟩
    rw [hcall, List.forall_mem_singleton] at hsafe
    exact (hwithin _).mp hsafe
  · intro h m
    rw [hcall, List.forall_mem_singleton]
    exact (hwithin m).mpr h

-- ---------------------------------------------------------------------------
-- What the parser relies on
-- ---------------------------------------------------------------------------

/-- A text for the channel: there is a byte behind the space, the prefix has a
nick, and nick and text have room in `messagebuffer`. -/
def SafePrivmsg (linePrefix : Option (List UInt8)) (after : List UInt8) : Prop :=
  after ≠ [0] ∧ ∃ nick host, linePrefix.bind (cutAt 0x21) = some (nick, host) ∧
    nick.length + ((cstr (after.drop 1)).length - 1) + 3 ≤ displayRoom

/-- Without a space in its parameters every command is safe but the empty one.
Behind the space all but PING and JOIN rely on the text. -/
def SafeCommand (linePrefix : Option (List UInt8)) (command args : List UInt8) : Prop :=
  command ≠ [] ∧ ∀ target after, cutWord args = some (target, after) →
    if Abbreviates command "PRIVMSG" then SafePrivmsg linePrefix after
    else Abbreviates command "PING" ∨ Abbreviates command "JOIN" ∨ 2 ≤ (cstr (after.drop 1)).length

def SafeLine (line : List UInt8) : Prop :=
  ∀ linePrefix rest, cutPrefix line = some (linePrefix, rest) →
    ∀ command args, cutWord (rest ++ [0]) = some (command, args) →
      SafeCommand linePrefix command args

theorem text_terminated (hargs : args.getLast? = some 0)
    (hcut : cutWord args = some (word, after)) :
    0 ∈ after.drop 1 ↔ after ≠ [0] := by
  obtain ⟨rfl, -, -⟩ := cutWord_some.mp hcut
  cases after with
  | nil => simp at hargs
  | cons a after =>
    cases after with
    | nil => simpa using hargs
    | cons b after =>
      rw [List.getLast?_append_of_ne_nil _ (by simp), List.getLast?_cons_cons,
        List.getLast?_cons_cons] at hargs
      simp [List.mem_of_getLast? hargs]

theorem cstr_length_lt (hcut : cutWord args = some (word, after)) :
    (cstr (after.drop 1)).length < args.length := by
  obtain ⟨rfl, -, -⟩ := cutWord_some.mp hcut
  have hsub : (cstr (after.drop 1)).length ≤ (after.drop 1).length :=
    (List.takeWhile_sublist _).length_le
  rw [List.length_drop, cstr] at hsub
  rw [List.length_append, List.length_cons, cstr]
  omega

theorem forall_cutWord {P : List UInt8 → Prop} (hcut : cutWord args = some (word, after)) :
    (∀ word after, cutWord args = some (word, after) → P after) ↔ P after := by
  constructor
  · exact fun h => h word after hcut
  · intro h word' after' hcut'
    cases hcut.symm.trans hcut'
    exact h

theorem other_safe_iff (hargs : args.getLast? = some 0) (hlength : args.length < 65536) :
    (∃ action, otherAction args = some action ∧ action.Safe) ↔
      ∀ target after, cutWord args = some (target, after) → 2 ≤ (cstr (after.drop 1)).length := by
  unfold otherAction
  rcases Option.eq_none_or_eq_some (cutWord args) with hcut | ⟨⟨target, after⟩, hcut⟩
  · simp [hcut, safe_nothing]
  · rw [forall_cutWord hcut, hcut]
    dsimp only
    by_cases hzero : 0 ∈ after.drop 1
    · have hshort := cstr_length_lt hcut
      have hstrlen (rest : List UInt8) :
          strlen ((cstr (after.drop 1)).dropLast ++ 0 :: rest) 0 =
              some ((cstr (after.drop 1)).length - 1) := by
        rw [strlen_eq (by simp), List.drop_zero,
          cstr_terminated fun h => zero_not_mem_cstr (List.dropLast_subset _ h),
            List.length_dropLast]
      rw [if_pos hzero]
      simp only [Option.some.injEq, exists_eq_left', safe_writeLog_iff, UiWriteLog.Within, hstrlen,
        List.length_dropLast]
      unfold u16
      omega
    · have hnil : after.drop 1 = [] := by
        rw [text_terminated hargs hcut, not_not] at hzero
        rw [hzero]
        rfl
      rw [if_neg hzero, hnil]
      simp [cstr]

theorem privmsg_safe_iff (hpre : ∀ s, linePrefix = some s → 0 ∉ s ∧ s.length < 1024)
    (hargs : args.getLast? = some 0) (hlength : args.length < 1024) :
    (∃ action, privmsgAction linePrefix args = some action ∧ action.Safe) ↔
      ∀ target after, cutWord args = some (target, after) → SafePrivmsg linePrefix after := by
  unfold privmsgAction
  rcases Option.eq_none_or_eq_some (cutWord args) with hcut | ⟨⟨target, after⟩, hcut⟩
  · simp [hcut, safe_nothing]
  · rw [forall_cutWord hcut, hcut]
    dsimp only
    unfold SafePrivmsg
    rw [← text_terminated hargs hcut]
    by_cases hzero : 0 ∈ after.drop 1
    · rw [if_pos hzero, and_iff_right hzero]
      cases hpre' : linePrefix with
      | none => simp
      | some s =>
        obtain ⟨hs, hshort⟩ := hpre s hpre'
        rcases Option.eq_none_or_eq_some (cutAt 0x21 s) with hnick | ⟨⟨nick, host⟩, hnick⟩
        · simp [hnick]
        · obtain ⟨rfl, -⟩ := cutAt_some.mp hnick
          have htext := cstr_length_lt hcut
          have hroom : (ascii "<" ++ nick ++ ascii "> " ++ (cstr (after.drop 1)).dropLast).length =
              nick.length + ((cstr (after.drop 1)).length - 1) + 3 := by
            simp [ascii]
            omega
          have hdisplay : (IrcAction.display
              (ascii "<" ++ nick ++ ascii "> " ++ (cstr (after.drop 1)).dropLast)).Safe ↔ _ :=
                safe_display_iff ?_ ?_
          · rw [hroom] at hdisplay
            simpa [hnick] using hdisplay
          · have hdrop : 0 ∉ (cstr (after.drop 1)).dropLast :=
              fun h => zero_not_mem_cstr (List.dropLast_subset _ h)
            rw [List.mem_append, not_or] at hs
            simp only [List.mem_append, not_or]
            exact ⟨⟨⟨by decide, hs.1⟩, by decide⟩, hdrop⟩
          · rw [List.length_append] at hshort
            omega
    · rw [if_neg hzero]
      exact iff_of_false (by simp) fun h => hzero h.1

theorem command_safe_iff (hpre : ∀ s, linePrefix = some s → 0 ∉ s ∧ s.length < 1024)
    (hargs : args.getLast? = some 0) (hlength : args.length < 1024) :
    (∃ action, commandAction linePrefix command args = some action ∧ action.Safe) ↔
      SafeCommand linePrefix command args := by
  unfold commandAction SafeCommand
  by_cases hempty : command = []
  · rw [if_pos hempty]
    simp [hempty, safe_writeLog_iff, within_literal (s := "empty cmd") (by decide)]
    decide
  rw [if_neg hempty, and_iff_right hempty]
  by_cases hprivmsg : Abbreviates command "PRIVMSG"
  · simp only [if_pos hprivmsg]
    exact privmsg_safe_iff hpre hargs hlength
  simp only [if_neg hprivmsg]
  by_cases hping : Abbreviates command "PING"
  · simp [hping, safe_reply]
  by_cases hjoin : Abbreviates command "JOIN"
  · simp [hping, hjoin, safe_writeLog_iff, within_literal (s := "JOIN successful") (by decide)]
    decide
  simp only [hping, hjoin, if_false, false_or]
  exact other_safe_iff hargs (by omega)

-- ---------------------------------------------------------------------------
-- Lines
-- ---------------------------------------------------------------------------

theorem cutPrefix_some {rest : List UInt8} (h : cutPrefix line = some (linePrefix, rest)) :
    rest.length ≤ line.length ∧ ∀ s, linePrefix = some s → 0 ∉ s ∧ s.length ≤ line.length := by
  unfold cutPrefix at h
  split at h
  · rw [Option.map_eq_some_iff] at h
    obtain ⟨⟨x, rest'⟩, hcut, h⟩ := h
    obtain ⟨rfl, -⟩ := cutAt_some.mp hcut
    cases h
    refine ⟨by simp; omega, ?_⟩
    intro s hs
    cases hs
    have hsub := ( List.takeWhile_prefix (fun b : UInt8 => decide (b ≠ 0)) (l := x.tail)).length_le
    refine ⟨zero_not_mem_cstr, ?_⟩
    rw [cstr]
    simp at hsub ⊢
    omega
  · cases h
    refine ⟨Nat.le_refl _, fun s hs => ?_⟩
    cases hs

/-- The parser is safe for a line exactly if the line has what it relies on. -/
theorem parsed_safely_iff {data : List UInt8} (hlength : data.length ≤ 1024)
    (hlast : data.getLast? = some 0x0A) :
    ParsedSafely data ↔ SafeLine data.dropLast := by
  obtain ⟨line, rfl⟩ := List.getLast?_eq_some_iff.mp hlast
  have hsafe : ParsedSafely (line ++ [0x0A]) ↔ ∃ action, lineAction line [] = some action ∧
      action.Safe := by
    rw [← ircParseLine_action line [] 0x0A]
    simp [ParsedSafely, Option.map_eq_some_iff]
  have hnone : (IrcAction.writeLog ⟨PAGE_IRC_OVERVIEW, literal "no ws found", 11⟩).Safe := by
    rw [safe_writeLog_iff, within_literal (by decide)]
    decide
  rw [hsafe, List.dropLast_concat]
  unfold lineAction SafeLine
  rcases Option.eq_none_or_eq_some (cutPrefix line) with hpre | ⟨⟨linePrefix, rest⟩, hpre⟩
  · simp [hpre, hnone]
  rcases Option.eq_none_or_eq_some (cutWord (rest ++ [0])) with hcut | ⟨⟨command, args⟩, hcut⟩
  · simp [hpre, hcut, hnone]
  have hline : line.length < 1024 := by
    rw [List.length_append, List.length_singleton] at hlength
    omega
  obtain ⟨hrest, hstring⟩ := cutPrefix_some hpre
  obtain ⟨heq, -, -⟩ := cutWord_some.mp hcut
  have hargs : args.getLast? = some 0 := by
    have hend := congrArg List.getLast? heq
    cases args with
    | nil => simp at hend
    | cons a args => simpa [List.getLast?_append, List.getLast?_cons_cons] using hend.symm
  have hshort : args.length < 1024 := by
    have hlen := congrArg List.length heq
    simp at hlen
    omega
  have hcommand : _ ↔ SafeCommand linePrefix command args := command_safe_iff
    (fun s hs => ⟨(hstring s hs).1, Nat.lt_of_le_of_lt (hstring s hs).2 hline⟩) hargs hshort
  simp only [hpre, hcut, Option.some.injEq, Prod.mk.injEq, and_imp]
  rw [hcommand]
  constructor
  · rintro h _ _ rfl rfl _ _ hcut'
    cases hcut.symm.trans hcut'
    exact h
  · exact fun h => h _ _ rfl rfl _ _ hcut

theorem parsed_safely_notice :
    ParsedSafely (ascii ":irc NOTICE * :hello\r\n") ↔
      SafeLine (ascii ":irc NOTICE * :hello\r\n").dropLast :=
  parsed_safely_iff (by decide) (by decide)

/-- A message whose prefix has no nick. -/
theorem server_privmsg_unsafe : ¬ ParsedSafely (ascii ":irc PRIVMSG CasioFXIRC :hello\r\n") := by
  rintro ⟨action, mem, hparse, -⟩
  have hnull : ircParseLine (ascii ":irc PRIVMSG CasioFXIRC :hello\r\n")
      (ascii ":irc PRIVMSG CasioFXIRC :hello\r\n").length = none := by decide
  cases hnull.symm.trans hparse

end FxIP
