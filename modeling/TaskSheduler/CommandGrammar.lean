import TaskSheduler.ReceivedCommand

/-!
# Which commands the server accepts

`handle_client` extracts a key and two integers and leaves the rest of the
text unread.  So it accepts more than the texts of three fields: an integer ends
at the first byte that is no digit, the next one may begin right there, and
anything may follow it.  `CommandText` is this grammar, and `command_grammar`
says that the handler adds one task for each of its texts with a known key and
none for any other.
-/

namespace TaskSheduler

open Programs InputStreams

/-! ## The grammar -/

/-- The parts of a text that holds a command: a word, and then two numerals,
each behind white space and followed by no digit.  Only the white space between
the two numerals may be missing. -/
structure CommandParts (text : List UInt8) (command : Command)
    (blanks₀ blanks₁ literal₁ blanks₂ literal₂ rest : List UInt8) : Prop where
  inOrder : text =
    blanks₀ ++ (command.operation ++ (blanks₁ ++ (literal₁ ++ (blanks₂ ++ (literal₂ ++ rest)))))
  blank : Blank blanks₀ ∧ Blank blanks₁ ∧ Blank blanks₂
  word : command.operation ≠ [] ∧ ∀ b ∈ command.operation, isSpace b = false
  apart : blanks₁ ≠ []
  first : Numeral literal₁ command.num1.toInt
  firstEnds : ∀ b ∈ (blanks₂ ++ (literal₂ ++ rest)).head?, isDigit b = false
  second : Numeral literal₂ command.num2.toInt
  secondEnds : ∀ b ∈ rest.head?, isDigit b = false

/-- The text holds the command, and anything after it. -/
def CommandText (text : List UInt8) (command : Command) : Prop :=
  ∃ blanks₀ blanks₁ literal₁ blanks₂ literal₂ rest,
    CommandParts text command blanks₀ blanks₁ literal₁ blanks₂ literal₂ rest

/-- The text is the command, in three fields. -/
def ThreeFields (text : List UInt8) (command : Command) : Prop :=
  ∃ literal₁ literal₂, fields text = [command.operation, literal₁, literal₂] ∧
    Numeral literal₁ command.num1.toInt ∧ Numeral literal₂ command.num2.toInt

section Grammar

variable {text : List UInt8} {command : Command}

/-- Parsing is three extractions, one behind the other. -/
theorem parseCommand_eq_some_iff :
    Server.parseCommand text = some command ↔
      ∃ after₁ after₂ rest, extractString text = some (command.operation, after₁) ∧
        extractInt after₁ = some (command.num1, after₂) ∧
        extractInt after₂ = some (command.num2, rest) := by
  unfold Server.parseCommand
  simp only [Option.bind_eq_bind, Option.bind_eq_some_iff, Prod.exists]
  constructor
  · intro hparse
    obtain ⟨operation, after₁, hword, num1, after₂, hfirst, num2, rest, hsecond, heq⟩ := hparse
    cases heq
    exact ⟨after₁, after₂, rest, hword, hfirst, hsecond⟩
  · intro hextract
    obtain ⟨after₁, after₂, rest, hword, hfirst, hsecond⟩ := hextract
    exact ⟨_, after₁, hword, _, after₂, hfirst, _, rest, hsecond, rfl⟩

/-- **The grammar of commands**: the texts of which a command is parsed. -/
theorem parseCommand_iff_commandText :
    Server.parseCommand text = some command ↔ CommandText text command := by
  rw [parseCommand_eq_some_iff]
  constructor
  · intro hextract
    obtain ⟨after₁, after₂, rest, hword, hfirst, hsecond⟩ := hextract
    obtain ⟨hne, hrun, blanks₀, rfl, hblank₀⟩ := extractString_eq_some_iff.mp hword
    obtain ⟨hends₁, literal₁, hnumeral₁, blanks₁, rfl, hblank₁⟩ :=
      extractInt_eq_some_iff.mp hfirst
    obtain ⟨hends₂, literal₂, hnumeral₂, blanks₂, rfl, hblank₂⟩ :=
      extractInt_eq_some_iff.mp hsecond
    have hword : ∀ b ∈ command.operation, isSpace b = false := by simpa using hrun.all
    have hapart : blanks₁ ≠ [] := by
      rintro rfl
      obtain ⟨b, literal, rfl⟩ := List.exists_cons_of_ne_nil hnumeral₁.ne_nil
      have hspace := hrun.ends b rfl
      have hnospace := hnumeral₁.head [] b rfl
      simp [hnospace] at hspace
    exact ⟨blanks₀, blanks₁, literal₁, blanks₂, literal₂, rest, rfl,
      ⟨hblank₀, hblank₁, hblank₂⟩, ⟨hne, hword⟩, hapart, hnumeral₁, hends₁, hnumeral₂, hends₂⟩
  · intro hcommand
    obtain ⟨blanks₀, blanks₁, literal₁, blanks₂, literal₂, rest, rfl,
      ⟨hblank₀, hblank₁, hblank₂⟩, ⟨hne, hword⟩, hapart, hnumeral₁, hends₁, hnumeral₂, hends₂⟩ :=
        hcommand
    have hrun : LongestRun (!isSpace ·) command.operation
        (blanks₁ ++ (literal₁ ++ (blanks₂ ++ (literal₂ ++ rest)))) := by
      refine ⟨by simpa using hword, fun b hb => ?_⟩
      obtain ⟨first, blanks, rfl⟩ := List.exists_cons_of_ne_nil hapart
      cases hb
      simpa using hblank₁ b List.mem_cons_self
    exact ⟨_, _, rest,
      extractString_eq_some_iff.mpr ⟨hne, hrun, blanks₀, rfl, hblank₀⟩,
      extractInt_eq_some_iff.mpr ⟨hends₁, literal₁, hnumeral₁, blanks₁, rfl, hblank₁⟩,
      extractInt_eq_some_iff.mpr ⟨hends₂, literal₂, hnumeral₂, blanks₂, rfl, hblank₂⟩⟩

/-- A numeral that is a field is extracted. -/
theorem extractInt_of_fields {literal : List UInt8} {others : List (List UInt8)} {n : Int32}
    (h : fields text = literal :: others) (hnumeral : Numeral literal n.toInt) :
    ∃ rest, extractInt text = some (n, rest) ∧ fields rest = others := by
  obtain ⟨rest, hword, hrest⟩ := extractString_of_fields h
  obtain ⟨-, hrun, hblanks⟩ := extractString_eq_some_iff.mp hword
  refine ⟨rest, extractInt_eq_some_iff.mpr ⟨fun b hb => ?_, literal, hnumeral, hblanks⟩, hrest⟩
  -- The byte behind the field is white space.
  have hspace := hrun.ends b hb
  cases hdigit : isDigit b with
  | false => rfl
  | true => simp [(digit_ne hdigit).2.2] at hspace

/-- The texts of three fields are in the grammar. -/
theorem ThreeFields.commandText (h : ThreeFields text command) : CommandText text command := by
  obtain ⟨literal₁, literal₂, hfields, hnumeral₁, hnumeral₂⟩ := h
  obtain ⟨after₁, hword, hfields₁⟩ := extractString_of_fields hfields
  obtain ⟨after₂, hfirst, hfields₂⟩ := extractInt_of_fields hfields₁ hnumeral₁
  obtain ⟨rest, hsecond, -⟩ := extractInt_of_fields hfields₂ hnumeral₂
  exact parseCommand_iff_commandText.mp
    (parseCommand_eq_some_iff.mpr ⟨after₁, after₂, rest, hword, hfirst, hsecond⟩)

end Grammar

/-! ## The handler -/

/-- `handle_client`, with the `add_task` it calls. -/
abbrev Handler := (UnixTask → Program World Unit) → Program World (List ServerLine)

/-- The handler calls `add_task` once, on a task with the given value as its id
and static priority, and does nothing else to the queue. -/
def AddsOne (handler : Handler) (value : Int32) : Prop :=
  ∀ w, ∃ task w₁ lines, (task.id = value ∧ task.staticPriority = value) ∧ w₁.shm = w.shm ∧
    ∀ addTask, handler addTask w = (do addTask task; return lines) w₁

/-- The handler does not call `add_task`, or anything else that changes the world. -/
def AddsNone (handler : Handler) : Prop :=
  ∀ w, ∃ lines, ∀ addTask, handler addTask w = .ok lines w

/-- A handler that adds a task does not add none. -/
theorem AddsOne.not_addsNone {handler : Handler} {value : Int32} (h : AddsOne handler value) :
    ¬ AddsNone handler := by
  intro hnone
  obtain ⟨task, w₁, lines, -, -, hone⟩ := h (World.begin (Shm.create 1))
  obtain ⟨lines', hlines⟩ := hnone (World.begin (Shm.create 1))
  -- Were `add_task` to throw, the handler would not return.
  have hthrow := hone fun _ => raise ""
  rw [hlines, stops raise_apply] at hthrow
  cases hthrow

section Handlers

variable {env : Env} {buffer beyond : List UInt8} {command : Command} {value : Int32}

/-- A command with a known key adds one task. -/
theorem handleClient_addsOne
    (hparse : Server.parseCommand (Server.commandString buffer beyond) = some command)
    (hlookup : Server.operations.lookup command.operation = some value) :
    AddsOne (fun addTask => Server.handleClient env addTask buffer beyond) value := by
  intro w
  obtain ⟨task, w₁, hmake, hid, hstatic, hshm⟩ :=
    commandTask_returns env command.operation (operation_valid hlookup) w
  refine ⟨task, w₁, [.received (Server.commandString buffer beyond), .taskAdded command],
    ⟨hid, hstatic⟩, hshm, fun addTask => ?_⟩
  simp only [Server.handleClient, hparse, hlookup]
  rw [returns hmake]

/-- Any other text adds none. -/
theorem handleClient_addsNone
    (hnone : ∀ command, Server.parseCommand (Server.commandString buffer beyond) = some command →
      Server.operations.lookup command.operation = none) :
    AddsNone (fun addTask => Server.handleClient env addTask buffer beyond) := by
  intro w
  cases hparse : Server.parseCommand (Server.commandString buffer beyond) with
  | none =>
      refine ⟨[.received (Server.commandString buffer beyond), .invalidFormat], fun addTask => ?_⟩
      simp only [Server.handleClient, hparse]
      rfl
  | some command =>
      refine ⟨[.received (Server.commandString buffer beyond),
        .unknownOperation command.operation], fun addTask => ?_⟩
      simp only [Server.handleClient, hparse, hnone command hparse]
      rfl

end Handlers

/-- **The command grammar.**  For every command text without a NUL that does not
fill the buffer, the handler adds exactly one task, with the value of the key
as its id and static priority, if the text begins with a command whose key is
known, and none otherwise.  The texts of just three fields begin with one. -/
theorem command_grammar (env : Env) {sent : List UInt8} (delivery : Delivery sent)
    (beyond : List UInt8) (hnul : 0 ∉ delivery.received)
    (hroom : delivery.received.length < Server.size) :
    (∀ command value, CommandText delivery.received command →
        Server.operations.lookup command.operation = some value →
          AddsOne (fun addTask => Server.handleClient env addTask (Server.buffer delivery) beyond)
            value) ∧
      ((∀ command, CommandText delivery.received command →
          Server.operations.lookup command.operation = none) →
        AddsNone fun addTask =>
          Server.handleClient env addTask (Server.buffer delivery) beyond) ∧
      ∀ command, ThreeFields delivery.received command →
        CommandText delivery.received command := by
  have htext := delivery.commandString_eq hnul hroom beyond
  refine ⟨fun command value hcommand hlookup => ?_, fun hnone => ?_,
    fun command hfields => hfields.commandText⟩
  · refine handleClient_addsOne ?_ hlookup
    rw [htext]
    exact parseCommand_iff_commandText.mpr hcommand
  · refine handleClient_addsNone fun command hparse => hnone command ?_
    rw [htext] at hparse
    exact parseCommand_iff_commandText.mp hparse

/-- A text of three fields adds its task. -/
theorem command_grammar_add :
    AddsOne (fun addTask => Server.handleClient envOne addTask (Server.buffer oneRead) []) 19 := by
  obtain ⟨hadds, -, hfields⟩ := command_grammar envOne oneRead [] (by decide) (by decide)
  have hone : Numeral [49] 1 :=
    .unsigned (List.cons_ne_nil _ _) (List.forall_mem_singleton.mpr rfl)
  have htwo : Numeral [50] 2 :=
    .unsigned (List.cons_ne_nil _ _) (List.forall_mem_singleton.mpr rfl)
  have hthree : ThreeFields oneRead.received ⟨textBytes "add", 1, 2⟩ :=
    ⟨[49], [50], by decide, hone, htwo⟩
  exact hadds _ 19 (hfields _ hthree) (by decide)

/-- A text of four fields. -/
def fourFields : Delivery (Client.sendCommand (textBytes "add 1 2 3")) where
  reads := [textBytes "add 1 2 3"]
  inOrder := rfl
  nonempty := by decide
  fits := by decide

/-- The fourth field is ignored, and the task added. -/
theorem fourth_field_is_ignored :
    0 ∉ fourFields.received ∧ fourFields.received.length < Server.size ∧
      (∀ command, ¬ ThreeFields fourFields.received command) ∧
      AddsOne (fun addTask => Server.handleClient envOne addTask (Server.buffer fourFields) []) 19 ∧
      ¬ AddsNone fun addTask =>
        Server.handleClient envOne addTask (Server.buffer fourFields) [] := by
  have hfields : (fields fourFields.received).length = 4 := by decide
  have hparse : Server.parseCommand (Server.commandString (Server.buffer fourFields) []) =
      some ⟨textBytes "add", 1, 2⟩ := by
    rw [fourFields.commandString_eq (by decide) (by decide)]
    decide
  have hone : AddsOne
      (fun addTask => Server.handleClient envOne addTask (Server.buffer fourFields) []) 19 :=
    handleClient_addsOne hparse (by decide)
  refine ⟨by decide, by decide, fun command hthree => ?_, hone, hone.not_addsNone⟩
  obtain ⟨literal₁, literal₂, hsplit, -, -⟩ := hthree
  rw [hsplit] at hfields
  exact absurd hfields (by simp)

end TaskSheduler
