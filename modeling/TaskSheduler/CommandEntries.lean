import TaskSheduler.ServerMachine

/-!
# Which command an entry comes from

The entry of a command has the value of its operation as its id and the
operation as its description; the operands are only logged.  So the entries of
a run are `Distinguishable` exactly if no two of its commands have the same
operation, and no run depends on the operands at all (`operands_unused`).
-/

namespace TaskSheduler

open Interleaving

/-- The entry that was written. -/
def ServerEvent.entry : ServerEvent → SharedTask
  | .fromMain st => st
  | .fromClient _ st => st

/-- The command it was written for. -/
def ServerEvent.command? : ServerEvent → Option Command
  | .fromMain _ => none
  | .fromClient command _ => some command

/-- The commands for which a run has written entries. -/
def commandsOf (trace : List ServerEvent) : List Command := trace.filterMap ServerEvent.command?

/-- Two entries agree in all that does not depend on the time. -/
structure SameButTime (st st' : SharedTask) : Prop where
  id : st.id = st'.id
  description : st.description = st'.description
  completed : st.completed = st'.completed
  type : st.type = st'.type

/-- The entries have different ids, and those of different commands differ in
more than what depends on the time. -/
structure Distinguishable (trace : List ServerEvent) : Prop where
  ids : (trace.map fun e => e.entry.id).Nodup
  commands : ∀ command st command' st', .fromClient command st ∈ trace →
    .fromClient command' st' ∈ trace → SameButTime st st' → command = command'

/-- The ids of the tasks that `main` has added before its next statement. -/
def MainStatement.added : MainStatement → List Int32
  | .start | .firstTask => []
  | .secondTask => [1]
  | .startServer => [1, 2]

/-! ## The table of operations -/

/-- `main` adds no task but its two. -/
theorem MainStatement.added_subset (main : MainStatement) :
    main.added ⊆ MainStatement.startServer.added := by
  cases main <;> simp [MainStatement.added]

/-- No value of `operations` is the id of a task of `main`. -/
theorem value_not_added {operation : List UInt8} {value : Int32}
    (h : Server.operations.lookup operation = some value) :
    value ∉ MainStatement.startServer.added := by
  have hall : ∀ p ∈ Server.operations, p.2 ∉ MainStatement.startServer.added := by decide
  exact hall (operation, value) (mem_operations h)

/-- No two operations have the same value. -/
theorem operation_of_value {operation operation' : List UInt8} {value : Int32}
    (h : Server.operations.lookup operation = some value)
    (h' : Server.operations.lookup operation' = some value) : operation = operation' := by
  have hall : ∀ p ∈ Server.operations, ∀ q ∈ Server.operations, p.2 = q.2 → p.1 = q.1 := by
    decide
  exact hall (operation, value) (mem_operations h) (operation', value) (mem_operations h') rfl

/-! ## What a run writes -/

/-- The entry of a command among the events of a run. -/
def FromClient (e : ServerEvent) : Prop :=
  ∃ command st, e = .fromClient command st ∧ EntryOf command st

/-- What a run has written: entries for the tasks of `main` first, and then
entries of commands. -/
structure Written (main : MainStatement) (own clients : List ServerEvent) : Prop where
  ids : own.map (fun e => e.entry.id) = main.added
  fromMain : ∀ e ∈ own, e.command? = none
  fromClients : ∀ e ∈ clients, FromClient e
  waits : main ≠ .startServer → clients = []

/-- Every step adds to what is written. -/
theorem Written.step {main main' : MainStatement} {own clients es : List ServerEvent}
    (h : Written main own clients) (hmove : ServerMove main main' es) :
    ∃ own' clients', own ++ clients ++ es = own' ++ clients' ∧ Written main' own' clients' := by
  cases hmove with
  | silent => exact ⟨own, clients, List.append_nil _, h⟩
  | starts =>
      obtain rfl : clients = [] := h.waits (by decide)
      exact ⟨own, [], List.append_nil _, h.ids, h.fromMain, h.fromClients, fun _ => rfl⟩
  | @first st hid =>
      obtain rfl : clients = [] := h.waits (by decide)
      refine ⟨own ++ [.fromMain st], [], by simp, ?_, ?_, h.fromClients, fun _ => rfl⟩
      · rw [List.map_append, h.ids, List.map_singleton, ServerEvent.entry, hid]
        rfl
      · exact List.forall_mem_append.mpr ⟨h.fromMain, by simp [ServerEvent.command?]⟩
  | @second st hid =>
      obtain rfl : clients = [] := h.waits (by decide)
      refine ⟨own ++ [.fromMain st], [], by simp, ?_, ?_, h.fromClients, fun _ => rfl⟩
      · rw [List.map_append, h.ids, List.map_singleton, ServerEvent.entry, hid]
        rfl
      · exact List.forall_mem_append.mpr ⟨h.fromMain, by simp [ServerEvent.command?]⟩
  | @handles command st hentry =>
      refine ⟨own, clients ++ [.fromClient command st], List.append_assoc _ _ _, h.ids,
        h.fromMain, ?_, fun hnot => absurd rfl hnot⟩
      exact List.forall_mem_append.mpr
        ⟨h.fromClients, fun e he => ⟨command, st, List.mem_singleton.mp he, hentry⟩⟩

variable {Client : Type*} [DecidableEq Client] {env : Env} {timeQuantum : Int}
  {algorithm : SchedulingAlgorithm} {shm : Shm} {trace : List ServerEvent}
  {s : ServerState Client}

theorem written_run
    (h : Run (serverMachine Client env timeQuantum algorithm) (.begin Client shm) trace s) :
    ∃ own clients, trace = own ++ clients ∧ Written s.main own clients := by
  refine h.invariant
    (fun trace s => ∃ own clients, trace = own ++ clients ∧ Written s.main own clients) ?_ ?_
  · exact ⟨[], [], rfl, rfl, by simp, by simp, fun _ => rfl⟩
  · rintro trace s a s' es ⟨own, clients, rfl, hwritten⟩ hstep
    exact hwritten.step (server_move hstep)

/-! ## When they can be told apart -/

/-- The ids of entries of commands are the values of their operations. -/
theorem clients_ids {clients : List ServerEvent} (h : ∀ e ∈ clients, FromClient e) :
    clients.map (fun e => some e.entry.id) =
      (commandsOf clients).map fun c => Server.operations.lookup c.operation := by
  induction clients with
  | nil => rfl
  | cons e rest ih =>
      obtain ⟨⟨command, st, rfl, hentry⟩, hrest⟩ := List.forall_mem_cons.mp h
      have hcommands : commandsOf (.fromClient command st :: rest) =
          command :: commandsOf rest := rfl
      rw [hcommands, List.map_cons, List.map_cons, ih hrest, hentry.id]
      rfl

theorem mem_commandsOf {command : Command} {st : SharedTask}
    (h : .fromClient command st ∈ trace) : command ∈ commandsOf trace :=
  List.mem_filterMap.mpr ⟨_, h, rfl⟩

/-- **The entries of a run can be told apart** exactly if no two commands of the
run have the same operation, whatever their operands. -/
theorem distinguishable_iff
    (h : Run (serverMachine Client env timeQuantum algorithm) (.begin Client shm) trace s) :
    Distinguishable trace ↔ ((commandsOf trace).map Command.operation).Nodup := by
  obtain ⟨own, clients, rfl, hwritten⟩ := written_run h
  have hcommands : commandsOf (own ++ clients) = commandsOf clients := by
    rw [commandsOf, List.filterMap_append, List.filterMap_eq_nil_iff.mpr hwritten.fromMain]
    rfl
  have hids : (own ++ clients).map (fun e => e.entry.id) =
      s.main.added ++ clients.map (fun e => e.entry.id) := by
    rw [List.map_append, hwritten.ids]
  have hvalues : (clients.map fun e => e.entry.id).map some =
      ((commandsOf clients).map Command.operation).map
        fun operation => Server.operations.lookup operation := by
    rw [List.map_map, List.map_map]
    exact clients_ids hwritten.fromClients
  rw [hcommands]
  constructor
  · intro hdistinct
    have hnodup := hdistinct.ids
    rw [hids] at hnodup
    have hclients := (List.nodup_append.mp hnodup).2.1
    have hlookups := hclients.map (Option.some_injective _)
    rw [hvalues] at hlookups
    exact List.Nodup.of_map _ hlookups
  · intro hoperations
    have hwhole : ∀ {command : Command} {st : SharedTask},
        .fromClient command st ∈ own ++ clients →
          command ∈ commandsOf clients ∧ EntryOf command st := by
      intro command st hmem
      rcases List.mem_append.mp hmem with hown | hclient
      · cases hwritten.fromMain _ hown
      · obtain ⟨command', st', heq, hentry⟩ := hwritten.fromClients _ hclient
        cases heq
        exact ⟨mem_commandsOf hclient, hentry⟩
    refine ⟨?_, ?_⟩
    · have hlookups : ((commandsOf clients).map Command.operation).map
          (fun operation => Server.operations.lookup operation) |>.Nodup := by
        refine hoperations.map_on fun op hop op' hop' heq => ?_
        obtain ⟨command, hcommand, rfl⟩ := List.mem_map.mp hop
        obtain ⟨e, he, hcommand'⟩ := List.mem_filterMap.mp hcommand
        obtain ⟨found, st, rfl, hentry⟩ := hwritten.fromClients e he
        cases hcommand'
        exact operation_of_value hentry.id (heq ▸ hentry.id)
      rw [← hvalues] at hlookups
      rw [hids]
      refine List.nodup_append.mpr ⟨?_, List.Nodup.of_map _ hlookups, ?_⟩
      · cases s.main <;> decide
      · rintro id hid id' hid' rfl
        obtain ⟨e, he, rfl⟩ := List.mem_map.mp hid'
        obtain ⟨command, st, rfl, hentry⟩ := hwritten.fromClients e he
        exact value_not_added hentry.id (s.main.added_subset hid)
    · intro command st command' st' hmem hmem' hsame
      obtain ⟨hcommand, hentry⟩ := hwhole hmem
      obtain ⟨hcommand', hentry'⟩ := hwhole hmem'
      have hoperation : command.operation = command'.operation :=
        operation_of_value hentry.id (hsame.id ▸ hentry'.id)
      exact List.inj_on_of_nodup_map hoperations hcommand hcommand' hoperation

/-! ## Two clients -/

/-- A request whose bytes arrive in one read. -/
def Request.oneRead (sent : List UInt8) (hne : sent ≠ []) (hfits : sent.length ≤ Server.size) :
    Request where
  sent := sent
  delivery := {
    reads := [sent]
    inOrder := List.flatten_singleton
    nonempty := fun hmem => hne (List.mem_singleton.mp hmem).symm
    fits := fun bytes hmem => by rwa [List.mem_singleton.mp hmem] }
  beyond := []

/-- A server with two handlers and a queue of two slots. -/
def twoHandlers : Machine (ServerState Bool) (ServerAction Bool) ServerEvent :=
  serverMachine Bool envTwo 500 (.roundRobinScheduling 0)

/-- `main` up to `start_server`, while the loops do not move. -/
def untilServing : List (ServerAction Bool) :=
  [.main Choice.quiet] ++ List.replicate 5 (.service (.system .main)) ++
    [.main Choice.quiet] ++ List.replicate 44 (.service (.client none Choice.quiet)) ++
    [.main Choice.quiet] ++ List.replicate 73 (.service (.client none Choice.quiet))

/-- `add 1 2` is followed by `sub 1 2`. -/
def addThenSub : List (ServerAction Bool) := untilServing ++
  [.handle true (.oneRead (textBytes "add 1 2") (by decide) (by decide)) Choice.quiet,
    .handle false (.oneRead (textBytes "sub 1 2") (by decide) (by decide)) Choice.quiet]

theorem addThenSub_executes :
    (exec twoHandlers (.begin Bool (Shm.create 2)) addThenSub).isSome = true := by
  decide +kernel

theorem distinguishable_add_sub :
    ∃ trace s, Run twoHandlers (.begin Bool (Shm.create 2)) trace s ∧
      commandsOf trace = [⟨textBytes "add", 1, 2⟩, ⟨textBytes "sub", 1, 2⟩] ∧
      Distinguishable trace := by
  have hcommands : commandsOf ((exec twoHandlers (.begin Bool (Shm.create 2)) addThenSub).get
      addThenSub_executes).2 = [⟨textBytes "add", 1, 2⟩, ⟨textBytes "sub", 1, 2⟩] := by
    decide +kernel
  have hrun := exec_get_run addThenSub_executes
  refine ⟨_, _, hrun, hcommands, (distinguishable_iff hrun).mpr ?_⟩
  rw [hcommands]
  decide

/-- `add 1 2` is followed by `add 3 4`. -/
def addTwice : List (ServerAction Bool) := untilServing ++
  [.handle true (.oneRead (textBytes "add 1 2") (by decide) (by decide)) Choice.quiet,
    .handle false (.oneRead (textBytes "add 3 4") (by decide) (by decide)) Choice.quiet]

theorem addTwice_executes :
    (exec twoHandlers (.begin Bool (Shm.create 2)) addTwice).isSome = true := by
  decide +kernel

/-- Both commands put a task with id 19 into the queue. -/
theorem operands_are_lost :
    ∃ trace s, Run twoHandlers (.begin Bool (Shm.create 2)) trace s ∧
      commandsOf trace = [⟨textBytes "add", 1, 2⟩, ⟨textBytes "add", 3, 4⟩] ∧
      ¬ Distinguishable trace := by
  have hcommands : commandsOf ((exec twoHandlers (.begin Bool (Shm.create 2)) addTwice).get
      addTwice_executes).2 = [⟨textBytes "add", 1, 2⟩, ⟨textBytes "add", 3, 4⟩] := by
    decide +kernel
  have hids : (((exec twoHandlers (.begin Bool (Shm.create 2)) addTwice).get
      addTwice_executes).2.map fun e => e.entry.id) = [1, 2, 19, 19] := by
    decide +kernel
  refine ⟨_, _, exec_get_run addTwice_executes, hcommands, fun hdistinct => ?_⟩
  have hnodup := hdistinct.ids
  rw [hids] at hnodup
  exact absurd hnodup (by decide)

/-! ## What the operands do -/

/-- **An entry but for its time is a function of the operation alone.** -/
theorem EntryOf.sameButTime {command command' : Command} {st st' : SharedTask}
    (h : EntryOf command st) (h' : EntryOf command' st')
    (hoperation : command.operation = command'.operation) : SameButTime st st' where
  id := by
    have hid := h.id
    rw [hoperation, h'.id] at hid
    exact (Option.some.inj hid).symm
  description := by rw [h.description, h'.description, hoperation]
  completed := h.completed.trans h'.completed.symm
  type := h.type.trans h'.type.symm

/-- The action with another request. -/
def ServerAction.replaced (replace : Request → Request) :
    ServerAction Client → ServerAction Client
  | .handle c request choice => .handle c (replace request) choice
  | a => a

/-- The operation of the command that a text holds, if it is accepted. -/
def acceptedOperation (text : List UInt8) : Option (List UInt8) :=
  (Server.acceptedCommand text).map fun p => p.1.operation

/-- Texts with the same operation are accepted together, with the same value. -/
theorem accepted_sameOperation {text text' : List UInt8}
    (h : acceptedOperation text' = acceptedOperation text) :
    (Server.acceptedCommand text = none ∧ Server.acceptedCommand text' = none) ∨
      ∃ command command' value, Server.acceptedCommand text = some (command, value) ∧
        Server.acceptedCommand text' = some (command', value) ∧
        command'.operation = command.operation := by
  unfold acceptedOperation at h
  cases haccepted : Server.acceptedCommand text with
  | none =>
      rw [haccepted] at h
      exact .inl ⟨rfl, Option.map_eq_none_iff.mp h⟩
  | some accepted =>
      obtain ⟨command, value⟩ := accepted
      rw [haccepted] at h
      obtain ⟨⟨command', value'⟩, haccepted', hoperation⟩ := Option.map_eq_some_iff.mp h
      have hlookup := acceptedCommand_lookup haccepted
      have hlookup' := acceptedCommand_lookup haccepted'
      simp only at hoperation
      rw [hoperation, hlookup] at hlookup'
      refine .inr ⟨command, command', value, rfl, ?_, hoperation⟩
      rw [haccepted', ← Option.some.inj hlookup']

/-- A step of the server does not depend on the operands, but for the command
that the event names. -/
theorem step_replaced {replace : Request → Request}
    (hsame : ∀ request, acceptedOperation (replace request).text = acceptedOperation request.text)
    {s s' : ServerState Client} {a : ServerAction Client} {es : List ServerEvent}
    (h : (serverMachine Client env timeQuantum algorithm).step s a = some (s', es)) :
    ∃ es', (serverMachine Client env timeQuantum algorithm).step s (a.replaced replace) =
        some (s', es') ∧ es'.map ServerEvent.entry = es.map ServerEvent.entry := by
  cases a with
  | service a => exact ⟨es, h, rfl⟩
  | main choice => exact ⟨es, h, rfl⟩
  | handle c request choice =>
      have hhandle : handleClient env c request choice s = some (s', es) := h
      show ∃ es', handleClient env c (replace request) choice s = some (s', es') ∧ _
      unfold handleClient at hhandle ⊢
      rcases accepted_sameOperation (hsame request) with ⟨hnone, hnone'⟩ |
        ⟨command, command', value, hsome, hsome', hoperation⟩
      · rw [hnone] at hhandle
        rw [hnone']
        exact ⟨es, hhandle, rfl⟩
      · rw [hsome] at hhandle
        rw [hsome']
        split at hhandle
        case h_2 hcommand => cases hcommand
        case h_3 => cases hhandle
        case h_1 found value' hmain hidle heq =>
          cases heq
          simp only [Option.map_eq_some_iff, Prod.mk.injEq] at hhandle
          obtain ⟨r, hsubmits, rfl, rfl⟩ := hhandle
          refine ⟨[.fromClient command' r.2], ?_, rfl⟩
          simp only [hmain, hidle, hoperation, hsubmits, Option.map_some]

/-- **Operands cannot be recovered.**  Whatever the requests of a run are replaced
by, as long as the operations stay the same, the run goes the same way: the same
entries are written, down to their times, and the same state is reached.  So
nothing in the queue tells the operands, not even of the only command of a
run. -/
theorem operands_unused {replace : Request → Request}
    (hsame : ∀ request, acceptedOperation (replace request).text = acceptedOperation request.text)
    {schedule : List (ServerAction Client)} {start : ServerState Client}
    (h : exec (serverMachine Client env timeQuantum algorithm) start schedule = some (s, trace)) :
    ∃ trace', exec (serverMachine Client env timeQuantum algorithm) start
        (schedule.map (ServerAction.replaced replace)) = some (s, trace') ∧
      trace'.map ServerEvent.entry = trace.map ServerEvent.entry := by
  induction schedule generalizing start trace with
  | nil => exact ⟨trace, h, rfl⟩
  | cons a rest ih =>
      obtain ⟨middle, left, right, hfirst, hrest, rfl⟩ := exec_cons h
      obtain ⟨left', hfirst', hleft⟩ := step_replaced hsame hfirst
      obtain ⟨right', hrest', hright⟩ := ih hrest
      refine ⟨left' ++ right', ?_, ?_⟩
      · simp only [List.map_cons, exec, hfirst', hrest', Option.bind_some, Option.map_some]
      · rw [List.map_append, List.map_append, hleft, hright]

/-- A request for `mul 3 4`, all of it in one `read`. -/
def mulRequest : Request := .oneRead (textBytes "mul 3 4") (by decide) (by decide)

/-- A request for `mul 5 6` in the place of one for `mul 3 4`. -/
def otherOperands (request : Request) : Request :=
  if request.text = textBytes "mul 3 4" then
    .oneRead (textBytes "mul 5 6") (by decide) (by decide)
  else request

/-- One command, and no other. -/
def onlyMul : List (ServerAction Bool) := untilServing ++
  [.handle true mulRequest Choice.quiet]

/-- The runs with `mul 3 4` and with `mul 5 6` write the same entries and end in
the same state. -/
theorem operands_unused_alone :
    ∃ s trace trace', exec twoHandlers (.begin Bool (Shm.create 2)) onlyMul = some (s, trace) ∧
      exec twoHandlers (.begin Bool (Shm.create 2))
        (onlyMul.map (ServerAction.replaced otherOperands)) = some (s, trace') ∧
      commandsOf trace = [⟨textBytes "mul", 3, 4⟩] ∧
      commandsOf trace' = [⟨textBytes "mul", 5, 6⟩] ∧
      trace'.map ServerEvent.entry = trace.map ServerEvent.entry := by
  have hexec : (exec twoHandlers (.begin Bool (Shm.create 2)) onlyMul).map
      (fun r => commandsOf r.2) = some [⟨textBytes "mul", 3, 4⟩] := by
    decide +kernel
  have hother : (exec twoHandlers (.begin Bool (Shm.create 2))
      (onlyMul.map (ServerAction.replaced otherOperands))).map
        (fun r => commandsOf r.2) = some [⟨textBytes "mul", 5, 6⟩] := by
    decide +kernel
  have hsame : ∀ request, acceptedOperation (otherOperands request).text =
      acceptedOperation request.text := by
    intro request
    unfold otherOperands
    split
    case isTrue htext =>
      rw [htext]
      decide +kernel
    case isFalse => rfl
  obtain ⟨⟨s, trace⟩, hrun, hcommands⟩ := Option.map_eq_some_iff.mp hexec
  obtain ⟨trace', hrun', hentries⟩ := operands_unused hsame hrun
  have hcommands' : commandsOf trace' = [⟨textBytes "mul", 5, 6⟩] := by
    rw [show exec twoHandlers (.begin Bool (Shm.create 2))
      (onlyMul.map (ServerAction.replaced otherOperands)) = some (s, trace') from hrun'] at hother
    exact Option.some.inj hother
  exact ⟨s, trace, trace', hrun, hrun', hcommands, hcommands', hentries⟩

end TaskSheduler
