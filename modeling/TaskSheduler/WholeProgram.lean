import TaskSheduler.Conversations
import TaskSheduler.ServerLedger

/-!
# The whole program

The client programs, the sockets, `main`, its handlers, the two loops and the
queue, all in one machine.  `dialogueMachine` has the system calls on sockets,
and there a call of `Scheduler::add_task` is a single step; `serverMachine` has
every step of these calls, and there a command comes from nowhere.  Here a
handler that has read a command begins `add_task` in the server, and it goes on
to `close` when that call has returned.  An exception that leaves `add_task` ends
the server process.

A handler goes by the name of a slot while it is in `add_task`; names are used
again.

`WholeMove` lists what a step does to the two machines, `WholeInv` is what every
run keeps: its projections are runs of the two machines, and what a handler
writes is what was asked on its connection, once.
-/

namespace TaskSheduler

open Interleaving Programs

/-- What is seen of the whole program. -/
inductive WholeEvent
  | said (e : DialogueEvent)
  | fromMain (st : SharedTask)
  | fromClient (n : Nat) (command : Command) (st : SharedTask)

/-- What is said of the sockets and on them. -/
def WholeEvent.said? : WholeEvent → Option DialogueEvent
  | .said e => some e
  | _ => none

/-- What is written into the queue. -/
def WholeEvent.written? : WholeEvent → Option ServerEvent
  | .said _ => none
  | .fromMain st => some (.fromMain st)
  | .fromClient _ command st => some (.fromClient command st)

/-- The connection whose command is written. -/
def WholeEvent.answered? : WholeEvent → Option Nat
  | .fromClient n _ _ => some n
  | _ => none

/-- The two machines, and the connections whose handlers are in `add_task`. -/
structure WholeState (Client Slot : Type*) where
  dialogue : DialogueState Client
  server : ServerState Slot
  serves : Slot → Option Nat

/-- Before `main`. -/
def WholeState.begin (Client Slot : Type*) (shm : Shm) : WholeState Client Slot where
  dialogue := .begin Client
  server := .begin Slot shm
  serves := fun _ => none

section Steps

variable {Client Slot : Type*} [DecidableEq Client] [DecidableEq Slot] [Fintype Slot]

namespace WholeState

/-- The server process has not ended. -/
def alive (s : WholeState Client Slot) : Bool :=
  match s.dialogue.server with
  | .ended => false
  | _ => true

/-- `main` is in `start_server`, which it does not leave. -/
def serving (s : WholeState Client Slot) : Bool :=
  match s.server.main, s.server.service.client none with
  | .startServer, .idle => true
  | _, _ => false

/-- The handler of this socket has a task to add. -/
def adding (s : WholeState Client Slot) (sock : Socket) : Bool :=
  match s.dialogue.handler sock with
  | .addTask _ _ _ => true
  | _ => false

/-- The steps on sockets that can be next: those of `start_server` once `main` has
come to it, and those of a handler but for its `add_task`. -/
def admits (s : WholeState Client Slot) : DialogueAction Client → Bool
  | .enter _ _ | .client _ _ _ => true
  | .server _ _ => s.serving
  | .handler sock _ _ _ => !s.adding sock
  | .terminate => s.alive

/-- An exception leaves `add_task` at this step. -/
def throws (env : Env) (s : WholeState Client Slot) : ServiceAction (Option Slot) → Bool
  | .client c choice =>
      match managerStep env choice s.server.service.system.shm (s.server.service.client c) with
      | some (_, _, some (.thrown _)) => true
      | _ => false
  | _ => false

end WholeState

end Steps

/-! ## What a step on sockets does to the handlers -/

section Dialogue

variable {Client : Type*} [DecidableEq Client] {s s' : DialogueState Client}
  {es : List DialogueEvent} {n : Nat} {command : Command} {value : Int32}

/-- A value of an updated function is an old one, or the new one in its place. -/
theorem updated_cases {ι β : Type*} [DecidableEq ι] {f : ι → β} {i k : ι} {new b : β}
    (h : Function.update f k new i = b) : f i = b ∨ (i = k ∧ new = b) := by
  by_cases hik : i = k
  · subst hik
    rw [Function.update_self] at h
    exact .inr ⟨rfl, h⟩
  · rw [Function.update_of_ne hik] at h
    exact .inl h

/-- A handler that has a task to add had it before, or has just read it. -/
theorem TalkMove.adding (h : TalkMove s s' es) {sock : Socket}
    (hadding : s'.handler sock = .addTask n command value) :
    s.handler sock = .addTask n command value ∨ s.handler sock = .read n := by
  cases h with
  | quiet hquiet _ =>
      rcases hquiet.handler sock with hsame | hgone
      · exact .inl (hsame.symm.trans hadding)
      · rw [hgone] at hadding
        cases hadding
  | connects _ => exact .inl hadding
  | sends _ => exact .inl hadding
  | accepts _ =>
      rcases updated_cases hadding with hsame | ⟨-, hnew⟩
      · exact .inl hsame
      · cases hnew
  | @reads k m bytes left beyond hpc _ _ _ =>
      rcases updated_cases hadding with hsame | ⟨rfl, hnew⟩
      · exact .inl hsame
      · unfold HandlerPc.afterRead at hnew
        cases haccepted : Server.acceptedCommand
            (Server.commandString (Server.bufferOf bytes) beyond) with
        | none =>
            rw [haccepted] at hnew
            cases hnew
        | some p =>
            rw [haccepted] at hnew
            cases hnew
            exact .inr hpc
  | adds _ =>
      rcases updated_cases hadding with hsame | ⟨-, hnew⟩
      · exact .inl hsame
      · cases hnew
  | returns _ =>
      rcases updated_cases hadding with hsame | ⟨-, hnew⟩
      · exact .inl hsame
      · cases hnew

end Dialogue

/-! ## What a step of the whole program does -/

section Moves

variable {Client Slot : Type*} [DecidableEq Client] [DecidableEq Slot] [Fintype Slot]
  {env : Env} {timeQuantum : Int} {algorithm : SchedulingAlgorithm}
  {s s' : WholeState Client Slot} {es : List WholeEvent}

end Moves

/-! ## Every run -/

section Runs

variable {Client Slot : Type*} [DecidableEq Client] [DecidableEq Slot] [Fintype Slot]
  {env : Env} {timeQuantum : Int} {algorithm : SchedulingAlgorithm}
  {s s' : WholeState Client Slot} {trace es : List WholeEvent}

/-- What a run says of the sockets and on them. -/
def saidIn (trace : List WholeEvent) : List DialogueEvent := trace.filterMap WholeEvent.said?

/-- What a run writes into the queue. -/
def writtenIn (trace : List WholeEvent) : List ServerEvent := trace.filterMap WholeEvent.written?

/-- The connections whose commands a run has written, in this order. -/
def answeredIn (trace : List WholeEvent) : List Nat := trace.filterMap WholeEvent.answered?

/-- A client has asked for this command on the connection. -/
def Asked (said : List DialogueEvent) (n : Nat) (command : Command) : Prop :=
  ∃ line text value, [.connected n line, .accepted n, .received n text] <+: eventsAt n said ∧
    HeardAs line text ∧ Server.acceptedCommand text = some (command, value)

/-- What has been asked stays so. -/
theorem Asked.later {said more : List DialogueEvent} {n : Nat} {command : Command}
    (h : Asked said n command) : Asked (said ++ more) n command := by
  obtain ⟨line, text, value, hsaid, hheard, haccepted⟩ := h
  refine ⟨line, text, value, hsaid.trans ?_, hheard, haccepted⟩
  rw [eventsAt_append]
  exact List.prefix_append _ _

/-- What every run keeps. -/
structure WholeInv (Client Slot : Type*) [DecidableEq Client] [DecidableEq Slot] [Fintype Slot]
    (env : Env) (timeQuantum : Int) (algorithm : SchedulingAlgorithm) (shm : Shm)
    (trace : List WholeEvent) (s : WholeState Client Slot) : Prop where
  dialogue : Run (dialogueMachine Client) (.begin Client) (saidIn trace) s.dialogue
  server : Run (serverMachine Slot env timeQuantum algorithm) (.begin Slot shm)
    (writtenIn trace) s.server
  asked : ∀ {n command st}, .fromClient n command st ∈ trace →
    Asked (saidIn trace) n command ∧ EntryOf command st
  once : (answeredIn trace).Nodup
  busy : ∀ {slot n}, s.serves slot = some n → n ∈ answeredIn trace
  waiting : ∀ {sock n command value}, s.dialogue.handler sock = .addTask n command value →
    (∀ slot, s.serves slot ≠ some n) → n ∉ answeredIn trace
  added : ∀ {n command value}, .said (.added n command value) ∈ trace →
    ∃ st, .fromClient n command st ∈ trace

/-! ### Traces -/

theorem saidIn_append (trace es : List WholeEvent) :
    saidIn (trace ++ es) = saidIn trace ++ saidIn es :=
  List.filterMap_append

theorem writtenIn_append (trace es : List WholeEvent) :
    writtenIn (trace ++ es) = writtenIn trace ++ writtenIn es :=
  List.filterMap_append

theorem answeredIn_append (trace es : List WholeEvent) :
    answeredIn (trace ++ es) = answeredIn trace ++ answeredIn es :=
  List.filterMap_append

/-- A connection is answered by an entry. -/
theorem mem_answeredIn {n : Nat} :
    n ∈ answeredIn trace ↔ ∃ command st, .fromClient n command st ∈ trace := by
  constructor
  · intro h
    obtain ⟨e, hmem, heq⟩ := List.mem_filterMap.mp h
    cases e with
    | said e => cases heq
    | fromMain st => cases heq
    | fromClient m command st =>
        cases heq
        exact ⟨command, st, hmem⟩
  · rintro ⟨command, st, hmem⟩
    exact List.mem_filterMap.mpr ⟨_, hmem, rfl⟩

/-- What is seen of a step in which no handler begins or ends `add_task`. -/
theorem goesOn_shows (said : List DialogueEvent) {written : List ServerEvent}
    (hown : ∀ e ∈ written, e.command? = none) :
    saidIn (said.map .said ++ written.map fun e => .fromMain e.entry) = said ∧
      writtenIn (said.map .said ++ written.map fun e => .fromMain e.entry) = written ∧
      answeredIn (said.map .said ++ written.map fun e => .fromMain e.entry) = [] := by
  have hwritten : ∀ e ∈ written, some (ServerEvent.fromMain e.entry) = some e := by
    intro e he
    cases e with
    | fromMain st => rfl
    | fromClient command st => cases hown _ he
  have hkept : written.filterMap (fun e => some (ServerEvent.fromMain e.entry)) = written :=
    (List.filterMap_congr hwritten).trans List.filterMap_some
  refine ⟨?_, ?_, ?_⟩
  · simp [saidIn, List.filterMap_append, List.filterMap_map, Function.comp_def, WholeEvent.said?]
  · rw [writtenIn, List.filterMap_append, List.filterMap_map, List.filterMap_map]
    simpa [Function.comp_def, WholeEvent.written?] using hkept
  · simp [answeredIn, List.filterMap_append, List.filterMap_map, Function.comp_def,
      WholeEvent.answered?]

/-! ### Requests -/

/-- What is heard on a connection is a request. -/
theorem HeardAs.request {line text : List UInt8} (h : HeardAs line text) :
    ∃ request : Request, request.text = text := by
  obtain ⟨bytes, beyond, -, hfits, rfl⟩ := h
  rcases eq_or_ne bytes [] with rfl | hne
  · exact ⟨⟨[], ⟨[], rfl, List.not_mem_nil, by simp⟩, beyond⟩, rfl⟩
  · exact ⟨{ Request.oneRead bytes hne hfits with beyond := beyond }, rfl⟩

/-- The entry of a command that a step writes. -/
theorem ServerMove.entry {main main' : MainStatement} {written : List ServerEvent}
    (h : ServerMove main main' written) {command : Command} {st : SharedTask}
    (hmem : .fromClient command st ∈ written) : EntryOf command st := by
  cases h with
  | silent | starts => cases hmem
  | first hid | second hid => cases List.mem_singleton.mp hmem
  | handles hentry =>
      cases List.mem_singleton.mp hmem
      exact hentry

/-! ### The invariant -/

variable {shm : Shm}

/-- A connection that is still to be read has not been answered. -/
theorem WholeInv.unread
    (h : WholeInv Client Slot env timeQuantum algorithm shm trace s) {sock : Socket} {n : Nat}
    (hpc : s.dialogue.handler sock = .read n) : n ∉ answeredIn trace := by
  intro hmem
  obtain ⟨command, st, hwritten⟩ := mem_answeredIn.mp hmem
  obtain ⟨line, text, value, hsaid, -, -⟩ := (h.asked hwritten).1
  obtain ⟨line', hevents, -⟩ := ((talks_run h.dialogue).talk n).reading hpc
  rw [hevents] at hsaid
  have hlength := hsaid.length_le
  simp at hlength

/-- What was written earlier has still been asked for. -/
theorem WholeInv.askedEarlier
    (h : WholeInv Client Slot env timeQuantum algorithm shm trace s) {n : Nat}
    {command : Command} {st : SharedTask} (hmem : .fromClient n command st ∈ trace)
    (more : List DialogueEvent) :
    Asked (saidIn trace ++ more) n command ∧ EntryOf command st :=
  ⟨(h.asked hmem).1.later, (h.asked hmem).2⟩

/-- What was added earlier is still written. -/
theorem WholeInv.addedEarlier
    (h : WholeInv Client Slot env timeQuantum algorithm shm trace s) {n : Nat}
    {command : Command} {value : Int32} (hmem : .said (.added n command value) ∈ trace)
    (es : List WholeEvent) : ∃ st, .fromClient n command st ∈ trace ++ es := by
  obtain ⟨st, hst⟩ := h.added hmem
  exact ⟨st, List.mem_append_left es hst⟩

/-- Steps of the two machines without a handler that begins or ends `add_task`. -/
theorem WholeInv.goesOn (h : WholeInv Client Slot env timeQuantum algorithm shm trace s)
    {dialogue : DialogueState Client} {server : ServerState Slot} {said : List DialogueEvent}
    {written : List ServerEvent}
    (hdialogue : Run (dialogueMachine Client) s.dialogue said dialogue)
    (hserver : Run (serverMachine Slot env timeQuantum algorithm) s.server written server)
    (hadded : ∀ n command value, .added n command value ∉ said)
    (hown : ∀ e ∈ written, e.command? = none)
    (hadding : ∀ {sock n command value}, dialogue.handler sock = .addTask n command value →
      s.dialogue.handler sock = .addTask n command value ∨ s.dialogue.handler sock = .read n) :
    WholeInv Client Slot env timeQuantum algorithm shm
      (trace ++ (said.map .said ++ written.map fun e => .fromMain e.entry))
      ⟨dialogue, server, s.serves⟩ := by
  obtain ⟨hsaid, hwritten, hanswered⟩ := goesOn_shows said hown
  have hsame : answeredIn (trace ++ (said.map .said ++ written.map fun e => .fromMain e.entry)) =
      answeredIn trace := by
    rw [answeredIn_append, hanswered, List.append_nil]
  refine ⟨?_, ?_, fun {n command st} hmem => ?_, ?_, ?_, ?_, fun {n command value} hmem => ?_⟩
  · rw [saidIn_append, hsaid]
    exact h.dialogue.append hdialogue
  · rw [writtenIn_append, hwritten]
    exact h.server.append hserver
  · have hbefore : .fromClient n command st ∈ trace := by simpa using hmem
    rw [saidIn_append]
    exact h.askedEarlier hbefore _
  · rw [hsame]
    exact h.once
  · rw [hsame]
    exact h.busy
  · rw [hsame]
    intro sock n command value hpc hnone
    rcases hadding hpc with hbefore | hread
    · exact h.waiting hbefore hnone
    · exact h.unread hread
  · have hbefore : .said (.added n command value) ∈ trace := by
      have hnew := hadded n command value
      simpa [hnew] using hmem
    exact h.addedEarlier hbefore _

/-- A handler ends `add_task`. -/
theorem WholeInv.ends (h : WholeInv Client Slot env timeQuantum algorithm shm trace s)
    {slot : Slot} {sock : Socket} {n : Nat} {command : Command} {value : Int32}
    {dialogue : DialogueState Client}
    (hpc : s.dialogue.handler sock = .addTask n command value) (hserves : s.serves slot = some n)
    (hstep : (dialogueMachine Client).step s.dialogue (.handler sock true 0 []) =
      some (dialogue, [.added n command value]))
    (hclosed : dialogue.handler = Function.update s.dialogue.handler sock (.close n)) :
    WholeInv Client Slot env timeQuantum algorithm shm
      (trace ++ [.said (.added n command value)])
      ⟨dialogue, s.server, Function.update s.serves slot none⟩ := by
  have htalk := (talks_run h.dialogue).talk n
  have hsaid : saidIn (trace ++ [.said (.added n command value)]) =
      saidIn trace ++ [.added n command value] := saidIn_append _ _
  have hwritten : writtenIn (trace ++ [.said (.added n command value)]) = writtenIn trace := by
    rw [writtenIn_append]
    exact List.append_nil _
  have hanswered : answeredIn (trace ++ [.said (.added n command value)]) = answeredIn trace := by
    rw [answeredIn_append]
    exact List.append_nil _
  refine ⟨?_, ?_, fun {m c st} hmem => ?_, ?_, fun {other m} hother => ?_,
    fun {k m c v} hk hunserved => ?_, fun {m c v} hmem => ?_⟩
  · rw [hsaid]
    exact h.dialogue.snoc hstep
  · rw [hwritten]
    exact h.server
  · have hbefore : .fromClient m c st ∈ trace := by simpa using hmem
    rw [hsaid]
    exact h.askedEarlier hbefore _
  · rw [hanswered]
    exact h.once
  · rw [hanswered]
    rcases updated_cases hother with hbefore | ⟨-, hnew⟩
    · exact h.busy hbefore
    · cases hnew
  · rw [hanswered]
    rw [hclosed] at hk
    rcases updated_cases hk with hbefore | ⟨-, hgone⟩
    · -- the handler that ends is the only one of its connection
      have hother : m ≠ n := by
        rintro rfl
        have hsock : k = sock := htalk.handlers (by rw [hbefore]; rfl) (by rw [hpc]; rfl)
        rw [hsock, Function.update_self] at hk
        cases hk
      refine h.waiting hbefore fun other hserved => ?_
      by_cases hslot : other = slot
      · rw [hslot, hserves] at hserved
        exact hother (Option.some.inj hserved).symm
      · have hstill := hunserved other
        simp only [Function.update_of_ne hslot] at hstill
        exact hstill hserved
    · cases hgone
  · rcases List.mem_append.mp hmem with hbefore | hnow
    · exact h.addedEarlier hbefore _
    · cases List.mem_singleton.mp hnow
      obtain ⟨command', st, hst⟩ := mem_answeredIn.mp (h.busy hserves)
      obtain ⟨line, text, value', hasked, -, haccepted⟩ := (h.asked hst).1
      obtain ⟨line', text', -, hevents, haccepted'⟩ := htalk.adding hpc
      -- what was asked and what is being added are both what was read
      rw [hevents] at hasked
      have hsame := hasked.eq_of_length rfl
      cases hsame
      rw [haccepted] at haccepted'
      cases haccepted'
      exact ⟨st, List.mem_append_left _ hst⟩

omit [DecidableEq Client] [DecidableEq Slot] [Fintype Slot] in
/-- In a whole conversation a command with a known operation is added. -/
theorem Conversation.answered {n : Nat} {events : List DialogueEvent} (h : Conversation n events)
    {text : List UInt8} (hread : .received n text ∈ events) {command : Command} {value : Int32}
    (haccepted : Server.acceptedCommand text = some (command, value)) :
    .added n command value ∈ events := by
  cases h with
  | @whole line heard hheard =>
      have hsame : text = heard := by
        rcases List.mem_append.mp hread with hmem | hmem
        · simpa using hmem
        · obtain ⟨p, -, hp⟩ := List.mem_map.mp hmem
          cases hp
      subst hsame
      refine List.mem_append_right _ ?_
      simp [answer, haccepted]

/-- A handler that is done with a command has it written. -/
theorem WholeInv.done (h : WholeInv Client Slot env timeQuantum algorithm shm trace s)
    {sock : Socket} {n : Nat}
    (hpc : s.dialogue.handler sock = .close n ∨ s.dialogue.handler sock = .returned n)
    {text : List UInt8} (hread : .received n text ∈ saidIn trace) {command : Command}
    {value : Int32} (haccepted : Server.acceptedCommand text = some (command, value)) :
    ∃ st, .fromClient n command st ∈ trace := by
  have hwhole := ((talks_run h.dialogue).talk n).finished hpc
  have hmem : .received n text ∈ eventsAt n (saidIn trace) :=
    List.mem_filter.mpr ⟨hread, decide_eq_true rfl⟩
  have hsaid := hwhole.answered hmem haccepted
  obtain ⟨e, he, heq⟩ := List.mem_filterMap.mp (List.mem_filter.mp hsaid).1
  cases e with
  | said e =>
      cases heq
      exact h.added he
  | fromMain st => cases heq
  | fromClient m c st => cases heq

end Runs

end TaskSheduler
