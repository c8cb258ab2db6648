import TaskSheduler.Dialogue

/-!
# What is said on a connection

A conversation is what is seen of one connection: a client makes it, the server
accepts it, its handler reads once, and adds one task if what it has read is a
command with an operation that it knows.  What is read is made of the first
bytes of the command that was to be sent on this connection, and of no other.

So it is for every connection in every run, as far as the conversation has
come, and it is whole once the handler has returned.  `Talk` is the invariant
of one connection; a step is about one connection and leaves the others as they
are (`Talk.frame`).
-/

namespace TaskSheduler

open HandleCustody Interleaving

/-- The handler takes this text for the command: it is made of the first bytes
of `command` and of what lies behind them. -/
def HeardAs (command text : List UInt8) : Prop :=
  ∃ bytes beyond, bytes <+: command ∧ bytes.length ≤ Server.size ∧
    text = Server.commandString (Server.bufferOf bytes) beyond

/-- The task that is added for a text. -/
def answer (n : Nat) (text : List UInt8) : List DialogueEvent :=
  (Server.acceptedCommand text).toList.map fun p => .added n p.1 p.2

/-- All that is seen of a connection. -/
inductive Conversation (n : Nat) : List DialogueEvent → Prop
  | whole {command text : List UInt8} (hheard : HeardAs command text) :
      Conversation n ([.connected n command, .accepted n, .received n text] ++ answer n text)

/-- What is seen of one connection in a trace. -/
def eventsAt (n : Nat) (trace : List DialogueEvent) : List DialogueEvent :=
  trace.filter fun e => e.connection? = some n

/-- A connection that a client makes, and one that the server accepts. -/
def DialogueEvent.connected? : DialogueEvent → Option Nat
  | .connected n _ => some n
  | _ => none

@[inherit_doc DialogueEvent.connected?]
def DialogueEvent.accepted? : DialogueEvent → Option Nat
  | .accepted n => some n
  | _ => none

/-- The connection of a handler. -/
def HandlerPc.connection? : HandlerPc → Option Nat
  | .absent => none
  | .read n | .addTask n _ _ | .close n | .returned n => some n

/-- Something can always be heard. -/
theorem heardAs_nothing (command : List UInt8) : ∃ text, HeardAs command text :=
  ⟨_, [], [], List.nil_prefix, Nat.zero_le _, rfl⟩

theorem eventsAt_append (n : Nat) (left right : List DialogueEvent) :
    eventsAt n (left ++ right) = eventsAt n left ++ eventsAt n right :=
  List.filter_append ..

variable {Client : Type*}

/-- How the conversation on a connection stands in a state. -/
structure Talk (s : DialogueState Client) (n : Nat) (es : List DialogueEvent) : Prop where
  proper : ∃ whole, Conversation n whole ∧ es <+: whole
  unmade : s.connected ≤ n → es = [] ∧ (s.connection n).stream = []
  pending : n ∈ s.pending → ∃ command, es = [.connected n command] ∧
    (s.connection n).stream <+: command
  reading : ∀ {k}, s.handler k = .read n → ∃ command,
    es = [.connected n command, .accepted n] ∧ (s.connection n).stream <+: command
  adding : ∀ {k c v}, s.handler k = .addTask n c v → ∃ command text, HeardAs command text ∧
    es = [.connected n command, .accepted n, .received n text] ∧
    Server.acceptedCommand text = some (c, v)
  finished : ∀ {k}, s.handler k = .close n ∨ s.handler k = .returned n → Conversation n es
  handlers : ∀ {k k'}, (s.handler k).connection? = some n →
    (s.handler k').connection? = some n → k = k'
  sending : ∀ {c command sock}, s.client c = .send command sock n →
    (.connected n command ∈ es ∧ (s.connection n).stream = []) ∧
    ∀ {c' command' sock'}, s.client c' = .send command' sock' n → c' = c

/-- A step leaves a connection as it is. -/
structure LeavesAlone (s s' : DialogueState Client) (n : Nat) : Prop where
  connected : s'.connected ≤ n → s.connected ≤ n
  pending : n ∈ s'.pending → n ∈ s.pending
  stream : (s'.connection n).stream = (s.connection n).stream
  handler : ∀ k, (s'.handler k).connection? = some n → s'.handler k = s.handler k
  client : ∀ {c command sock}, s'.client c = .send command sock n →
    s.client c = .send command sock n

variable {s s' : DialogueState Client} {n : Nat} {es : List DialogueEvent}

/-- The others are as they were. -/
theorem Talk.frame (h : Talk s n es) (hsame : LeavesAlone s s' n) : Talk s' n es where
  proper := h.proper
  unmade hn := by
    rw [hsame.stream]
    exact h.unmade (hsame.connected hn)
  pending hn := by
    rw [hsame.stream]
    exact h.pending (hsame.pending hn)
  reading {k} hk := by
    have hcon : (s'.handler k).connection? = some n := by rw [hk]; rfl
    rw [hsame.stream]
    exact h.reading ((hsame.handler k hcon).symm.trans hk)
  adding {k c v} hk := by
    have hcon : (s'.handler k).connection? = some n := by rw [hk]; rfl
    exact h.adding ((hsame.handler k hcon).symm.trans hk)
  finished {k} hk := by
    have hcon : (s'.handler k).connection? = some n := by
      rcases hk with hk | hk <;> rw [hk] <;> rfl
    rw [hsame.handler k hcon] at hk
    exact h.finished hk
  handlers {k k'} hk hk' := by
    rw [hsame.handler k hk] at hk
    rw [hsame.handler k' hk'] at hk'
    exact h.handlers hk hk'
  sending {c command sock} hc := by
    rw [hsame.stream]
    obtain ⟨hsaid, hsole⟩ := h.sending (hsame.client hc)
    exact ⟨hsaid, fun hc' => hsole (hsame.client hc')⟩

/-- Nothing has been said before. -/
theorem talk_begin (n : Nat) : Talk (.begin Client) n [] where
  proper := by
    obtain ⟨text, htext⟩ := heardAs_nothing []
    exact ⟨_, .whole htext, List.nil_prefix⟩
  unmade _ := ⟨rfl, rfl⟩
  pending hn := by cases hn
  reading hk := by cases hk
  adding hk := by cases hk
  finished hk := by rcases hk with hk | hk <;> cases hk
  handlers hk _ := by cases hk
  sending hc := by cases hc

/-! ## What a step says -/

/-- A step that says nothing on any connection. -/
structure Quiet (s s' : DialogueState Client) : Prop where
  connected : s'.connected = s.connected
  pending : s'.pending = s.pending
  stream : ∀ n, (s'.connection n).stream = (s.connection n).stream
  handler : ∀ k, s'.handler k = s.handler k ∨ s'.handler k = .absent
  client : ∀ {c command sock n}, s'.client c = .send command sock n →
    s.client c = .send command sock n

theorem Quiet.leavesAlone (h : Quiet s s') (n : Nat) : LeavesAlone s s' n where
  connected hn := by rwa [h.connected] at hn
  pending hn := by rwa [h.pending] at hn
  stream := h.stream n
  handler k hk := by
    rcases h.handler k with hsame | hgone
    · exact hsame
    · rw [hgone] at hk
      cases hk
  client := h.client

/-- What `read` yields has room in the buffer. -/
theorem read_fits {x : Connection} {count : Nat} (h : x.yields count = true) :
    (x.stream.take count).length ≤ Server.size := by
  unfold Connection.yields at h
  cases hempty : x.stream with
  | nil => simp
  | cons b rest =>
      simp only [hempty, List.isEmpty_cons, Bool.false_eq_true, if_false, Bool.and_eq_true,
        decide_eq_true_eq] at h
      exact le_trans (List.length_take_le _ _) h.2

section Moves

variable [DecidableEq Client]

/-- What a step does to the connections. -/
inductive TalkMove (s : DialogueState Client) :
    DialogueState Client → List DialogueEvent → Prop
  | quiet {s' : DialogueState Client} {es : List DialogueEvent} (hquiet : Quiet s s')
      (hes : ∀ e ∈ es, e.connection? = none) : TalkMove s s' es
  | connects {c : Client} {command : List UInt8} {sock : Socket}
      (hpc : s.client c = .connect command sock) :
      TalkMove s { s.clientAt c (.send command sock s.connected) with
          connected := s.connected + 1
          pending := s.pending ++ [s.connected] }
        [.socket (.used sock), .connected s.connected command]
  | sends {c : Client} {command : List UInt8} {sock : Socket} {n count : Nat}
      (hpc : s.client c = .send command sock n) :
      TalkMove s ((s.clientAt c (.close sock n)).withConnection n
          { s.connection n with stream := (s.connection n).stream ++ command.take count })
        [.socket (.used sock)]
  | accepts {fd : Socket} {n : Nat} {rest : List Nat} (hpending : s.pending = n :: rest) :
      TalkMove s { (s.handlerAt s.made (.read n)).makes with pending := rest }
        [.socket (.used fd), .socket (.opened s.made), .accepted n]
  | reads {sock : Socket} {n : Nat} {bytes left beyond : List UInt8}
      (hpc : s.handler sock = .read n) (hbytes : bytes <+: (s.connection n).stream)
      (hfits : bytes.length ≤ Server.size) (hleft : left <:+ (s.connection n).stream) :
      TalkMove s ((s.handlerAt sock (.afterRead n
            (Server.commandString (Server.bufferOf bytes) beyond))).withConnection n
          { s.connection n with stream := left })
        [.socket (.used sock),
          .received n (Server.commandString (Server.bufferOf bytes) beyond)]
  | adds {sock : Socket} {n : Nat} {command : Command} {value : Int32}
      (hpc : s.handler sock = .addTask n command value) :
      TalkMove s (s.handlerAt sock (.close n)) [.added n command value]
  | returns {sock : Socket} {n : Nat} (hpc : s.handler sock = .close n) :
      TalkMove s (s.handlerAt sock (.returned n)) [.socket (.released sock)]

/-- A client that is not about to send comes to a call that is not `send`. -/
theorem clientAt_quiet {c : Client} {pc : SendPc}
    (hpc : ∀ command sock n, pc ≠ .send command sock n) :
    Quiet s (s.clientAt c pc) where
  connected := rfl
  pending := rfl
  stream _ := rfl
  handler _ := .inl rfl
  client {c' command sock n} hc := by
    have hother : c' ≠ c := by
      rintro rfl
      have hown : pc = .send command sock n := by simpa [DialogueState.clientAt] using hc
      exact hpc _ _ _ hown
    simpa [DialogueState.clientAt, Function.update_of_ne hother] using hc

omit [DecidableEq Client] in
theorem serverAt_quiet (pc : ListenPc) : Quiet s (s.serverAt pc) where
  connected := rfl
  pending := rfl
  stream _ := rfl
  handler _ := .inl rfl
  client hc := hc

/-- A quiet step that shows nothing. -/
theorem quiet_silent (hquiet : Quiet s s') : TalkMove s s' [] := by
  refine .quiet hquiet fun e he => ?_
  cases he

/-- A quiet step that shows what is done with a socket. -/
theorem quiet_socket (hquiet : Quiet s s') {e : HandleEvent Socket} :
    TalkMove s s' [.socket e] := by
  refine .quiet hquiet fun e' he => ?_
  rw [List.mem_singleton.mp he]
  rfl

theorem exit_talk (h : some s.exit = some (s', es)) : TalkMove s s' es := by
  cases h
  refine .quiet ⟨rfl, rfl, fun _ => rfl, fun _ => .inr rfl, fun hc => hc⟩ fun e he => ?_
  obtain ⟨k, -, rfl⟩ := List.mem_map.mp he
  rfl

/-- A call of `send_command`. -/
theorem sendStep_talk {c : Client} {ok : Bool} {count : Nat}
    (h : s.sendStep c ok count = some (s', es)) : TalkMove s s' es := by
  unfold DialogueState.sendStep at h
  cases hpc : s.client c with
  | idle =>
      rw [hpc] at h
      cases h
  | socket command =>
      simp only [hpc] at h
      cases ok with
      | true =>
          cases h
          have hquiet : Quiet s (s.clientAt c (.inetPton command s.made)) :=
            clientAt_quiet fun _ _ _ => SendPc.noConfusion
          refine quiet_socket ?_
          exact ⟨rfl, rfl, fun _ => rfl, hquiet.handler, hquiet.client⟩
      | false =>
          cases h
          exact quiet_silent (clientAt_quiet fun _ _ _ => SendPc.noConfusion)
  | inetPton command sock =>
      simp only [hpc] at h
      cases h
      refine quiet_silent (clientAt_quiet fun _ _ _ => ?_)
      cases ok <;> exact SendPc.noConfusion
  | connect command sock =>
      simp only [hpc] at h
      cases ok with
      | true =>
          cases hlistening : s.listening with
          | false => simp [hlistening] at h
          | true =>
              simp only [hlistening, if_true] at h
              cases h
              exact .connects hpc
      | false =>
          cases h
          exact quiet_socket (clientAt_quiet fun _ _ _ => SendPc.noConfusion)
  | send command sock n =>
      simp only [hpc] at h
      cases h
      exact .sends hpc
  | close sock n =>
      simp only [hpc] at h
      cases h
      have hquiet : Quiet s (s.clientAt c .idle) :=
        clientAt_quiet fun _ _ _ => SendPc.noConfusion
      refine quiet_socket ?_
      refine ⟨rfl, rfl, fun m => ?_, hquiet.handler, hquiet.client⟩
      by_cases hm : m = n
      · subst hm
        simp [DialogueState.withConnection, DialogueState.clientAt]
      · simp [DialogueState.withConnection, DialogueState.clientAt, Function.update_of_ne hm]

/-- A call of `start_server`. -/
theorem listenStep_talk {ok zero : Bool} (h : s.listenStep ok zero = some (s', es)) :
    TalkMove s s' es := by
  unfold DialogueState.listenStep at h
  cases hpc : s.server with
  | socket =>
      simp only [hpc] at h
      cases ok with
      | true =>
          cases h
          refine quiet_socket ?_
          exact ⟨rfl, rfl, fun _ => rfl, fun _ => .inl rfl, fun hc => hc⟩
      | false =>
          cases h
          exact quiet_silent (serverAt_quiet _)
  | setsockopt serverFd =>
      cases serverFd with
      | none =>
          simp only [hpc] at h
          cases h
          exact quiet_silent (serverAt_quiet _)
      | some fd =>
          simp only [hpc] at h
          cases h
          exact quiet_socket (serverAt_quiet _)
  | bind fd =>
      simp only [hpc] at h
      cases h
      exact quiet_socket (serverAt_quiet _)
  | listen fd =>
      simp only [hpc] at h
      cases ok with
      | true =>
          cases h
          refine quiet_socket ?_
          exact ⟨rfl, rfl, fun _ => rfl, fun _ => .inl rfl, fun hc => hc⟩
      | false =>
          cases h
          exact quiet_socket (serverAt_quiet _)
  | accept fd =>
      simp only [hpc] at h
      cases ok with
      | true =>
          cases hpending : s.pending with
          | nil => simp [hpending] at h
          | cons n rest =>
              simp only [hpending, if_true] at h
              cases h
              exact .accepts hpending
      | false =>
          cases h
          exact quiet_socket (serverAt_quiet _)
  | failure serverFd =>
      simp only [hpc] at h
      exact exit_talk h
  | ended =>
      simp only [hpc] at h
      cases h

omit [DecidableEq Client] in
/-- A connection that stays as it is. -/
theorem handlerAt_withConnection (sock : Socket) (pc : HandlerPc) (n : Nat) :
    (s.handlerAt sock pc).withConnection n (s.connection n) = s.handlerAt sock pc := by
  simp [DialogueState.withConnection, DialogueState.handlerAt]

/-- A call of `handle_client`. -/
theorem handlerStep_talk {sock : Socket} {ok : Bool} {count : Nat} {beyond : List UInt8}
    (h : s.handlerStep sock ok count beyond = some (s', es)) : TalkMove s s' es := by
  unfold DialogueState.handlerStep at h
  cases hpc : s.handler sock with
  | absent =>
      rw [hpc] at h
      cases h
  | returned n =>
      rw [hpc] at h
      cases h
  | read n =>
      simp only [hpc] at h
      cases ok with
      | true =>
          cases hyields : (s.connection n).yields count with
          | false => simp [hyields] at h
          | true =>
              simp only [hyields, if_true] at h
              cases h
              exact .reads hpc (List.take_prefix _ _) (read_fits hyields) (List.drop_suffix _ _)
      | false =>
          cases h
          -- A buffer without anything read, and the connection as it was.
          have hmove : TalkMove s ((s.handlerAt sock (.afterRead n
                (Server.commandString (Server.bufferOf []) beyond))).withConnection n
              (s.connection n)) _ :=
            @TalkMove.reads _ _ s sock n [] (s.connection n).stream beyond hpc List.nil_prefix
              (Nat.zero_le _) (List.suffix_refl _)
          rwa [handlerAt_withConnection] at hmove
  | addTask n command value =>
      simp only [hpc] at h
      cases ok with
      | true =>
          cases h
          exact .adds hpc
      | false => exact exit_talk h
  | close n =>
      simp only [hpc] at h
      cases h
      exact .returns hpc

/-- Any step. -/
theorem next_talk {a : DialogueAction Client} (h : s.next a = some (s', es)) :
    TalkMove s s' es := by
  cases a with
  | enter c line =>
      cases hpc : s.client c with
      | idle =>
          simp only [DialogueState.next, hpc] at h
          cases h
          refine quiet_silent (clientAt_quiet fun _ _ _ => ?_)
          cases line.isEmpty <;> exact SendPc.noConfusion
      | socket command => simp [DialogueState.next, hpc] at h
      | inetPton command sock => simp [DialogueState.next, hpc] at h
      | connect command sock => simp [DialogueState.next, hpc] at h
      | send command sock n => simp [DialogueState.next, hpc] at h
      | close sock n => simp [DialogueState.next, hpc] at h
  | client c ok count => exact sendStep_talk h
  | server ok zero => exact listenStep_talk h
  | handler sock ok count beyond => exact handlerStep_talk h
  | terminate => exact exit_talk h

/-! ## What a step does to the talk -/

omit [DecidableEq Client] in
/-- A connection that has a handler is accepted. -/
theorem Talk.accepted_mem (h : Talk s n es) {k : Socket}
    (hk : (s.handler k).connection? = some n) : .accepted n ∈ es := by
  have hwhole : s.handler k = .close n ∨ s.handler k = .returned n → .accepted n ∈ es := by
    intro hpc
    obtain ⟨hheard⟩ := h.finished hpc
    simp
  cases hpc : s.handler k with
  | absent =>
      rw [hpc] at hk
      cases hk
  | read m =>
      rw [hpc] at hk
      cases hk
      obtain ⟨command, rfl, -⟩ := h.reading hpc
      simp
  | addTask m c v =>
      rw [hpc] at hk
      cases hk
      obtain ⟨command, text, -, rfl, -⟩ := h.adding hpc
      simp
  | close m =>
      rw [hpc] at hk
      cases hk
      exact hwhole (.inl hpc)
  | returned m =>
      rw [hpc] at hk
      cases hk
      exact hwhole (.inr hpc)

/-- A client connects. -/
theorem Talk.connects (h : Talk s s.connected es) (c : Client) (command : List UInt8)
    (sock : Socket) :
    Talk { s.clientAt c (.send command sock s.connected) with
        connected := s.connected + 1
        pending := s.pending ++ [s.connected] } s.connected
      (es ++ [.connected s.connected command]) := by
  obtain ⟨rfl, hstream⟩ := h.unmade (le_refl _)
  have hunheard : ∀ k, (s.handler k).connection? ≠ some s.connected := by
    intro k hk
    have hmem := h.accepted_mem hk
    cases hmem
  have hunsent : ∀ {c' command' sock'}, s.client c' ≠ .send command' sock' s.connected := by
    intro c' command' sock' hc
    have hmem := (h.sending hc).1.1
    cases hmem
  have hsender : ∀ {c' command' sock'}, Function.update s.client c
      (.send command sock s.connected) c' = .send command' sock' s.connected →
        c' = c ∧ command' = command := by
    intro c' command' sock' hc
    by_cases hsame : c' = c
    · subst hsame
      rw [Function.update_self] at hc
      cases hc
      exact ⟨rfl, rfl⟩
    · rw [Function.update_of_ne hsame] at hc
      exact absurd hc hunsent
  constructor
  case proper =>
    obtain ⟨text, hheard⟩ := heardAs_nothing command
    exact ⟨_, .whole hheard, List.prefix_append [_] _⟩
  case unmade => exact fun hn => absurd hn (Nat.not_succ_le_self _)
  case pending => exact fun _ => ⟨command, rfl, hstream ▸ List.nil_prefix⟩
  case reading => exact fun {k} hk => absurd (congrArg HandlerPc.connection? hk) (hunheard k)
  case adding => exact fun {k _ _} hk => absurd (congrArg HandlerPc.connection? hk) (hunheard k)
  case finished =>
    rintro k (hk | hk)
    · exact absurd (congrArg HandlerPc.connection? hk) (hunheard k)
    · exact absurd (congrArg HandlerPc.connection? hk) (hunheard k)
  case handlers => exact fun {k _} hk _ => absurd hk (hunheard k)
  case sending =>
    intro c' command' sock' hc
    obtain ⟨rfl, rfl⟩ := hsender hc
    exact ⟨⟨List.mem_cons_self, hstream⟩, fun hc' => (hsender hc').1⟩

/-- A client sends. -/
theorem Talk.sends (h : Talk s n es) {c : Client} {command : List UInt8} {sock : Socket}
    (hpc : s.client c = .send command sock n) (count : Nat) :
    Talk ((s.clientAt c (.close sock n)).withConnection n
      { s.connection n with stream := (s.connection n).stream ++ command.take count }) n es := by
  obtain ⟨⟨hsaid, hempty⟩, hsole⟩ := h.sending hpc
  have hstream : ∀ x : Connection, (((s.clientAt c (.close sock n)).withConnection n
      { x with stream := (s.connection n).stream ++ command.take count }).connection n).stream =
        command.take count := by
    intro x
    simp [DialogueState.withConnection, hempty]
  have hunsent : ∀ {c' command' sock'}, Function.update s.client c (.close sock n) c' ≠
      .send command' sock' n := by
    intro c' command' sock' hc
    by_cases hsame : c' = c
    · subst hsame
      rw [Function.update_self] at hc
      cases hc
    · rw [Function.update_of_ne hsame] at hc
      exact hsame (hsole hc)
  constructor
  case proper => exact h.proper
  case unmade =>
    intro hn
    obtain ⟨rfl, -⟩ := h.unmade hn
    cases hsaid
  case pending =>
    intro hn
    obtain ⟨command', rfl, -⟩ := h.pending hn
    obtain rfl : command = command' := by simpa using hsaid
    rw [hstream]
    exact ⟨command, rfl, List.take_prefix _ _⟩
  case reading =>
    intro k hk
    obtain ⟨command', rfl, -⟩ := h.reading hk
    obtain rfl : command = command' := by simpa using hsaid
    rw [hstream]
    exact ⟨command, rfl, List.take_prefix _ _⟩
  case adding => exact fun {k c v} hk => h.adding hk
  case finished => exact fun {k} hk => h.finished hk
  case handlers => exact fun {k k'} hk hk' => h.handlers hk hk'
  case sending => exact fun {c' command' sock'} hc => absurd hc hunsent

omit [DecidableEq Client] in
/-- The server accepts. -/
theorem Talk.accepts (h : Talk s n es) {rest : List Nat} (hpending : n ∈ s.pending)
    (hrest : n ∉ rest) :
    Talk { (s.handlerAt s.made (.read n)).makes with pending := rest } n
      (es ++ [.accepted n]) := by
  obtain ⟨command, rfl, hstream⟩ := h.pending hpending
  have hunheard : ∀ k, (s.handler k).connection? ≠ some n := by
    intro k hk
    have hmem := h.accepted_mem hk
    simp at hmem
  -- Only the new handler has the connection.
  have hhandler : ∀ {k}, (Function.update s.handler s.made (.read n) k).connection? = some n →
      k = s.made := by
    intro k hk
    by_contra hother
    rw [Function.update_of_ne hother] at hk
    exact hunheard k hk
  have hreads : ∀ {k pc}, Function.update s.handler s.made (.read n) k = pc →
      pc.connection? = some n → pc = .read n := by
    intro k pc hk hcon
    subst hk
    rw [hhandler hcon, Function.update_self]
  constructor
  case proper =>
    obtain ⟨text, hheard⟩ := heardAs_nothing command
    exact ⟨_, .whole hheard, List.prefix_append [_, _] _⟩
  case unmade =>
    intro hn
    obtain ⟨hnone, -⟩ := h.unmade hn
    cases hnone
  case pending => exact fun hn => absurd hn hrest
  case reading => exact fun {k} _ => ⟨command, rfl, hstream⟩
  case adding =>
    intro k c v hk
    cases hreads hk rfl
  case finished =>
    rintro k (hk | hk)
    · cases hreads hk rfl
    · cases hreads hk rfl
  case handlers => exact fun {k k'} hk hk' => (hhandler hk).trans (hhandler hk').symm
  case sending =>
    intro c command' sock hc
    obtain ⟨⟨hsaid, hempty⟩, hsole⟩ := h.sending hc
    exact ⟨⟨List.mem_append_left _ hsaid, hempty⟩, fun hc' => hsole hc'⟩

omit [DecidableEq Client] in
/-- A handler goes on. -/
theorem Talk.handles (h : Talk s n es) {sock : Socket} {pc : HandlerPc} {x : Connection}
    {es' : List DialogueEvent} (hpc : (s.handler sock).connection? = some n)
    (hread : pc ≠ .read n) (hproper : ∃ whole, Conversation n whole ∧ es' <+: whole)
    (hmore : ∀ e ∈ es, e ∈ es') (hstream : (s.connection n).stream = [] → x.stream = [])
    (hadding : ∀ {c v}, pc = .addTask n c v → ∃ command text, HeardAs command text ∧
      es' = [.connected n command, .accepted n, .received n text] ∧
      Server.acceptedCommand text = some (c, v))
    (hfinished : pc = .close n ∨ pc = .returned n → Conversation n es') :
    Talk ((s.handlerAt sock pc).withConnection n x) n es' := by
  have hsame : ∀ {k}, (s.handler k).connection? = some n → k = sock :=
    fun hk => h.handlers hk hpc
  have hhandler : ∀ {k}, (Function.update s.handler sock pc k).connection? = some n →
      k = sock := by
    intro k hk
    by_contra hother
    rw [Function.update_of_ne hother] at hk
    exact hother (hsame hk)
  have hgoes : ∀ {k pc'}, Function.update s.handler sock pc k = pc' →
      pc'.connection? = some n → pc = pc' := by
    intro k pc' hk hcon
    subst hk
    rw [hhandler hcon, Function.update_self]
  have haccepted := h.accepted_mem hpc
  constructor
  case proper => exact hproper
  case unmade =>
    intro hn
    obtain ⟨rfl, -⟩ := h.unmade hn
    cases haccepted
  case pending =>
    intro hn
    obtain ⟨command, rfl, -⟩ := h.pending hn
    simp at haccepted
  case reading => exact fun {k} hk => absurd (hgoes hk rfl) hread
  case adding => exact fun {k c v} hk => hadding (hgoes hk rfl)
  case finished =>
    rintro k (hk | hk)
    · exact hfinished (.inl (hgoes hk rfl))
    · exact hfinished (.inr (hgoes hk rfl))
  case handlers => exact fun {k k'} hk hk' => (hhandler hk).trans (hhandler hk').symm
  case sending =>
    intro c command sock' hc
    obtain ⟨⟨hsaid, hempty⟩, hsole⟩ := h.sending hc
    refine ⟨⟨hmore _ hsaid, ?_⟩, fun hc' => hsole hc'⟩
    simpa [DialogueState.withConnection] using hstream hempty

omit [DecidableEq Client] in
/-- A handler reads. -/
theorem Talk.reads (h : Talk s n es) {sock : Socket} {bytes left beyond : List UInt8}
    (hpc : s.handler sock = .read n) (hbytes : bytes <+: (s.connection n).stream)
    (hfits : bytes.length ≤ Server.size) (hleft : left <:+ (s.connection n).stream) :
    Talk ((s.handlerAt sock (.afterRead n
        (Server.commandString (Server.bufferOf bytes) beyond))).withConnection n
      { s.connection n with stream := left }) n
      (es ++ [.received n (Server.commandString (Server.bufferOf bytes) beyond)]) := by
  obtain ⟨command, rfl, hstream⟩ := h.reading hpc
  generalize htext : Server.commandString (Server.bufferOf bytes) beyond = text
  have hheard : HeardAs command text :=
    ⟨bytes, beyond, hbytes.trans hstream, hfits, htext.symm⟩
  refine h.handles (congrArg HandlerPc.connection? hpc) ?_ ?_ ?_ ?_ ?_ ?_
  · unfold HandlerPc.afterRead
    cases Server.acceptedCommand text <;> exact HandlerPc.noConfusion
  · exact ⟨_, .whole hheard, List.prefix_append _ _⟩
  · exact fun e he => List.mem_append_left _ he
  · intro hempty
    rw [hempty] at hleft
    exact List.suffix_nil.mp hleft
  · intro c v hgoes
    refine ⟨command, text, hheard, rfl, ?_⟩
    unfold HandlerPc.afterRead at hgoes
    cases haccepted : Server.acceptedCommand text with
    | none =>
        rw [haccepted] at hgoes
        cases hgoes
    | some p =>
        rw [haccepted] at hgoes
        cases hgoes
        rfl
  · intro hgoes
    have hwhole := Conversation.whole (n := n) hheard
    cases haccepted : Server.acceptedCommand text with
    | none => simpa [answer, haccepted] using hwhole
    | some p => simp [HandlerPc.afterRead, haccepted] at hgoes

omit [DecidableEq Client] in
/-- A handler adds a task. -/
theorem Talk.adds (h : Talk s n es) {sock : Socket} {c : Command} {v : Int32}
    (hpc : s.handler sock = .addTask n c v) :
    Talk (s.handlerAt sock (.close n)) n (es ++ [.added n c v]) := by
  obtain ⟨command, text, hheard, rfl, haccepted⟩ := h.adding hpc
  have hwhole : Conversation n ([.connected n command, .accepted n, .received n text] ++
      [.added n c v]) := by
    have hall := Conversation.whole (n := n) hheard
    simpa [answer, haccepted] using hall
  rw [← handlerAt_withConnection]
  refine h.handles (congrArg HandlerPc.connection? hpc) HandlerPc.noConfusion
    ⟨_, hwhole, List.prefix_refl _⟩ (fun e he => List.mem_append_left _ he) id ?_ fun _ => hwhole
  intro c v hgoes
  cases hgoes

omit [DecidableEq Client] in
/-- A handler returns. -/
theorem Talk.returns (h : Talk s n es) {sock : Socket} (hpc : s.handler sock = .close n) :
    Talk (s.handlerAt sock (.returned n)) n es := by
  have hwhole := h.finished (.inl hpc)
  rw [← handlerAt_withConnection]
  refine h.handles (congrArg HandlerPc.connection? hpc) HandlerPc.noConfusion
    ⟨_, hwhole, List.prefix_refl _⟩ (fun e he => he) id ?_ fun _ => hwhole
  intro c v hgoes
  cases hgoes

/-! ## The other connections -/

omit [DecidableEq Client] in
/-- A handler of another connection. -/
theorem handlerAt_others {sock : Socket} {pc : HandlerPc} {m : Nat}
    (hpc : pc.connection? ≠ some m) (k : Socket)
    (hk : (Function.update s.handler sock pc k).connection? = some m) :
    Function.update s.handler sock pc k = s.handler k := by
  by_cases hsame : k = sock
  · subst hsame
    rw [Function.update_self] at hk
    exact absurd hk hpc
  · rw [Function.update_of_ne hsame]

omit [DecidableEq Client] in
/-- Something happens to another connection. -/
theorem withConnection_others {x : Connection} {m : Nat} (hm : m ≠ n) :
    ((s.withConnection n x).connection m).stream = (s.connection m).stream := by
  simp only [DialogueState.withConnection, Function.update_of_ne hm]

/-- A client with another connection. -/
theorem clientAt_others {c : Client} {pc : SendPc} {m : Nat}
    (hpc : ∀ command sock, pc ≠ .send command sock m) {c' : Client} {command : List UInt8}
    {sock : Socket} (hc : Function.update s.client c pc c' = .send command sock m) :
    s.client c' = .send command sock m := by
  have hother : c' ≠ c := by
    rintro rfl
    rw [Function.update_self] at hc
    exact hpc _ _ hc
  rwa [Function.update_of_ne hother] at hc

omit [DecidableEq Client] in
/-- Nothing is said on a connection that is left alone. -/
theorem talk_other {trace : List DialogueEvent} {m : Nat} (h : Talk s m (eventsAt m trace))
    (hes : ∀ e ∈ es, e.connection? ≠ some m) (halone : LeavesAlone s s' m) :
    Talk s' m (eventsAt m (trace ++ es)) := by
  have hnone : eventsAt m es = [] := List.filter_eq_nil_iff.mpr fun e he => by simp [hes e he]
  rw [eventsAt_append, hnone, List.append_nil]
  exact h.frame halone

/-- The connections in the order in which they are made and accepted. -/
structure InOrder (trace : List DialogueEvent) (s : DialogueState Client) : Prop where
  made : trace.filterMap DialogueEvent.connected? = List.range s.connected
  accepted : trace.filterMap DialogueEvent.accepted? ++ s.pending = List.range s.connected

omit [DecidableEq Client] in
/-- Only connecting and accepting count. -/
theorem InOrder.kept {trace : List DialogueEvent} (h : InOrder trace s)
    (hmade : es.filterMap DialogueEvent.connected? = [])
    (haccepted : es.filterMap DialogueEvent.accepted? = [])
    (hconnected : s'.connected = s.connected) (hpending : s'.pending = s.pending) :
    InOrder (trace ++ es) s' where
  made := by rw [List.filterMap_append, hmade, List.append_nil, hconnected, h.made]
  accepted := by
    rw [List.filterMap_append, haccepted, List.append_nil, hconnected, hpending, h.accepted]

theorem TalkMove.inOrder {trace : List DialogueEvent} (hmove : TalkMove s s' es)
    (h : InOrder trace s) : InOrder (trace ++ es) s' := by
  cases hmove with
  | quiet hquiet hes =>
      refine h.kept ?_ ?_ hquiet.connected hquiet.pending
      · refine List.filterMap_eq_nil_iff.mpr fun e he => ?_
        have hnone := hes e he
        cases e <;> first | rfl | cases hnone
      · refine List.filterMap_eq_nil_iff.mpr fun e he => ?_
        have hnone := hes e he
        cases e <;> first | rfl | cases hnone
  | connects hpc =>
      refine ⟨?_, ?_⟩
      · rw [List.filterMap_append, h.made]
        exact List.range_succ.symm
      · rw [List.filterMap_append]
        show trace.filterMap DialogueEvent.accepted? ++ [] ++ (s.pending ++ [s.connected]) =
          List.range (s.connected + 1)
        rw [List.append_nil, ← List.append_assoc, h.accepted]
        exact List.range_succ.symm
  | sends hpc => exact h.kept rfl rfl rfl rfl
  | @accepts fd n rest hpending =>
      refine ⟨?_, ?_⟩
      · rw [List.filterMap_append]
        exact (List.append_nil _).trans h.made
      · rw [List.filterMap_append, List.append_assoc]
        have hbefore := h.accepted
        rw [hpending] at hbefore
        exact hbefore
  | reads hpc hbytes hfits hleft => exact h.kept rfl rfl rfl rfl
  | adds hpc => exact h.kept rfl rfl rfl rfl
  | returns hpc => exact h.kept rfl rfl rfl rfl

/-- **A step goes on with one conversation** and leaves the others alone. -/
theorem TalkMove.talk {trace : List DialogueEvent} (hmove : TalkMove s s' es)
    (h : ∀ m, Talk s m (eventsAt m trace)) (horder : InOrder trace s) (m : Nat) :
    Talk s' m (eventsAt m (trace ++ es)) := by
  have hm := h m
  cases hmove with
  | quiet hquiet hes =>
      refine talk_other hm (fun e he => ?_) (hquiet.leavesAlone m)
      rw [hes e he]
      exact nofun
  | @connects c command sock hpc =>
      by_cases hown : m = s.connected
      · subst hown
        have hes : eventsAt s.connected [.socket (.used sock), .connected s.connected command] =
            [.connected s.connected command] := by simp [eventsAt, DialogueEvent.connection?]
        rw [eventsAt_append, hes]
        exact hm.connects c command sock
      · refine talk_other hm (by simp [DialogueEvent.connection?, Ne.symm hown])
          ⟨fun hn => Nat.le_of_succ_le hn, fun hn => ?_, rfl, fun _ _ => rfl, fun hc => ?_⟩
        · rcases List.mem_append.mp hn with hbefore | hnew
          · exact hbefore
          · exact absurd (List.mem_singleton.mp hnew) hown
        · refine clientAt_others (fun _ _ heq => ?_) hc
          cases heq
          exact hown rfl
  | @sends c command sock n count hpc =>
      by_cases hown : m = n
      · subst hown
        have hes : eventsAt m [.socket (.used sock)] = [] := by
          simp [eventsAt, DialogueEvent.connection?]
        rw [eventsAt_append, hes, List.append_nil]
        exact hm.sends hpc count
      · refine talk_other hm (by simp [DialogueEvent.connection?])
          ⟨id, id, withConnection_others hown, fun _ _ => rfl, fun hc => ?_⟩
        exact clientAt_others (fun _ _ => SendPc.noConfusion) hc
  | @accepts fd n rest hpending =>
      by_cases hown : m = n
      · subst hown
        have hes : eventsAt m [.socket (.used fd), .socket (.opened s.made), .accepted m] =
            [.accepted m] := by simp [eventsAt, DialogueEvent.connection?]
        have hnodup : (m :: rest).Nodup := by
          have hall : (trace.filterMap DialogueEvent.accepted? ++ s.pending).Nodup := by
            rw [horder.accepted]
            exact List.nodup_range
          rw [← hpending]
          exact (List.nodup_append.mp hall).2.1
        rw [eventsAt_append, hes]
        exact hm.accepts (by rw [hpending]; exact List.mem_cons_self) (List.nodup_cons.mp hnodup).1
      · refine talk_other hm (by simp [DialogueEvent.connection?, Ne.symm hown])
          ⟨id, fun hn => ?_, rfl, handlerAt_others ?_, id⟩
        · rw [hpending]
          exact List.mem_cons_of_mem _ hn
        · simpa [HandlerPc.connection?] using Ne.symm hown
  | @reads sock n bytes left beyond hpc hbytes hfits hleft =>
      by_cases hown : m = n
      · subst hown
        have hes : eventsAt m [.socket (.used sock),
              .received m (Server.commandString (Server.bufferOf bytes) beyond)] =
            [.received m (Server.commandString (Server.bufferOf bytes) beyond)] := by
          simp [eventsAt, DialogueEvent.connection?]
        rw [eventsAt_append, hes]
        exact hm.reads hpc hbytes hfits hleft
      · refine talk_other hm (by simp [DialogueEvent.connection?, Ne.symm hown])
          ⟨id, id, withConnection_others hown, handlerAt_others ?_, id⟩
        unfold HandlerPc.afterRead
        cases Server.acceptedCommand (Server.commandString (Server.bufferOf bytes) beyond) with
        | none => simpa [HandlerPc.connection?] using Ne.symm hown
        | some p => simpa [HandlerPc.connection?] using Ne.symm hown
  | @adds sock n c v hpc =>
      by_cases hown : m = n
      · subst hown
        have hes : eventsAt m [.added m c v] = [.added m c v] := by
          simp [eventsAt, DialogueEvent.connection?]
        rw [eventsAt_append, hes]
        exact hm.adds hpc
      · refine talk_other hm (by simp [DialogueEvent.connection?, Ne.symm hown])
          ⟨id, id, rfl, handlerAt_others ?_, id⟩
        simpa [HandlerPc.connection?] using Ne.symm hown
  | @returns sock n hpc =>
      by_cases hown : m = n
      · subst hown
        have hes : eventsAt m [.socket (.released sock)] = [] := by
          simp [eventsAt, DialogueEvent.connection?]
        rw [eventsAt_append, hes, List.append_nil]
        exact hm.returns hpc
      · refine talk_other hm (by simp [DialogueEvent.connection?])
          ⟨id, id, rfl, handlerAt_others ?_, id⟩
        simpa [HandlerPc.connection?] using Ne.symm hown

end Moves

section Runs

variable [DecidableEq Client] {trace : List DialogueEvent}

/-- What holds of every connection in every run. -/
structure Talks (trace : List DialogueEvent) (s : DialogueState Client) : Prop where
  order : InOrder trace s
  talk : ∀ m, Talk s m (eventsAt m trace)

theorem talks_run (h : Run (dialogueMachine Client) (.begin Client) trace s) : Talks trace s := by
  refine h.invariant Talks ⟨⟨rfl, rfl⟩, talk_begin⟩ fun trace s a s' es htalks hstep => ?_
  obtain ⟨⟨after, es'⟩, hnext, heq⟩ := Option.map_eq_some_iff.mp hstep
  cases heq
  have hmove := next_talk hnext
  have hafter := hmove.inOrder htalks.order
  refine ⟨⟨hafter.made, hafter.accepted⟩, fun m => ?_⟩
  exact (hmove.talk htalks.talk htalks.order m).frame
    ⟨id, id, rfl, fun _ _ => rfl, id⟩

/-- **Conversations.**  In every run of any number of clients and the server,
whatever fails: connections are accepted in the order in which they are made, no
connection twice; on each of them a conversation is held as far as it has come,
and it is whole where the handler has returned. -/
theorem conversations_held (h : Run (dialogueMachine Client) (.begin Client) trace s) :
    (trace.filterMap DialogueEvent.connected?).Nodup ∧
      trace.filterMap DialogueEvent.accepted? <+: trace.filterMap DialogueEvent.connected? ∧
      (∀ n, ∃ whole, Conversation n whole ∧ eventsAt n trace <+: whole) ∧
      ∀ k n, s.handler k = .returned n → Conversation n (eventsAt n trace) := by
  obtain ⟨⟨hmade, haccepted⟩, htalk⟩ := talks_run h
  refine ⟨?_, ?_, fun n => (htalk n).proper, fun k n hk => (htalk n).finished (.inr hk)⟩
  · rw [hmade]
    exact List.nodup_range
  · rw [hmade, ← haccepted]
    exact List.prefix_append _ _

end Runs

/-- Two clients connect; the second is served first, and only a part of what the
first sends is read. -/
def twoClients : List (DialogueAction Bool) :=
  [.server true false, .server true false, .server true false, .server true false,
    .enter false (textBytes "mul 5 6"), .client false true 0, .client false true 0,
    .enter true (textBytes "add 7 8"), .client true true 0, .client false true 0,
    .client true true 0, .client true true 0, .server true false, .client true true 7,
    .client false true 7, .server true false, .handler 4 true 7 [], .handler 3 true 3 [],
    .handler 4 true 0 [], .handler 4 true 0 [], .handler 3 true 0 []]

theorem twoClients_executes :
    (exec (dialogueMachine Bool) (.begin Bool) twoClients).isSome = true := by rfl

theorem conversations_held_two :
    Conversation 1 (eventsAt 1 ((exec (dialogueMachine Bool) (.begin Bool) twoClients).get
      twoClients_executes).2) :=
  (conversations_held (exec_get_run twoClients_executes)).2.2.2 4 1 rfl

end TaskSheduler
