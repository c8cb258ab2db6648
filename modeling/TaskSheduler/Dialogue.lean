import TaskSheduler.HandleCustody
import TaskSheduler.Server
import TaskSheduler.Simulation

/-!
# Clients, the server, and the sockets between them

The client program calls `Client::send_command` for every line that is entered;
`start_server` makes the listening socket and starts a `handle_client` for each
connection it accepts.  A step is one system call of one thread, which may
fail, or one call of `Scheduler::add_task`, which may throw.

The kernel makes sockets that were never there before, keeps connections in the
order in which they are made until they are accepted, and gives `read` the next
bytes of its connection, as many as it likes.  It closes the sockets of the
server when that process ends: by `exit` after a failed call of `start_server`,
or by `std::terminate` after an exception in any of its threads.
-/

namespace TaskSheduler

open HandleCustody Interleaving

/-- A socket, by the number of those made before it. -/
abbrev Socket := Nat

/-- Where a client is in `send_command`: the system call that comes next. -/
inductive SendPc
  | idle
  | socket (command : List UInt8)
  | inetPton (command : List UInt8) (sock : Socket)
  | connect (command : List UInt8) (sock : Socket)
  | send (command : List UInt8) (sock : Socket) (connection : Nat)
  | close (sock : Socket) (connection : Nat)

/-- Where `start_server` is; `server_fd` is `none` while it is -1. -/
inductive ListenPc
  | socket
  | setsockopt (serverFd : Option Socket)
  | bind (serverFd : Socket)
  | listen (serverFd : Socket)
  | accept (serverFd : Socket)
  /-- About to call `exit`. -/
  | failure (serverFd : Option Socket)
  | ended

/-- Where the handler of an accepted socket is, and its connection. -/
inductive HandlerPc
  | absent
  | read (connection : Nat)
  | addTask (connection : Nat) (command : Command) (value : Int32)
  | close (connection : Nat)
  | returned (connection : Nat)

/-- A connection: the bytes on the way to the server, and whether the client has
closed its end. -/
structure Connection where
  stream : List UInt8
  closed : Bool

/-- The threads and the kernel. -/
structure DialogueState (Client : Type*) where
  client : Client → SendPc
  server : ListenPc
  handler : Socket → HandlerPc
  /-- How many sockets have been made. -/
  made : Nat
  /-- What has been done with each of them. -/
  status : Socket → Status
  /-- Clients can connect. -/
  listening : Bool
  connected : Nat
  connection : Nat → Connection
  /-- The connections that are not accepted. -/
  pending : List Nat

/-- What is seen of it. -/
inductive DialogueEvent
  | socket (e : HandleEvent Socket)
  | connected (connection : Nat) (command : List UInt8)
  | accepted (connection : Nat)
  | received (connection : Nat) (text : List UInt8)
  | added (connection : Nat) (command : Command) (value : Int32)
deriving DecidableEq

/-- What it says of a socket. -/
def DialogueEvent.socket? : DialogueEvent → Option (HandleEvent Socket)
  | .socket e => some e
  | _ => none

/-- The connection that it is about. -/
def DialogueEvent.connection? : DialogueEvent → Option Nat
  | .socket _ => none
  | .connected n _ | .accepted n | .received n _ | .added n _ _ => some n

/-- Before anything is done. -/
def DialogueState.begin (Client : Type*) : DialogueState Client where
  client := fun _ => .idle
  server := .socket
  handler := fun _ => .absent
  made := 0
  status := fun _ => .unopened
  listening := false
  connected := 0
  connection := fun _ => ⟨[], false⟩
  pending := []

/-- A line is entered, a thread makes its next call, or an exception ends the
server.  `ok` says whether the call succeeds, `zero` whether the socket made is
the descriptor 0, `count` how many bytes are transferred, and `beyond` what lies
behind the buffer. -/
inductive DialogueAction (Client : Type*)
  | enter (c : Client) (line : List UInt8)
  | client (c : Client) (ok : Bool) (count : Nat)
  | server (ok zero : Bool)
  | handler (sock : Socket) (ok : Bool) (count : Nat) (beyond : List UInt8)
  | terminate

/-- The socket that `send_command` has. -/
def SendPc.sock : SendPc → Option Socket
  | .idle | .socket _ => none
  | .inetPton _ sock | .connect _ sock | .send _ sock _ | .close sock _ => some sock

/-- The socket that `start_server` has. -/
def ListenPc.serverFd : ListenPc → Option Socket
  | .setsockopt fd | .failure fd => fd
  | .bind fd | .listen fd | .accept fd => some fd
  | .socket | .ended => none

/-- The handler has its socket still. -/
def HandlerPc.active : HandlerPc → Bool
  | .read _ | .addTask _ _ _ | .close _ => true
  | .absent | .returned _ => false

/-- The buffer of a handler that has read these bytes. -/
def Server.bufferOf (received : List UInt8) : List UInt8 :=
  received ++ List.replicate (Server.size - received.length) 0

theorem buffer_eq_bufferOf {sent : List UInt8} (delivery : Delivery sent) :
    Server.buffer delivery = Server.bufferOf (delivery.reads.headD []) := rfl

/-- `read` with these arguments can return `count` bytes: it waits while there
are none, unless the client has closed the connection. -/
def Connection.yields (x : Connection) (count : Nat) : Bool :=
  if x.stream.isEmpty then x.closed else 0 < count && count ≤ Server.size

/-- What `handle_client` does with the string in its buffer. -/
def HandlerPc.afterRead (connection : Nat) (text : List UInt8) : HandlerPc :=
  match Server.acceptedCommand text with
  | some (command, value) => .addTask connection command value
  | none => .close connection

section Steps

variable {Client : Type*} [DecidableEq Client]

namespace DialogueState

/-- A client comes to another call. -/
def clientAt (s : DialogueState Client) (c : Client) (pc : SendPc) : DialogueState Client :=
  { s with client := Function.update s.client c pc }

/-- `start_server` comes to another call. -/
def serverAt (s : DialogueState Client) (pc : ListenPc) : DialogueState Client :=
  { s with server := pc }

/-- A handler comes to another call. -/
def handlerAt (s : DialogueState Client) (sock : Socket) (pc : HandlerPc) :
    DialogueState Client :=
  { s with handler := Function.update s.handler sock pc }

/-- A socket has been made. -/
def makes (s : DialogueState Client) : DialogueState Client := { s with made := s.made + 1 }

/-- Something happens to a connection. -/
def withConnection (s : DialogueState Client) (n : Nat) (x : Connection) : DialogueState Client :=
  { s with connection := Function.update s.connection n x }

/-- The sockets of the server. -/
def serverSockets (s : DialogueState Client) : List Socket :=
  (List.range s.made).filter fun k => s.server.serverFd = some k || (s.handler k).active

/-- The server process ends. -/
def exit (s : DialogueState Client) : DialogueState Client × List DialogueEvent :=
  ({ s with server := .ended, handler := fun _ => .absent, listening := false },
    s.serverSockets.map fun k => .socket (.released k))

/-- The next call of `send_command`. -/
def sendStep (s : DialogueState Client) (c : Client) (ok : Bool) (count : Nat) :
    Option (DialogueState Client × List DialogueEvent) :=
  match s.client c with
  | .idle => none
  | .socket command =>
      if ok then
        some ((s.clientAt c (.inetPton command s.made)).makes, [.socket (.opened s.made)])
      else
        some (s.clientAt c .idle, [])
  | .inetPton command sock =>
      -- Nothing closes the socket when this returns.
      some (s.clientAt c (if ok then .connect command sock else .idle), [])
  | .connect command sock =>
      if ok then
        if s.listening then
          some ({ s.clientAt c (.send command sock s.connected) with
              connected := s.connected + 1
              pending := s.pending ++ [s.connected] },
            [.socket (.used sock), .connected s.connected command])
        else none
      else
        -- Nor here.
        some (s.clientAt c .idle, [.socket (.used sock)])
  | .send command sock n =>
      some ((s.clientAt c (.close sock n)).withConnection n
          { s.connection n with stream := (s.connection n).stream ++ command.take count },
        [.socket (.used sock)])
  | .close sock n =>
      some ((s.clientAt c .idle).withConnection n { s.connection n with closed := true },
        [.socket (.released sock)])

/-- The next call of `start_server`. -/
def listenStep (s : DialogueState Client) (ok zero : Bool) :
    Option (DialogueState Client × List DialogueEvent) :=
  match s.server with
  | .socket =>
      if ok then
        -- The test is `== 0`: the descriptor 0 fails it, and -1 passes.
        some ((s.serverAt (if zero then .failure (some s.made)
            else .setsockopt (some s.made))).makes,
          [.socket (.opened s.made)])
      else
        some (s.serverAt (.setsockopt none), [])
  | .setsockopt none => some (s.serverAt (.failure none), [])
  | .setsockopt (some fd) =>
      some (s.serverAt (if ok then .bind fd else .failure (some fd)), [.socket (.used fd)])
  | .bind fd =>
      some (s.serverAt (if ok then .listen fd else .failure (some fd)), [.socket (.used fd)])
  | .listen fd =>
      if ok then
        some ({ s.serverAt (.accept fd) with listening := true }, [.socket (.used fd)])
      else
        some (s.serverAt (.failure (some fd)), [.socket (.used fd)])
  | .accept fd =>
      if ok then
        match s.pending with
        | [] => none
        | n :: rest =>
            some ({ (s.handlerAt s.made (.read n)).makes with pending := rest },
              [.socket (.used fd), .socket (.opened s.made), .accepted n])
      else
        some (s.serverAt (.failure (some fd)), [.socket (.used fd)])
  | .failure _ => some s.exit
  | .ended => none

/-- The next call of `handle_client`. -/
def handlerStep (s : DialogueState Client) (sock : Socket) (ok : Bool) (count : Nat)
    (beyond : List UInt8) : Option (DialogueState Client × List DialogueEvent) :=
  match s.handler sock with
  | .absent | .returned _ => none
  | .read n =>
      if ok then
        if (s.connection n).yields count then
          let text := Server.commandString (Server.bufferOf ((s.connection n).stream.take count))
            beyond
          some ((s.handlerAt sock (.afterRead n text)).withConnection n
              { s.connection n with stream := (s.connection n).stream.drop count },
            [.socket (.used sock), .received n text])
        else none
      else
        -- What `read` returns is not looked at: the buffer is full of zeros.
        let text := Server.commandString (Server.bufferOf []) beyond
        some (s.handlerAt sock (.afterRead n text), [.socket (.used sock), .received n text])
  | .addTask n command value =>
      if ok then
        some (s.handlerAt sock (.close n), [.added n command value])
      else
        some s.exit
  | .close n => some (s.handlerAt sock (.returned n), [.socket (.released sock)])

/-- The next step, before the kernel notes what was done with the sockets. -/
def next (s : DialogueState Client) :
    DialogueAction Client → Option (DialogueState Client × List DialogueEvent)
  | .enter c line =>
      match s.client c with
      | .idle => some (s.clientAt c (if line.isEmpty then .idle else .socket line), [])
      | _ => none
  | .client c ok count => s.sendStep c ok count
  | .server ok zero => s.listenStep ok zero
  | .handler sock ok count beyond => s.handlerStep sock ok count beyond
  | .terminate => some s.exit

end DialogueState

/-- Any number of clients and a server. -/
def dialogueMachine (Client : Type*) [DecidableEq Client] :
    Machine (DialogueState Client) (DialogueAction Client) DialogueEvent where
  step s a := (s.next a).map fun r =>
    ({ r.1 with status := statusAfter s.status (r.2.filterMap DialogueEvent.socket?) }, r.2)

end Steps

end TaskSheduler
