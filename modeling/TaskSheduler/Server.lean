import TaskSheduler.InputStream
import TaskSheduler.TaskHistory

/-!
# The server and its client

`Client::send_command` sends the bytes of a command over a stream socket, and
`handle_client` makes one `read` into a buffer of `SIZE` bytes, takes what is
in the buffer for a C string and parses it.  A `Delivery` is one way for the
sent bytes to arrive in successive reads.  What lies in memory behind the
buffer is a parameter, since a string without a NUL in the buffer is read on
from there.

The copies of this code in the server library and in the main program differ
in where they log only.
-/

namespace TaskSheduler

open Programs InputStreams

/-- `SIZE`. -/
def Server.size : Nat := 1024

/-- `operations`. -/
def Server.operations : List (List UInt8 × Int32) :=
  [(textBytes "add", 19), (textBytes "sub", 18), (textBytes "mul", 15), (textBytes "del", 16)]

/-- The bytes that `Client::send_command` sends: `command.size()` bytes from
`command.c_str()`. -/
def Client.sendCommand (command : List UInt8) : List UInt8 := command

/-- What successive reads from the socket yield. -/
structure Delivery (sent : List UInt8) where
  reads : List (List UInt8)
  inOrder : reads.flatten = sent
  /-- A read of no bytes means the end. -/
  nonempty : [] ∉ reads
  /-- No read yields more than it has room for. -/
  fits : ∀ bytes ∈ reads, bytes.length ≤ Server.size

/-- `char buffer[SIZE] = {0}; read(client_socket, buffer, sizeof(buffer));` -/
def Server.buffer {sent : List UInt8} (delivery : Delivery sent) : List UInt8 :=
  let received := delivery.reads.headD []
  received ++ List.replicate (Server.size - received.length) 0

/-- `std::string command(buffer)`, with what follows the buffer in memory. -/
def Server.commandString (buffer beyond : List UInt8) : List UInt8 := cString (buffer ++ beyond)

/-- The variables that `handle_client` extracts. -/
structure Command where
  operation : List UInt8
  num1 : Int32
  num2 : Int32
deriving DecidableEq

/-- `iss >> operation >> num1 >> num2`. -/
def Server.parseCommand (text : List UInt8) : Option Command := do
  let (operation, text) ← extractString text
  let (num1, text) ← extractInt text
  let (num2, _) ← extractInt text
  return { operation, num1, num2 }

/-- The command in a text that `handle_client` accepts, and the value that
`operations` has for it. -/
def Server.acceptedCommand (text : List UInt8) : Option (Command × Int32) := do
  let command ← Server.parseCommand text
  let value ← Server.operations.lookup command.operation
  return (command, value)

/-- The task that `handle_client` makes of an operation. -/
def Server.commandTask (env : Env) (operation : List UInt8) (value : Int32) :
    Program World UnixTask := do
  let task ← UnixTask.construct env value operation 0
  task.setStaticPriority env value

/-- A line that `handle_client` logs. -/
inductive ServerLine
  /-- "Received command: " and the command string. -/
  | received (text : List UInt8)
  /-- "Invalid command format". -/
  | invalidFormat
  /-- "Task added: " and the command, with "and" between its operands. -/
  | taskAdded (command : Command)
  /-- "Unknown operation: " and the operation. -/
  | unknownOperation (operation : List UInt8)
deriving DecidableEq

/-- `handle_client` after its `read`, with `addTask` for the `add_task` of the
scheduler it is given, and the lines it has logged when it returns.  (What
`add_task` throws leaves the thread, and that ends the program.) -/
def Server.handleClient (env : Env) (addTask : UnixTask → Program World Unit)
    (buffer beyond : List UInt8) : Program World (List ServerLine) :=
  let text := Server.commandString buffer beyond
  match Server.parseCommand text with
  | none => return [.received text, .invalidFormat]
  | some command =>
      match Server.operations.lookup command.operation with
      | some value => do
          let task ← Server.commandTask env command.operation value
          addTask task
          return [.received text, .taskAdded command]
      | none => return [.received text, .unknownOperation command.operation]

/-! ## The table of operations -/

theorem mem_operations {operation : List UInt8} {value : Int32}
    (h : Server.operations.lookup operation = some value) :
    (operation, value) ∈ Server.operations := by
  obtain ⟨before, after, heq, -⟩ := List.lookup_eq_some_iff.mp h
  rw [heq]
  exact List.mem_append_right _ List.mem_cons_self

/-- The values of `operations` are valid priorities. -/
theorem operation_valid {operation : List UInt8} {value : Int32}
    (h : Server.operations.lookup operation = some value) : validPriority value = true := by
  have hall : ∀ p ∈ Server.operations, validPriority p.2 = true := by decide
  exact hall (operation, value) (mem_operations h)

/-- Making the task of an operation returns it, with the value as its id and
static priority. -/
theorem commandTask_returns (env : Env) (operation : List UInt8) {value : Int32}
    (h : validPriority value = true) (w : World) :
    ∃ task w', Server.commandTask env operation value w = .ok task w' ∧ task.id = value ∧
      task.staticPriority = value ∧ w'.shm = w.shm := by
  have hzero : validPriority 0 = true := rfl
  simp only [Server.commandTask, UnixTask.construct, UnixTask.built, UnixTask.setStaticPriority,
    UnixTask.adjustDynamicPriority, validatePriority, hzero, h, if_true, fromExcept, bind_apply,
    now_apply, pure_apply]
  exact ⟨_, _, rfl, rfl, rfl, rfl⟩

end TaskSheduler
