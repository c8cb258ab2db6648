import TaskSheduler.Server

/-!
# What the server makes of the sent bytes

`handle_client` sees what its only `read` yields.  That is the command if it
arrives in one piece and leaves room for the NUL that the buffer was filled
with; a command in two pieces is cut after the first, and one that fills the
buffer is read on behind it.
-/

namespace TaskSheduler

/-- The command string is the sent one, and its end is found in the buffer. -/
structure ParsesWhatWasSent {sent : List UInt8} (delivery : Delivery sent) : Prop where
  terminated : 0 ∈ Server.buffer delivery
  same : ∀ beyond, Server.commandString (Server.buffer delivery) beyond = sent

namespace Delivery

variable {sent : List UInt8} (delivery : Delivery sent)

/-- What the only `read` yields. -/
def received : List UInt8 := delivery.reads.headD []

/-- The rest is left unread. -/
theorem received_append : delivery.received ++ delivery.reads.tail.flatten = sent := by
  have hflatten : ∀ reads : List (List UInt8), reads.headD [] ++ reads.tail.flatten = reads.flatten
    | [] => rfl
    | _ :: _ => rfl
  rw [received, hflatten, delivery.inOrder]

/-- All is received if there is nothing to read after the first read. -/
theorem received_eq_iff : delivery.received = sent ↔ delivery.reads.length ≤ 1 := by
  have hsplit := delivery.received_append
  have hnonempty := delivery.nonempty
  constructor
  · intro hall
    rw [hall] at hsplit
    have hrest : delivery.reads.tail.flatten = [] := List.append_right_eq_self.mp hsplit
    cases hreads : delivery.reads with
    | nil => exact Nat.zero_le _
    | cons first rest =>
        rw [hreads] at hrest hnonempty
        cases rest with
        | nil => exact le_refl _
        | cons second rest =>
            have hsecond : second = [] := List.flatten_eq_nil_iff.mp hrest second (by simp)
            exact absurd (by simp [hsecond]) hnonempty
  · intro hshort
    have hrest : delivery.reads.tail = [] := List.length_eq_zero_iff.mp (by
      rw [List.length_tail]
      omega)
    rwa [hrest, List.flatten_nil, List.append_nil] at hsplit

/-- No NUL is received where none was sent. -/
theorem nul_not_received (hsent : 0 ∉ sent) : 0 ∉ delivery.received := by
  intro hmem
  apply hsent
  rw [← delivery.received_append]
  exact List.mem_append_left _ hmem

/-- Sent bytes without a NUL end in the buffer if they do not fill it. -/
theorem terminated_iff (hsent : 0 ∉ sent) :
    0 ∈ Server.buffer delivery ↔ delivery.received.length < Server.size := by
  have hnone := delivery.nul_not_received hsent
  have hbuffer : Server.buffer delivery =
      delivery.received ++ List.replicate (Server.size - delivery.received.length) 0 := rfl
  rw [hbuffer, List.mem_append, List.mem_replicate]
  constructor
  · rintro (hmem | ⟨hroom, -⟩)
    · exact absurd hmem hnone
    · omega
  · intro hroom
    exact .inr ⟨by omega, rfl⟩

/-- Received bytes without a NUL are the command if they do not fill it. -/
theorem commandString_eq (hnul : 0 ∉ delivery.received)
    (hroom : delivery.received.length < Server.size)
    (beyond : List UInt8) :
    Server.commandString (Server.buffer delivery) beyond = delivery.received := by
  obtain ⟨left, hleft⟩ : ∃ left, Server.size - delivery.received.length = left + 1 :=
    ⟨Server.size - delivery.received.length - 1, by omega⟩
  have hbuffer : Server.buffer delivery ++ beyond =
      delivery.received ++ 0 :: (List.replicate left 0 ++ beyond) := by
    have hdef : Server.buffer delivery =
        delivery.received ++ List.replicate (Server.size - delivery.received.length) 0 := rfl
    rw [hdef, hleft, List.replicate_succ, List.append_assoc, List.cons_append]
  rw [Server.commandString, hbuffer]
  exact cString_append_nul hnul

end Delivery

/-- **The server parses what the client sent** exactly if it arrives in one read
and is shorter than the buffer. -/
theorem parses_what_was_sent_iff {command : List UInt8} (hsent : 0 ∉ command)
    (delivery : Delivery (Client.sendCommand command)) :
    ParsesWhatWasSent delivery ↔
      delivery.reads.length ≤ 1 ∧ command.length < Server.size := by
  constructor
  · rintro ⟨hterminated, hsame⟩
    have hroom := (delivery.terminated_iff hsent).mp hterminated
    have hall : delivery.received = command := by
      rw [← delivery.commandString_eq (delivery.nul_not_received hsent) hroom []]
      exact hsame []
    rw [hall] at hroom
    exact ⟨delivery.received_eq_iff.mp hall, hroom⟩
  · rintro ⟨hshort, hroom⟩
    have hall : delivery.received = command := delivery.received_eq_iff.mpr hshort
    rw [← hall] at hroom
    refine ⟨(delivery.terminated_iff hsent).mpr hroom, fun beyond => ?_⟩
    rw [delivery.commandString_eq (delivery.nul_not_received hsent) hroom]
    exact hall

/-- The bytes of a text, in one read. -/
def oneRead : Delivery (Client.sendCommand (textBytes "add 1 2")) where
  reads := [textBytes "add 1 2"]
  inOrder := rfl
  nonempty := by decide
  fits := by decide

theorem parses_what_was_sent_one : ParsesWhatWasSent oneRead :=
  (parses_what_was_sent_iff (by decide) oneRead).mpr ⟨le_refl 1, by decide⟩

/-- The same bytes, in two. -/
def twoReads : Delivery (Client.sendCommand (textBytes "add 1 2")) where
  reads := [textBytes "add 1", textBytes " 2"]
  inOrder := rfl
  nonempty := by decide
  fits := by decide

/-- A command that arrives in two pieces is cut after the first. -/
theorem second_read_is_missed :
    ¬ ∀ (command : List UInt8), 0 ∉ command →
      ∀ delivery : Delivery (Client.sendCommand command), ParsesWhatWasSent delivery := by
  intro hall
  have hsame := (hall (textBytes "add 1 2") (by decide) twoReads).same []
  have hcut : Server.commandString (Server.buffer twoReads) [] = textBytes "add 1" :=
    twoReads.commandString_eq (by decide) (by decide) []
  rw [hcut] at hsame
  cases hsame

end TaskSheduler
