import TaskSheduler.ClientMachine
import TaskSheduler.SchedulerProgress
import Mathlib.Data.Fintype.BigOperators

/-!
# When there is room to put a task back

A `dequeue` frees the slot of the task it takes out, and nothing keeps that
slot for the time when `process_tasks` or `reorder_tasks` puts the task back:
a client may claim it for a new task.  Here the slots are counted that the
tasks in the queue, the tasks taken out and the new tasks with a claimed slot
need.  Every step keeps that number or lowers it, but for the step by which a
client's `enqueue` takes a slot for a new task.  As long as that step is taken
only while there is a slot to spare (`leavesRoom`), every task taken out finds
room.
-/

namespace TaskSheduler

open Interleaving Programs

/-- The tasks that a client's call has taken out of the queue. -/
def ManagerPc.takenOut : ManagerPc → Nat
  | .inQueue (.adding _) _ => 0
  | pc => pc.owned.card

/-- The slot that a client's call has claimed for its new task and not counted
yet. -/
def ManagerPc.claimedSlots : ManagerPc → Nat
  | .inQueue (.adding _) pc => pc.heldSlots
  | _ => 0

/-- A client is about to take a slot for its new task. -/
def ManagerPc.takesSlot : ManagerPc → Bool
  | .inQueue (.adding _) (.enqWaitSlot _) => true
  | _ => false

/-- The step waits for a free slot, and there is none. -/
def QueuePc.awaitsSlot (shm : Shm) : QueuePc → Bool
  | .enqWaitSlot _ => shm.enqueueSem = 0
  | _ => false

section Moves

variable {env : Env} {fail : Bool} {shm shm' : Shm} {pc pc' : ManagerPc}
  {reply : Option ManagerReply} {q : List SharedTask}

/-- A client's call needs no more slots than it holds tasks. -/
theorem ManagerPc.slotsNeeded_le (pc : ManagerPc) :
    pc.takenOut + pc.claimedSlots ≤ pc.owned.card := by
  cases pc with
  | idle => exact Nat.zero_le _
  | testing algorithm tasks => exact le_rfl
  | inQueue purpose qpc =>
      cases purpose with
      | adding task =>
          have hle := qpc.heldSlots_le
          simp only [takenOut, claimedSlots, owned, Multiset.card_add]
          omega
      | _ => exact le_rfl

/-- It holds no more slots than it needs. -/
theorem ManagerPc.heldSlots_le (pc : ManagerPc) :
    pc.queue.heldSlots ≤ pc.takenOut + pc.claimedSlots := by
  cases pc with
  | inQueue purpose qpc =>
      cases purpose with
      | adding task => exact Nat.le_add_left _ _
      | _ =>
          have hle := qpc.heldSlots_le
          simp only [queue, takenOut, claimedSlots, owned, Multiset.card_add]
          omega
  | _ => exact Nat.zero_le _

/-- A step of an `enqueue` needs another slot only when it takes one. -/
theorem queueStep_slotsNeeded {capacity : Nat} {pc pc' : QueuePc} {notes : List Note}
    (h : queueStep capacity shm pc fail = some (shm', pc', notes))
    (hhead : ∀ task, pc = .deqSubCount task → q = task :: q.tail) :
    (pc.effect q).length + pc'.heldSlots ≤ q.length + pc.heldSlots ∨
      ((∃ task, pc = .enqWaitSlot task) ∧ fail = false ∧
        (pc.effect q).length + pc'.heldSlots = q.length + 1) := by
  cases queueStep_move h with
  | enqTakesSlot hfail hwait => exact .inr ⟨⟨_, rfl⟩, hfail, rfl⟩
  | enqAddCount => exact .inl (by simp [QueuePc.effect, QueuePc.heldSlots])
  | @deqSubCount task =>
      left
      rw [hhead task rfl]
      simp [QueuePc.effect, QueuePc.heldSlots]
  | _ => exact .inl (by simp [QueuePc.effect, QueuePc.heldSlots])

/-- **A move takes out what it adds to the thread's hands.** -/
theorem ManagerMove.owned_le (h : ManagerMove env fail shm pc shm' pc' reply)
    (hhead : ∀ task, pc.queue = .deqSubCount task → q = task :: q.tail) :
    (pc.queue.effect q).length + pc'.owned.card ≤ q.length + pc.owned.card := by
  by_cases hthrown : ∃ message, reply = some (.thrown message)
  · obtain ⟨message, rfl⟩ := hthrown
    obtain ⟨rfl, heffect⟩ := h.thrown q
    rw [heffect]
    exact Nat.add_le_add_left (Nat.zero_le _) _
  · have hids := h.ids (fun message hreply => hthrown ⟨message, hreply⟩) hhead
    have hcard := congrArg Multiset.card hids
    simp only [Multiset.card_add, entryIds, Multiset.coe_card, List.length_map] at hcard
    omega

/-- **A client's move needs another slot only when it takes one.** -/
theorem ManagerMove.slotsNeeded (h : ManagerMove env fail shm pc shm' pc' reply)
    (hhead : ∀ task, pc.queue = .deqSubCount task → q = task :: q.tail) :
    (pc.queue.effect q).length + (pc'.takenOut + pc'.claimedSlots) ≤
        q.length + (pc.takenOut + pc.claimedSlots) ∨
      (pc.takesSlot = true ∧ fail = false ∧
        (pc.queue.effect q).length + (pc'.takenOut + pc'.claimedSlots) ≤
          q.length + (pc.takenOut + pc.claimedSlots) + 1) := by
  have howned := h.owned_le hhead
  have hle := pc'.slotsNeeded_le
  cases h with
  | found => exact .inl (Nat.add_le_add_left hle _ |>.trans howned)
  | foundEmpty => exact .inl (Nat.add_le_add_left hle _ |>.trans howned)
  | @inside purpose qpc qpc' shm' notes hstep hne =>
      cases purpose with
      | adding task =>
          simp only [ManagerPc.takenOut, ManagerPc.claimedSlots, ManagerPc.queue, Nat.zero_add]
          rcases queueStep_slotsNeeded hstep hhead with hless | ⟨⟨st, rfl⟩, hfail, htakes⟩
          · exact .inl hless
          · exact .inr ⟨rfl, hfail, by omega⟩
      | _ => exact .inl (Nat.add_le_add_left hle _ |>.trans howned)
  | @finished purpose qpc shm' notes ended pc' reply hstep hends hresume =>
      cases purpose with
      | adding task =>
          left
          cases hresume with
          | thrown =>
              cases hends with
              | thrown hthrows =>
                  rw [ManagerPc.queue, (QueuePc.throws_silent hthrows).1 q]
                  exact Nat.add_le_add_left (Nat.zero_le _) _
          | stored =>
              cases hends
              exact Nat.add_le_add_left (Nat.zero_le _) _
      | _ => exact .inl (Nat.add_le_add_left hle _ |>.trans howned)

/-- **A loop's move needs no new slot.** -/
theorem LoopMove.owned_le {choice : LoopChoice} {running : Bool} {t : Loop} {pc pc' : LoopPc}
    {es : List SystemEvent} (h : LoopMove env choice shm running t pc shm' pc' es)
    (hhead : ∀ task, pc.manager.queue = .deqSubCount task → q = task :: q.tail) :
    (pc.manager.queue.effect q).length + pc'.owned.card ≤ q.length + pc.owned.card := by
  have hcard := congrArg Multiset.card (h.ids hhead)
  simp only [Multiset.card_add, entryIds, Multiset.coe_card, List.length_map] at hcard
  omega

end Moves

/-! ## Every run -/

section Run

variable {Client : Type*} [Fintype Client] {env : Env} {timeQuantum : Int}
  {algorithm : SchedulingAlgorithm} {s s' : Service Client} {a : ServiceAction Client}
  {es : List SystemEvent} {q : List SharedTask}

/-- The tasks taken out and not yet put back or finished, in the hands of the
loops and of the clients that reorder. -/
def Service.takenOut (s : Service Client) : Nat :=
  ∑ t, (s.system.pc t).owned.card + ∑ c, (s.client c).takenOut

/-- The slots claimed for new tasks. -/
def Service.claimedSlots (s : Service Client) : Nat := ∑ c, (s.client c).claimedSlots

/-- A client takes a slot for a new task only while there is one to spare. -/
def leavesRoom (env : Env) (s : Service Client) : ServiceAction Client → Bool
  | .client c choice => !(s.client c).takesSlot || choice.fail ||
      decide (s.system.shm.count + s.takenOut + s.claimedSlots < env.capacity)
  | _ => true

/-- There is room for all tasks taken out, and no `enqueue` that puts one back
waits for a slot. -/
structure RoomToPutBack (env : Env) (s : Service Client) : Prop where
  fits : s.system.shm.count + s.takenOut ≤ env.capacity
  loops : ∀ t st, (s.system.pc t).manager.queue = .enqWaitSlot st → 0 < s.system.shm.enqueueSem
  clients : ∀ c algorithm rest st,
    s.client c = .inQueue (.refilling algorithm rest) (.enqWaitSlot st) →
      0 < s.system.shm.enqueueSem

/-- The slots that all tasks need, in the queue and outside. -/
def Service.slotsNeeded (s : Service Client) (q : List SharedTask) : Nat :=
  q.length + s.takenOut + s.claimedSlots

theorem Service.slotsNeeded_eq (s : Service Client) (q : List SharedTask) :
    s.slotsNeeded q = q.length + ∑ t, (s.system.pc t).owned.card +
      ∑ c, ((s.client c).takenOut + (s.client c).claimedSlots) := by
  rw [slotsNeeded, takenOut, claimedSlots, Finset.sum_add_distrib]
  omega

variable [DecidableEq Client]

/-- A move of a client, in the sum. -/
theorem slotsNeeded_client (s : Service Client) (c : Client) (shm' : Shm) (pc' : ManagerPc)
    {q' : List SharedTask} {k : Nat}
    (hmove : q'.length + (pc'.takenOut + pc'.claimedSlots) ≤
      q.length + ((s.client c).takenOut + (s.client c).claimedSlots) + k) :
    Service.slotsNeeded { system := { s.system with shm := shm' }
                          client := Function.update s.client c pc' } q' ≤
      s.slotsNeeded q + k := by
  have hsum := sum_moved (fun pc : ManagerPc => pc.takenOut + pc.claimedSlots) s.client c pc'
  rw [Service.slotsNeeded_eq, Service.slotsNeeded_eq]
  simp only at hsum ⊢
  omega

/-- A move of a client that is admitted, in the sum. -/
theorem slotsNeeded_admitted (hinv : ServiceInv env s q)
    (hroom : s.slotsNeeded q ≤ env.capacity) {c : Client} {choice : Choice}
    (hadmits : leavesRoom env s (.client c choice) = true) {pc' : ManagerPc}
    {reply : Option ManagerReply} {shm' : Shm}
    (hmove : ManagerMove env choice.fail s.system.shm (s.client c) shm' pc' reply) :
    Service.slotsNeeded { system := { s.system with shm := shm' }
                          client := Function.update s.client c pc' }
      ((s.client c).queue.effect q) ≤ env.capacity := by
  have hhead : ∀ task, (s.client c).queue = .deqSubCount task → q = task :: q.tail :=
    fun task htask => hinv.counted.head_eq (t := .inr c) htask
  rcases hmove.slotsNeeded hhead with hless | ⟨htakes, hfail, hless⟩
  · exact (slotsNeeded_client s c _ _ (k := 0) hless).trans hroom
  · simp only [leavesRoom, htakes, hfail, Bool.not_true, Bool.or_self, Bool.false_or,
      decide_eq_true_eq] at hadmits
    have hcount : s.system.shm.count = q.length := hinv.counted.count_eq
    have hspare : s.slotsNeeded q < env.capacity := by
      rw [Service.slotsNeeded]
      omega
    exact (slotsNeeded_client s c _ _ (k := 1) hless).trans hspare

/-- **An admitted step keeps the room.** -/
theorem slotsNeeded_step (hinv : ServiceInv env s q) (hroom : s.slotsNeeded q ≤ env.capacity)
    (hadmits : leavesRoom env s a = true) (h : ServiceMove env algorithm s a s' es) :
    s'.slotsNeeded ((a.queue s).effect q) ≤ env.capacity := by
  cases h with
  | @system a system' es hmove =>
      cases hmove with
      | @quiet a system' value ha hshm hpc =>
          have hsame := fun t => (LoopPc.quiet (hpc t)).2.1
          rw [ServiceAction.queue_quiet s ha]
          simp only [Service.slotsNeeded, Service.takenOut, Service.claimedSlots, hsame] at hroom ⊢
          exact hroom
      | @loop t choice shm' pc' es hmove =>
          have hhead : ∀ task, (s.system.pc t).manager.queue = .deqSubCount task →
              q = task :: q.tail :=
            fun task htask => hinv.counted.head_eq (t := .inl t) htask
          have hless := hmove.owned_le hhead
          have hsum := sum_moved (fun pc : LoopPc => pc.owned.card) s.system.pc t pc'
          rw [Service.slotsNeeded_eq] at hroom ⊢
          simp only [ServiceAction.queue] at hsum hroom ⊢
          omega
  | @calls c task choice st hidle hkeeps =>
      have hnothing : q.length + 0 ≤
          q.length + ((s.client c).takenOut + (s.client c).claimedSlots) + 0 :=
        Nat.add_le_add_left (Nat.zero_le _) _
      exact (slotsNeeded_client s c s.system.shm (.inQueue (.adding task) (.enqWaitSlot st))
        hnothing).trans hroom
  | goesOn hmove _ => exact slotsNeeded_admitted hinv hroom hadmits hmove
  | @reorders c choice shm' pc' hmove =>
      -- The call of `add_task` ends, and that of `reorder_tasks` starts with nothing.
      have hidle : pc' = .idle := hmove.replied
      have hended := slotsNeeded_admitted hinv hroom hadmits hmove
      rw [hidle] at hended
      have hstarted := slotsNeeded_client
        { system := { s.system with shm := shm' }, client := Function.update s.client c .idle }
        c shm' (.testing algorithm []) (k := 0)
        (Nat.le_add_right ((s.client c).queue.effect q).length _)
      rw [Function.update_idem] at hstarted
      exact hstarted.trans hended

omit [DecidableEq Client] in
/-- **Room for all that is out means that no put-back waits.** -/
theorem roomToPutBack (hinv : ServiceInv env s q) (hroom : s.slotsNeeded q ≤ env.capacity) :
    RoomToPutBack env s := by
  have hcount : s.system.shm.count = q.length := hinv.counted.count_eq
  have hslots := hinv.counted.slots
  rw [Fintype.sum_sum_type] at hslots
  simp only [Service.queues, Sum.elim_inl, Sum.elim_inr] at hslots
  have hloop : ∀ t : Loop, (s.system.pc t).manager.queue.heldSlots ≤ (s.system.pc t).owned.card :=
    fun t => (s.system.pc t).heldSlots_le
  have hclient : ∀ c, (s.client c).queue.heldSlots ≤
      (s.client c).takenOut + (s.client c).claimedSlots :=
    fun c => (s.client c).heldSlots_le
  have hloops := Finset.sum_le_sum fun t (_ : t ∈ Finset.univ) => hloop t
  have hclients := Finset.sum_le_sum fun c (_ : c ∈ Finset.univ) => hclient c
  rw [Service.slotsNeeded_eq] at hroom
  refine ⟨?_, fun t st hwaits => ?_, fun c algorithm rest st hwaits => ?_⟩
  · rw [hcount]
    rw [Finset.sum_add_distrib] at hroom
    simp only [Service.takenOut]
    omega
  · have hless := Finset.sum_lt_sum (fun u (_ : u ∈ Finset.univ) => hloop u)
      ⟨t, Finset.mem_univ t, ?_⟩
    · omega
    · exact LoopPc.heldSlots_lt hwaits
  · have hless := Finset.sum_lt_sum (fun u (_ : u ∈ Finset.univ) => hclient u)
      ⟨c, Finset.mem_univ c, ?_⟩
    · omega
    · rw [hwaits]
      simp [ManagerPc.queue, QueuePc.heldSlots, ManagerPc.takenOut, ManagerPc.owned,
        QueuePc.toStore]

/-- **There is room to put every task back** in every run in which clients
leave that room. -/
theorem room_to_put_back {shm : Shm} {trace : List SystemEvent}
    {schedule : List (ServiceAction Client)} (h : Quiescent env.capacity shm q)
    (hexec : exec (clientMachine Client env timeQuantum algorithm) (Service.begin Client shm)
      schedule = some (s, trace))
    (hleaves : along (clientMachine Client env timeQuantum algorithm) (leavesRoom env)
      (Service.begin Client shm) schedule = true) :
    RoomToPutBack env s := by
  have hbegin : (Service.begin Client shm).slotsNeeded q ≤ env.capacity := by
    have hnone : (Service.begin Client shm).slotsNeeded q = q.length := by
      simp [Service.slotsNeeded, Service.takenOut, Service.claimedSlots, Service.begin,
        System.begin, LoopPc.owned, ManagerPc.takenOut, ManagerPc.claimedSlots, ManagerPc.owned]
    rw [hnone]
    exact h.length_le
  have hstep : ∀ s₁ a s₂ es, (∃ q', ServiceInv env s₁ q' ∧ s₁.slotsNeeded q' ≤ env.capacity) →
      leavesRoom env s₁ a = true →
        (clientMachine Client env timeQuantum algorithm).step s₁ a = some (s₂, es) →
          ∃ q', ServiceInv env s₂ q' ∧ s₂.slotsNeeded q' ≤ env.capacity := by
    intro s₁ a s₂ es hbefore hadmits hstep
    obtain ⟨q₁, hinv, hroom⟩ := hbefore
    have hmove := client_move hinv.fits hstep
    exact ⟨_, serviceInv_step hinv hmove, slotsNeeded_step hinv hroom hadmits hmove⟩
  obtain ⟨q', hinv, hroom⟩ := exec_keeps
    (fun s => ∃ q', ServiceInv env s q' ∧ s.slotsNeeded q' ≤ env.capacity) hstep hexec hleaves
    ⟨q, serviceInv_begin h, hbegin⟩
  exact roomToPutBack hinv hroom

end Run

/-! ## One client -/

/-- The client calls `Scheduler::add_task` and takes `n` steps. -/
def adds (id : Int32) (n : Nat) : List (ServiceAction Unit) :=
  .addTask () (CpuIntensiveTask.built id 600 0) Choice.quiet ::
    List.replicate n (.client () Choice.quiet)

/-- Nothing fails, and what is executed is not completed. -/
def putBackChoice : LoopChoice :=
  { Choice.quiet with executed := .returned false (CpuIntensiveTask.built 8 600 0) }

/-- A loop takes `n` steps. -/
def runs (t : Loop) (n : Nat) : List (ServiceAction Unit) :=
  List.replicate n (.system (.loop t putBackChoice))

/-- `Scheduler::start`. -/
def starts : List (ServiceAction Unit) :=
  .system (.call .schedulerStart) :: List.replicate 5 (.system .main)

/-- The system with one client and a quantum of 500 milliseconds. -/
def oneClientMachine (env : Env) : Machine (Service Unit) (ServiceAction Unit) SystemEvent :=
  clientMachine Unit env 500 (.roundRobinScheduling 0)

/-- The client adds a task, and the processor comes back with it. -/
def putBack : List (ServiceAction Unit) := starts ++ adds 8 44 ++ runs .processor 14

theorem putBack_executes : (exec (oneClientMachine envTwo)
    (Service.begin Unit (Shm.create 2)) putBack).isSome = true := by
  decide +kernel

/-- The slot of that task is still free. -/
theorem room_to_put_back_one :
    ∃ s trace, exec (oneClientMachine envTwo) (Service.begin Unit (Shm.create 2)) putBack =
        some (s, trace) ∧
      s.takenOut = 1 ∧ RoomToPutBack envTwo s := by
  have hq : Quiescent envTwo.capacity (Shm.create 2) [] := quiescent_create (by decide)
  have hout : ((exec (oneClientMachine envTwo) (Service.begin Unit (Shm.create 2)) putBack).get
      putBack_executes).1.takenOut = 1 := by
    decide +kernel
  have hleaves : along (oneClientMachine envTwo) (leavesRoom envTwo)
      (Service.begin Unit (Shm.create 2)) putBack = true := by
    decide +kernel
  exact ⟨_, _, exec_get putBack_executes, hout,
    room_to_put_back hq (exec_get putBack_executes) hleaves⟩

/-- One task in the one slot, before `start`. -/
def oneTask : Service Unit := Service.begin Unit (Shm.holding (cpuEntry 600))

/-- The scheduler drains the one task; the client adds another, and the
processor takes it; before either of them puts its task back, the client adds
a third. -/
def overtaken : List (ServiceAction Unit) :=
  starts ++ runs .scheduler 13 ++ adds 8 44 ++ runs .processor 14 ++ adds 9 44

theorem overtaken_executes :
    (exec (oneClientMachine envOne) oneTask overtaken).isSome = true := by
  decide +kernel

/-- The state it leads to. -/
def overtakenState : Service Unit :=
  ((exec (oneClientMachine envOne) oneTask overtaken).get overtaken_executes).1

/-- **There may be no room.**  With one slot and three tasks, both loops wait
for the slot to put their task back, and no one else takes a task out. -/
theorem no_room_to_put_back :
    ∃ s trace, exec (oneClientMachine envOne) oneTask overtaken = some (s, trace) ∧
      s.system.shm.count + s.takenOut = 3 ∧
      (∀ t, (s.system.pc t).manager.queue.awaitsSlot s.system.shm = true) ∧
      s.client () = .idle ∧ ¬ RoomToPutBack envOne s := by
  have hcount : overtakenState.system.shm.count + overtakenState.takenOut = 3 := by
    decide +kernel
  have hwaits : ∀ t, (overtakenState.system.pc t).manager.queue.awaitsSlot
      overtakenState.system.shm = true := by
    decide +kernel
  have hclient : (overtakenState.client ()).call.isNone = true := by
    decide +kernel
  refine ⟨overtakenState, _, exec_get overtaken_executes, hcount, hwaits,
    ManagerPc.eq_idle hclient, ?_⟩
  intro hroom
  have hfits := hroom.fits
  rw [hcount] at hfits
  exact absurd hfits (by decide)

end TaskSheduler
