import TaskSheduler.PutBackRoom
import TaskSheduler.Simulation
import Mathlib.Data.Multiset.UnionInter

/-!
# The books of the service

Processor, scheduler, main thread and any number of clients run over one
manager.  An observer writes down every task a client submits and every task
that leaves for good: executed for the last time, lost to an exception or to
the flag `running_`, or in the hands of a call that threw.

`serviceLedger_step` is the law of one step, whoever takes it: what is queued, what is
in somebody's hands and what has left are together what was there at first and
what was submitted.  `service_ledger` is the law of every run, so no
interleaving loses a task without an entry in the books, and none duplicates or
invents one.
-/

namespace TaskSheduler

open Interleaving

/-- An entry in the books. -/
inductive LedgerEntry
  | submitted (id : Int32)
  | loop (e : SystemEvent)
  /-- A client's call has thrown at this point. -/
  | abandoned (pc : ManagerPc)

/-- The ids that an entry says have been submitted. -/
def LedgerEntry.submits : LedgerEntry → Multiset Int32
  | .submitted id => {id}
  | _ => 0

/-- The ids that an entry says have left for good. -/
def LedgerEntry.departs : LedgerEntry → Multiset Int32
  | .submitted _ => 0
  | .loop e => e.gone
  | .abandoned pc => pc.owned

/-- The ids submitted so far. -/
def submittedIds (entries : List LedgerEntry) : Multiset Int32 :=
  (entries.map LedgerEntry.submits).sum

/-- The ids that have left so far. -/
def departedIds (entries : List LedgerEntry) : Multiset Int32 :=
  (entries.map LedgerEntry.departs).sum

@[simp] theorem submittedIds_append (entries more : List LedgerEntry) :
    submittedIds (entries ++ more) = submittedIds entries + submittedIds more := by
  simp [submittedIds]

@[simp] theorem departedIds_append (entries more : List LedgerEntry) :
    departedIds (entries ++ more) = departedIds entries + departedIds more := by
  simp [departedIds]

theorem submittedIds_loop (es : List SystemEvent) : submittedIds (es.map .loop) = 0 := by
  induction es with
  | nil => rfl
  | cons e rest ih =>
      rw [List.map_cons, ← List.singleton_append, submittedIds_append, ih]
      rfl

theorem departedIds_loop (es : List SystemEvent) : departedIds (es.map .loop) = goneIds es := by
  rw [departedIds, goneIds, List.map_map]
  rfl

variable {Client : Type*}

/-- What the observer writes down when a client's call has this reply. -/
def clientEntries (pc : ManagerPc) : Option ManagerReply → List LedgerEntry
  | some (.thrown _) => [.abandoned pc]
  | _ => []

/-- What the observer writes down at a step. -/
def ledgerEntries (env : Env) (s : Service Client) :
    ServiceAction Client → List SystemEvent → List LedgerEntry
  | .system _, es => es.map .loop
  | .addTask _ task _, _ => [.submitted task.id]
  | .client c choice, _ =>
      match managerStep env choice s.system.shm (s.client c) with
      | some (_, _, reply) => clientEntries (s.client c) reply
      | none => []

/-- Only a client that begins to add a task makes a submission. -/
theorem submittedIds_ledgerEntries {env : Env} {s : Service Client} {a : ServiceAction Client}
    {es : List SystemEvent} (ha : ∀ c task choice, a ≠ .addTask c task choice) :
    submittedIds (ledgerEntries env s a es) = 0 := by
  cases a with
  | addTask c task choice => exact absurd rfl (ha c task choice)
  | system a => exact submittedIds_loop es
  | client c choice =>
      simp only [ledgerEntries]
      split
      case h_1 reply hmanager => rcases reply with _ | _ | _ <;> rfl
      case h_2 => rfl

/-- The service with its books. -/
def ledgerMachine (Client : Type*) [DecidableEq Client] (env : Env) (timeQuantum : Int)
    (algorithm : SchedulingAlgorithm) :
    Machine (Service Client) (ServiceAction Client) LedgerEntry :=
  (clientMachine Client env timeQuantum algorithm).watch (ledgerEntries env)

/-- The ids of the tasks in somebody's hands. -/
def Service.inHands [Fintype Client] (s : Service Client) : Multiset Int32 :=
  ∑ t, (s.system.pc t).owned + ∑ c, (s.client c).owned

section Steps

variable [DecidableEq Client] {env : Env} {timeQuantum : Int} {algorithm : SchedulingAlgorithm}
  {s s' : Service Client}

/-- A client never asks for a task. -/
def ManagerPc.Gives (pc : ManagerPc) : Prop := pc.call ≠ some .getNextTask

/-- A step of a client, with the reply of its call. -/
theorem addTaskStep_move {choice : Choice} {shm shm' : Shm} {pc pc' : ManagerPc}
    (h : addTaskStep env algorithm choice shm pc = some (shm', pc')) :
    ∃ middle reply, managerStep env choice shm pc = some (shm', middle, reply) ∧
      ((reply = some .added ∧ pc' = .testing algorithm []) ∨
        (reply ≠ some .added ∧ pc' = middle)) := by
  simp only [addTaskStep, Option.bind_eq_some_iff] at h
  obtain ⟨⟨shm₁, middle, reply⟩, hstep, hgoes⟩ := h
  cases reply with
  | none =>
      cases hgoes
      exact ⟨_, _, hstep, .inr ⟨by simp, rfl⟩⟩
  | some reply =>
      cases reply with
      | added =>
          simp only [Option.map_eq_some_iff] at hgoes
          obtain ⟨pc₁, hstart, heq⟩ := hgoes
          cases heq
          cases start_begins hstart
          exact ⟨_, _, hstep, .inl ⟨rfl, rfl⟩⟩
      | _ =>
          cases hgoes
          exact ⟨_, _, hstep, .inr ⟨by simp, rfl⟩⟩

/-- **What a client's step does to the ids.**  Nothing is lost unless the call
throws, and then exactly what it held. -/
theorem addTaskStep_ids {choice : Choice} {shm shm' : Shm} {pc pc' : ManagerPc}
    {q : List SharedTask} (h : addTaskStep env algorithm choice shm pc = some (shm', pc'))
    (hgives : pc.Gives) (hhead : ∀ task, pc.queue = .deqSubCount task → q = task :: q.tail) :
    pc'.Gives ∧ ∃ middle reply, managerStep env choice shm pc = some (shm', middle, reply) ∧
      entryIds (pc.queue.effect q) + pc'.owned + departedIds (clientEntries pc reply) =
        entryIds q + pc.owned := by
  obtain ⟨middle, reply, hstep, hgoes⟩ := addTaskStep_move h
  have hmove := managerStep_move hstep
  cases reply with
  | none =>
      obtain ⟨-, rfl⟩ := hgoes.resolve_left (by simp)
      have hids := hmove.ids (fun _ hne => by cases hne) hhead
      obtain ⟨-, hsame⟩ := hmove.call_eq.resolve_right (by simp)
      refine ⟨?_, _, none, hstep, by simpa [repliedIds, clientEntries, departedIds] using hids⟩
      rw [ManagerPc.Gives, hsame]
      exact hgives
  | some reply =>
      have hidle := hmove.replied
      subst hidle
      cases reply with
      | got task => exact absurd hmove.got_call hgives
      | thrown message =>
          obtain ⟨-, rfl⟩ := hgoes.resolve_left (by simp)
          refine ⟨by simp [ManagerPc.Gives, ManagerPc.call], _, _, hstep, ?_⟩
          rw [(hmove.thrown q).2]
          simp [ManagerPc.owned, clientEntries, departedIds, LedgerEntry.departs]
      | added =>
          obtain ⟨-, rfl⟩ := hgoes.resolve_right (by simp)
          have hids := hmove.ids (by simp) hhead
          refine ⟨by simp [ManagerPc.Gives, ManagerPc.call], _, _, hstep, ?_⟩
          simpa [ManagerPc.owned, repliedIds, clientEntries, departedIds] using hids
      | reordered =>
          obtain ⟨-, rfl⟩ := hgoes.resolve_left (by simp)
          have hids := hmove.ids (by simp) hhead
          refine ⟨by simp [ManagerPc.Gives, ManagerPc.call], _, _, hstep, ?_⟩
          simpa [ManagerPc.owned, repliedIds, clientEntries, departedIds] using hids

variable [Fintype Client]

/-- What every run keeps, with `q` the counted queue. -/
structure LedgerInv (env : Env) (initial : Multiset Int32) (entries : List LedgerEntry)
    (s : Service Client) (q : List SharedTask) : Prop where
  service : ServiceInv env s q
  gives : ∀ c, (s.client c).Gives
  balance : entryIds q + s.inHands + departedIds entries = initial + submittedIds entries

omit [DecidableEq Client] in
/-- At first every id is in the queue. -/
theorem ledgerInv_begin {shm : Shm} {q : List SharedTask} (h : Quiescent env.capacity shm q) :
    LedgerInv env (entryIds q) [] (Service.begin Client shm) q := by
  refine ⟨serviceInv_begin h, fun c => by simp [Service.begin, ManagerPc.Gives, ManagerPc.call],
    ?_⟩
  simp [Service.inHands, Service.begin, System.begin, LoopPc.owned, ManagerPc.owned, departedIds,
    submittedIds]

omit [DecidableEq Client] [Fintype Client] in
/-- Books that balanced still do if one column accounts for its own change. -/
theorem balance_moved {queued queued' moved moved' rest gone more first submitted : Multiset Int32}
    (hmoved : queued' + moved' + more = queued + moved)
    (h : queued + (rest + moved) + gone = first + submitted) :
    queued' + (rest + moved') + (gone + more) = first + submitted := by
  calc queued' + (rest + moved') + (gone + more)
      = queued' + moved' + more + (rest + gone) := by abel
    _ = queued + (rest + moved) + gone := by rw [hmoved]; abel
    _ = first + submitted := h

/-- A client begins to add a task. -/
theorem LedgerInv.calls {initial : Multiset Int32} {entries : List LedgerEntry}
    {q : List SharedTask} (hinv : LedgerInv env initial entries s q) {c : Client}
    {task : UnixTask} {st : SharedTask} (hidle : s.client c = .idle) (hkeeps : Encodes task st) :
    LedgerInv env initial (entries ++ [.submitted task.id])
      { s with client :=
          Function.update s.client c (.inQueue (.adding task) (.enqWaitSlot st)) } q := by
  have hbalance := hinv.balance
  have hmove : ServiceMove env .priorityScheduling s (.addTask c task Choice.quiet)
      { s with client :=
          Function.update s.client c (.inQueue (.adding task) (.enqWaitSlot st)) } [] :=
    .calls hidle hkeeps
  refine ⟨serviceInv_step hinv.service hmove, fun d => ?_, ?_⟩
  · by_cases hd : d = c
    · subst hd
      simp [ManagerPc.Gives, ManagerPc.call, Purpose.call]
    · simpa only [Function.update_of_ne hd] using hinv.gives d
  · have hmoved := sum_moved ManagerPc.owned s.client c
      (.inQueue (.adding task) (.enqWaitSlot st))
    have hown : (ManagerPc.inQueue (.adding task) (.enqWaitSlot st)).owned = {task.id} := by
      simp [ManagerPc.owned, Purpose.kept, QueuePc.toStore, QueuePc.taken, hkeeps.id]
    rw [hidle, ManagerPc.owned, add_zero, hown] at hmoved
    have hsubmitted : submittedIds [.submitted task.id] = {task.id} := rfl
    have hdeparted : departedIds [.submitted task.id] = 0 := rfl
    simp only [Service.inHands] at hbalance ⊢
    rw [hmoved, submittedIds_append, departedIds_append, hsubmitted, hdeparted, add_zero,
      ← add_assoc initial, ← hbalance]
    abel

/-- **One step, and the books still balance.** -/
theorem serviceLedger_step {initial : Multiset Int32} {entries es : List LedgerEntry}
    {q : List SharedTask} {a : ServiceAction Client} (hinv : LedgerInv env initial entries s q)
    (h : (ledgerMachine Client env timeQuantum algorithm).step s a = some (s', es)) :
    LedgerInv env initial (entries ++ es) s' ((a.queue s).effect q) := by
  obtain ⟨events, hstep, rfl⟩ := watch_step h
  have hservice := serviceInv_step hinv.service (client_move hinv.service.fits hstep)
  have hbalance := hinv.balance
  cases a with
  | system a =>
      simp only [clientMachine, Option.map_eq_some_iff, Prod.mk.injEq] at hstep
      obtain ⟨⟨system', es₁⟩, hsystem, rfl, rfl⟩ := hstep
      refine ⟨hservice, hinv.gives, ?_⟩
      rw [submittedIds_append, departedIds_append, ledgerEntries, submittedIds_loop,
        departedIds_loop, add_zero]
      cases system_move hinv.service.fits hsystem with
      | quiet ha hshm hpc =>
          rw [ServiceAction.queue_quiet s ha, goneIds_nil, add_zero, ← hbalance]
          simp only [Service.inHands, (LoopPc.quiet (hpc _)).2.1, QueuePc.effect]
      | @loop t choice shm' pc' es hmove =>
          have hmoved := account_moved LoopPc.owned s.system.pc t pc'
            (hmove.ids fun task htask => hinv.service.counted.head_eq (t := .inl t) htask)
          simp only [Service.inHands] at hbalance ⊢
          rw [add_comm (∑ u, _) (∑ c, _)] at hbalance ⊢
          exact balance_moved hmoved hbalance
  | addTask c task choice =>
      simp only [clientMachine] at hstep
      split at hstep
      case h_2 => cases hstep
      case h_1 hidle =>
        simp only [Option.map_eq_some_iff, Prod.mk.injEq] at hstep
        obtain ⟨pc, hstart, rfl, rfl⟩ := hstep
        cases start_begins hstart with
        | addTask hkeeps => exact hinv.calls hidle hkeeps
  | client c choice =>
      simp only [clientMachine, Option.map_eq_some_iff, Prod.mk.injEq] at hstep
      obtain ⟨⟨shm', pc'⟩, hone, rfl, rfl⟩ := hstep
      obtain ⟨hgives, middle, reply, hmanager, hids⟩ := addTaskStep_ids hone (hinv.gives c)
        fun task htask => hinv.service.counted.head_eq (t := .inr c) htask
      have hmoved := account_moved ManagerPc.owned s.client c pc' hids
      refine ⟨hservice, fun d => ?_, ?_⟩
      · by_cases hd : d = c
        · subst hd
          simpa only [Function.update_self] using hgives
        · simpa only [Function.update_of_ne hd] using hinv.gives d
      · have hentries : ledgerEntries env s (.client c choice) [] =
            clientEntries (s.client c) reply := by
          simp only [ledgerEntries, hmanager]
        have hnone : submittedIds (clientEntries (s.client c) reply) = 0 := by
          rcases reply with _ | _ | _ <;> rfl
        rw [hentries, submittedIds_append, departedIds_append, hnone, add_zero]
        exact balance_moved hmoved hbalance

/-- The invariant of every run from a quiescent segment. -/
theorem ledgerInv_run {shm : Shm} {q : List SharedTask} {entries : List LedgerEntry}
    (h : Quiescent env.capacity shm q)
    (hrun : Run (ledgerMachine Client env timeQuantum algorithm) (Service.begin Client shm)
      entries s) :
    ∃ q', LedgerInv env (entryIds q) entries s q' :=
  hrun.invariant (fun entries s => ∃ q', LedgerInv env (entryIds q) entries s q')
    ⟨q, ledgerInv_begin h⟩ fun _ _ _ _ _ hinv hstep =>
      hinv.elim fun _ hinv => ⟨_, serviceLedger_step hinv hstep⟩

omit [DecidableEq Client] in
/-- The tasks that are queued, in hands or gone are as many as there were and
were submitted. -/
theorem LedgerInv.count_add_card {initial : Multiset Int32} {entries : List LedgerEntry}
    {q : List SharedTask} (hinv : LedgerInv env initial entries s q) :
    s.system.shm.count + Multiset.card (s.inHands + departedIds entries) =
      Multiset.card initial + Multiset.card (submittedIds entries) := by
  have hbalance := hinv.balance
  rw [add_assoc] at hbalance
  have hcard := congrArg Multiset.card hbalance
  rw [Multiset.card_add, card_entryIds, Multiset.card_add initial] at hcard
  rw [hinv.service.counted.count_eq]
  exact hcard

/-- **Every task is somewhere, and nowhere twice.**  In every run of processor,
scheduler, main thread and clients, whatever `execute` does and whichever waits
fail: the count of the segment, the tasks in somebody's hands and those that
left for good are as many as were there and were submitted; the ids in hands
and departed are among them, each as often as it came in at most; and at every
moment the counted queue, which is what the segment holds whenever no queue
call is under way, has exactly the remaining ones. -/
theorem service_ledger {shm : Shm} {q : List SharedTask} {entries : List LedgerEntry}
    (h : Quiescent env.capacity shm q)
    (hrun : Run (ledgerMachine Client env timeQuantum algorithm) (Service.begin Client shm)
      entries s) :
    s.system.shm.count + Multiset.card (s.inHands + departedIds entries) =
      q.length + Multiset.card (submittedIds entries) ∧
    s.inHands + departedIds entries ≤ entryIds q + submittedIds entries ∧
    ∃ q', CountedInv env.capacity q' ⟨s.system.shm, s.queues⟩ ∧
      entryIds q' + (s.inHands + departedIds entries) = entryIds q + submittedIds entries ∧
      ((∀ u, s.queues u = .idle) → Quiescent env.capacity s.system.shm q') := by
  obtain ⟨q', hinv⟩ := ledgerInv_run h hrun
  have hbalance := hinv.balance
  rw [add_assoc] at hbalance
  refine ⟨?_, ?_, q', hinv.service.counted, hbalance, hinv.service.counted.quiescent⟩
  · rw [hinv.count_add_card, card_entryIds]
  · rw [← hbalance]
    exact Multiset.le_add_left _ _

end Steps

/-- Both loops hold a task each, in calls of `enqueue` that wait, and a third
one is queued: one was there, two were submitted. -/
theorem service_ledger_overtaken :
    ∃ s entries, Run (ledgerMachine Unit envOne 500 (.roundRobinScheduling 0)) oneTask entries s ∧
      Multiset.card (submittedIds entries) = 2 ∧
      s.system.shm.count + Multiset.card (s.inHands + departedIds entries) = 1 + 2 ∧
      ∃ q, CountedInv envOne.capacity q ⟨s.system.shm, s.queues⟩ ∧
        entryIds q + (s.inHands + departedIds entries) =
          entryIds [cpuEntry 600] + submittedIds entries := by
  have hexec : (exec (ledgerMachine Unit envOne 500 (.roundRobinScheduling 0)) oneTask
      overtaken).map (fun r => Multiset.card (submittedIds r.2)) = some 2 := by
    decide +kernel
  obtain ⟨⟨s, entries⟩, hrun, hcard⟩ := Option.map_eq_some_iff.mp hexec
  have hq : Quiescent envOne.capacity (Shm.holding (cpuEntry 600)) [cpuEntry 600] :=
    quiescent_holding _
  obtain ⟨hledger, -, q, hcounted, hids, -⟩ := service_ledger hq (exec_run hrun)
  rw [hcard] at hledger
  exact ⟨s, entries, exec_run hrun, hcard, hledger, q, hcounted, hids⟩

end TaskSheduler
