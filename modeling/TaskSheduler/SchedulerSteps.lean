import TaskSheduler.SchedulerMachine

/-!
# What a step of the system can do

`LoopMove` lists the steps of the two loops (`loopStep_move`), `SystemMove`
those of the whole system (`system_move`).  From them follows what holds after
every run, whatever the tasks do and whichever waits fail (`SystemInv`): the
segment stays consistent, each loop is in a call of its own kind, and every id
that was in the queue at the start is in the queue, in the hands of a loop, or
among those that the events say are gone.
-/

namespace TaskSheduler

open Interleaving Programs

/-! ## The moves -/

/-- Everything one step of a loop can do; `running` is the value of its flag. -/
inductive LoopMove (env : Env) (choice : LoopChoice) (shm : Shm) (running : Bool) :
    Loop → LoopPc → Shm → LoopPc → List SystemEvent → Prop
  | goesOn (h : running = true) :
      LoopMove env choice shm running .processor .whileTest shm .countTest []
  | ends {t : Loop} (h : running = false) :
      LoopMove env choice shm running t .whileTest shm .done []
  | sleeps (h : shm.count = 0) :
      LoopMove env choice shm running .processor .countTest shm .whileTest []
  | takes (h : shm.count ≠ 0) :
      LoopMove env choice shm running .processor .countTest shm
        (.managing (.inQueue .getting QueueCall.dequeue.entry)) []
  | reorders {algorithm : SchedulingAlgorithm} (h : running = true) :
      LoopMove env choice shm running .scheduler .whileTest shm
        (.managing (.testing algorithm [])) []
  | manages {t : Loop} {pc pc' : ManagerPc} {shm' : Shm}
      (hmove : ManagerMove env choice.fail shm pc shm' pc' none) :
      LoopMove env choice shm running t (.managing pc) shm' (.managing pc') []
  | got {pc pc' : ManagerPc} {shm' : Shm} {task : UnixTask}
      (hmove : ManagerMove env choice.fail shm pc shm' pc' (some (.got task))) :
      LoopMove env choice shm running .processor (.managing pc) shm' (.executing task) []
  | returns {t : Loop} {pc pc' : ManagerPc} {shm' : Shm} {reply : ManagerReply}
      (hmove : ManagerMove env choice.fail shm pc shm' pc' (some reply))
      (hreply : reply = .added ∨ reply = .reordered) :
      LoopMove env choice shm running t (.managing pc) shm' .whileTest []
  | aborts {t : Loop} {pc pc' : ManagerPc} {shm' : Shm} {message : String}
      (hmove : ManagerMove env choice.fail shm pc shm' pc' (some (.thrown message))) :
      LoopMove env choice shm running t (.managing pc) shm' .whileTest [.aborted pc]
  | finishes {task : UnixTask} :
      LoopMove env choice shm running .processor (.executing task) shm .whileTest
        [.finished task.id]
  | throws {task : UnixTask} (h : choice.executed = .thrown) :
      LoopMove env choice shm running .processor (.executing task) shm .whileTest
        [.threw task.id]
  | unfinished {task after : UnixTask} (hid : after.id = task.id) :
      LoopMove env choice shm running .processor (.executing task) shm (.keepTest after) []
  | keeps {task : UnixTask} {st : SharedTask} (h : running = true) (hkeeps : Encodes task st) :
      LoopMove env choice shm running .processor (.keepTest task) shm
        (.managing (.inQueue (.adding task) (.enqWaitSlot st))) []
  | drops {task : UnixTask} (h : running = false) :
      LoopMove env choice shm running .processor (.keepTest task) shm .whileTest
        [.dropped task.id]

/-- The loop that makes a call of the manager. -/
def ManagerCall.loop : ManagerCall → Loop
  | .reorderTasks _ => .scheduler
  | _ => .processor

/-- A loop is at a point of its own function, in a call that it makes. -/
def Loop.Fits (t : Loop) : LoopPc → Prop
  | .managing pc => pc.Fits ∧ pc.call.map ManagerCall.loop = some t
  | .countTest | .executing _ | .keepTest _ => t = .processor
  | _ => True

/-- The ids of the tasks in the hands of a loop. -/
def LoopPc.owned : LoopPc → Multiset Int32
  | .managing pc => pc.owned
  | .executing task | .keepTest task => {task.id}
  | _ => 0

/-- The ids that an event says are gone. -/
def SystemEvent.gone : SystemEvent → Multiset Int32
  | .finished id | .threw id | .dropped id => {id}
  | .aborted pc => pc.owned

/-- Outside its function's work: nothing in hand, in no call. -/
def LoopPc.resting : LoopPc → Bool
  | .off | .whileTest | .done => true
  | _ => false

theorem LoopPc.resting_eq {pc : LoopPc} (h : pc.resting = true) :
    pc.manager = .idle ∧ pc.owned = 0 ∧ ∀ t : Loop, t.Fits pc := by
  cases pc <;> first | exact ⟨rfl, rfl, fun _ => trivial⟩ | cases h

/-- A loop that stays where it is, or goes from rest to rest: what a step of
the main thread does to it. -/
theorem LoopPc.quiet {pc pc' : LoopPc}
    (h : pc' = pc ∨ (pc.resting = true ∧ pc'.resting = true)) :
    pc'.manager = pc.manager ∧ pc'.owned = pc.owned ∧ ∀ t : Loop, t.Fits pc → t.Fits pc' := by
  rcases h with rfl | ⟨hnow, hnext⟩
  · exact ⟨rfl, rfl, fun _ hfits => hfits⟩
  · obtain ⟨hidle, hnone, -⟩ := resting_eq hnow
    obtain ⟨hidle', hnone', hfits'⟩ := resting_eq hnext
    exact ⟨hidle'.trans hidle.symm, hnone'.trans hnone.symm, fun t _ => hfits' t⟩

section Moves

variable {env : Env} {choice : LoopChoice} {timeQuantum : Int}
  {algorithm : SchedulingAlgorithm} {s s' : System} {t : Loop} {shm shm' : Shm}
  {running : Bool} {pc pc' : LoopPc} {es : List SystemEvent}

theorem processTasksStep_move
    (h : processTasksStep env timeQuantum choice shm running pc = some (shm', pc', es)) :
    LoopMove env choice shm running .processor pc shm' pc' es := by
  cases pc with
  | off => cases h
  | done => cases h
  | whileTest =>
      cases hrunning : running with
      | true =>
          subst hrunning
          cases h
          exact .goesOn rfl
      | false =>
          subst hrunning
          cases h
          exact .ends rfl
  | countTest =>
      simp only [processTasksStep] at h
      by_cases hcount : 0 < shm.count
      · rw [if_pos hcount, Option.map_eq_some_iff] at h
        obtain ⟨pc₁, hstart, heq⟩ := h
        cases heq
        cases start_begins hstart
        exact .takes (Nat.pos_iff_ne_zero.mp hcount)
      · rw [if_neg hcount] at h
        cases h
        exact .sleeps (Nat.eq_zero_of_not_pos hcount)
  | managing pc =>
      simp only [processTasksStep, Option.map_eq_some_iff] at h
      obtain ⟨⟨shm₁, pc₁, reply⟩, hstep, heq⟩ := h
      have hmove := managerStep_move hstep
      cases reply with
      | none =>
          cases heq
          exact .manages hmove
      | some reply =>
          cases reply with
          | got task =>
              cases heq
              exact .got hmove
          | thrown message =>
              cases heq
              exact .aborts hmove
          | added =>
              cases heq
              exact .returns hmove (.inl rfl)
          | reordered =>
              cases heq
              exact .returns hmove (.inr rfl)
  | executing task =>
      simp only [processTasksStep, Option.map_eq_some_iff] at h
      obtain ⟨total, -, heq⟩ := h
      cases hexecuted : choice.executed with
      | thrown =>
          rw [hexecuted] at heq
          cases heq
          exact .throws hexecuted
      | returned completed after =>
          rw [hexecuted] at heq
          by_cases hdone : (decide (total < timeQuantum) || completed) = true
          · simp only [hdone, if_true] at heq
            cases heq
            exact .finishes
          · simp only [hdone] at heq
            cases heq
            exact .unfinished rfl
  | keepTest task =>
      simp only [processTasksStep] at h
      by_cases hrunning : running = true
      · rw [if_pos hrunning, Option.map_eq_some_iff] at h
        obtain ⟨pc₁, hstart, heq⟩ := h
        cases heq
        cases start_begins hstart with
        | addTask hkeeps => exact .keeps hrunning hkeeps
      · rw [if_neg hrunning] at h
        cases h
        exact .drops (Bool.eq_false_of_not_eq_true hrunning)

theorem scheduleStep_move (hfits : Loop.scheduler.Fits pc)
    (h : scheduleStep env algorithm choice shm running pc = some (shm', pc', es)) :
    LoopMove env choice shm running .scheduler pc shm' pc' es := by
  cases pc with
  | whileTest =>
      simp only [scheduleStep] at h
      by_cases hrunning : running = true
      · rw [if_pos hrunning, Option.map_eq_some_iff] at h
        obtain ⟨pc₁, hstart, heq⟩ := h
        cases heq
        cases start_begins hstart
        exact .reorders hrunning
      · rw [if_neg hrunning] at h
        cases h
        exact .ends (Bool.eq_false_of_not_eq_true hrunning)
  | managing pc =>
      simp only [scheduleStep, Option.map_eq_some_iff] at h
      obtain ⟨⟨shm₁, pc₁, reply⟩, hstep, heq⟩ := h
      have hmove := managerStep_move hstep
      cases reply with
      | none =>
          cases heq
          exact .manages hmove
      | some reply =>
          cases reply with
          | got task =>
              have hown := hfits.2
              rw [hmove.got_call] at hown
              cases hown
          | thrown message =>
              cases heq
              exact .aborts hmove
          | added =>
              cases heq
              exact .returns hmove (.inl rfl)
          | reordered =>
              cases heq
              exact .returns hmove (.inr rfl)
  | _ => cases h

/-- **Every step of a loop is on the list.** -/
theorem loopStep_move (hfits : t.Fits (s.pc t))
    (h : loopStep env timeQuantum algorithm choice s t = some (shm', pc', es)) :
    LoopMove env choice s.shm (s.running t) t (s.pc t) shm' pc' es := by
  cases t with
  | processor => exact processTasksStep_move h
  | scheduler => exact scheduleStep_move hfits h

/-- Everything one step of the system can do. -/
inductive SystemMove (env : Env) (s : System) : SystemAction → System → List SystemEvent → Prop
  /-- A step of the main thread. -/
  | quiet {a : SystemAction} {s' : System} {value : Bool}
      (ha : ∀ t choice, a ≠ .loop t choice)
      (hshm : s'.shm = { s.shm with schedulerRunning := value })
      (hpc : ∀ t, s'.pc t = s.pc t ∨
        ((s.pc t).resting = true ∧ (s'.pc t).resting = true)) :
      SystemMove env s a s' []
  /-- A step of a loop. -/
  | loop {t : Loop} {choice : LoopChoice} {shm' : Shm} {pc' : LoopPc}
      {es : List SystemEvent}
      (hmove : LoopMove env choice s.shm (s.running t) t (s.pc t) shm' pc' es) :
      SystemMove env s (.loop t choice)
        { s with shm := shm', pc := Function.update s.pc t pc' } es

theorem mainStep_quiet (h : mainStep s = some s') : SystemMove env s .main s' [] := by
  have hmain : ∀ t choice, SystemAction.main ≠ .loop t choice := fun _ _ hne => by cases hne
  have hupdate : ∀ {t : Loop} {next : LoopPc}, (s.pc t).resting = true →
      next.resting = true → ∀ u, Function.update s.pc t next u = s.pc u ∨
        ((s.pc u).resting = true ∧ (Function.update s.pc t next u).resting = true) := by
    intro t next hnow hnext u
    by_cases hut : u = t
    · subst hut
      exact .inr ⟨hnow, by rw [Function.update_self]; exact hnext⟩
    · exact .inl (Function.update_of_ne hut _ _)
  have hsame : s.shm = { s.shm with schedulerRunning := s.shm.schedulerRunning } := rfl
  unfold mainStep at h
  cases hops : s.main with
  | nil => simp [hops] at h
  | cons op rest =>
      rw [hops] at h
      cases op with
      | setSchedulerRunning value =>
          cases h
          exact .quiet hmain rfl fun t => .inl rfl
      | setRunning t value =>
          cases h
          exact .quiet hmain hsame fun t => .inl rfl
      | launch t =>
          cases hpc : s.pc t <;> simp only [hpc, Option.some.injEq, reduceCtorEq] at h
          subst h
          exact .quiet hmain hsame
            (hupdate (by rw [hpc]; rfl) rfl)
      | join t =>
          cases hpc : s.pc t <;> simp only [hpc, Option.some.injEq, reduceCtorEq] at h
          case off =>
            subst h
            exact .quiet hmain hsame fun t => .inl rfl
          case done =>
            subst h
            exact .quiet hmain hsame
              (hupdate (by rw [hpc]; rfl) rfl)

/-- **Every step of the system is on the list.** -/
theorem system_move {a : SystemAction} (hfits : ∀ t : Loop, t.Fits (s.pc t))
    (h : (systemMachine env timeQuantum algorithm).step s a = some (s', es)) :
    SystemMove env s a s' es := by
  cases a with
  | call call =>
      simp only [systemMachine] at h
      cases hmain : s.main.isEmpty with
      | false => simp [hmain] at h
      | true =>
          simp only [hmain, if_true, Option.some.injEq, Prod.mk.injEq] at h
          obtain ⟨rfl, rfl⟩ := h
          have hsame : s.shm = { s.shm with schedulerRunning := s.shm.schedulerRunning } := rfl
          exact .quiet (fun _ _ hne => by cases hne) hsame fun t => .inl rfl
  | main =>
      simp only [systemMachine, Option.map_eq_some_iff, Prod.mk.injEq] at h
      obtain ⟨s₁, hstep, rfl, rfl⟩ := h
      exact mainStep_quiet hstep
  | loop t choice =>
      simp only [systemMachine, Option.map_eq_some_iff, Prod.mk.injEq] at h
      obtain ⟨⟨shm₁, pc₁, es₁⟩, hstep, rfl, rfl⟩ := h
      exact .loop (loopStep_move (hfits t) hstep)

/-! ## What every run keeps -/

/-- A call of the manager that replies leaves its thread idle. -/
theorem ManagerMove.replied {fail : Bool} {reply : ManagerReply} {pc₁ pc₂ : ManagerPc}
    (h : ManagerMove env fail shm pc₁ shm' pc₂ (some reply)) : pc₂ = .idle := by
  rcases h.call_eq with ⟨hnone, -⟩ | ⟨-, hidle⟩
  · cases hnone
  · exact hidle

/-- A loop stays within its own function and its own calls. -/
theorem LoopMove.fits (h : LoopMove env choice shm running t pc shm' pc' es)
    (hfits : t.Fits pc) : t.Fits pc' := by
  cases h with
  | goesOn => rfl
  | ends => trivial
  | sleeps => trivial
  | takes => exact ⟨rfl, rfl⟩
  | reorders => exact ⟨trivial, rfl⟩
  | manages hmove =>
      obtain ⟨hkind, hcall⟩ := hfits
      refine ⟨hmove.fits hkind, ?_⟩
      rcases hmove.call_eq with ⟨-, hsame⟩ | ⟨hsome, -⟩
      · rw [hsame]
        exact hcall
      · cases hsome
  | got => rfl
  | returns => trivial
  | aborts => trivial
  | finishes => trivial
  | throws => trivial
  | unfinished => rfl
  | keeps => exact ⟨rfl, rfl⟩
  | drops => trivial

/-- A step of a loop keeps the segment consistent. -/
theorem LoopMove.countedInv {Tid : Type*} [Fintype Tid] [DecidableEq Tid]
    {q : List SharedTask} {queues : Tid → QueuePc} {u : Tid}
    (h : LoopMove env choice shm running t pc shm' pc' es) (ht : queues u = pc.manager.queue)
    (hinv : CountedInv env.capacity q ⟨shm, queues⟩) :
    CountedInv env.capacity (pc.manager.queue.effect q)
      ⟨shm', Function.update queues u pc'.manager.queue⟩ := by
  have hreplied : ∀ {pc₁ pc₂ : ManagerPc} {shm₁ : Shm} {reply : ManagerReply},
      queues u = pc₁.queue → ManagerMove env choice.fail shm pc₁ shm₁ pc₂ (some reply) →
        CountedInv env.capacity (pc₁.queue.effect q)
          ⟨shm₁, Function.update queues u .idle⟩ := by
    intro pc₁ pc₂ shm₁ reply hqueue hmove
    have hkept := hmove.countedInv hqueue hinv
    rw [hmove.replied] at hkept
    exact hkept
  have hstays : queues u = .idle →
      CountedInv env.capacity q ⟨shm, Function.update queues u .idle⟩ := by
    intro hidle
    rw [← hidle, Function.update_eq_self]
    exact hinv
  cases h with
  | goesOn => exact hstays ht
  | ends => exact hstays ht
  | sleeps => exact hstays ht
  | takes => exact hinv.starts ht Begins.getNextTask.starts.1
  | reorders => exact hinv.starts ht Begins.reorderTasks.starts.1
  | manages hmove => exact hmove.countedInv ht hinv
  | got hmove => exact hreplied ht hmove
  | returns hmove => exact hreplied ht hmove
  | aborts hmove => exact hreplied ht hmove
  | finishes => exact hstays ht
  | throws => exact hstays ht
  | unfinished => exact hstays ht
  | keeps _ hkeeps => exact hinv.starts ht (Begins.addTask hkeeps).starts.1
  | drops => exact hstays ht

/-- The ids that the events say are gone. -/
def goneIds (es : List SystemEvent) : Multiset Int32 := (es.map SystemEvent.gone).sum

@[simp] theorem goneIds_nil : goneIds [] = 0 := rfl

@[simp] theorem goneIds_singleton (e : SystemEvent) : goneIds [e] = e.gone := by
  simp [goneIds]

@[simp] theorem goneIds_append (es fs : List SystemEvent) :
    goneIds (es ++ fs) = goneIds es + goneIds fs := by
  simp [goneIds]

/-- **A step of a loop accounts for every id.** -/
theorem LoopMove.ids {q : List SharedTask}
    (h : LoopMove env choice shm running t pc shm' pc' es)
    (hhead : ∀ task, pc.manager.queue = .deqSubCount task → q = task :: q.tail) :
    entryIds (pc.manager.queue.effect q) + pc'.owned + goneIds es =
      entryIds q + pc.owned := by
  cases h with
  | manages hmove =>
      have hids := hmove.ids (fun _ hne => nomatch hne) hhead
      simpa [repliedIds, LoopPc.owned, LoopPc.manager] using hids
  | got hmove =>
      have hids := hmove.ids (fun _ hne => by cases hne) hhead
      rw [hmove.replied] at hids
      simpa [repliedIds, LoopPc.owned, LoopPc.manager, ManagerPc.owned] using hids
  | @returns t pc pc' shm' reply hmove hreply =>
      have hids := hmove.ids (by rcases hreply with rfl | rfl <;> simp) hhead
      rw [hmove.replied] at hids
      have hnone : repliedIds (some reply) = 0 := by rcases hreply with rfl | rfl <;> rfl
      simpa [hnone, LoopPc.owned, LoopPc.manager, ManagerPc.owned] using hids
  | aborts hmove =>
      have hsilent := (hmove.thrown q).2
      simp [LoopPc.owned, LoopPc.manager, hsilent, SystemEvent.gone]
  | takes => simp [LoopPc.owned, LoopPc.manager, ManagerPc.owned, ManagerPc.queue,
      QueuePc.effect, Purpose.kept, QueueCall.entry, QueuePc.toStore, QueuePc.taken]
  | reorders => simp [LoopPc.owned, LoopPc.manager, ManagerPc.owned, ManagerPc.queue,
      QueuePc.effect]
  | unfinished hid => simp [LoopPc.owned, LoopPc.manager, ManagerPc.queue, QueuePc.effect, hid]
  | keeps _ hkeeps => simp [LoopPc.owned, LoopPc.manager, ManagerPc.owned, ManagerPc.queue,
      QueuePc.effect, Purpose.kept, QueuePc.toStore, QueuePc.taken, hkeeps.id]
  | _ => simp [LoopPc.owned, LoopPc.manager, ManagerPc.queue, QueuePc.effect,
      SystemEvent.gone]

/-- What every run keeps, with `q` the counted queue. -/
structure SystemInv (env : Env) (initial : Multiset Int32) (trace : List SystemEvent)
    (s : System) (q : List SharedTask) : Prop where
  counted : CountedInv env.capacity q ⟨s.shm, fun t => (s.pc t).manager.queue⟩
  fits : ∀ t : Loop, t.Fits (s.pc t)
  ids : entryIds q + ∑ t, (s.pc t).owned + goneIds trace = initial

/-- Before the first call every id is in the queue. -/
theorem systemInv_begin {q : List SharedTask} (h : Quiescent env.capacity shm q) :
    SystemInv env (entryIds q) [] (System.begin shm) q := by
  refine ⟨h.countedInv fun _ => rfl, fun _ => trivial, ?_⟩
  simp [System.begin, LoopPc.owned]

/-- The segment stays consistent when `set_scheduler_running` writes its flag. -/
theorem CountedInv.flagged {Tid : Type*} [Fintype Tid] {capacity : Nat}
    {q : List SharedTask} {queues : Tid → QueuePc}
    (h : CountedInv capacity q ⟨shm, queues⟩) (value : Bool) :
    CountedInv capacity q ⟨{ shm with schedulerRunning := value }, queues⟩ := by
  obtain ⟨entered, hinv, hout, hin⟩ := h
  have hring : SameRing shm { shm with schedulerRunning := value } :=
    ⟨rfl, rfl, rfl, rfl, rfl, rfl⟩
  refine ⟨entered, ⟨hinv.mutex, hinv.slots, hinv.items, fun hall => ?_, fun t ht => ?_⟩,
    hout, hin⟩
  · exact hring.represents (hinv.ring hall)
  · exact hring.sectionOk (hinv.sections t ht)

/-- **Every step of the system keeps the invariant.** -/
theorem systemInv_step {initial : Multiset Int32} {trace : List SystemEvent}
    {q : List SharedTask} {a : SystemAction} (hinv : SystemInv env initial trace s q)
    (h : SystemMove env s a s' es) : ∃ q', SystemInv env initial (trace ++ es) s' q' := by
  cases h with
  | @quiet a s' value ha hshm hpc =>
      refine ⟨q, ?_, fun t => (LoopPc.quiet (hpc t)).2.2 t (hinv.fits t), ?_⟩
      · have hkept := hinv.counted.flagged value
        simp only [hshm, (LoopPc.quiet (hpc _)).1]
        exact hkept
      · simp only [(LoopPc.quiet (hpc _)).2.1, List.append_nil]
        exact hinv.ids
  | @loop t choice shm' pc' es hmove =>
      have hhead : ∀ task, (s.pc t).manager.queue = .deqSubCount task → q = task :: q.tail :=
        fun task htask => hinv.counted.head_eq (t := t) htask
      refine ⟨(s.pc t).manager.queue.effect q, ?_, ?_, ?_⟩
      · have hkept := hmove.countedInv (u := t) rfl hinv.counted
        have hqueues : (fun u => (Function.update s.pc t pc' u).manager.queue) =
            Function.update (fun u => (s.pc u).manager.queue) t pc'.manager.queue := by
          funext u
          exact Function.apply_update (fun _ pc => pc.manager.queue) s.pc t pc' u
        simp only [hqueues]
        exact hkept
      · rw [Function.forall_update_iff s.pc fun (u : Loop) pc => u.Fits pc]
        exact ⟨hmove.fits (hinv.fits t), fun u _ => hinv.fits u⟩
      · have hmoved := sum_moved LoopPc.owned s.pc t pc'
        have hids := hmove.ids hhead
        rw [← hinv.ids, goneIds_append]
        refine add_right_cancel (b := (s.pc t).owned) ?_
        calc entryIds ((s.pc t).manager.queue.effect q) +
              ∑ u, (Function.update s.pc t pc' u).owned +
              (goneIds trace + goneIds es) + (s.pc t).owned
            = entryIds ((s.pc t).manager.queue.effect q) + goneIds es + goneIds trace +
                ((∑ u, (Function.update s.pc t pc' u).owned) + (s.pc t).owned) := by abel
          _ = (entryIds ((s.pc t).manager.queue.effect q) + pc'.owned + goneIds es) +
                goneIds trace + ∑ u, (s.pc u).owned := by rw [hmoved]; abel
          _ = entryIds q + ∑ u, (s.pc u).owned + goneIds trace + (s.pc t).owned := by
              rw [hids]; abel

end Moves

end TaskSheduler
