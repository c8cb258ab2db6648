import TaskSheduler.LifecycleSteps

/-!
# Which objects can be used as a queue

`create` is the only call that opens the semaphores; `attach` maps the segment
and leaves the semaphores as they are, and the queue calls check nothing but
`print`, which looks at the mapping.  `isCreated` and `isAttached` say of an
object what the calls on it so far amount to.  On an attached object the queue
calls act on open handles exactly if it has been created too; an object that
is not attached does not refuse them, since `size` reads through the null
mapping.

Without copies no two objects hold the same handle; this is what makes the
state of an object depend on the calls on that object alone (`Ledger`).
-/

namespace TaskSheduler

open Programs HandleCustody Interleaving

/-! ## What an object is ready for -/

/-- The mapping and the three semaphores are open. -/
structure PosixSharedMemory.Open (o : PosixSharedMemory) (status : Handle → Status) : Prop where
  mapped : ∃ n, o.data = .mapping n ∧ status (.mapping n) = .opened
  enqueueSem : ∃ n, o.enqueueSem = .semaphore n ∧ status (.semaphore n) = .opened
  dequeueSem : ∃ n, o.dequeueSem = .semaphore n ∧ status (.semaphore n) = .opened
  mutexSem : ∃ n, o.mutexSem = .semaphore n ∧ status (.semaphore n) = .opened

/-- Every queue call, however its waits end, only uses open handles. -/
structure PosixSharedMemory.Usable (o : PosixSharedMemory) (kernel : Kernel) : Prop
    extends o.Open kernel.status where
  acts : ∀ (op : QueueOperation) (outcome : PosixSharedMemory.CallOutcome),
    ∀ e ∈ eventsIn (op.run outcome) ⟨o, kernel, []⟩,
      ∃ h, e = .used h ∧ kernel.status h = .opened

/-- Every queue call throws, and uses neither a null mapping nor a semaphore
that could not be opened. -/
def PosixSharedMemory.Refuses (o : PosixSharedMemory) (kernel : Kernel) : Prop :=
  ∀ (op : QueueOperation) (outcome : PosixSharedMemory.CallOutcome),
    (∃ message f, op.run outcome ⟨o, kernel, []⟩ = .error (.thrown message) f) ∧
      .used .nullMapping ∉ eventsIn (op.run outcome) ⟨o, kernel, []⟩ ∧
      .used .semFailed ∉ eventsIn (op.run outcome) ⟨o, kernel, []⟩

/-- What the queue calls of an object should do: act on open handles if it is
attached, and throw if it is not. -/
def PosixSharedMemory.Ready (attached : Bool) (o : PosixSharedMemory) (kernel : Kernel) : Prop :=
  if attached then o.Usable kernel else o.Refuses kernel

/-! ## What the queue calls touch -/

/-- The uses of the members that the queue calls touch. -/
def PosixSharedMemory.uses (o : PosixSharedMemory) : List (HandleEvent Handle) :=
  [.used o.data, .used o.enqueueSem, .used o.dequeueSem, .used o.mutexSem]

/-- A call on `o` that has done nothing but use these members. -/
def Within (o : PosixSharedMemory) (f : Frame) : Prop :=
  f.this = o ∧ ∀ e ∈ f.events, e ∈ o.uses

/-- A program that stays within the members of `o`, however it ends. -/
def StaysWithin {α : Type} (o : PosixSharedMemory) (call : Program Frame α) : Prop :=
  Triple (Within o) call (fun _ => Within o) fun _ => Within o

section Within

variable {o : PosixSharedMemory}

theorem StaysWithin.note {k : Handle} (hk : .used k ∈ o.uses) : StaysWithin o (note (.used k)) := by
  rintro f ⟨hthis, hevents⟩
  refine ⟨hthis, fun e he => ?_⟩
  rcases List.mem_append.mp he with hbefore | hnew
  · exact hevents e hbefore
  · rw [List.mem_singleton.mp hnew]
    exact hk

theorem StaysWithin.raise {α : Type} {message : String} :
    StaysWithin o (raise message : Program Frame α) :=
  Triple.raise fun _ h => h

theorem StaysWithin.waitFor {k : Handle} (hk : .used k ∈ o.uses)
    (outcome : PosixSharedMemory.WaitOutcome) :
    StaysWithin o (PosixSharedMemory.waitFor k outcome) := by
  refine Triple.bind (StaysWithin.note hk) fun _ => ?_
  cases outcome with
  | taken => exact Triple.pure fun _ h => h
  | failed => exact Triple.pure fun _ h => h
  | blocked => exact fun _ h => h

/-- A call that reads its members first, and stays within them. -/
theorem StaysWithin.this {α : Type} {call : PosixSharedMemory → Program Frame α}
    (h : StaysWithin o (call o)) : StaysWithin o (PosixSharedMemory.this >>= call) := by
  intro f hf
  rw [returns (this_apply f), hf.1]
  exact h f hf

theorem StaysWithin.bind {α β : Type} {call : Program Frame α} {next : α → Program Frame β}
    (hcall : StaysWithin o call) (hnext : ∀ a, StaysWithin o (next a)) :
    StaysWithin o (call >>= next) :=
  Triple.bind hcall hnext

theorem StaysWithin.ite {α : Type} {p : Prop} [Decidable p] {left right : Program Frame α}
    (hleft : p → StaysWithin o left) (hright : ¬p → StaysWithin o right) :
    StaysWithin o (if p then left else right) :=
  Triple.ite hleft hright

end Within

/-- **A queue call only uses the mapping and the semaphores of its object.** -/
theorem staysWithin_run (o : PosixSharedMemory) (op : QueueOperation)
    (outcome : PosixSharedMemory.CallOutcome) : StaysWithin o (op.run outcome) := by
  have hdata : .used o.data ∈ o.uses := by simp [PosixSharedMemory.uses]
  have henqueue : .used o.enqueueSem ∈ o.uses := by simp [PosixSharedMemory.uses]
  have hdequeue : .used o.dequeueSem ∈ o.uses := by simp [PosixSharedMemory.uses]
  have hmutex : .used o.mutexSem ∈ o.uses := by simp [PosixSharedMemory.uses]
  cases op with
  | enqueue =>
      refine StaysWithin.this (.bind (.waitFor henqueue _) fun _ => ?_)
      refine .ite (fun _ => ?_) fun _ => .raise
      refine .bind (.waitFor hmutex _) fun _ => .ite (fun _ => ?_) fun _ => ?_
      · exact .bind (.note hdata) fun _ => .bind (.note hmutex) fun _ => .note hdequeue
      · exact .bind (.note henqueue) fun _ => .raise
  | dequeue =>
      refine StaysWithin.this (.bind (.waitFor hdequeue _) fun _ => ?_)
      refine .ite (fun _ => ?_) fun _ => .raise
      refine .bind (.waitFor hmutex _) fun _ => .ite (fun _ => ?_) fun _ => ?_
      · refine .bind (.note hdata) fun _ => .bind (.note hmutex) fun _ => ?_
        refine .ite (fun _ => ?_) fun _ => ?_
        · exact .bind (.note hdequeue) fun _ => .raise
        · exact .note henqueue
      · exact .bind (.note hdequeue) fun _ => .raise
  | print =>
      refine StaysWithin.this (.bind (.waitFor hmutex _) fun _ => ?_)
      refine .ite (fun _ => ?_) fun _ => .raise
      refine .ite (fun _ => ?_) fun _ => ?_
      · exact .bind (.note hmutex) fun _ => .raise
      · exact .bind (.note hdata) fun _ => .note hmutex
  | size =>
      refine .bind ?_ fun _ => Triple.pure fun _ h => h
      exact StaysWithin.this (.bind (.note hdata) fun _ => Triple.pure fun _ h => h)

theorem mem_eventsIn {o : PosixSharedMemory} {kernel : Kernel} {op : QueueOperation}
    {outcome : PosixSharedMemory.CallOutcome} {e : HandleEvent Handle}
    (he : e ∈ eventsIn (op.run outcome) ⟨o, kernel, []⟩) : e ∈ o.uses := by
  have hend := staysWithin_run o op outcome ⟨o, kernel, []⟩ ⟨rfl, fun e he => by cases he⟩
  unfold eventsIn at he
  cases hcall : op.run outcome ⟨o, kernel, []⟩ with
  | ok a f =>
      rw [hcall] at he hend
      exact hend.2 e he
  | error stop f =>
      rw [hcall] at he hend
      exact hend.2 e he

/-- An object whose handles are open can be used. -/
theorem PosixSharedMemory.Open.usable {o : PosixSharedMemory} {kernel : Kernel}
    (h : o.Open kernel.status) : o.Usable kernel := by
  refine ⟨h, fun op outcome e he => ?_⟩
  obtain ⟨n, hdata, hdataOpen⟩ := h.mapped
  obtain ⟨p, henqueue, henqueueOpen⟩ := h.enqueueSem
  obtain ⟨q, hdequeue, hdequeueOpen⟩ := h.dequeueSem
  obtain ⟨r, hmutex, hmutexOpen⟩ := h.mutexSem
  have hmem := mem_eventsIn he
  simp only [PosixSharedMemory.uses, hdata, henqueue, hdequeue, hmutex, List.mem_cons,
    List.not_mem_nil, or_false] at hmem
  rcases hmem with rfl | rfl | rfl | rfl
  · exact ⟨_, rfl, hdataOpen⟩
  · exact ⟨_, rfl, henqueueOpen⟩
  · exact ⟨_, rfl, hdequeueOpen⟩
  · exact ⟨_, rfl, hmutexOpen⟩

/-- `size` never refuses. -/
theorem PosixSharedMemory.not_refuses (o : PosixSharedMemory) (kernel : Kernel) :
    ¬ o.Refuses kernel := by
  intro h
  obtain ⟨⟨message, f, hthrown⟩, -⟩ := h .size ⟨.taken, .taken, 0⟩
  cases hthrown

/-! ## The calls on one object -/

variable {ι : Type*}

/-- What the calls on an object tell about its members. -/
structure Recorded (created attached : Bool) (o : PosixSharedMemory) (status : Handle → Status) :
    Prop where
  mapped : attached = true → ∃ n, o.data = .mapping n ∧ status (.mapping n) = .opened
  semaphores : created = true → ∀ k ∈ [o.enqueueSem, o.dequeueSem, o.mutexSem],
    ∃ n, k = .semaphore n ∧ status (.semaphore n) = .opened
  closed : created = false → status o.enqueueSem ≠ .opened

/-- The semaphores of an object are as before if nothing has touched them. -/
theorem Recorded.kept {created attached attached' : Bool} {o : PosixSharedMemory} {data fd : Handle}
    {status status' : Handle → Status} (h : Recorded created attached o status)
    (hsame : ∀ k ∈ o.semaphores, status' k = status k) (hfailed : status' .semFailed ≠ .opened)
    (hmapped : attached' = true → ∃ n, data = .mapping n ∧ status' (.mapping n) = .opened) :
    Recorded created attached' { o with data := data, fd := fd } status' := by
  refine ⟨hmapped, fun hcreated k hk => ?_, fun hcreated => ?_⟩
  · obtain ⟨n, rfl, hopen⟩ := h.semaphores hcreated k hk
    exact ⟨n, rfl, by rw [hsame _ (mem_semaphores.mpr ⟨hk, Handle.noConfusion⟩), hopen]⟩
  · by_cases hnone : o.enqueueSem = .semFailed
    · rw [hnone]
      exact hfailed
    · rw [hsame _ (mem_semaphores.mpr ⟨List.mem_cons_self, hnone⟩)]
      exact h.closed hcreated

/-- What the calls on all objects tell about a state. -/
structure Ledger (created attached : ι → Bool) (s : ShmSystem ι) : Prop where
  registered : Registered s
  apart : ∀ i j k, i ≠ j → k ∈ s.heldBy i → k ∉ s.heldBy j
  constants : ∀ k : Handle, k.number? = none → s.kernel.status k ≠ .opened
  recorded : ∀ i o, s.objects i = some o →
    Recorded (created i) (attached i) o s.kernel.status

namespace LifeMove

variable {s : ShmSystem ι} {a : LifeAction ι} {i : ι} {o' : Option PosixSharedMemory}
  {es : List (HandleEvent Handle)} {n : Nat} {linked : Bool} {created attached : ι → Bool}

/-- A step on an object leaves alone what other objects hold. -/
theorem untouched_elsewhere (h : LifeMove s a i o' es n linked) (hs : Ledger created attached s)
    {j : ι} (hj : j ≠ i) {k : Handle} (hk : k ∈ s.heldBy j) : ∀ e ∈ es, e.handle ≠ k := by
  rintro e he rfl
  rcases h.touches he with hown | hopened
  · exact hs.apart j i _ hj hk hown
  · exact h.not_opens hs.registered (.inr ⟨j, hk⟩) hopened

/-- A constant is never open. -/
theorem constants (h : LifeMove s a i o' es n linked) (hs : Ledger created attached s)
    {k : Handle} (hk : k.number? = none) : statusAfter s.kernel.status es k ≠ .opened :=
  statusAfter_ne_opened (hs.constants k hk) (h.not_opens hs.registered (.inl hk))

/-- The semaphores of an object are neither its mapping nor its descriptor. -/
theorem semaphores_apart (hs : Registered s) {o : PosixSharedMemory} (ho : s.objects i = some o)
    {k : Handle} (hk : k ∈ o.semaphores) :
    k ∉ o.data.unless .nullMapping ∧ k ∉ o.fd.unless .noDescriptor := by
  have hnodup := hs.nodup i o ho
  obtain ⟨-, hlater, hdata⟩ := List.nodup_append.mp hnodup
  obtain ⟨-, -, hfd⟩ := List.nodup_append.mp hlater
  refine ⟨fun hmem => ?_, fun hmem => ?_⟩
  · exact hdata k hmem k (List.mem_append_right _ hk) rfl
  · exact hfd k hmem k hk rfl

/-- Without copies, what an object holds after a step on it no other object
holds. -/
theorem apart_elsewhere (h : LifeMove s a i o' es n linked) (hs : Ledger created attached s)
    (hcopy : ∀ i j, a ≠ .copy i j) {x : PosixSharedMemory} (hx : o' = some x) {k : Handle}
    (hk : k ∈ x.holdings) {j : ι} (hj : j ≠ i) : k ∉ s.heldBy j := by
  intro hother
  rcases h.holds hx hk with ⟨t, ht, hti | hcopied⟩ | hopened
  · subst hti
    exact hs.apart t j k (Ne.symm hj) ht hother
  · exact hcopy _ _ hcopied
  · exact h.not_opens hs.registered (.inr ⟨j, hother⟩) hopened

end LifeMove

variable [DecidableEq ι]

/-- Whether object `i` has been created and not been destroyed since. -/
def createdAfter (i : ι) (created : Bool) : LifeAction ι → Bool
  | .construct j | .destruct j | .call j .destroy => created && decide (j ≠ i)
  | .call j .create => created || decide (j = i)
  | .call _ .attach | .call _ .detach | .copy _ _ => created

/-- Whether object `i` has been created or attached, and neither been detached
nor destroyed since. -/
def attachedAfter (i : ι) (attached : Bool) : LifeAction ι → Bool
  | .construct j | .destruct j | .call j .detach | .call j .destroy => attached && decide (j ≠ i)
  | .call j .create | .call j .attach => attached || decide (j = i)
  | .copy _ _ => attached

def isCreated (i : ι) (schedule : List (LifeAction ι)) : Bool :=
  schedule.foldl (createdAfter i) false

def isAttached (i : ι) (schedule : List (LifeAction ι)) : Bool :=
  schedule.foldl (attachedAfter i) false

/-- What the calls on an object tell about it after a step on it. -/
theorem LifeMove.recorded {s : ShmSystem ι} {a : LifeAction ι} {i : ι}
    {o' : Option PosixSharedMemory} {es : List (HandleEvent Handle)} {n : Nat} {linked : Bool}
    {created attached : ι → Bool} (h : LifeMove s a i o' es n linked)
    (hs : Ledger created attached s) (hcopy : ∀ i j, a ≠ .copy i j) {x : PosixSharedMemory}
    (hx : o' = some x) :
    Recorded (createdAfter i (created i) a) (attachedAfter i (attached i) a) x
      (statusAfter s.kernel.status es) := by
  have hconstants := fun (k : Handle) (hk : k.number? = none) => h.constants hs hk
  have hnew := fun (k : Handle) (hk : .opened k ∈ es) => h.new_open hs.registered hk
  have hown : ∀ k : Handle, (∃ o, s.objects i = some o ∧ k ∈ o.semaphores) → .opened k ∉ es := by
    rintro k ⟨o, ho, hk⟩
    exact h.not_opens hs.registered
      (.inr ⟨i, ShmSystem.mem_heldBy.mpr ⟨o, ho, mem_holdings.mpr (.inr (.inr hk))⟩⟩)
  cases h with
  | construct hfree =>
      cases hx
      refine ⟨fun h => ?_, fun h => ?_, fun _ => hconstants _ rfl⟩
      · simp [attachedAfter] at h
      · simp [createdAfter] at h
  | copy ho hfree => exact absurd rfl (hcopy _ _)
  | create ho =>
      cases hx
      refine ⟨fun _ => ⟨_, rfl, hnew _ (by simp [createEvents])⟩, fun _ k hk => ?_, fun h => ?_⟩
      · simp only [PosixSharedMemory.created, List.mem_cons, List.not_mem_nil, or_false] at hk
        rcases hk with rfl | rfl | rfl
        all_goals exact ⟨_, rfl, hnew _ (by simp [createEvents])⟩
      · simp [createdAfter] at h
  | @attachOpens i o ho hfd =>
      cases hx
      refine (hs.recorded i o ho).kept (fun k hk => statusAfter_untouched fun e he heq => ?_)
        (hconstants _ rfl) fun _ => ⟨_, rfl, hnew _ (by simp)⟩
      simp only [List.mem_cons, List.not_mem_nil, or_false] at he
      rcases he with rfl | rfl | rfl
      all_goals exact hown k ⟨o, ho, hk⟩ (by simp [← heq, HandleEvent.handle])
  | @attachMaps i o ho hfd =>
      cases hx
      refine (hs.recorded i o ho).kept (fun k hk => statusAfter_untouched fun e he heq => ?_)
        (hconstants _ rfl) fun _ => ⟨_, rfl, hnew _ (by simp)⟩
      simp only [List.mem_cons, List.not_mem_nil, or_false] at he
      rcases he with rfl | rfl
      · exact (semaphores_apart hs.registered ho hk).2 (mem_unless.mpr ⟨heq.symm, hfd⟩)
      · exact hown k ⟨o, ho, hk⟩ (by simp [← heq, HandleEvent.handle])
  | @detach i o ho =>
      cases hx
      refine (hs.recorded i o ho).kept (fun k hk => statusAfter_untouched fun e he heq => ?_)
        (hconstants _ rfl) fun h => ?_
      · obtain ⟨k', hk', rfl⟩ := List.mem_map.mp he
        obtain rfl : k' = k := heq
        exact (semaphores_apart hs.registered ho hk).1 hk'
      · simp [attachedAfter] at h
  | @destroy i o linked ho =>
      cases hx
      refine ⟨fun h => ?_, fun h => ?_, fun _ => ?_⟩
      · simp [attachedAfter] at h
      · simp [createdAfter] at h
      · by_cases hnone : o.enqueueSem = .semFailed
        · exact hnone ▸ hconstants _ rfl
        · have hheld := mem_semaphores.mpr ⟨List.mem_cons_self, hnone⟩
          exact released_ne_opened (hs.registered.nodup i o ho)
            (mem_holdings.mpr (.inr (.inr hheld)))
  | destruct ho => cases hx

/-- A step on an object changes nothing of what is told about others. -/
theorem LifeMove.after_elsewhere {s : ShmSystem ι} {a : LifeAction ι} {i : ι}
    {o' : Option PosixSharedMemory} {es : List (HandleEvent Handle)} {n : Nat} {linked : Bool}
    (h : LifeMove s a i o' es n linked) {j : ι} (hj : j ≠ i) (told : Bool) :
    createdAfter j told a = told ∧ attachedAfter j told a = told := by
  cases h with
  | copy ho hfree => exact ⟨rfl, rfl⟩
  | construct hfree => simp [createdAfter, attachedAfter, Ne.symm hj]
  | create ho => simp [createdAfter, attachedAfter, Ne.symm hj]
  | attachOpens ho hfd => simp [createdAfter, attachedAfter, Ne.symm hj]
  | attachMaps ho hfd => simp [createdAfter, attachedAfter, Ne.symm hj]
  | detach ho => simp [createdAfter, attachedAfter, Ne.symm hj]
  | destroy ho => simp [createdAfter, attachedAfter, Ne.symm hj]
  | destruct ho => simp [createdAfter, attachedAfter, Ne.symm hj]

/-- **Every step but a copy keeps the ledger.** -/
theorem ledger_step {created attached : ι → Bool} {s s' : ShmSystem ι} {a : LifeAction ι}
    {es : List (HandleEvent Handle)} (hs : Ledger created attached s)
    (hcopy : ∀ i j, a ≠ .copy i j) (hstep : (lifeMachine ι).step s a = some (s', es)) :
    Ledger (fun i => createdAfter i (created i) a) (fun i => attachedAfter i (attached i) a)
      s' := by
  have hregistered := registered_step hs.registered hstep
  obtain ⟨t, o', n, linked, hmove, rfl⟩ := lifeMachine_move hstep
  have hown : ∀ k ∈ (s.put t o' es n linked).heldBy t, ∀ j, j ≠ t → k ∉ s.heldBy j := by
    intro k hk j hj
    obtain ⟨x, hx, hheld⟩ := ShmSystem.mem_heldBy.mp hk
    rw [ShmSystem.put_self] at hx
    exact hmove.apart_elsewhere hs hcopy hx hheld hj
  refine ⟨hregistered, fun i j k hij hi hj => ?_, fun k hk => hmove.constants hs hk,
    fun i o ho => ?_⟩
  · by_cases hit : i = t
    · subst hit
      rw [heldBy_put_other (Ne.symm hij)] at hj
      exact hown k hi j (Ne.symm hij) hj
    · rw [heldBy_put_other hit] at hi
      by_cases hjt : j = t
      · subst hjt
        exact hown k hj i hit hi
      · rw [heldBy_put_other hjt] at hj
        exact hs.apart i j k hij hi hj
  · by_cases hit : i = t
    · subst hit
      rw [ShmSystem.put_self] at ho
      exact hmove.recorded hs hcopy ho
    · rw [ShmSystem.put_other _ _ _ _ _ _ hit] at ho
      obtain ⟨hcreated, hattached⟩ := And.intro (hmove.after_elsewhere hit (created i)).1
        (hmove.after_elsewhere hit (attached i)).2
      simp only [hcreated, hattached]
      have hsame : ∀ k ∈ o.holdings, statusAfter s.kernel.status es k = s.kernel.status k :=
        fun k hk => statusAfter_untouched
          (hmove.untouched_elsewhere hs hit (ShmSystem.mem_heldBy.mpr ⟨o, ho, hk⟩))
      refine (hs.recorded i o ho).kept (fun k hk => hsame k (mem_holdings.mpr (.inr (.inr hk))))
        (hmove.constants hs rfl) fun h => ?_
      obtain ⟨m, hdata, hopen⟩ := (hs.recorded i o ho).mapped h
      refine ⟨m, hdata, ?_⟩
      show statusAfter s.kernel.status es (.mapping m) = .opened
      rw [hsame _ (mem_holdings.mpr (.inl ⟨hdata.symm, by rw [hdata]; exact Handle.noConfusion⟩)),
        hopen]

/-- The ledger after a schedule without copies. -/
theorem ledger_exec {created attached : ι → Bool} {schedule : List (LifeAction ι)}
    {s s' : ShmSystem ι} {es : List (HandleEvent Handle)} (hs : Ledger created attached s)
    (hcopy : ∀ i j, .copy i j ∉ schedule)
    (h : exec (lifeMachine ι) s schedule = some (s', es)) :
    Ledger (fun i => schedule.foldl (createdAfter i) (created i))
      (fun i => schedule.foldl (attachedAfter i) (attached i)) s' := by
  induction schedule generalizing s es created attached with
  | nil =>
      obtain ⟨rfl, -⟩ := exec_nil h
      exact hs
  | cons a rest ih =>
      obtain ⟨middle, left, right, hfirst, hrest, rfl⟩ := exec_cons h
      have hhead : ∀ i j, a ≠ .copy i j := by
        rintro i j rfl
        exact hcopy i j List.mem_cons_self
      exact ih (ledger_step hs hhead hfirst)
        (fun i j hmem => hcopy i j (List.mem_cons_of_mem _ hmem)) hrest

omit [DecidableEq ι] in
theorem Ledger.begin : Ledger (fun _ => false) (fun _ => false) (ShmSystem.begin ι) := by
  refine ⟨Registered.begin ι, fun i j k hij hi => ?_, fun k hk => Status.noConfusion,
    fun i o ho => ?_⟩
  · cases hi
  · cases ho

/-- **An attached object can be used as a queue, and any other refuses to be
used**, exactly if it is attached and has been created.  This is so in every
state that constructors, destructors and calls lead to, whatever the number of
objects. -/
theorem ready_iff_created {schedule : List (LifeAction ι)} {s : ShmSystem ι}
    {es : List (HandleEvent Handle)} {i : ι} {o : PosixSharedMemory}
    (h : exec (lifeMachine ι) (.begin ι) schedule = some (s, es))
    (hcopy : ∀ i j, .copy i j ∉ schedule) (ho : s.objects i = some o) :
    o.Ready (isAttached i schedule) s.kernel ↔
      isAttached i schedule = true ∧ isCreated i schedule = true := by
  have hrecorded : Recorded (isCreated i schedule) (isAttached i schedule) o s.kernel.status :=
    (ledger_exec Ledger.begin hcopy h).recorded i o ho
  cases hattached : isAttached i schedule with
  | false =>
      exact iff_of_false (o.not_refuses s.kernel) fun hboth => Bool.noConfusion hboth.1
  | true =>
      rw [and_iff_right rfl]
      constructor
      · intro husable
        by_contra hnot
        obtain ⟨n, heq, hopen⟩ := husable.enqueueSem
        apply hrecorded.closed (Bool.eq_false_of_not_eq_true hnot)
        rw [heq, hopen]
      · intro hcreated
        have hsems := hrecorded.semaphores hcreated
        have hopen : o.Open s.kernel.status :=
          ⟨hrecorded.mapped hattached, hsems _ (by simp), hsems _ (by simp), hsems _ (by simp)⟩
        exact hopen.usable

/-- An object that has just been created. -/
theorem ready_created :
    (PosixSharedMemory.created 0).Ready true
      ⟨5, true, statusAfter (fun _ => .unopened) (createEvents 0)⟩ := by
  have hready := (@ready_iff_created Unit _ [.construct (), .call () .create] _ _ () _ rfl
    (by simp) rfl).mpr ⟨rfl, rfl⟩
  exact hready

/-- An object that only attaches to the segment of another waits on a semaphore
that was never opened. -/
theorem attach_leaves_semaphores :
    ¬ ∀ (schedule : List (LifeAction Bool)) s es i o,
      exec (lifeMachine Bool) (.begin Bool) schedule = some (s, es) →
        (∀ i j, .copy i j ∉ schedule) → s.objects i = some o →
          o.Ready (isAttached i schedule) s.kernel := by
  intro hall
  have hready := hall
    [.construct true, .call true .create, .construct false, .call false .attach] _ _ false _
    rfl (by simp) rfl
  have husable : PosixSharedMemory.Usable _ _ := hready
  obtain ⟨n, hsem, -⟩ := husable.enqueueSem
  cases hsem

end TaskSheduler
