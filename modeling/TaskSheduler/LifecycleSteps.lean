import TaskSheduler.ShmLifecycle

/-!
# What a call does to the handles of an object

`LifeMove` lists everything one step of `lifeMachine` can do: what is left of
the object, what has been done with which handle, and how many handles the
process has been given.  `holdings` are the handles `destroy` gives back, and
`Registered` is what every run ensures of them: each has a number the kernel
has given out, and no two members hold the same.
-/

namespace TaskSheduler

open Programs HandleCustody Interleaving

variable {ι : Type*}

/-- What a `create` that succeeds does, with handles numbered from `n` on. -/
def createEvents (n : Nat) : List (HandleEvent Handle) :=
  [.opened (.descriptor n), .used (.descriptor n), .used (.descriptor n),
    .opened (.mapping (n + 1)), .used (.mapping (n + 1)), .opened (.semaphore (n + 2)),
    .opened (.semaphore (n + 3)), .opened (.semaphore (n + 4))]

/-- What `create` opens, and how often it uses each at once. -/
def createOpenings (n : Nat) : List (Handle × Nat) :=
  [(.descriptor n, 2), (.mapping (n + 1), 1), (.semaphore (n + 2), 0), (.semaphore (n + 3), 0),
    (.semaphore (n + 4), 0)]

theorem createEvents_eq (n : Nat) : createEvents n = openings (createOpenings n) := rfl

/-- The object after such a `create`. -/
def PosixSharedMemory.created (n : Nat) : PosixSharedMemory where
  fd := .descriptor n
  data := .mapping (n + 1)
  enqueueSem := .semaphore (n + 2)
  dequeueSem := .semaphore (n + 3)
  mutexSem := .semaphore (n + 4)

/-- A handle, unless it is the constant that names nothing. -/
def Handle.unless (h nothing : Handle) : List Handle :=
  if h = nothing then [] else [h]

/-- The semaphores an object holds. -/
def PosixSharedMemory.semaphores (o : PosixSharedMemory) : List Handle :=
  o.enqueueSem.unless .semFailed ++ o.dequeueSem.unless .semFailed ++
    o.mutexSem.unless .semFailed

/-- What `destroy` gives back, in the order of the source. -/
def PosixSharedMemory.holdings (o : PosixSharedMemory) : List Handle :=
  o.data.unless .nullMapping ++ (o.fd.unless .noDescriptor ++ o.semaphores)

/-- The state after a step that leaves `o'` of object `i` and has done `es`. -/
def ShmSystem.put [DecidableEq ι] (s : ShmSystem ι) (i : ι) (o' : Option PosixSharedMemory)
    (es : List (HandleEvent Handle)) (handedOut : Nat) (linked : Bool) : ShmSystem ι where
  objects := Function.update s.objects i o'
  kernel := { handedOut, linked, status := statusAfter s.kernel.status es }

/-- The handles object `i` holds, none if there is no such object. -/
def ShmSystem.heldBy (s : ShmSystem ι) (i : ι) : List Handle :=
  match s.objects i with
  | none => []
  | some o => o.holdings

theorem ShmSystem.heldBy_eq {s : ShmSystem ι} {i : ι} {o : PosixSharedMemory}
    (ho : s.objects i = some o) : s.heldBy i = o.holdings := by
  simp only [ShmSystem.heldBy, ho]

/-- A handle that an object holds. -/
theorem ShmSystem.mem_heldBy {s : ShmSystem ι} {i : ι} {k : Handle} :
    k ∈ s.heldBy i ↔ ∃ o, s.objects i = some o ∧ k ∈ o.holdings := by
  cases ho : s.objects i with
  | none => simp [ShmSystem.heldBy, ho]
  | some o => simp [ShmSystem.heldBy, ho]

section Put

variable [DecidableEq ι] (s : ShmSystem ι) (i : ι) (o' : Option PosixSharedMemory)
  (es : List (HandleEvent Handle)) (n : Nat) (linked : Bool)

@[simp] theorem ShmSystem.put_self : (s.put i o' es n linked).objects i = o' :=
  Function.update_self ..

theorem ShmSystem.put_other {j : ι} (h : j ≠ i) :
    (s.put i o' es n linked).objects j = s.objects j :=
  Function.update_of_ne h ..

end Put

section HeldPut

variable [DecidableEq ι] {s : ShmSystem ι} {i : ι} {o' : Option PosixSharedMemory}
  {es : List (HandleEvent Handle)} {n : Nat} {linked : Bool}

theorem heldBy_put_other {j : ι} (hj : j ≠ i) :
    (s.put i o' es n linked).heldBy j = s.heldBy j := by
  rw [ShmSystem.heldBy, ShmSystem.put_other _ _ _ _ _ _ hj, ShmSystem.heldBy]

theorem heldBy_put_some {o : PosixSharedMemory} :
    (s.put i (some o) es n linked).heldBy i = o.holdings :=
  ShmSystem.heldBy_eq (ShmSystem.put_self ..)

/-- What is held after a step on object `i`. -/
theorem held_put {k : Handle} :
    (∃ j, k ∈ (s.put i o' es n linked).heldBy j) ↔
      k ∈ (s.put i o' es n linked).heldBy i ∨ ∃ j, j ≠ i ∧ k ∈ s.heldBy j := by
  constructor
  · rintro ⟨j, hj⟩
    by_cases hji : j = i
    · exact .inl (hji ▸ hj)
    · rw [heldBy_put_other hji] at hj
      exact .inr ⟨j, hji, hj⟩
  · rintro (hi | ⟨j, hji, hj⟩)
    · exact ⟨i, hi⟩
    · exact ⟨j, by rwa [heldBy_put_other hji]⟩

end HeldPut

/-- Everything one step can do. -/
inductive LifeMove (s : ShmSystem ι) :
    LifeAction ι → ι → Option PosixSharedMemory → List (HandleEvent Handle) → Nat → Bool → Prop
  | construct {i : ι} (hfree : s.objects i = none) :
      LifeMove s (.construct i) i (some .constructed) [] s.kernel.handedOut s.kernel.linked
  | copy {i j : ι} {o : PosixSharedMemory} (ho : s.objects i = some o)
      (hfree : s.objects j = none) :
      LifeMove s (.copy i j) j (some o) [] s.kernel.handedOut s.kernel.linked
  | create {i : ι} {o : PosixSharedMemory} (ho : s.objects i = some o) :
      LifeMove s (.call i .create) i (some (.created s.kernel.handedOut))
        (createEvents s.kernel.handedOut) (s.kernel.handedOut + 5) true
  | attachOpens {i : ι} {o : PosixSharedMemory} (ho : s.objects i = some o)
      (hfd : o.fd = .noDescriptor) :
      LifeMove s (.call i .attach) i
        (some { o with
          fd := .descriptor s.kernel.handedOut
          data := .mapping (s.kernel.handedOut + 1) })
        [.opened (.descriptor s.kernel.handedOut), .used (.descriptor s.kernel.handedOut),
          .opened (.mapping (s.kernel.handedOut + 1))]
        (s.kernel.handedOut + 2) true
  | attachMaps {i : ι} {o : PosixSharedMemory} (ho : s.objects i = some o)
      (hfd : o.fd ≠ .noDescriptor) :
      LifeMove s (.call i .attach) i (some { o with data := .mapping s.kernel.handedOut })
        [.used o.fd, .opened (.mapping s.kernel.handedOut)] (s.kernel.handedOut + 1)
        s.kernel.linked
  | detach {i : ι} {o : PosixSharedMemory} (ho : s.objects i = some o) :
      LifeMove s (.call i .detach) i (some { o with data := .nullMapping })
        ((o.data.unless .nullMapping).map .released) s.kernel.handedOut s.kernel.linked
  | destroy {i : ι} {o : PosixSharedMemory} {linked : Bool} (ho : s.objects i = some o) :
      LifeMove s (.call i .destroy) i
        (some { o with fd := .noDescriptor, data := .nullMapping })
        (o.holdings.map .released) s.kernel.handedOut linked
  | destruct {i : ι} {o : PosixSharedMemory} {linked : Bool} (ho : s.objects i = some o) :
      LifeMove s (.destruct i) i none (o.holdings.map .released) s.kernel.handedOut linked

/-- A call in progress that has done `es` more. -/
def Frame.did (f : Frame) (es : List (HandleEvent Handle)) : Frame where
  this := f.this
  kernel := { f.kernel with status := statusAfter f.kernel.status es }
  events := f.events ++ es

/-- What a call does with handles until it returns, throws or blocks. -/
def eventsIn {α : Type} (call : Program Frame α) (f : Frame) : List (HandleEvent Handle) :=
  match call f with
  | .ok _ f' => f'.events
  | .error _ f' => f'.events

section Apply

variable (f : Frame)

@[simp] theorem Frame.did_nil : f.did [] = f := by
  simp [Frame.did, statusAfter]

theorem note_apply (e : HandleEvent Handle) : note e f = .ok () (f.did [e]) := rfl

theorem this_apply : PosixSharedMemory.this f = .ok f.this f := rfl

theorem assign_apply (write : PosixSharedMemory → PosixSharedMemory) :
    PosixSharedMemory.assign write f = .ok () { f with this := write f.this } := rfl

theorem closeSem_apply (sem : Handle) :
    PosixSharedMemory.closeSem sem f = .ok () (f.did ((sem.unless .semFailed).map .released)) := by
  unfold PosixSharedMemory.closeSem Handle.unless
  by_cases h : sem = .semFailed
  · rw [if_neg (not_not.mpr h), if_pos h]
    simp
  · rw [if_pos h, if_neg h]
    rfl

theorem detach_apply :
    PosixSharedMemory.detach f =
      .ok () ({ f with this := { f.this with data := .nullMapping } } |>.did
        ((f.this.data.unless .nullMapping).map .released)) := by
  unfold PosixSharedMemory.detach Handle.unless
  rw [returns (this_apply f)]
  by_cases h : f.this.data = .nullMapping
  · rw [if_neg (not_not.mpr h), if_pos h, ← h]
    simp
  · rw [if_pos h, if_neg h, returns (note_apply f _), assign_apply]
    rfl

theorem closeDescriptor_apply :
    ∃ linked, PosixSharedMemory.closeDescriptor f =
      .ok () ({ f with
        this := { f.this with fd := .noDescriptor }
        kernel := { f.kernel with linked := linked } } |>.did
          ((f.this.fd.unless .noDescriptor).map .released)) := by
  unfold PosixSharedMemory.closeDescriptor Handle.unless
  rw [returns (this_apply f)]
  by_cases h : f.this.fd = .noDescriptor
  · rw [if_neg (not_not.mpr h), if_pos h, ← h]
    exact ⟨f.kernel.linked, by simp⟩
  · rw [if_pos h, if_neg h, returns (note_apply f _)]
    exact ⟨false, rfl⟩

/-- **`destroy` gives back what the object holds**, and forgets the descriptor
and the mapping, but not the semaphores. -/
theorem destroy_apply (o : PosixSharedMemory) (kernel : Kernel) :
    ∃ linked, PosixSharedMemory.destroy ⟨o, kernel, []⟩ =
      .ok () (Frame.did
        ⟨{ o with fd := .noDescriptor, data := .nullMapping },
          { kernel with linked := linked }, []⟩
        (o.holdings.map .released)) := by
  unfold PosixSharedMemory.destroy
  rw [returns (detach_apply _)]
  obtain ⟨linked, hclose⟩ := closeDescriptor_apply
    ({ (⟨o, kernel, []⟩ : Frame) with this := { o with data := .nullMapping } } |>.did
      ((o.data.unless .nullMapping).map .released))
  refine ⟨linked, ?_⟩
  rw [returns hclose, returns (this_apply _), returns (closeSem_apply _ _),
    returns (closeSem_apply _ _), closeSem_apply]
  simp [Frame.did, statusAfter_append, PosixSharedMemory.holdings, PosixSharedMemory.semaphores]

end Apply

/-- A `create` that succeeds. -/
theorem create_apply (o : PosixSharedMemory) (kernel : Kernel) :
    PosixSharedMemory.create .none ⟨o, kernel, []⟩ =
      .ok () (Frame.did
        ⟨.created kernel.handedOut,
          { kernel with handedOut := kernel.handedOut + 5, linked := true }, []⟩
        (createEvents kernel.handedOut)) := rfl

/-- An `attach` that opens the segment and succeeds; without a segment of that
name it throws. -/
theorem attach_opens {o : PosixSharedMemory} (hfd : o.fd = .noDescriptor) (kernel : Kernel) :
    PosixSharedMemory.attach .none ⟨o, kernel, []⟩ =
      if kernel.linked then
        .ok () (Frame.did
          ⟨{ o with
              fd := .descriptor kernel.handedOut
              data := .mapping (kernel.handedOut + 1) },
            { kernel with handedOut := kernel.handedOut + 2 }, []⟩
          [.opened (.descriptor kernel.handedOut), .used (.descriptor kernel.handedOut),
            .opened (.mapping (kernel.handedOut + 1))])
      else
        .error (.thrown "shm_open failed: ") ⟨{ o with fd := .noDescriptor }, kernel, []⟩ := by
  obtain ⟨fd, data, enqueueSem, dequeueSem, mutexSem⟩ := o
  obtain ⟨handedOut, linked, status⟩ := kernel
  simp only at hfd
  subst hfd
  cases linked <;> rfl

/-- An `attach` with a descriptor maps it anew. -/
theorem attach_maps {o : PosixSharedMemory} (hfd : o.fd ≠ .noDescriptor) (kernel : Kernel) :
    PosixSharedMemory.attach .none ⟨o, kernel, []⟩ =
      .ok () (Frame.did
        ⟨{ o with data := .mapping kernel.handedOut },
          { kernel with handedOut := kernel.handedOut + 1 }, []⟩
        [.used o.fd, .opened (.mapping kernel.handedOut)]) := by
  unfold PosixSharedMemory.attach
  rw [returns (this_apply _), if_neg hfd]
  rfl

section Step

variable [DecidableEq ι]

/-- What a step on an object does when its call returns. -/
theorem onObject_returned {s s' : ShmSystem ι} {i : ι} {call : Program Frame Unit}
    {after : PosixSharedMemory → Option PosixSharedMemory} {es : List (HandleEvent Handle)}
    (h : s.onObject i call after = some (s', es)) :
    ∃ o f, s.objects i = some o ∧ call ⟨o, s.kernel, []⟩ = .ok () f ∧
      s' = ⟨Function.update s.objects i (after f.this), f.kernel⟩ ∧ es = f.events := by
  unfold ShmSystem.onObject at h
  cases ho : s.objects i with
  | none =>
      rw [ho] at h
      cases h
  | some o =>
      rw [ho] at h
      cases hcall : call ⟨o, s.kernel, []⟩ with
      | error e f =>
          simp only [hcall] at h
          cases h
      | ok u f =>
          simp only [hcall] at h
          cases h
          exact ⟨o, f, rfl, hcall, rfl, rfl⟩

/-- **A step is one of the moves.** -/
theorem lifeMachine_move {s s' : ShmSystem ι} {a : LifeAction ι} {es : List (HandleEvent Handle)}
    (h : (lifeMachine ι).step s a = some (s', es)) :
    ∃ i o' handedOut linked, LifeMove s a i o' es handedOut linked ∧
      s' = s.put i o' es handedOut linked := by
  cases a with
  | construct i =>
      simp only [lifeMachine] at h
      cases hi : s.objects i with
      | some o =>
          rw [hi] at h
          cases h
      | none =>
          rw [hi] at h
          cases h
          exact ⟨_, _, _, _, .construct hi, rfl⟩
  | copy i j =>
      simp only [lifeMachine] at h
      cases hi : s.objects i with
      | none =>
          rw [hi] at h
          cases h
      | some o =>
          cases hj : s.objects j with
          | some o' =>
              rw [hi, hj] at h
              cases h
          | none =>
              rw [hi, hj] at h
              cases h
              exact ⟨_, _, _, _, .copy hi hj, rfl⟩
  | call i call =>
      obtain ⟨o, f, ho, hcall, rfl, rfl⟩ := onObject_returned h
      cases call with
      | create =>
          rw [LifeCall.run, create_apply] at hcall
          cases hcall
          exact ⟨_, _, _, _, .create ho, rfl⟩
      | attach =>
          rw [LifeCall.run] at hcall
          by_cases hfd : o.fd = .noDescriptor
          · rw [attach_opens hfd] at hcall
            cases hlinked : s.kernel.linked with
            | false =>
                rw [hlinked] at hcall
                cases hcall
            | true =>
                rw [if_pos hlinked] at hcall
                cases hcall
                exact ⟨_, _, _, _, .attachOpens ho hfd, by rw [← hlinked]; rfl⟩
          · rw [attach_maps hfd] at hcall
            cases hcall
            exact ⟨_, _, _, _, .attachMaps ho hfd, rfl⟩
      | detach =>
          rw [LifeCall.run, detach_apply] at hcall
          cases hcall
          exact ⟨_, _, _, _, .detach ho, rfl⟩
      | destroy =>
          obtain ⟨linked, hdestroy⟩ := destroy_apply o s.kernel
          rw [LifeCall.run, hdestroy] at hcall
          cases hcall
          exact ⟨_, _, _, _, .destroy ho, rfl⟩
  | destruct i =>
      have hstep : s.onObject i PosixSharedMemory.destruct (fun _ => none) = some (s', es) := h
      obtain ⟨o, f, ho, hcall, rfl, rfl⟩ := onObject_returned hstep
      obtain ⟨linked, hdestroy⟩ := destroy_apply o s.kernel
      rw [PosixSharedMemory.destruct, catchThrown_returns hdestroy] at hcall
      cases hcall
      exact ⟨_, _, _, _, .destruct ho, rfl⟩

end Step

/-! ## What every run ensures -/

/-- Every handle that an object holds has a number that was given out, an
object holds none twice, and handles not given out are untouched. -/
structure Registered (s : ShmSystem ι) : Prop where
  numbered : ∀ i o, s.objects i = some o →
    ∀ h ∈ o.holdings, ∃ n < s.kernel.handedOut, h.number? = some n
  nodup : ∀ i o, s.objects i = some o → o.holdings.Nodup
  fresh : ∀ h n, h.number? = some n → s.kernel.handedOut ≤ n → s.kernel.status h = .unopened

theorem Registered.begin (ι : Type*) : Registered (ShmSystem.begin ι) := by
  refine ⟨fun i o ho => ?_, fun i o ho => ?_, fun h n hn hle => rfl⟩
  · cases ho
  · cases ho

theorem mem_unless {k h nothing : Handle} : k ∈ h.unless nothing ↔ k = h ∧ h ≠ nothing := by
  unfold Handle.unless
  by_cases heq : h = nothing
  · simp [heq]
  · simp [heq]

theorem mem_holdings {k : Handle} {o : PosixSharedMemory} :
    k ∈ o.holdings ↔ (k = o.data ∧ o.data ≠ .nullMapping) ∨
      (k = o.fd ∧ o.fd ≠ .noDescriptor) ∨ k ∈ o.semaphores := by
  simp only [PosixSharedMemory.holdings, List.mem_append, mem_unless]

theorem mem_semaphores {k : Handle} {o : PosixSharedMemory} :
    k ∈ o.semaphores ↔ k ∈ [o.enqueueSem, o.dequeueSem, o.mutexSem] ∧ k ≠ .semFailed := by
  simp only [PosixSharedMemory.semaphores, List.mem_append, mem_unless, List.mem_cons,
    List.not_mem_nil, or_false]
  constructor
  · rintro ((⟨rfl, hne⟩ | ⟨rfl, hne⟩) | ⟨rfl, hne⟩)
    · exact ⟨.inl rfl, hne⟩
    · exact ⟨.inr (.inl rfl), hne⟩
    · exact ⟨.inr (.inr rfl), hne⟩
  · rintro ⟨rfl | rfl | rfl, hne⟩
    · exact .inl (.inl ⟨rfl, hne⟩)
    · exact .inl (.inr ⟨rfl, hne⟩)
    · exact .inr ⟨rfl, hne⟩

/-- What an object holds after a `create`. -/
theorem holdings_created (n : Nat) : (PosixSharedMemory.created n).holdings =
    [.mapping (n + 1), .descriptor n, .semaphore (n + 2), .semaphore (n + 3),
      .semaphore (n + 4)] := rfl

/-- What it holds with a mapping. -/
theorem holdings_mapped (o : PosixSharedMemory) (n : Nat) :
    PosixSharedMemory.holdings { o with data := .mapping n } =
      .mapping n :: (o.fd.unless .noDescriptor ++ o.semaphores) := rfl

/-- What it holds with a descriptor and a mapping. -/
theorem holdings_attached (o : PosixSharedMemory) (m n : Nat) :
    PosixSharedMemory.holdings { o with fd := .descriptor m, data := .mapping n } =
      .mapping n :: .descriptor m :: o.semaphores := rfl

namespace LifeMove

variable {s : ShmSystem ι} {a : LifeAction ι} {i : ι} {o' : Option PosixSharedMemory}
  {es : List (HandleEvent Handle)} {n : Nat} {linked : Bool}

/-- Numbers are only ever given out. -/
theorem grows (h : LifeMove s a i o' es n linked) : s.kernel.handedOut ≤ n := by
  cases h <;> omega

/-- What a step opens has a number that it gives out. -/
theorem opens (h : LifeMove s a i o' es n linked) {k : Handle} (hk : .opened k ∈ es) :
    ∃ m, k.number? = some m ∧ s.kernel.handedOut ≤ m ∧ m < n := by
  cases h with
  | construct hfree => cases hk
  | copy ho hfree => cases hk
  | create ho =>
      simp only [createEvents, List.mem_cons, HandleEvent.opened.injEq, reduceCtorEq,
        List.not_mem_nil, or_false, false_or] at hk
      rcases hk with rfl | rfl | rfl | rfl | rfl
      all_goals exact ⟨_, rfl, by omega, by omega⟩
  | attachOpens ho hfd =>
      simp only [List.mem_cons, HandleEvent.opened.injEq, reduceCtorEq, List.not_mem_nil,
        or_false, false_or] at hk
      rcases hk with rfl | rfl
      all_goals exact ⟨_, rfl, by omega, by omega⟩
  | attachMaps ho hfd =>
      simp only [List.mem_cons, HandleEvent.opened.injEq, reduceCtorEq, List.not_mem_nil,
        or_false, false_or] at hk
      subst hk
      exact ⟨_, rfl, by omega, by omega⟩
  | detach ho => simp at hk
  | destroy ho => simp at hk
  | destruct ho => simp at hk

/-- A step touches what its object holds and what it opens. -/
theorem touches (h : LifeMove s a i o' es n linked) {e : HandleEvent Handle} (he : e ∈ es) :
    e.handle ∈ s.heldBy i ∨ .opened e.handle ∈ es := by
  cases h with
  | construct hfree => cases he
  | copy ho hfree => cases he
  | create ho =>
      right
      simp only [createEvents, List.mem_cons, List.not_mem_nil, or_false] at he
      rcases he with rfl | rfl | rfl | rfl | rfl | rfl | rfl | rfl
      all_goals simp [createEvents, HandleEvent.handle]
  | attachOpens ho hfd =>
      right
      simp only [List.mem_cons, List.not_mem_nil, or_false] at he
      rcases he with rfl | rfl | rfl
      all_goals simp [HandleEvent.handle]
  | attachMaps ho hfd =>
      simp only [List.mem_cons, List.not_mem_nil, or_false] at he
      rcases he with rfl | rfl
      · exact .inl (ShmSystem.mem_heldBy.mpr ⟨_, ho, mem_holdings.mpr (.inr (.inl ⟨rfl, hfd⟩))⟩)
      · exact .inr (by simp [HandleEvent.handle])
  | detach ho =>
      obtain ⟨k, hk, rfl⟩ := List.mem_map.mp he
      exact .inl (ShmSystem.mem_heldBy.mpr ⟨_, ho, mem_holdings.mpr (.inl (mem_unless.mp hk))⟩)
  | destroy ho =>
      obtain ⟨k, hk, rfl⟩ := List.mem_map.mp he
      exact .inl (ShmSystem.mem_heldBy.mpr ⟨_, ho, hk⟩)
  | destruct ho =>
      obtain ⟨k, hk, rfl⟩ := List.mem_map.mp he
      exact .inl (ShmSystem.mem_heldBy.mpr ⟨_, ho, hk⟩)

/-- What the object holds afterwards it held before, or got from the object it
is a copy of, or it is new. -/
theorem holds (h : LifeMove s a i o' es n linked) {x : PosixSharedMemory} (hx : o' = some x)
    {k : Handle} (hk : k ∈ x.holdings) :
    (∃ j, k ∈ s.heldBy j ∧ (j = i ∨ a = .copy j i)) ∨ .opened k ∈ es := by
  have own : ∀ o, s.objects i = some o → k ∈ o.holdings →
      (∃ j, k ∈ s.heldBy j ∧ (j = i ∨ a = .copy j i)) ∨ .opened k ∈ es :=
    fun o ho hheld => .inl ⟨i, ShmSystem.mem_heldBy.mpr ⟨o, ho, hheld⟩, .inl rfl⟩
  cases h with
  | construct hfree =>
      cases hx
      cases hk
  | copy ho hfree =>
      cases hx
      exact .inl ⟨_, ShmSystem.mem_heldBy.mpr ⟨_, ho, hk⟩, .inr rfl⟩
  | create ho =>
      cases hx
      right
      rw [holdings_created] at hk
      simp only [List.mem_cons, List.not_mem_nil, or_false] at hk
      rcases hk with rfl | rfl | rfl | rfl | rfl
      all_goals simp [createEvents]
  | attachOpens ho hfd =>
      cases hx
      rcases mem_holdings.mp hk with ⟨rfl, -⟩ | ⟨rfl, -⟩ | hsem
      · exact .inr (by simp)
      · exact .inr (by simp)
      · exact own _ ho (mem_holdings.mpr (.inr (.inr hsem)))
  | attachMaps ho hfd =>
      cases hx
      rcases mem_holdings.mp hk with ⟨rfl, -⟩ | hdescriptor | hsem
      · exact .inr (by simp)
      · exact own _ ho (mem_holdings.mpr (.inr (.inl hdescriptor)))
      · exact own _ ho (mem_holdings.mpr (.inr (.inr hsem)))
  | detach ho =>
      cases hx
      rcases mem_holdings.mp hk with ⟨-, hnull⟩ | hlater
      · exact absurd rfl hnull
      · exact own _ ho (mem_holdings.mpr (.inr hlater))
  | destroy ho =>
      cases hx
      rcases mem_holdings.mp hk with ⟨-, hnull⟩ | ⟨-, hnull⟩ | hsem
      · exact absurd rfl hnull
      · exact absurd rfl hnull
      · exact own _ ho (mem_holdings.mpr (.inr (.inr hsem)))
  | destruct ho => cases hx

/-- A handle with a number not given out yet is held by no object. -/
theorem not_held {o : PosixSharedMemory} (hs : Registered s) (ho : s.objects i = some o)
    {k : Handle} {m : Nat} (hm : k.number? = some m) (hle : s.kernel.handedOut ≤ m) :
    k ∉ o.holdings := by
  intro hk
  obtain ⟨m', hlt, hm'⟩ := hs.numbered i o ho k hk
  rw [hm] at hm'
  cases hm'
  omega

/-- What an object holds, or what is only a constant, is not opened again. -/
theorem not_opens (h : LifeMove s a i o' es n linked) (hs : Registered s) {k : Handle}
    (hk : k.number? = none ∨ ∃ j, k ∈ s.heldBy j) : .opened k ∉ es := by
  intro hopened
  obtain ⟨m, hm, hle, -⟩ := h.opens hopened
  rcases hk with hconstant | ⟨j, hj⟩
  · rw [hm] at hconstant
    cases hconstant
  · obtain ⟨o, ho, hheld⟩ := ShmSystem.mem_heldBy.mp hj
    exact not_held hs ho hm hle hheld

/-- What a step opens is open afterwards. -/
theorem new_open (h : LifeMove s a i o' es n linked) (hs : Registered s) {k : Handle}
    (hk : .opened k ∈ es) : statusAfter s.kernel.status es k = .opened := by
  obtain ⟨m, hm, hle, -⟩ := h.opens hk
  have hunopened := hs.fresh k m hm hle
  have hopen : ∀ {hs : List (Handle × Nat)} {status : Handle → Status},
      (hs.map Prod.fst).Nodup → .opened k ∈ openings hs → status k = .unopened →
        statusAfter status (openings hs) k = .opened := by
    intro hs status hnodup hmem hnew
    have hlisted := opened_mem_openings.mp hmem
    rw [statusAfter_openings hnodup fun _ => hnew, if_pos hlisted]
  cases h with
  | construct hfree => cases hk
  | copy ho hfree => cases hk
  | create ho =>
      rw [createEvents_eq] at hk ⊢
      exact hopen (by simp [createOpenings]) hk hunopened
  | attachOpens ho hfd =>
      have hes : [.opened (.descriptor s.kernel.handedOut), .used (.descriptor s.kernel.handedOut),
          .opened (.mapping (s.kernel.handedOut + 1))] =
          openings [(Handle.descriptor s.kernel.handedOut, 1),
            (.mapping (s.kernel.handedOut + 1), 0)] := rfl
      rw [hes] at hk ⊢
      exact hopen (by simp) hk hunopened
  | @attachMaps i o ho hfd =>
      have hes : [HandleEvent.used o.fd, .opened (.mapping s.kernel.handedOut)] =
          [.used o.fd] ++ openings [(.mapping s.kernel.handedOut, 0)] := rfl
      have hfdHeld : o.fd ∈ o.holdings := mem_holdings.mpr (.inr (.inl ⟨rfl, hfd⟩))
      have hother : ∀ e ∈ [HandleEvent.used o.fd], e.handle ≠ k := by
        intro e he heq
        rw [List.mem_singleton.mp he] at heq
        exact not_held hs ho hm hle (heq ▸ hfdHeld)
      rw [hes, List.mem_append] at hk
      rw [hes, statusAfter_append]
      refine hopen (by simp) (hk.resolve_left (by simp)) ?_
      rw [statusAfter_untouched hother, hunopened]
  | detach ho => simp at hk
  | destroy ho => simp at hk
  | destruct ho => simp at hk

/-- The object holds no handle twice afterwards. -/
theorem nodup (h : LifeMove s a i o' es n linked) (hs : Registered s) {x : PosixSharedMemory}
    (hx : o' = some x) : x.holdings.Nodup := by
  cases h with
  | construct hfree =>
      cases hx
      exact List.nodup_nil
  | copy ho hfree =>
      cases hx
      exact hs.nodup _ _ ho
  | create ho =>
      cases hx
      rw [holdings_created]
      simp
  | @attachOpens i o ho hfd =>
      cases hx
      have hold : o.holdings = o.data.unless .nullMapping ++ o.semaphores := by
        simp [PosixSharedMemory.holdings, hfd, Handle.unless]
      have hnodup := hs.nodup _ _ ho
      rw [hold] at hnodup
      have hnew : ∀ k m, k.number? = some m → s.kernel.handedOut ≤ m → k ∉ o.semaphores :=
        fun k m hm hle hk => not_held hs ho hm hle (mem_holdings.mpr (.inr (.inr hk)))
      rw [holdings_attached, List.nodup_cons, List.nodup_cons]
      refine ⟨?_, hnew _ _ rfl (le_refl _), (List.nodup_append.mp hnodup).2.1⟩
      intro hmem
      rcases List.mem_cons.mp hmem with heq | hsem
      · cases heq
      · exact hnew _ _ rfl (Nat.le_succ _) hsem
  | @attachMaps i o ho hfd =>
      cases hx
      have hnodup := hs.nodup _ _ ho
      rw [holdings_mapped, List.nodup_cons]
      refine ⟨fun hmem => ?_, (List.nodup_append.mp hnodup).2.1⟩
      exact not_held hs ho rfl (le_refl _) (List.mem_append_right _ hmem)
  | @detach i o ho =>
      cases hx
      exact (List.nodup_append.mp (hs.nodup _ _ ho)).2.1
  | @destroy i o linked ho =>
      cases hx
      exact (List.nodup_append.mp (List.nodup_append.mp (hs.nodup _ _ ho)).2.1).2.1
  | destruct ho => cases hx

end LifeMove

section Run

variable [DecidableEq ι]

/-- **Every step keeps the handles registered.** -/
theorem registered_step {s s' : ShmSystem ι} {a : LifeAction ι} {es : List (HandleEvent Handle)}
    (hs : Registered s) (h : (lifeMachine ι).step s a = some (s', es)) : Registered s' := by
  obtain ⟨i, o', n, linked, hmove, rfl⟩ := lifeMachine_move h
  have hold : ∀ j, ∀ k ∈ s.heldBy j, ∃ m < n, k.number? = some m := by
    intro j k hk
    obtain ⟨o, ho, hheld⟩ := ShmSystem.mem_heldBy.mp hk
    obtain ⟨m, hlt, hm⟩ := hs.numbered j o ho k hheld
    exact ⟨m, lt_of_lt_of_le hlt hmove.grows, hm⟩
  refine ⟨fun j x hx k hk => ?_, fun j x hx => ?_, fun k m hm hle => ?_⟩
  · by_cases hji : j = i
    · subst hji
      rw [ShmSystem.put_self] at hx
      rcases hmove.holds hx hk with ⟨j, hheld, -⟩ | hnew
      · exact hold j k hheld
      · obtain ⟨m, hm, -, hlt⟩ := hmove.opens hnew
        exact ⟨m, hlt, hm⟩
    · rw [ShmSystem.put_other _ _ _ _ _ _ hji] at hx
      exact hold j k (ShmSystem.mem_heldBy.mpr ⟨x, hx, hk⟩)
  · by_cases hji : j = i
    · subst hji
      rw [ShmSystem.put_self] at hx
      exact hmove.nodup hs hx
    · rw [ShmSystem.put_other _ _ _ _ _ _ hji] at hx
      exact hs.nodup j x hx
  · have hle' : n ≤ m := hle
    have huntouched : ∀ e ∈ es, e.handle ≠ k := by
      rintro e he rfl
      rcases hmove.touches he with hheld | hnew
      · obtain ⟨m', hlt, hm'⟩ := hold i _ hheld
        rw [hm] at hm'
        cases hm'
        omega
      · obtain ⟨m', hm', -, hlt⟩ := hmove.opens hnew
        rw [hm] at hm'
        cases hm'
        omega
    show statusAfter s.kernel.status es k = .unopened
    rw [statusAfter_untouched huntouched]
    exact hs.fresh k m hm (hmove.grows.trans hle')

end Run

end TaskSheduler
