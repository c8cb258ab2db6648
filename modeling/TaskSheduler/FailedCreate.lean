import TaskSheduler.LifecycleSteps

/-!
# What a create or attach that throws leaves behind

Of the six system calls that `create` and `attach` make, only a failing
`shm_open` leaves an object as the constructor made it.  When `ftruncate` fails
the descriptor is closed but kept in `fd_`, when `mmap` fails `data_` keeps
`MAP_FAILED`, and when a `sem_open` fails the descriptor, the mapping and the
other semaphores stay open.  `Clean` is what a caller that catches the exception
could rely on.
-/

namespace TaskSheduler

open Programs HandleCustody

/-- The calls that may follow on an object whose `create` or `attach` threw. -/
inductive FollowUp
  | attach (fails : Failures)
  | setSchedulerRunning
  | isSchedulerRunning (flag : Bool)
  | destruct

/-- Run such a call. -/
def FollowUp.run : FollowUp → Program Frame Unit
  | .attach fails => PosixSharedMemory.attach fails
  | .setSchedulerRunning => PosixSharedMemory.setSchedulerRunning
  | .isSchedulerRunning flag => do
      let _ ← PosixSharedMemory.isSchedulerRunning flag
  | .destruct => PosixSharedMemory.destruct

/-- The object is as constructed, all that the call opened is closed again, and
what follows touches nothing but open handles and handles it opens itself. -/
structure Clean (f : Frame) : Prop where
  members : f.this = .constructed
  closed : ∀ k, .opened k ∈ f.events → f.kernel.status k ≠ .opened
  followUps : ∀ (next : FollowUp), ∀ e ∈ eventsIn next.run ⟨f.this, f.kernel, []⟩,
    .opened e.handle ∈ eventsIn next.run ⟨f.this, f.kernel, []⟩ ∨
      f.kernel.status e.handle = .opened

/-- If the call throws, it leaves a clean object. -/
def ThrowsClean (call : Program Frame Unit) (f : Frame) : Prop :=
  ∀ message f', call f = .error (.thrown message) f' → Clean f'

/-- Whatever follows on an object as constructed only opens handles. -/
theorem followUp_opens (kernel : Kernel) (next : FollowUp) :
    ∃ hs, eventsIn next.run ⟨.constructed, kernel, []⟩ = openings hs := by
  cases next with
  | attach fails =>
      obtain ⟨handedOut, linked, status⟩ := kernel
      obtain ⟨shmOpen, ftruncate, mmap, enqueueSem, dequeueSem, mutexSem, strerror⟩ := fails
      cases shmOpen with
      | true => exact ⟨[], rfl⟩
      | false =>
          cases linked with
          | false => exact ⟨[], rfl⟩
          | true =>
              cases mmap with
              | true => exact ⟨[(.descriptor handedOut, 1)], rfl⟩
              | false => exact ⟨[(.descriptor handedOut, 1), (.mapping (handedOut + 1), 0)], rfl⟩
  | setSchedulerRunning => exact ⟨[], rfl⟩
  | isSchedulerRunning flag => exact ⟨[], rfl⟩
  | destruct => exact ⟨[], rfl⟩

/-- An object as constructed, with nothing opened, is clean. -/
theorem clean_constructed (kernel : Kernel) : Clean ⟨.constructed, kernel, []⟩ := by
  refine ⟨rfl, fun k hk => ?_, fun next e he => ?_⟩
  · cases hk
  · obtain ⟨hs, heq⟩ := followUp_opens kernel next
    rw [heq] at he ⊢
    exact .inl (opened_of_mem_openings he)

/-- A `create` that gets a descriptor and then fails keeps the descriptor. -/
theorem create_keeps_descriptor (kernel : Kernel) {fails : Failures} (hopen : fails.shmOpen = false)
    (hfails : fails.ftruncate = true ∨ fails.mmap = true ∨ fails.enqueueSemOpen = true ∨
      fails.dequeueSemOpen = true ∨ fails.mutexSemOpen = true) :
    ∃ message f, PosixSharedMemory.create fails ⟨.constructed, kernel, []⟩ =
      .error (.thrown message) f ∧ f.this.fd = .descriptor kernel.handedOut := by
  obtain ⟨shmOpen, ftruncate, mmap, enqueueSem, dequeueSem, mutexSem, strerror⟩ := fails
  simp only at hopen hfails
  subst hopen
  cases ftruncate with
  | true => exact ⟨_, _, rfl, rfl⟩
  | false =>
      cases mmap with
      | true => exact ⟨_, _, rfl, rfl⟩
      | false =>
          simp only [reduceCtorEq, false_or] at hfails
          cases enqueueSem with
          | true => cases dequeueSem <;> cases mutexSem <;> exact ⟨_, _, rfl, rfl⟩
          | false =>
              cases dequeueSem with
              | true => cases mutexSem <;> exact ⟨_, _, rfl, rfl⟩
              | false =>
                  obtain rfl : mutexSem = true := by simpa using hfails
                  exact ⟨_, _, rfl, rfl⟩

theorem create_clean_iff (kernel : Kernel) (fails : Failures) :
    ThrowsClean (PosixSharedMemory.create fails) ⟨.constructed, kernel, []⟩ ↔
      fails.shmOpen = true ∨ (fails.ftruncate = false ∧ fails.mmap = false ∧
        fails.enqueueSemOpen = false ∧ fails.dequeueSemOpen = false ∧
        fails.mutexSemOpen = false) := by
  constructor
  · intro hclean
    by_contra hnot
    rw [not_or, Bool.not_eq_true] at hnot
    obtain ⟨hopen, hfails⟩ := hnot
    have hsome : fails.ftruncate = true ∨ fails.mmap = true ∨ fails.enqueueSemOpen = true ∨
        fails.dequeueSemOpen = true ∨ fails.mutexSemOpen = true := by
      simp only [← Bool.not_eq_true] at hfails
      tauto
    obtain ⟨message, f, hthrown, hfd⟩ := create_keeps_descriptor kernel hopen hsome
    have hmembers := (hclean message f hthrown).members
    rw [hmembers] at hfd
    cases hfd
  · obtain ⟨shmOpen, ftruncate, mmap, enqueueSem, dequeueSem, mutexSem, strerror⟩ := fails
    intro hok message f hthrown
    cases shmOpen with
    | true =>
        cases hthrown
        exact clean_constructed { kernel with linked := false }
    | false =>
        obtain ⟨rfl, rfl, rfl, rfl, rfl⟩ := hok.resolve_left Bool.false_ne_true
        cases hthrown

theorem attach_clean_iff (kernel : Kernel) (fails : Failures) :
    ThrowsClean (PosixSharedMemory.attach fails) ⟨.constructed, kernel, []⟩ ↔
      fails.shmOpen = true ∨ kernel.linked = false ∨ fails.mmap = false := by
  obtain ⟨handedOut, linked, status⟩ := kernel
  obtain ⟨shmOpen, ftruncate, mmap, enqueueSem, dequeueSem, mutexSem, strerror⟩ := fails
  cases shmOpen with
  | true =>
      refine iff_of_true (fun message f hthrown => ?_) (.inl rfl)
      cases hthrown
      exact clean_constructed _
  | false =>
      cases linked with
      | false =>
          refine iff_of_true (fun message f hthrown => ?_) (.inr (.inl rfl))
          cases hthrown
          exact clean_constructed _
      | true =>
          cases mmap with
          | false =>
              refine iff_of_true (fun message f hthrown => ?_) (.inr (.inr rfl))
              cases hthrown
          | true =>
              -- `fd_` keeps the descriptor, and `data_` is `MAP_FAILED`.
              refine iff_of_false (fun hclean => ?_) (by simp)
              have hmembers := (hclean _ _ rfl).members
              cases hmembers

/-- **A `create` that throws leaves a clean object** exactly if it is `shm_open`
that fails, or nothing does; **an `attach` that throws** does so exactly if it is
not `mmap` that fails.  Nothing is assumed of what the kernel has given out. -/
theorem throws_clean_iff (kernel : Kernel) (fails : Failures) :
    (ThrowsClean (PosixSharedMemory.create fails) ⟨.constructed, kernel, []⟩ ↔
      fails.shmOpen = true ∨ (fails.ftruncate = false ∧ fails.mmap = false ∧
        fails.enqueueSemOpen = false ∧ fails.dequeueSemOpen = false ∧
        fails.mutexSemOpen = false)) ∧
    (ThrowsClean (PosixSharedMemory.attach fails) ⟨.constructed, kernel, []⟩ ↔
      fails.shmOpen = true ∨ kernel.linked = false ∨ fails.mmap = false) := by
  exact ⟨create_clean_iff kernel fails, attach_clean_iff kernel fails⟩

/-- When `ftruncate` fails, the closed descriptor stays in `fd_`, and a following
`attach` maps it. -/
theorem create_leaves_closed_descriptor :
    ¬ ∀ (kernel : Kernel) (fails : Failures),
      ThrowsClean (PosixSharedMemory.create fails) ⟨.constructed, kernel, []⟩ ∧
        ThrowsClean (PosixSharedMemory.attach fails) ⟨.constructed, kernel, []⟩ := by
  intro hall
  have hclean := (hall .begin { Failures.none with ftruncate := true }).1 _ _ rfl
  have hnext := hclean.followUps (.attach .none) (.used (.descriptor 0)) (by decide)
  revert hnext
  decide

end TaskSheduler
