import TaskSheduler.LifecycleSteps

/-!
# Who gives back the handles of PosixSharedMemory objects

A run constructs objects, copies them, makes any calls on them and destroys
them all in the end.  `careful` says of a call that it neither forgets an open
handle that no other object holds nor gives back or uses one that is not open:
`create` and `attach` overwrite members without releasing what these hold, and
`destroy` closes the semaphores but keeps their pointers, for the destructor to
close again.  Every handle lives once exactly if every call of the run is
careful.
-/

namespace TaskSheduler

open HandleCustody Interleaving

variable {ι : Type*}

variable [DecidableEq ι]

/-- **The custody of the objects**: a handle is held while some object has it. -/
def lifeCustody (ι : Type*) [DecidableEq ι] : Custody (lifeMachine ι) where
  status s := s.kernel.status
  held s k := ∃ i, k ∈ s.heldBy i
  valid := Registered
  valid_step := registered_step
  status_step := by
    intro s a s' es h
    obtain ⟨i, o', n, linked, hmove, rfl⟩ := lifeMachine_move h
    rfl
  touched := by
    intro s a s' es h e he
    obtain ⟨i, o', n, linked, hmove, rfl⟩ := lifeMachine_move h
    exact (hmove.touches he).imp_left fun hheld => ⟨i, hheld⟩
  held_step := by
    intro s a s' es h k hk
    obtain ⟨i, o', n, linked, hmove, rfl⟩ := lifeMachine_move h
    rcases held_put.mp hk with hown | ⟨j, -, hj⟩
    · obtain ⟨x, hx, hheld⟩ := ShmSystem.mem_heldBy.mp hown
      rw [ShmSystem.put_self] at hx
      refine (hmove.holds hx hheld).imp_left ?_
      rintro ⟨j, hbefore, -⟩
      exact ⟨j, hbefore⟩
    · exact .inl ⟨j, hj⟩
  fresh := by
    intro s a s' es hs h k hk
    obtain ⟨i, o', n, linked, hmove, rfl⟩ := lifeMachine_move h
    obtain ⟨m, hm, hle, -⟩ := hmove.opens hk
    exact hs.fresh k m hm hle

/-- Another object than `i` holds the handle too. -/
def ShmSystem.HeldElsewhere (s : ShmSystem ι) (i : ι) (k : Handle) : Prop :=
  ∃ j, j ≠ i ∧ k ∈ s.heldBy j

instance [Fintype ι] (s : ShmSystem ι) (i : ι) (k : Handle) :
    Decidable (s.HeldElsewhere i k) :=
  inferInstanceAs (Decidable (∃ j, j ≠ i ∧ k ∈ s.heldBy j))

/-- No open handle of the list is forgotten if object `i` forgets the list. -/
def ShmSystem.Spares (s : ShmSystem ι) (i : ι) (ks : List Handle) : Prop :=
  ∀ k ∈ ks, s.kernel.status k = .opened → s.HeldElsewhere i k

instance [Fintype ι] (s : ShmSystem ι) (i : ι) (ks : List Handle) : Decidable (s.Spares i ks) :=
  inferInstanceAs (Decidable (∀ k ∈ ks, s.kernel.status k = .opened → s.HeldElsewhere i k))

/-- All handles of the list are open. -/
def ShmSystem.AllOpen (s : ShmSystem ι) (ks : List Handle) : Prop :=
  ∀ k ∈ ks, s.kernel.status k = .opened

instance (s : ShmSystem ι) (ks : List Handle) : Decidable (s.AllOpen ks) :=
  inferInstanceAs (Decidable (∀ k ∈ ks, s.kernel.status k = .opened))

/-- What must be so before a step for it to lose no handle and touch none that
is not open. -/
def ShmSystem.careful [Fintype ι] (s : ShmSystem ι) : LifeAction ι → Bool
  | .construct _ | .copy _ _ => true
  | .call i .create => decide (s.Spares i (s.heldBy i))
  | .call i .attach =>
      match s.objects i with
      | none => true
      | some o =>
          decide (s.Spares i (o.data.unless .nullMapping) ∧ s.AllOpen (o.fd.unless .noDescriptor))
  | .call i .detach =>
      match s.objects i with
      | none => true
      | some o => decide (s.AllOpen (o.data.unless .nullMapping))
  | .call i .destroy | .destruct i => decide (s.AllOpen (s.heldBy i))

section Careful

variable {s : ShmSystem ι} {i : ι} {o : PosixSharedMemory}

/-- A step that opens some handles for an object and forgets those in `lost` is
careful exactly if it keeps a sound state sound. -/
theorem opens_sound {x : PosixSharedMemory} {es : List (HandleEvent Handle)} {n : Nat}
    {linked : Bool} {hs : List (Handle × Nat)} {kept lost : List Handle}
    (hvalid : Registered s) (hsound : (lifeCustody ι).Sound s) (ho : s.objects i = some o)
    (hes : statusAfter s.kernel.status es = statusAfter s.kernel.status (openings hs))
    (hdifferent : (hs.map Prod.fst).Nodup)
    (hnumber : ∀ h ∈ hs.map Prod.fst, ∃ m, h.number? = some m ∧ s.kernel.handedOut ≤ m)
    (hbefore : o.holdings = lost ++ kept)
    (hafter : ∀ k, k ∈ x.holdings ↔ k ∈ hs.map Prod.fst ∨ k ∈ kept) :
    (lifeCustody ι).Sound (s.put i (some x) es n linked) ↔ s.Spares i lost := by
  have hown : ∀ k, k ∈ (s.put i (some x) es n linked).heldBy i ↔
      k ∈ hs.map Prod.fst ∨ k ∈ kept := by
    intro k
    rw [heldBy_put_some, hafter]
  have hdisjoint : ∀ k ∈ lost, k ∉ kept := by
    have hnodup := hvalid.nodup i o ho
    rw [hbefore] at hnodup
    exact fun k hlost hkept => List.disjoint_of_nodup_append hnodup hlost hkept
  have hunopened : ∀ h ∈ hs.map Prod.fst, s.kernel.status h = .unopened := by
    intro h hh
    obtain ⟨m, hm, hle⟩ := hnumber h hh
    exact hvalid.fresh h m hm hle
  have hstatus : ∀ h, statusAfter s.kernel.status es h =
      if h ∈ hs.map Prod.fst then .opened else s.kernel.status h := by
    intro h
    rw [hes, statusAfter_openings hdifferent (hunopened h)]
  have hnews : ∀ h ∈ hs.map Prod.fst, ∃ j, h ∈ (s.put i (some x) es n linked).heldBy j :=
    fun h hh => ⟨i, (hown h).mpr (.inl hh)⟩
  have hsame : (lifeCustody ι).Sound (s.put i (some x) es n linked) ↔
      ∀ h, (∃ j, h ∈ s.heldBy j) → s.kernel.status h = .opened →
        ∃ j, h ∈ (s.put i (some x) es n linked).heldBy j :=
    (lifeCustody ι).sound_opens hstatus hnews hsound
  rw [hsame]
  constructor
  · intro hkeeps k hk hopen
    have hheld : k ∈ s.heldBy i := by
      rw [ShmSystem.heldBy_eq ho, hbefore]
      exact List.mem_append_left _ hk
    rcases held_put.mp (hkeeps k ⟨i, hheld⟩ hopen) with hstill | helsewhere
    · rcases (hown k).mp hstill with hnew | hkept
      · rw [hunopened k hnew] at hopen
        cases hopen
      · exact absurd hkept (hdisjoint k hk)
    · exact helsewhere
  · rintro hspares k ⟨j, hj⟩ hopen
    apply held_put.mpr
    by_cases hji : j = i
    · subst hji
      rw [ShmSystem.heldBy_eq ho, hbefore] at hj
      rcases List.mem_append.mp hj with hlost | hkept
      · exact .inr (hspares k hlost hopen)
      · exact .inl ((hown k).mpr (.inr hkept))
    · exact .inr ⟨j, hji, hj⟩

theorem create_sound (hvalid : Registered s) (hsound : (lifeCustody ι).Sound s)
    (ho : s.objects i = some o) :
    (lifeCustody ι).Sound (s.put i (some (.created s.kernel.handedOut))
        (createEvents s.kernel.handedOut) (s.kernel.handedOut + 5) true) ↔
      s.Spares i (s.heldBy i) := by
  rw [ShmSystem.heldBy_eq ho, createEvents_eq]
  refine opens_sound hvalid hsound ho rfl ?_ ?_ (List.append_nil _).symm fun k => ?_
  · simp [createOpenings]
  · simp [createOpenings, Handle.number?]
  · simp only [holdings_created, createOpenings, List.map_cons, List.map_nil, List.mem_cons,
      List.not_mem_nil, or_false]
    exact or_left_comm

theorem attachOpens_sound (hvalid : Registered s) (hsound : (lifeCustody ι).Sound s)
    (ho : s.objects i = some o) (hfd : o.fd = .noDescriptor) :
    (lifeCustody ι).Sound (s.put i
        (some { o with
          fd := .descriptor s.kernel.handedOut
          data := .mapping (s.kernel.handedOut + 1) })
        [.opened (.descriptor s.kernel.handedOut), .used (.descriptor s.kernel.handedOut),
          .opened (.mapping (s.kernel.handedOut + 1))]
        (s.kernel.handedOut + 2) true) ↔
      s.Spares i (o.data.unless .nullMapping) := by
  refine @opens_sound _ _ _ _ _ _ _ _ _
    [(.descriptor s.kernel.handedOut, 1), (.mapping (s.kernel.handedOut + 1), 0)] o.semaphores _
    hvalid hsound ho rfl ?_ ?_ ?_ fun k => ?_
  · simp
  · simp [Handle.number?]
  · simp [PosixSharedMemory.holdings, hfd, Handle.unless]
  · simp only [holdings_attached, List.map_cons, List.map_nil, List.mem_cons, List.not_mem_nil,
      or_false]
    rw [or_left_comm, or_assoc]

theorem attachMaps_sound (hvalid : Registered s) (hsound : (lifeCustody ι).Sound s)
    (ho : s.objects i = some o) (hopen : s.kernel.status o.fd = .opened) :
    (lifeCustody ι).Sound (s.put i (some { o with data := .mapping s.kernel.handedOut })
        [.used o.fd, .opened (.mapping s.kernel.handedOut)] (s.kernel.handedOut + 1)
        s.kernel.linked) ↔
      s.Spares i (o.data.unless .nullMapping) := by
  refine @opens_sound _ _ _ _ _ _ _ _ _ [(.mapping s.kernel.handedOut, 0)]
    (o.fd.unless .noDescriptor ++ o.semaphores) _ hvalid hsound ho ?_ ?_ ?_ rfl fun k => ?_
  · have hcons : [HandleEvent.used o.fd, .opened (.mapping s.kernel.handedOut)] =
        [.used o.fd] ++ openings [(.mapping s.kernel.handedOut, 0)] := rfl
    rw [hcons, statusAfter_append, statusAfter_used hopen]
  · simp
  · simp [Handle.number?]
  · simp only [holdings_mapped, List.map_cons, List.map_nil, List.mem_cons, List.not_mem_nil,
      or_false]

/-- A step that gives back the handles `hs` of an object, and forgets no others,
keeps a sound state sound exactly if they are all open. -/
theorem releases_sound {a : LifeAction ι} {o' : Option PosixSharedMemory} {hs kept : List Handle}
    {n : Nat} {linked : Bool} (hvalid : Registered s) (hsound : (lifeCustody ι).Sound s)
    (ho : s.objects i = some o)
    (hstep : (lifeMachine ι).step s a = some (s.put i o' (hs.map .released) n linked,
      hs.map .released))
    (hbefore : o.holdings = hs ++ kept)
    (hafter : ∀ k ∈ kept, k ∈ (s.put i o' (hs.map .released) n linked).heldBy i) :
    (lifeCustody ι).Sound (s.put i o' (hs.map .released) n linked) ↔ s.AllOpen hs := by
  have hnodup := hvalid.nodup i o ho
  rw [hbefore] at hnodup
  refine (lifeCustody ι).sound_releases hstep hsound (List.nodup_append.mp hnodup).1 ?_
  rintro h ⟨j, hj⟩
  by_cases hji : j = i
  · subst hji
    rw [ShmSystem.heldBy_eq ho, hbefore] at hj
    rcases List.mem_append.mp hj with hgone | hkept
    · exact .inr hgone
    · exact .inl ⟨j, hafter h hkept⟩
  · exact .inl (held_put.mpr (.inr ⟨j, hji, hj⟩))

/-- What a step without events does to the handles held. -/
theorem silent_sound {o' : Option PosixSharedMemory} {n : Nat} {linked : Bool}
    (hsound : (lifeCustody ι).Sound s) (hfree : s.objects i = none) :
    (lifeCustody ι).Sound (s.put i o' [] n linked) := by
  refine ⟨hsound.proper, fun h hopen => ?_⟩
  obtain ⟨j, hj⟩ := hsound.kept h hopen
  have hji : j ≠ i := by
    rintro rfl
    obtain ⟨o, ho, -⟩ := ShmSystem.mem_heldBy.mp hj
    rw [hfree] at ho
    cases ho
  exact held_put.mpr (.inr ⟨j, hji, hj⟩)

variable [Fintype ι]

/-- **The careful calls** are those that keep a sound state sound. -/
theorem careful_iff_sound {s s' : ShmSystem ι} {a : LifeAction ι}
    {es : List (HandleEvent Handle)} (hvalid : Registered s) (hsound : (lifeCustody ι).Sound s)
    (hstep : (lifeMachine ι).step s a = some (s', es)) :
    s.careful a = true ↔ (lifeCustody ι).Sound s' := by
  obtain ⟨i, o', n, linked, hmove, rfl⟩ := lifeMachine_move hstep
  cases hmove with
  | construct hfree => exact iff_of_true rfl (silent_sound hsound hfree)
  | copy ho hfree => exact iff_of_true rfl (silent_sound hsound hfree)
  | create ho =>
      rw [create_sound hvalid hsound ho, ShmSystem.careful, decide_eq_true_iff]
  | @attachOpens i o ho hfd =>
      have hclosed : s.AllOpen (o.fd.unless .noDescriptor) := by
        simp [ShmSystem.AllOpen, hfd, Handle.unless]
      rw [attachOpens_sound hvalid hsound ho hfd]
      simp only [ShmSystem.careful, ho, decide_eq_true_iff]
      exact and_iff_left hclosed
  | @attachMaps i o ho hfd =>
      have hsingle : s.AllOpen (o.fd.unless .noDescriptor) ↔ s.kernel.status o.fd = .opened := by
        simp [ShmSystem.AllOpen, hfd, Handle.unless]
      simp only [ShmSystem.careful, ho, decide_eq_true_iff, hsingle]
      by_cases hopen : s.kernel.status o.fd = .opened
      · rw [attachMaps_sound hvalid hsound ho hopen]
        exact and_iff_left hopen
      · exact iff_of_false (fun h => hopen h.2) fun hafter =>
          hafter.proper o.fd (statusAfter_used_misused hopen)
  | @detach i o ho =>
      rw [releases_sound hvalid hsound ho hstep rfl fun k hk => ?_]
      · simp only [ShmSystem.careful, ho, decide_eq_true_iff]
      · rw [heldBy_put_some]
        exact hk
  | destroy ho =>
      rw [releases_sound hvalid hsound ho hstep (List.append_nil _).symm fun k hk => by cases hk]
      simp only [ShmSystem.careful, ShmSystem.heldBy_eq ho, decide_eq_true_iff]
  | destruct ho =>
      rw [releases_sound hvalid hsound ho hstep (List.append_nil _).symm fun k hk => by cases hk]
      simp only [ShmSystem.careful, ShmSystem.heldBy_eq ho, decide_eq_true_iff]

end Careful

/-! ## Every handle is released exactly once -/

/-- **Every handle that a run opens is opened, used, released and then left
alone** exactly if every call of the run is careful.  The run may construct,
copy and destroy any number of objects; none is left in the end. -/
theorem lives_once_iff_careful [Fintype ι] {schedule : List (LifeAction ι)} {s : ShmSystem ι}
    {es : List (HandleEvent Handle)}
    (h : exec (lifeMachine ι) (.begin ι) schedule = some (s, es))
    (hgone : ∀ i, s.objects i = none) :
    (∀ k, .opened k ∈ es → LivesOnce es k) ↔
      along (lifeMachine ι) ShmSystem.careful (.begin ι) schedule = true := by
  have hnothing : ∀ (s : ShmSystem ι), (∀ i, s.objects i = none) → ∀ k, ¬ ∃ i, k ∈ s.heldBy i := by
    rintro s hnone k ⟨i, hi⟩
    obtain ⟨o, ho, -⟩ := ShmSystem.mem_heldBy.mp hi
    rw [hnone i] at ho
    cases ho
  exact (lifeCustody ι).lives_once_iff_along careful_iff_sound h (Registered.begin ι)
    (fun _ => rfl) (hnothing _ fun _ => rfl) (hnothing s hgone)

/-- The descriptor of an object that is created and destroyed. -/
theorem lives_once_create_destruct :
    LivesOnce (createEvents 0 ++ (PosixSharedMemory.created 0).holdings.map .released)
      (.descriptor 0) :=
  (@lives_once_iff_careful Unit _ _ [.construct (), .call () .create, .destruct ()] _ _ rfl
    fun _ => rfl).mpr (by decide) (.descriptor 0) (by decide)

/-- `destroy` before the destructor closes the semaphores twice. -/
theorem destroy_destruct_closes_twice :
    ∃ s es, exec (lifeMachine Unit) (.begin Unit)
        [.construct (), .call () .create, .call () .destroy, .destruct ()] = some (s, es) ∧
      (∀ i, s.objects i = none) ∧
      .opened (.semaphore 2) ∈ es ∧ ¬ LivesOnce es (.semaphore 2) := by
  refine ⟨_, _, rfl, fun _ => rfl, ?_, ?_⟩
  · decide
  · rintro ⟨n, hn⟩
    have hrest : [HandleEvent.released (Handle.semaphore 2), .released (.semaphore 2)] =
        List.replicate n (.used (.semaphore 2)) ++ [.released (.semaphore 2)] :=
      (List.cons.inj hn).2
    cases n with
    | zero => cases hrest
    | succ n => cases hrest

/-- So does the destruction of a copy and its original. -/
example : along (lifeMachine Bool) ShmSystem.careful (.begin Bool)
    [.construct true, .call true .create, .copy true false, .destruct false, .destruct true] =
      false := by decide

end TaskSheduler
