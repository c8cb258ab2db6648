import TaskSheduler.SegmentNames
import TaskSheduler.SegmentRefinement

/-!
# Created objects do not share a queue

Whatever else is done to the names meanwhile, an object whose `create` has
returned works on a segment and on three semaphores that it has made itself,
that no other created object works on, and that nobody else changes, but for the
flag `scheduler_running_`, which whoever has attached may set.

* `Kept`: what a step of one object leaves alone of the things another has made;
  `lifeStep_kept`, `put_kept` and `store_kept` give it for every kind of step.
* `lifeStep_creating`: what a `create` has established so far.
* `namedInv_run`: the invariant of all runs.
* `named_queues`: hence each created object runs a queue of its own, and what is
  proved of `queueMachine`, and of the bytes of its segment, holds of each of
  them.
* `fallback_has_no_queue`: an object on which no `create` has returned has no
  queue, attached or not.
-/

namespace TaskSheduler

open Interleaving

/-! ## The flag is nothing to the queue -/

/-- The layout but for the flag. -/
def Layout.unflagged (layout : Layout) : Layout := { layout with schedulerRunning := false }

/-- The segment and the semaphores but for the flag. -/
def Shm.unflagged (shm : Shm) : Shm := { shm with schedulerRunning := false }

/-- The calls on the queue neither read nor write the flag. -/
theorem queueStep_unflagged {capacity : Nat} {shm shm' : Shm} {pc pc' : QueuePc} {fail : Bool}
    {notes : List Note} (h : queueStep capacity shm pc fail = some (shm', pc', notes)) :
    queueStep capacity shm.unflagged pc fail = some (shm'.unflagged, pc', notes) := by
  have hmap : queueStep capacity shm.unflagged pc fail =
      (queueStep capacity shm pc fail).map fun r => (r.1.unflagged, r.2.1, r.2.2) := by
    cases pc with
    | enqWaitSlot task | enqWaitMutex task | deqWaitItem | deqWaitMutex | prnWaitMutex =>
        cases fail with
        | true => rfl
        | false =>
            simp only [queueStep, Bool.false_eq_true, if_false, Option.map_map]
            rfl
    | deqLoadCount front =>
        by_cases hcount : shm.count = 0
        · simp [queueStep, Shm.unflagged, hcount]
        · simp [queueStep, Shm.unflagged, hcount]
    | prnLoadTask index left lines => cases left <;> rfl
    | _ => rfl
  rw [hmap, h, Option.map_some]

section Kernel

variable {ι Name : Type*} {k k' : NamedKernel ι Name} {i j : ι}

/-! ## What others leave alone -/

/-- Everything keeps its label, and what object `i` has made keeps its
contents, but for the flag. -/
structure Kept (i : ι) (k k' : NamedKernel ι Name) : Prop where
  label : ∀ {n l}, k.label n = some l → k'.label n = some l
  segment : ∀ {n}, k.label n = some (some i, .segment) →
    (k'.segment n).unflagged = (k.segment n).unflagged
  semaphore : ∀ {n which}, k.label n = some (some i, .semaphore which) →
    k'.semaphore n = k.semaphore n

/-- A step that does nothing keeps everything. -/
theorem Kept.refl (i : ι) (k : NamedKernel ι Name) : Kept i k k := ⟨id, fun _ => rfl, fun _ => rfl⟩

/-- What has a label is not new. -/
theorem label_lt {n : Nat} {l : Option ι × NamedKind} (h : k.label n = some l) :
    n < k.things.length :=
  (List.getElem?_eq_some_iff.mp h).1

/-- What has a label keeps it when more is made. -/
theorem label_append {l more : Option ι × NamedKind} {n : Nat} (h : k.label n = some l) :
    (k.things ++ [more])[n]? = some l := by
  rw [List.getElem?_append_left (label_lt h)]
  exact h

/-- The label of the thing made last. -/
theorem label_made (k : NamedKernel ι Name) (l : Option ι × NamedKind) :
    (k.things ++ [l])[k.things.length]? = some l := by
  rw [List.getElem?_append_right (Nat.le_refl _), Nat.sub_self]
  rfl

/-- Things with different labels are different. -/
theorem ne_of_label {m n : Nat} {l l' : Option ι × NamedKind} (hm : k.label m = some l)
    (hn : k.label n = some l') (hne : l ≠ l') : m ≠ n := by
  intro heq
  rw [heq, hn] at hm
  exact hne (Option.some.inj hm).symm

/-- A store to a segment of another object, or to the flag. -/
theorem store_kept {n : Nat} {write : Layout → Layout}
    (h : k.label n = some (some i, .segment) →
      (write (k.segment n)).unflagged = (k.segment n).unflagged) :
    Kept i k (k.store n write) where
  label := id
  segment := by
    intro m hm
    by_cases hmn : m = n
    · subst hmn
      rw [NamedKernel.store_self]
      exact h hm
    · rw [NamedKernel.store_of_ne k write hmn]
  semaphore := fun _ => rfl

/-- The calls on the queue of another object. -/
theorem put_kept {h : Handles} {shm : Shm} (hij : i ≠ j)
    (hdata : k.label h.data = some (some j, .segment))
    (hsem : ∀ which, k.label (h.sem which) = some (some j, .semaphore which)) :
    Kept i k (k.put h shm) where
  label := id
  segment := by
    intro n hn
    rw [k.put_segment_of_ne shm (ne_of_label hn hdata (by simp [hij]))]
  semaphore := by
    intro n which hn
    exact k.put_semaphore_of_ne shm fun other => ne_of_label hn (hsem other) (by simp [hij])

variable [DecidableEq Name]

/-- Freeing a name changes no thing. -/
theorem unlink_kept (name : Name) (kind : NamedKind) : Kept i k (k.unlink name kind) :=
  ⟨id, fun _ => rfl, fun _ => rfl⟩

/-- A new segment is none of those that were there. -/
theorem makeSegment_kept (maker : ι) (name : Name) : Kept i k (k.makeSegment maker name) where
  label := label_append
  segment := by
    intro n hn
    exact congrArg Layout.unflagged (Function.update_of_ne (Nat.ne_of_lt (label_lt hn)) ..)
  semaphore := fun _ => rfl

/-- So is a new semaphore. -/
theorem makeSemaphore_kept (maker : ι) (name : Name) (which : SemName) (value : Nat) :
    Kept i k (k.makeSemaphore maker name which value) where
  label := label_append
  segment := fun _ => rfl
  semaphore := by
    intro n which' hn
    exact Function.update_of_ne (Nat.ne_of_lt (label_lt hn)) ..

/-! ## What a `create` has established -/

/-- The semaphores that `create` has opened before it comes to this one. -/
def SemName.before : SemName → List SemName
  | .enq => []
  | .deq => [.enq]
  | .mutex => [.enq, .deq]

/-- Every semaphore of the object is of its own making. -/
def OwnSemaphores (i : ι) (k : NamedKernel ι Name) (o : NamedObject) : Prop :=
  ∀ which n, o.sem which = .opened n → k.label n = some (some i, .semaphore which)

/-- The descriptor is that of a segment of the object's own making, still
empty. -/
structure OwnSegment (i : ι) (k : NamedKernel ι Name) (o : NamedObject) (n : Nat) : Prop where
  fd : o.fd = .opened n
  label : k.label n = some (some i, .segment)
  zeroed : (k.segment n).unflagged = Layout.zeroed

/-- The semaphore could not be opened, or it has its initial value. -/
def Initialised (capacity : Nat) (k : NamedKernel ι Name) (o : NamedObject) (which : SemName) :
    Prop :=
  o.sem which = .failed ∨
    ∃ n, o.sem which = .opened n ∧ k.semaphore n = which.initial capacity

/-- What a `create` has established when it comes to this step. -/
def Creating (i : ι) (capacity : Nat) (k : NamedKernel ι Name) (o : NamedObject) :
    LifePc → Prop
  | .crtTruncate | .crtMap => ∃ n, OwnSegment i k o n
  | .crtStore _ => ∃ n, OwnSegment i k o n ∧ o.data = .mapped n
  | .crtOpenSem which =>
      ∃ n, OwnSegment i k o n ∧ o.data = .mapped n ∧
        ∀ earlier ∈ which.before, Initialised capacity k o earlier
  | .crtCheck =>
      ∃ n, OwnSegment i k o n ∧ o.data = .mapped n ∧
        ∀ earlier, Initialised capacity k o earlier
  | _ => True

variable {capacity : Nat} {o : NamedObject}

omit [DecidableEq Name] in
/-- The semaphores of an object stay its own while others are at work. -/
theorem OwnSemaphores.kept (h : OwnSemaphores i k o) (hkept : Kept i k k') :
    OwnSemaphores i k' o :=
  fun which n hn => hkept.label (h which n hn)

omit [DecidableEq Name] in
/-- So does its segment, and it stays empty. -/
theorem OwnSegment.kept {n : Nat} (h : OwnSegment i k o n) (hkept : Kept i k k') :
    OwnSegment i k' o n :=
  ⟨h.fd, hkept.label h.label, (hkept.segment h.label).trans h.zeroed⟩

omit [DecidableEq Name] in
/-- A semaphore of its own keeps its initial value while others are at work. -/
theorem Initialised.kept {which : SemName} (h : Initialised capacity k o which)
    (hown : OwnSemaphores i k o) (hkept : Kept i k k') : Initialised capacity k' o which := by
  refine h.imp_right fun hopened => ?_
  obtain ⟨n, hn, hvalue⟩ := hopened
  exact ⟨n, hn, (hkept.semaphore (hown which n hn)).trans hvalue⟩

omit [DecidableEq Name] in
/-- What a `create` has established stays while others are at work. -/
theorem Creating.kept {pc : LifePc} (h : Creating i capacity k o pc)
    (hown : OwnSemaphores i k o) (hkept : Kept i k k') : Creating i capacity k' o pc := by
  cases pc with
  | crtTruncate | crtMap =>
      obtain ⟨n, hsegment⟩ := h
      exact ⟨n, hsegment.kept hkept⟩
  | crtStore field =>
      obtain ⟨n, hsegment, hdata⟩ := h
      exact ⟨n, hsegment.kept hkept, hdata⟩
  | crtOpenSem which =>
      obtain ⟨n, hsegment, hdata, hinit⟩ := h
      exact ⟨n, hsegment.kept hkept, hdata,
        fun earlier hmem => (hinit earlier hmem).kept hown hkept⟩
  | crtCheck =>
      obtain ⟨n, hsegment, hdata, hinit⟩ := h
      exact ⟨n, hsegment.kept hkept, hdata, fun earlier => (hinit earlier).kept hown hkept⟩
  | _ => trivial

/-- **A step of a call on one object keeps what another has made.** -/
theorem lifeStep_kept {name : Name} {out : SystemOutcome} {pc pc' : LifePc} {o' : NamedObject}
    {notes : List LifeNote} (hij : i ≠ j) (hcreating : Creating j capacity k o pc)
    (h : lifeStep j name capacity out k o pc = some (k', o', pc', notes)) : Kept i k k' := by
  cases pc with
  | idle | created => cases h
  | crtUnlinkSem which =>
      cases h
      exact unlink_kept name _
  | crtUnlinkShm | dstUnlinkShm =>
      cases h
      exact unlink_kept name _
  | dstUnlinkSem which =>
      cases h
      exact unlink_kept name _
  | crtOpenShm =>
      simp only [lifeStep] at h
      split at h
      · cases h
        exact .refl i k
      · cases h
        exact makeSegment_kept j name
  | crtOpenSem which =>
      simp only [lifeStep] at h
      split at h
      · cases h
        exact .refl i k
      · cases h
        exact makeSemaphore_kept j name which _
  | crtStore field =>
      obtain ⟨n, hsegment, hdata⟩ := hcreating
      simp only [lifeStep, hdata] at h
      cases h
      refine store_kept fun hn => ?_
      rw [hsegment.label] at hn
      cases hn
      exact absurd rfl hij
  | attOpenShm =>
      simp only [lifeStep] at h
      split at h
      · split at h <;> cases h <;> exact .refl i k
      · cases h
        exact .refl i k
  | crtTruncate | crtMap | crtCheck | attMap | dstClose =>
      simp only [lifeStep] at h
      split at h <;> cases h <;> exact .refl i k
  | detUnmap | dstUnmap | dstCloseSem which =>
      cases h
      exact .refl i k

/-! ## The steps of one's own `create` -/

/-- The stores of `create` leave an empty segment empty. -/
theorem reset_zeroed {layout : Layout} (h : layout.unflagged = Layout.zeroed)
    (field : LayoutField) : (layout.reset field).unflagged = Layout.zeroed := by
  rw [← h]
  have hfront : layout.front = 0 := congrArg Layout.front h
  have hrear : layout.rear = 0 := congrArg Layout.rear h
  have hcount : layout.count = 0 := congrArg Layout.count h
  have henqueued : layout.totalEnqueued = 0 := congrArg Layout.totalEnqueued h
  have hdequeued : layout.totalDequeued = 0 := congrArg Layout.totalDequeued h
  cases field <;> simp [Layout.reset, Layout.unflagged, hfront, hrear, hcount, henqueued, hdequeued]

/-- What comes before the next semaphore is the current one, or comes before
that. -/
theorem before_next {which following : SemName} (h : which.next = some following) :
    ∀ earlier ∈ following.before, earlier = which ∨ earlier ∈ which.before := by
  cases which <;> cases h <;> decide

/-- All semaphores have been opened once the last one has. -/
theorem before_last {which : SemName} (h : which.next = none) :
    ∀ earlier, earlier = which ∨ earlier ∈ which.before := by
  cases which <;> cases h
  intro earlier
  cases earlier <;> decide

omit [DecidableEq Name] in
/-- A semaphore just opened, or one that could not be opened, keeps the others
as they are. -/
theorem Initialised.update {which earlier : SemName} {sem : SemHandle}
    (hsem : sem = .failed ∨ ∃ n, sem = .opened n ∧ k.semaphore n = which.initial capacity)
    (h : earlier = which ∨ Initialised capacity k o earlier) :
    Initialised capacity k { o with sem := Function.update o.sem which sem } earlier := by
  by_cases heq : earlier = which
  · subst heq
    simpa only [Initialised, Function.update_self] using hsem
  · simpa only [Initialised, Function.update_of_ne heq] using h.resolve_left heq

omit [DecidableEq Name] in
/-- What the next step of `create` finds once one more semaphore has been
seen to. -/
theorem creating_next {which : SemName} {n : Nat} (hsegment : OwnSegment i k o n)
    (hdata : o.data = .mapped n)
    (hinit : ∀ earlier, earlier = which ∨ earlier ∈ which.before →
      Initialised capacity k o earlier) :
    Creating i capacity k o (which.next.elim .crtCheck .crtOpenSem) := by
  cases hnext : which.next with
  | none => exact ⟨n, hsegment, hdata, fun earlier => hinit earlier (before_last hnext earlier)⟩
  | some following =>
      exact ⟨n, hsegment, hdata, fun earlier hmem => hinit earlier (before_next hnext earlier hmem)⟩

omit [DecidableEq Name] in
/-- One more semaphore of its own. -/
theorem OwnSemaphores.update {which : SemName} {sem : SemHandle} (h : OwnSemaphores i k o)
    (hsem : ∀ n, sem = .opened n → k.label n = some (some i, .semaphore which)) :
    OwnSemaphores i k { o with sem := Function.update o.sem which sem } := by
  intro other n hn
  by_cases heq : other = which
  · subst heq
    exact hsem n ((Function.update_self ..).symm.trans hn)
  · exact h other n ((Function.update_of_ne heq ..).symm.trans hn)

/-- **What a step of `create` establishes.**  Here and in the other calls the
semaphores of an object stay of its own making. -/
theorem lifeStep_creating {name : Name} {out : SystemOutcome} {pc pc' : LifePc}
    {o' : NamedObject} {notes : List LifeNote} (hown : OwnSemaphores i k o)
    (hcreating : Creating i capacity k o pc)
    (h : lifeStep i name capacity out k o pc = some (k', o', pc', notes)) :
    OwnSemaphores i k' o' ∧ Creating i capacity k' o' pc' := by
  cases pc with
  | idle | created => cases h
  | crtUnlinkSem which =>
      cases h
      exact ⟨hown.kept (unlink_kept name _), by cases which <;> trivial⟩
  | crtUnlinkShm | dstUnlinkShm =>
      cases h
      exact ⟨hown.kept (unlink_kept name _), trivial⟩
  | dstUnlinkSem which =>
      cases h
      exact ⟨hown.kept (unlink_kept name _), by cases which <;> trivial⟩
  | crtOpenShm =>
      simp only [lifeStep] at h
      split at h
      · cases h
        exact ⟨hown, trivial⟩
      · cases h
        have hnew : (k.makeSegment i name).segment k.things.length = Layout.zeroed :=
          Function.update_self ..
        refine ⟨hown.kept (makeSegment_kept i name), k.things.length, rfl, label_made k _, ?_⟩
        rw [hnew]
        rfl
  | crtTruncate =>
      simp only [lifeStep] at h
      split at h <;> cases h
      · exact ⟨hown, trivial⟩
      · exact ⟨hown, hcreating⟩
  | crtMap =>
      obtain ⟨n, hsegment⟩ := hcreating
      simp only [lifeStep] at h
      split at h
      · cases h
        exact ⟨hown, trivial⟩
      case isFalse hmapped =>
        cases h
        have hdata : o.mmap out = .mapped n := by
          unfold NamedObject.mmap at hmapped ⊢
          rw [hsegment.fd] at hmapped ⊢
          cases hfails : out.fails with
          | true => exact absurd (by rw [hfails]) hmapped
          | false => rfl
        exact ⟨hown, n, ⟨hsegment.fd, hsegment.label, hsegment.zeroed⟩, hdata⟩
  | crtStore field =>
      obtain ⟨n, hsegment, hdata⟩ := hcreating
      simp only [lifeStep, hdata] at h
      cases h
      have hzeroed : ((k.store n (·.reset field)).segment n).unflagged = Layout.zeroed := by
        rw [NamedKernel.store_self]
        exact reset_zeroed hsegment.zeroed field
      have hlater : OwnSegment i (k.store n (·.reset field)) o n :=
        ⟨hsegment.fd, hsegment.label, hzeroed⟩
      refine ⟨hown, ?_⟩
      cases hnext : field.next with
      | none => exact ⟨n, hlater, hdata, fun _ hmem => absurd hmem List.not_mem_nil⟩
      | some following => exact ⟨n, hlater, hdata⟩
  | crtOpenSem which =>
      obtain ⟨n, hsegment, hdata, hinit⟩ := hcreating
      simp only [lifeStep] at h
      split at h
      · cases h
        refine ⟨hown.update (fun m hm => SemHandle.noConfusion hm), ?_⟩
        refine creating_next ⟨hsegment.fd, hsegment.label, hsegment.zeroed⟩ hdata
          fun earlier hmem => ?_
        exact .update (.inl rfl) (hmem.imp_right (hinit earlier))
      · cases h
        have hkept : Kept i k (k.makeSemaphore i name which (which.initial capacity)) :=
          makeSemaphore_kept i name which _
        have hlater := hsegment.kept hkept
        constructor
        · refine (hown.kept hkept).update fun m hm => ?_
          cases hm
          exact label_made k _
        · refine creating_next ⟨hlater.fd, hlater.label, hlater.zeroed⟩ hdata fun earlier hmem => ?_
          refine .update (.inr ⟨_, rfl, Function.update_self ..⟩) (hmem.imp_right fun hbefore => ?_)
          exact (hinit earlier hbefore).kept hown hkept
  | crtCheck =>
      simp only [lifeStep] at h
      split at h <;> cases h <;> exact ⟨hown, trivial⟩
  | attOpenShm =>
      simp only [lifeStep] at h
      split at h
      · split at h <;> cases h <;> exact ⟨hown, trivial⟩
      · cases h
        exact ⟨hown, trivial⟩
  | attMap | dstClose =>
      simp only [lifeStep] at h
      split at h <;> cases h <;> exact ⟨hown, trivial⟩
  | detUnmap | dstUnmap =>
      cases h
      exact ⟨hown, trivial⟩
  | dstCloseSem which =>
      cases h
      constructor
      · refine hown.update fun n hn => ?_
        cases hsem : o.sem which <;> rw [hsem] at hn <;> cases hn
      · cases which <;> trivial

omit [DecidableEq Name] in
/-- Through handles of things the object has made, it sees what it saw before. -/
theorem view_kept {h : Handles} (hkept : Kept i k k')
    (hdata : k.label h.data = some (some i, .segment))
    (hsem : ∀ which, k.label (h.sem which) = some (some i, .semaphore which)) :
    (k'.view h).unflagged = (k.view h).unflagged := by
  have hview : ∀ k : NamedKernel ι Name, (k.view h).unflagged =
      (k.segment h.data).unflagged.shm (k.semaphore (h.sem .enq)) (k.semaphore (h.sem .deq))
        (k.semaphore (h.sem .mutex)) := fun _ => rfl
  rw [hview, hview, hkept.segment hdata, hkept.semaphore (hsem .enq), hkept.semaphore (hsem .deq),
    hkept.semaphore (hsem .mutex)]

omit [DecidableEq Name] in
/-- All semaphores of an object are different. -/
theorem sem_injective {h : Handles}
    (hsem : ∀ which, k.label (h.sem which) = some (some i, .semaphore which))
    (which other : SemName) (hne : which ≠ other) : h.sem which ≠ h.sem other :=
  ne_of_label (hsem which) (hsem other) fun heq => hne (by cases heq; rfl)

/-- **What a `create` that returns leaves**: handles of things of its own making,
an empty queue, and the semaphores that belong to it. -/
theorem lifeStep_created {name : Name} {out : SystemOutcome} {pc : LifePc} {o' : NamedObject}
    {notes : List LifeNote} (hcreating : Creating i capacity k o pc)
    (h : lifeStep i name capacity out k o pc = some (k', o', .created, notes)) :
    notes = [.returned .create] ∧ ∃ hs, o'.handles? = some hs ∧
      k'.label hs.data = some (some i, .segment) ∧
      (k'.view hs).unflagged = Shm.create capacity := by
  cases pc with
  | crtCheck =>
      obtain ⟨n, hsegment, hdata, hinit⟩ := hcreating
      simp only [lifeStep] at h
      split at h
      · cases h
      case isFalse hopen =>
        cases h
        push Not at hopen
        obtain ⟨enq, henq, henqValue⟩ := (hinit .enq).resolve_left hopen.1
        obtain ⟨deq, hdeq, hdeqValue⟩ := (hinit .deq).resolve_left hopen.2.1
        obtain ⟨mutex, hmutex, hmutexValue⟩ := (hinit .mutex).resolve_left hopen.2.2
        refine ⟨rfl, ⟨n, enq, deq, mutex⟩, ?_, hsegment.label, ?_⟩
        · simp only [NamedObject.handles?, hdata, henq, hdeq, hmutex]
        · have hview : (k.view ⟨n, enq, deq, mutex⟩).unflagged =
              (k.segment n).unflagged.shm (k.semaphore enq) (k.semaphore deq)
                (k.semaphore mutex) := rfl
          rw [hview, hsegment.zeroed, henqValue, hdeqValue, hmutexValue]
          rfl
  | idle | created => cases h
  | crtUnlinkSem which | dstCloseSem which | dstUnlinkSem which => cases which <;> cases h
  | crtUnlinkShm | detUnmap | dstUnmap | dstUnlinkShm => cases h
  | crtOpenSem which =>
      simp only [lifeStep] at h
      split at h <;> cases which <;> cases h
  | crtStore field =>
      simp only [lifeStep] at h
      split at h
      · cases field <;> cases h
      · cases h
  | attOpenShm =>
      simp only [lifeStep] at h
      split at h
      · split at h <;> cases h
      · cases h
  | crtOpenShm | crtTruncate | crtMap | attMap | dstClose =>
      simp only [lifeStep] at h
      split at h <;> cases h

end Kernel

/-! ## Every run -/

section Runs

variable {ι Tid Name : Type*} [DecidableEq ι]

/-- What an event adds to the notes since the last `create` of object `i`. -/
def NamedEvent.extend (i : ι) (notes : List (Tid × Note)) :
    NamedEvent ι Tid → List (Tid × Note)
  | .lifeNoted j (.returned .create) => if j = i then [] else notes
  | .lifeNoted _ _ => notes
  | .queueNoted j t note => if j = i then notes ++ [(t, note)] else notes

/-- What the threads of object `i` have shown since its last `create` returned. -/
def sinceCreate (i : ι) (trace : List (NamedEvent ι Tid)) : List (Tid × Note) :=
  trace.foldl (NamedEvent.extend i) []

/-- The notes since `create` grow event by event. -/
theorem sinceCreate_append (i : ι) (trace es : List (NamedEvent ι Tid)) :
    sinceCreate i (trace ++ es) = es.foldl (NamedEvent.extend i) (sinceCreate i trace) :=
  List.foldl_append

/-- Calls on another object add no note. -/
theorem extend_lifeNotes {i j : ι} (hij : j ≠ i) (notes : List (Tid × Note))
    (lifeNotes : List LifeNote) :
    (lifeNotes.map (.lifeNoted j ·)).foldl (NamedEvent.extend i) notes = notes := by
  induction lifeNotes with
  | nil => rfl
  | cons note rest ih =>
      have hfirst : NamedEvent.extend i notes (.lifeNoted j note) = notes := by
        cases note with
        | returned call => cases call <;> simp [NamedEvent.extend, hij]
        | thrown message => rfl
      rw [List.map_cons, List.foldl_cons, hfirst, ih]

/-- Nor do its queue calls. -/
theorem extend_otherNotes {i j : ι} (hij : j ≠ i) (t : Tid) (notes : List (Tid × Note))
    (queueNotes : List Note) :
    (queueNotes.map (.queueNoted j t ·)).foldl (NamedEvent.extend i) notes = notes := by
  induction queueNotes with
  | nil => rfl
  | cons note rest ih =>
      have hfirst : NamedEvent.extend i notes (.queueNoted j t note) = notes := if_neg hij
      rw [List.map_cons, List.foldl_cons, hfirst, ih]

/-- The queue calls on the object itself add theirs. -/
theorem extend_ownNotes (i : ι) (t : Tid) (notes : List (Tid × Note)) (queueNotes : List Note) :
    (queueNotes.map (.queueNoted i t ·)).foldl (NamedEvent.extend i) notes =
      notes ++ queueNotes.map (t, ·) := by
  induction queueNotes generalizing notes with
  | nil => simp
  | cons note rest ih =>
      have hfirst : NamedEvent.extend i notes (.queueNoted i t note) = notes ++ [(t, note)] :=
        if_pos rfl
      rw [List.map_cons, List.foldl_cons, hfirst, ih, List.map_cons, List.append_assoc]
      rfl

variable [DecidableEq Tid]

/-- Object `i` works on things of its own making, and what its threads have
done to them is a run of the queue. -/
structure Serves (capacity : Nat) (i : ι) (notes : List (Tid × Note))
    (s : NamedState ι Tid Name) (h : Handles) : Prop where
  handles : (s.object i).handles? = some h
  label : s.kernel.label h.data = some (some i, .segment)
  run : Run (queueMachine Tid capacity) (.created Tid capacity) notes
    ⟨(s.kernel.view h).unflagged, s.pc i⟩

/-- What every run keeps of object `i`. -/
structure ObjectInv (capacity : Nat) (i : ι) (notes : List (Tid × Note))
    (s : NamedState ι Tid Name) : Prop where
  own : OwnSemaphores i s.kernel (s.object i)
  creating : Creating i capacity s.kernel (s.object i) (s.life i)
  serves : s.life i = .created → ∃ h, Serves capacity i notes s h
  rests : s.life i ≠ .created → ∀ t, s.pc i t = .idle

/-- A thread at rest is in no call. -/
theorem rests_eq {pc : QueuePc} (h : pc.rests = true) : pc = .idle := by
  cases pc <;> first | rfl | cases h

section Steps

variable {c : Nat} {notes : List (Tid × Note)} {s s' : NamedState ι Tid Name} {i : ι}

omit [DecidableEq ι] in
/-- The semaphores of an object that serves are of its own making. -/
theorem Serves.sem_label {h : Handles} (hserves : Serves c i notes s h)
    (hown : OwnSemaphores i s.kernel (s.object i)) (which : SemName) :
    s.kernel.label (h.sem which) = some (some i, .semaphore which) :=
  hown which _ ((handles?_eq_some_iff.mp hserves.handles).2 which)

omit [DecidableEq ι] in
/-- A step that leaves alone what object `i` has made, its members and where it
is keeps what is known of it. -/
theorem ObjectInv.kept (h : ObjectInv c i notes s) (hkept : Kept i s.kernel s'.kernel)
    (hobject : s'.object i = s.object i) (hlife : s'.life i = s.life i)
    (hpc : s'.pc i = s.pc i) : ObjectInv c i notes s' where
  own := by
    rw [hobject]
    exact h.own.kept hkept
  creating := by
    rw [hobject, hlife]
    exact h.creating.kept h.own hkept
  serves := by
    intro hcreated
    obtain ⟨hs, hserves⟩ := h.serves (hlife ▸ hcreated)
    refine ⟨hs, by rw [hobject]; exact hserves.handles, hkept.label hserves.label, ?_⟩
    rw [view_kept hkept hserves.label (hserves.sem_label h.own), hpc]
    exact hserves.run
  rests := by
    rw [hlife, hpc]
    exact h.rests

/-- A step of a call on object `i` itself. -/
theorem ObjectInv.lifeStep [DecidableEq Name] {out : SystemOutcome} {name : Name}
    (h : ObjectInv c i notes s) {k' : NamedKernel ι Name} {o' : NamedObject} {pc' : LifePc} {lifeNotes : List LifeNote}
    (hstep : TaskSheduler.lifeStep i name c out s.kernel (s.object i) (s.life i) =
      some (k', o', pc', lifeNotes)) :
    ObjectInv c i ((lifeNotes.map (.lifeNoted i ·)).foldl (NamedEvent.extend i) notes)
      ⟨k', Function.update s.object i o', Function.update s.life i pc', s.pc⟩ := by
  have hnotCreated : s.life i ≠ .created := by
    intro hcreated
    rw [hcreated] at hstep
    cases hstep
  obtain ⟨hown, hcreating⟩ := lifeStep_creating h.own h.creating hstep
  refine ⟨?_, ?_, ?_, fun _ => h.rests hnotCreated⟩
  · simpa only [Function.update_self] using hown
  · simpa only [Function.update_self] using hcreating
  · intro hcreated
    obtain rfl : pc' = .created := (Function.update_self ..).symm.trans hcreated
    obtain ⟨rfl, hs, hhandles, hlabel, hview⟩ := lifeStep_created h.creating hstep
    refine ⟨hs, ?_, hlabel, ?_⟩
    · simpa only [Function.update_self] using hhandles
    · have hidle : s.pc i = fun _ => .idle := funext (h.rests hnotCreated)
      have hfresh : (([LifeNote.returned .create].map (.lifeNoted i ·)).foldl
          (NamedEvent.extend i) notes) = [] := by
        simp [NamedEvent.extend]
      rw [hfresh, hview, hidle]
      exact .nil

/-- A call on the queue of object `i` begins. -/
theorem ObjectInv.queueCall (h : ObjectInv c i notes s) {t : Tid} (call : QueueCall)
    (hcreated : s.life i = .created) (hrests : s.pc i t = .idle) :
    ObjectInv c i notes { s with
      pc := Function.update s.pc i (Function.update (s.pc i) t call.entry) } where
  own := h.own
  creating := h.creating
  serves := by
    intro _
    obtain ⟨hs, hserves⟩ := h.serves hcreated
    refine ⟨hs, hserves.handles, hserves.label, ?_⟩
    have hcall : (queueMachine Tid c).step ⟨(s.kernel.view hs).unflagged, s.pc i⟩ (.call t call) =
        some (⟨(s.kernel.view hs).unflagged, Function.update (s.pc i) t call.entry⟩, []) :=
      queueMachine_calls hrests call
    rw [← List.append_nil notes]
    simpa only [Function.update_self] using hserves.run.snoc hcall
  rests := fun hnot => absurd hcreated hnot

/-- A thread goes on with its call on the queue of object `i`. -/
theorem ObjectInv.queueStep (h : ObjectInv c i notes s) {t : Tid} {fail : Bool} {hs : Handles}
    {shm' : Shm} {pc' : QueuePc} {queueNotes : List Note}
    (hhandles : (s.object i).handles? = some hs)
    (hstep : TaskSheduler.queueStep c (s.kernel.view hs) (s.pc i t) fail =
      some (shm', pc', queueNotes)) :
    s.life i = .created ∧ ObjectInv c i (notes ++ queueNotes.map (t, ·)) { s with
      kernel := s.kernel.put hs shm'
      pc := Function.update s.pc i (Function.update (s.pc i) t pc') } := by
  have hcreated : s.life i = .created := by
    by_contra hnot
    rw [h.rests hnot t] at hstep
    cases hstep
  refine ⟨hcreated, h.own, ?_, ?_, fun hnot => absurd hcreated hnot⟩
  · rw [hcreated]
    trivial
  · intro _
    obtain ⟨hs', hserves⟩ := h.serves hcreated
    obtain rfl : hs = hs' := Option.some.inj (hhandles.symm.trans hserves.handles)
    refine ⟨hs, hhandles, hserves.label, ?_⟩
    have hview : (s.kernel.put hs shm').view hs = shm' :=
      s.kernel.view_put shm' (sem_injective (hserves.sem_label h.own))
    have hqueue : (queueMachine Tid c).step ⟨(s.kernel.view hs).unflagged, s.pc i⟩ (.step t fail) =
        some (⟨shm'.unflagged, Function.update (s.pc i) t pc'⟩, queueNotes.map (t, ·)) := by
      simp only [queueMachine, queueStep_unflagged hstep, Option.map_some]
    simpa only [hview, Function.update_self] using hserves.run.snoc hqueue

omit [DecidableEq ι] in
/-- The flag is nobody's own. -/
theorem store_flag_kept (k : NamedKernel ι Name) (n : Nat) (running : Bool) :
    Kept i k (k.store n ({ · with schedulerRunning := running })) :=
  store_kept fun _ => rfl

end Steps

variable [Fintype Tid] [DecidableEq Name] {name : ι → Name} {capacity : ι → Nat}
  {s s' : NamedState ι Tid Name} {trace es : List (NamedEvent ι Tid)}

/-- **Every step keeps what is known of every object.** -/
theorem objectInv_step {a : NamedAction ι Tid}
    (h : ∀ i, ObjectInv (capacity i) i (sinceCreate i trace) s)
    (hstep : (namedMachine ι Tid name capacity).step s a = some (s', es)) (i : ι) :
    ObjectInv (capacity i) i (sinceCreate i (trace ++ es)) s' := by
  rw [sinceCreate_append]
  cases a with
  | lifeCall j call =>
      simp only [namedMachine] at hstep
      split at hstep
      case isFalse => cases hstep
      case isTrue hrests =>
        cases hstep
        by_cases hij : i = j
        · subst hij
          have hentry : call.entry ≠ .created := by cases call <;> exact LifePc.noConfusion
          refine ⟨(h i).own, ?_, fun hcreated => ?_, fun _ t => rests_eq (hrests.2 t)⟩
          · simp only [Function.update_self]
            cases call <;> trivial
          · exact absurd ((Function.update_self ..).symm.trans hcreated) hentry
        · exact (h i).kept (.refl i _) rfl (Function.update_of_ne hij ..) rfl
  | lifeStep j out =>
      simp only [namedMachine, Option.map_eq_some_iff] at hstep
      obtain ⟨⟨k', o', pc', lifeNotes⟩, hlife, heq⟩ := hstep
      cases heq
      by_cases hij : i = j
      · subst hij
        exact (h i).lifeStep hlife
      · rw [extend_lifeNotes (Ne.symm hij)]
        exact (h i).kept (lifeStep_kept hij (h j).creating hlife) (Function.update_of_ne hij ..)
          (Function.update_of_ne hij ..) rfl
  | queueCall j t call =>
      simp only [namedMachine] at hstep
      split at hstep
      case isFalse => cases hstep
      case isTrue hrests =>
        cases hstep
        by_cases hij : i = j
        · subst hij
          exact (h i).queueCall call hrests.1 (rests_eq hrests.2)
        · exact (h i).kept (.refl i _) rfl rfl (Function.update_of_ne hij ..)
  | queueStep j t fail =>
      simp only [namedMachine, Option.bind_eq_some_iff, Option.map_eq_some_iff] at hstep
      obtain ⟨hs, hhandles, ⟨shm', pc', queueNotes⟩, hqueue, heq⟩ := hstep
      cases heq
      obtain ⟨hcreated, hown⟩ := (h j).queueStep hhandles hqueue
      by_cases hij : i = j
      · subst hij
        rw [extend_ownNotes]
        exact hown
      · rw [extend_otherNotes (Ne.symm hij)]
        obtain ⟨hs', hserves⟩ := (h j).serves hcreated
        obtain rfl : hs = hs' := Option.some.inj (hhandles.symm.trans hserves.handles)
        exact (h i).kept (put_kept hij hserves.label (hserves.sem_label (h j).own)) rfl rfl
          (Function.update_of_ne hij ..)
  | setSchedulerRunning j running =>
      simp only [namedMachine] at hstep
      split at hstep
      · cases hstep
        exact (h i).kept (store_flag_kept s.kernel _ running) rfl rfl rfl
      · cases hstep
        exact h i
      · cases hstep

/-- Every run keeps what is known of every object. -/
theorem objectInv_run {kernel : NamedKernel ι Name}
    (hrun : Run (namedMachine ι Tid name capacity) (.begin Tid kernel) trace s) (i : ι) :
    ObjectInv (capacity i) i (sinceCreate i trace) s := by
  refine hrun.invariant
    (fun trace s => ∀ i, ObjectInv (capacity i) i (sinceCreate i trace) s) (fun i => ?_)
    (fun _ _ _ _ _ hinv hstep => objectInv_step hinv hstep) i
  refine ⟨fun which n hn => ?_, trivial, fun hcreated => ?_, fun _ _ => rfl⟩
  · exact absurd hn SemHandle.noConfusion
  · exact absurd hcreated LifePc.noConfusion

/-- **Each created object has a queue of its own.**  Take any number of objects
with any names, each with a capacity that fits the slots of a
`SharedMemoryLayout`, and any number of threads, over a kernel in any state, and
any interleaving of the system calls of their `create`, `attach`, `detach` and
`destroy` with the steps of their queue calls, any system call failing at will.
Descriptor numbers and addresses of semaphores that have been closed are taken
not to be handed out again, so a second `close` of one hits nobody.

While an object is created, what its threads have done since is a run of the
queue from an empty segment of its capacity, up to the flag; the same is shown
by a run on the bytes of a layout, whose bytes then read as that segment; so its
tasks come out in the order in which they went in; and no other created object
has a segment or a semaphore in common with it. -/
theorem named_queues {kernel : NamedKernel ι Name} (hpos : ∀ j, 1 ≤ capacity j)
    (hcap : ∀ j, capacity j ≤ countTasks)
    (hrun : Run (namedMachine ι Tid name capacity) (.begin Tid kernel) trace s) {i : ι}
    (hcreated : s.life i = .created) :
    ∃ h, (s.object i).handles? = some h ∧
      Run (queueMachine Tid (capacity i)) (.created Tid (capacity i)) (sinceCreate i trace)
        ⟨(s.kernel.view h).unflagged, s.pc i⟩ ∧
      (∀ plan : CopyPlan, ∃ bytes seg,
        Run (segmentMachine Tid plan (capacity i)) (.created Tid (capacity i)) bytes seg ∧
        bytes.filterMap seenNote = sinceCreate i trace ∧
        Refines plan (capacity i) seg ⟨(s.kernel.view h).unflagged, s.pc i⟩) ∧
      dequeuedTasks (sinceCreate i trace) <+: enqueuedTasks (sinceCreate i trace) ∧
      ∀ j, j ≠ i → s.life j = .created → ∃ h', (s.object j).handles? = some h' ∧
        h'.data ≠ h.data ∧ ∀ which other, h'.sem other ≠ h.sem which := by
  have hsize : countTasks = 100 := rfl
  have hfits := hcap i
  obtain ⟨h, hserves⟩ := (objectInv_run hrun i).serves hcreated
  refine ⟨h, hserves.handles, hserves.run,
    fun plan => entries_run plan (hpos i) (hcap i) hserves.run, ?_, fun j hji hothers => ?_⟩
  · have hinv := runInv_run (hpos i) (by omega) hserves.run
    exact ⟨_, hinv.order.order.symm⟩
  · obtain ⟨h', hserves'⟩ := (objectInv_run hrun j).serves hothers
    refine ⟨h', hserves'.handles, ?_, fun which other => ?_⟩
    · exact ne_of_label hserves'.label hserves.label (by simp [hji])
    · exact ne_of_label (hserves'.sem_label (objectInv_run hrun j).own other)
        (hserves.sem_label (objectInv_run hrun i).own which) (by simp [hji])

end Runs

/-! ## Two objects with one name -/

/-- Nothing has been made, and no name is bound. -/
def NamedKernel.fresh (ι Name : Type*) : NamedKernel ι Name where
  things := []
  bound := fun _ => none
  segment := fun _ => Layout.zeroed
  semaphore := fun _ => 0

/-- Two objects with the same name and room for one task each. -/
def namesakes : Machine (NamedState Bool Unit Unit) (NamedAction Bool Unit)
    (NamedEvent Bool Unit) :=
  namedMachine Bool Unit (fun _ => ()) fun _ => 1

/-- So many steps of a call on an object, all successful. -/
def lifeSteps (i : Bool) (n : Nat) : List (NamedAction Bool Unit) :=
  List.replicate n (.lifeStep i ⟨false, ""⟩)

/-- A call on the queue of an object, and so many steps of it. -/
def queueCalls (i : Bool) (call : QueueCall) (n : Nat) : List (NamedAction Bool Unit) :=
  .queueCall i () call :: List.replicate n (.queueStep i () false)

/-- The second `create` takes the names away while the first queue holds a
task, which is still taken out of that queue afterwards. -/
def createdTwice : List (NamedAction Bool Unit) :=
  [.lifeCall true .create] ++ lifeSteps true 17 ++
    queueCalls true (.enqueue { SharedTask.zeroed with id := 7 }) 9 ++
    [.lifeCall false .create] ++ lifeSteps false 17 ++
    queueCalls false (.enqueue { SharedTask.zeroed with id := 9 }) 9 ++
    queueCalls true .dequeue 10

theorem createdTwice_executes :
    (exec namesakes (.begin Unit (.fresh Bool Unit)) createdTwice).isSome = true := by
  decide +kernel

/-- Each of the two queues has its own task, and the bytes of the first one's
segment show the same. -/
theorem named_queues_namesakes :
    ∃ trace s, Run namesakes (.begin Unit (.fresh Bool Unit)) trace s ∧
      (dequeuedTasks (sinceCreate true trace)).map SharedTask.id = [7] ∧
      (enqueuedTasks (sinceCreate false trace)).map SharedTask.id = [9] ∧
      ∃ h, (s.object true).handles? = some h ∧
        Run (queueMachine Unit 1) (.created Unit 1) (sinceCreate true trace)
          ⟨(s.kernel.view h).unflagged, s.pc true⟩ ∧
        (∃ bytes seg, Run (segmentMachine Unit CopyPlan.forward 1) (.created Unit 1) bytes seg ∧
          bytes.filterMap seenNote = sinceCreate true trace) ∧
        ∃ h', (s.object false).handles? = some h' ∧ h'.data ≠ h.data := by
  have hrun := exec_get_run createdTwice_executes
  have hfirst : ((exec namesakes (.begin Unit (.fresh Bool Unit)) createdTwice).get
      createdTwice_executes).1.life true = .created := by
    decide +kernel
  have hsecond : ((exec namesakes (.begin Unit (.fresh Bool Unit)) createdTwice).get
      createdTwice_executes).1.life false = .created := by
    decide +kernel
  have hdequeued : (dequeuedTasks (sinceCreate true
      ((exec namesakes (.begin Unit (.fresh Bool Unit)) createdTwice).get
        createdTwice_executes).2)).map SharedTask.id = [7] := by
    decide +kernel
  have henqueued : (enqueuedTasks (sinceCreate false
      ((exec namesakes (.begin Unit (.fresh Bool Unit)) createdTwice).get
        createdTwice_executes).2)).map SharedTask.id = [9] := by
    decide +kernel
  obtain ⟨h, hhandles, hqueue, hbytes, -, hothers⟩ :=
    named_queues (fun _ => le_rfl) (fun _ => by decide) hrun hfirst
  obtain ⟨bytes, seg, hsegment, hseen, -⟩ := hbytes CopyPlan.forward
  obtain ⟨h', hhandles', hdata, -⟩ := hothers false (by decide) hsecond
  exact ⟨_, _, hrun, hdequeued, henqueued, h, hhandles, hqueue, ⟨bytes, seg, hsegment, hseen⟩,
    h', hhandles', hdata⟩

/-! ## Objects on which no `create` has returned -/

section Fallback

variable {ι Tid Name : Type*} [DecidableEq ι] [DecidableEq Tid] [Fintype Tid] [DecidableEq Name]
  {name : ι → Name} {capacity : ι → Nat} {s s' : NamedState ι Tid Name}
  {trace es : List (NamedEvent ι Tid)}

/-- The steps of `create` on the way to its last test. -/
def LifePc.reopens : LifePc → Bool
  | .crtOpenSem .deq | .crtOpenSem .mutex | .crtCheck => true
  | _ => false

/-- Between calls no semaphore is being opened. -/
theorem rests_reopens {pc : LifePc} (h : pc.rests = true) : pc.reopens = false := by
  cases pc <;> first | rfl | cases h

/-- Some semaphore is `SEM_FAILED`, unless `create` is just opening them. -/
def LacksSemaphore (o : NamedObject) (pc : LifePc) : Prop :=
  pc.reopens = false → pc ≠ .created ∧ ∃ which, o.sem which = .failed

omit [DecidableEq ι] in
/-- As long as no `create` returns, a step of a call leaves a semaphore missing.
-/
theorem lifeStep_lacks {i : ι} {n : Name} {c : Nat} {out : SystemOutcome}
    {k k' : NamedKernel ι Name} {o o' : NamedObject} {pc pc' : LifePc} {notes : List LifeNote}
    (h : LacksSemaphore o pc)
    (hstep : lifeStep i n c out k o pc = some (k', o', pc', notes))
    (hnot : .returned .create ∉ notes) : LacksSemaphore o' pc' := by
  intro hlate
  cases pc with
  | crtOpenSem which =>
      simp only [lifeStep] at hstep
      split at hstep <;> cases which <;> cases hstep <;> cases hlate
  | crtCheck =>
      simp only [lifeStep] at hstep
      split at hstep
      case isFalse =>
        cases hstep
        exact absurd (List.mem_singleton.mpr rfl) hnot
      case isTrue hfailed =>
        cases hstep
        refine ⟨LifePc.noConfusion, ?_⟩
        rcases hfailed with henq | hdeq | hmutex
        · exact ⟨.enq, henq⟩
        · exact ⟨.deq, hdeq⟩
        · exact ⟨.mutex, hmutex⟩
  | dstCloseSem which =>
      obtain ⟨-, failed, hfailed⟩ := h rfl
      cases hstep
      refine ⟨by cases which <;> exact LifePc.noConfusion, failed, ?_⟩
      by_cases heq : failed = which
      · subst heq
        simp only [Function.update_self, hfailed, SemHandle.close]
      · simpa only [Function.update_of_ne heq] using hfailed
  | idle | created => cases hstep
  | crtUnlinkSem which | dstUnlinkSem which =>
      obtain ⟨-, hfailed⟩ := h rfl
      cases hstep
      exact ⟨by cases which <;> exact LifePc.noConfusion, hfailed⟩
  | crtUnlinkShm | dstUnlinkShm | detUnmap | dstUnmap =>
      obtain ⟨-, hfailed⟩ := h rfl
      cases hstep
      exact ⟨LifePc.noConfusion, hfailed⟩
  | crtStore field =>
      obtain ⟨-, hfailed⟩ := h rfl
      simp only [lifeStep] at hstep
      split at hstep
      · cases hstep
        exact ⟨by cases field <;> exact LifePc.noConfusion, hfailed⟩
      · cases hstep
  | attOpenShm =>
      obtain ⟨-, hfailed⟩ := h rfl
      simp only [lifeStep] at hstep
      split at hstep
      · split at hstep <;> cases hstep <;> exact ⟨LifePc.noConfusion, hfailed⟩
      · cases hstep
        exact ⟨LifePc.noConfusion, hfailed⟩
  | crtOpenShm | crtTruncate | crtMap | attMap | dstClose =>
      obtain ⟨-, hfailed⟩ := h rfl
      simp only [lifeStep] at hstep
      split at hstep <;> cases hstep <;> exact ⟨LifePc.noConfusion, hfailed⟩

/-- So does every step of every object. -/
theorem lacks_step {a : NamedAction ι Tid} {i : ι}
    (h : LacksSemaphore (s.object i) (s.life i))
    (hstep : (namedMachine ι Tid name capacity).step s a = some (s', es))
    (hnot : .lifeNoted i (.returned .create) ∉ es) :
    LacksSemaphore (s'.object i) (s'.life i) := by
  cases a with
  | lifeCall j call =>
      simp only [namedMachine] at hstep
      split at hstep
      case isFalse => cases hstep
      case isTrue hrests =>
        cases hstep
        by_cases hij : i = j
        · subst hij
          intro _
          simp only [Function.update_self]
          exact ⟨by cases call <;> exact LifePc.noConfusion, (h (rests_reopens hrests.1)).2⟩
        · simpa only [Function.update_of_ne hij] using h
  | lifeStep j out =>
      simp only [namedMachine, Option.map_eq_some_iff] at hstep
      obtain ⟨⟨k', o', pc', lifeNotes⟩, hlife, heq⟩ := hstep
      cases heq
      by_cases hij : i = j
      · subst hij
        simp only [Function.update_self]
        exact lifeStep_lacks h hlife fun hmem => hnot (List.mem_map_of_mem hmem)
      · simpa only [Function.update_of_ne hij] using h
  | queueCall j t call =>
      simp only [namedMachine] at hstep
      split at hstep <;> cases hstep
      exact h
  | queueStep j t fail =>
      simp only [namedMachine, Option.bind_eq_some_iff, Option.map_eq_some_iff] at hstep
      obtain ⟨hs, hhandles, r, hqueue, heq⟩ := hstep
      cases heq
      exact h
  | setSchedulerRunning j running =>
      simp only [namedMachine] at hstep
      split at hstep <;> cases hstep <;> exact h

/-- **The fallback has no queue.**  An object on which no `create` has returned
lacks a semaphore whenever no such call is under way on it, whatever it has
attached to: `create` or else `attach`, as `main` does, leads to a queue only if
`create` returns. -/
theorem fallback_has_no_queue {kernel : NamedKernel ι Name}
    (hrun : Run (namedMachine ι Tid name capacity) (.begin Tid kernel) trace s) {i : ι}
    (hnot : .lifeNoted i (.returned .create) ∉ trace) (hrests : (s.life i).rests = true) :
    (s.object i).handles? = none ∧ ∃ which, (s.object i).sem which = .failed := by
  have hlacks : LacksSemaphore (s.object i) (s.life i) := by
    refine hrun.invariant (fun trace s => .lifeNoted i (.returned .create) ∉ trace →
      LacksSemaphore (s.object i) (s.life i)) (fun _ _ => ⟨LifePc.noConfusion, .enq, rfl⟩) ?_ hnot
    intro trace s a s' es hinv hstep hnot
    rw [List.mem_append, not_or] at hnot
    exact lacks_step (hinv hnot.1) hstep hnot.2
  obtain ⟨-, which, hfailed⟩ := hlacks (rests_reopens hrests)
  refine ⟨?_, which, hfailed⟩
  cases hhandles : (s.object i).handles? with
  | none => rfl
  | some h =>
      rw [(handles?_eq_some_iff.mp hhandles).2 which] at hfailed
      cases hfailed

end Fallback

/-- Whether an event is the return of a `create` of object `i`. -/
def NamedEvent.isCreate {ι Tid : Type*} [DecidableEq ι] (i : ι) : NamedEvent ι Tid → Bool
  | .lifeNoted j (.returned .create) => decide (j = i)
  | _ => false

/-- Both objects are in `create` at the same time: the second one has made the
semaphores when the first one comes to them, and then the first one attaches. -/
def createOrAttach : List (NamedAction Bool Unit) :=
  [.lifeCall false .create] ++ lifeSteps false 3 ++ [.lifeCall true .create] ++
    lifeSteps true 17 ++ lifeSteps false 14 ++ [.lifeCall false .attach] ++ lifeSteps false 2

theorem createOrAttach_executes :
    (exec namesakes (.begin Unit (.fresh Bool Unit)) createOrAttach).isSome = true := by
  decide +kernel

/-- The first object has attached to the segment of the second one, and has no
queue. -/
theorem fallback_has_no_queue_attached :
    ∃ trace s, Run namesakes (.begin Unit (.fresh Bool Unit)) trace s ∧ s.life false = .idle ∧
      (s.object false).data = .mapped 4 ∧ (s.object false).handles? = none := by
  have hrun := exec_get_run createOrAttach_executes
  have hnone : ((exec namesakes (.begin Unit (.fresh Bool Unit)) createOrAttach).get
      createOrAttach_executes).2.all (fun e => !e.isCreate false) = true := by
    decide +kernel
  have hidle : ((exec namesakes (.begin Unit (.fresh Bool Unit)) createOrAttach).get
      createOrAttach_executes).1.life false = .idle := by
    decide +kernel
  have hdata : (((exec namesakes (.begin Unit (.fresh Bool Unit)) createOrAttach).get
      createOrAttach_executes).1.object false).data = .mapped 4 := by
    decide +kernel
  have hnot : .lifeNoted false (.returned .create) ∉ ((exec namesakes
      (.begin Unit (.fresh Bool Unit)) createOrAttach).get createOrAttach_executes).2 :=
    fun hmem => absurd (List.all_eq_true.mp hnone _ hmem) (by decide)
  have hrests : (((exec namesakes (.begin Unit (.fresh Bool Unit)) createOrAttach).get
      createOrAttach_executes).1.life false).rests = true := by
    rw [hidle]
    rfl
  exact ⟨_, _, hrun, hidle, hdata, (fallback_has_no_queue hrun hnot hrests).1⟩

end TaskSheduler
