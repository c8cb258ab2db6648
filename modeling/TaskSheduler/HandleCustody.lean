import TaskSheduler.Interleaving

/-!
# Handles that are opened, used and released

A program obtains handles from its surroundings, uses them and gives them
back.  A trace of `HandleEvent`s says what it did with which handle, and the
`Status` of a handle is what its events so far amount to; `misused` is final.
`LivesOnce` is the one proper life of a handle: opened, used, released.

A `Custody` ties this to a machine: in each state some handles are held, a
step touches only handles that are held or that it opens itself, and what it
opens is new.  A state is `Sound` when no handle is misused and every open one
is held.  A state that is not sound stays so, hence `lives_once_iff_along`:
if nothing is held in the end, every handle opened on the way has lived once
exactly when each step was one that keeps the state sound.
-/

namespace HandleCustody

open Interleaving

/-- What is done with a handle. -/
inductive HandleEvent (η : Type*)
  | opened (h : η)
  | used (h : η)
  | released (h : η)
deriving DecidableEq

/-- What the events of a handle amount to. -/
inductive Status
  | unopened
  | opened
  | closed
  | misused
deriving DecidableEq

section Events

variable {η : Type*}

/-- The handle of an event. -/
def HandleEvent.handle : HandleEvent η → η
  | .opened h => h
  | .used h => h
  | .released h => h

/-- What an event makes of the status of its handle. -/
def HandleEvent.next : HandleEvent η → Status → Status
  | .opened _, .unopened => .opened
  | .used _, .opened => .opened
  | .released _, .opened => .closed
  | _, _ => .misused

/-- Using a handle that is not open is misuse. -/
theorem used_next {h : η} {status : Status} (hnot : status ≠ .opened) :
    (HandleEvent.used h).next status = .misused := by
  cases status with
  | opened => exact absurd rfl hnot
  | unopened => rfl
  | closed => rfl
  | misused => rfl

/-- Releasing a handle that is not open is misuse. -/
theorem released_next {h : η} {status : Status} (hnot : status ≠ .opened) :
    (HandleEvent.released h).next status = .misused := by
  cases status with
  | opened => exact absurd rfl hnot
  | unopened => rfl
  | closed => rfl
  | misused => rfl

/-- What the events of one handle make of its status. -/
def lifeAfter (status : Status) (es : List (HandleEvent η)) : Status :=
  es.foldl (fun st e => e.next st) status

theorem lifeAfter_cons (status : Status) (e : HandleEvent η) (es : List (HandleEvent η)) :
    lifeAfter status (e :: es) = lifeAfter (e.next status) es := rfl

/-- A misused handle stays misused. -/
theorem lifeAfter_misused (es : List (HandleEvent η)) : lifeAfter .misused es = .misused := by
  induction es with
  | nil => rfl
  | cons e rest ih =>
      have hnext : e.next .misused = .misused := by cases e <;> rfl
      rw [lifeAfter_cons, hnext, ih]

/-- A handle with an event is not unopened any more. -/
theorem lifeAfter_ne_unopened {status : Status} {e : HandleEvent η} {es : List (HandleEvent η)}
    (he : e ∈ es) : lifeAfter status es ≠ .unopened := by
  have hnext : ∀ (e : HandleEvent η) (st : Status), e.next st ≠ .unopened := by
    intro e st
    cases e <;> cases st <;> exact Status.noConfusion
  have hstays : ∀ (es : List (HandleEvent η)) (st : Status), st ≠ .unopened →
      lifeAfter st es ≠ .unopened := by
    intro es
    induction es with
    | nil => exact fun st hst => hst
    | cons e rest ih => exact fun st _ => ih _ (hnext e st)
  cases es with
  | nil => cases he
  | cons first rest => exact hstays rest _ (hnext first status)

/-- A closed handle is left alone if it is still closed later. -/
theorem lifeAfter_closed_iff (es : List (HandleEvent η)) :
    lifeAfter .closed es = .closed ↔ es = [] := by
  cases es with
  | nil => exact iff_of_true rfl rfl
  | cons e rest =>
      have hnext : e.next .closed = .misused := by cases e <;> rfl
      rw [lifeAfter_cons, hnext, lifeAfter_misused]
      exact iff_of_false Status.noConfusion (List.cons_ne_nil _ _)

/-- An open handle that ends closed is used and then released. -/
theorem lifeAfter_opened_iff {h : η} {es : List (HandleEvent η)}
    (hall : ∀ e ∈ es, e.handle = h) :
    lifeAfter .opened es = .closed ↔ ∃ n, es = List.replicate n (.used h) ++ [.released h] := by
  induction es with
  | nil => exact iff_of_false Status.noConfusion (by simp)
  | cons e rest ih =>
      obtain ⟨hhead, hrest⟩ := List.forall_mem_cons.mp hall
      rw [lifeAfter_cons]
      cases e with
      | opened h' =>
          have hnext : (HandleEvent.opened h').next .opened = .misused := rfl
          rw [hnext, lifeAfter_misused]
          refine iff_of_false Status.noConfusion fun ⟨n, hn⟩ => ?_
          cases n <;> simp [List.replicate_succ] at hn
      | used h' =>
          obtain rfl : h' = h := hhead
          have hnext : (HandleEvent.used h').next .opened = .opened := rfl
          rw [hnext, ih hrest]
          constructor
          · rintro ⟨n, rfl⟩
            exact ⟨n + 1, rfl⟩
          · rintro ⟨n, hn⟩
            cases n with
            | zero => simp at hn
            | succ n => exact ⟨n, (List.cons.inj hn).2⟩
      | released h' =>
          obtain rfl : h' = h := hhead
          have hnext : (HandleEvent.released h').next .opened = .closed := rfl
          rw [hnext, lifeAfter_closed_iff]
          constructor
          · rintro rfl
            exact ⟨0, rfl⟩
          · rintro ⟨n, hn⟩
            cases n with
            | zero => exact (List.cons.inj hn).2
            | succ n => simp [List.replicate_succ] at hn

variable [DecidableEq η]

/-- The statuses of all handles after an event. -/
def HandleEvent.after (status : η → Status) (e : HandleEvent η) : η → Status :=
  Function.update status e.handle (e.next (status e.handle))

/-- The statuses of all handles after a trace. -/
def statusAfter (status : η → Status) (es : List (HandleEvent η)) : η → Status :=
  es.foldl HandleEvent.after status

/-- The events of one handle. -/
def eventsOf (h : η) (es : List (HandleEvent η)) : List (HandleEvent η) :=
  es.filter fun e => e.handle = h

/-- A handle is opened, used any number of times, released, and then left
alone. -/
def LivesOnce (es : List (HandleEvent η)) (h : η) : Prop :=
  ∃ n, eventsOf h es = .opened h :: (List.replicate n (.used h) ++ [.released h])

theorem statusAfter_append (status : η → Status) (es fs : List (HandleEvent η)) :
    statusAfter status (es ++ fs) = statusAfter (statusAfter status es) fs :=
  List.foldl_append

/-- The status of a handle depends on its own events only. -/
theorem statusAfter_apply (status : η → Status) (es : List (HandleEvent η)) (h : η) :
    statusAfter status es h = lifeAfter (status h) (eventsOf h es) := by
  induction es generalizing status with
  | nil => rfl
  | cons e rest ih =>
      have hrest : statusAfter status (e :: rest) h = statusAfter (e.after status) rest h := rfl
      rw [hrest, ih, eventsOf, eventsOf]
      by_cases hsame : e.handle = h
      · subst hsame
        rw [List.filter_cons_of_pos (by simp), lifeAfter_cons, HandleEvent.after,
          Function.update_self]
      · rw [List.filter_cons_of_neg (by simp [hsame]), HandleEvent.after,
          Function.update_of_ne (Ne.symm hsame)]

/-- A handle that no event is about keeps its status. -/
theorem statusAfter_untouched {status : η → Status} {es : List (HandleEvent η)} {h : η}
    (hnone : ∀ e ∈ es, e.handle ≠ h) : statusAfter status es h = status h := by
  have hempty : eventsOf h es = [] := List.filter_eq_nil_iff.mpr fun e he => by simp [hnone e he]
  rw [statusAfter_apply, hempty]
  rfl

/-- A handle that is used while it is not open is misused for good. -/
theorem statusAfter_used_misused {status : η → Status} {es : List (HandleEvent η)} {h : η}
    (hnot : status h ≠ .opened) : statusAfter status (.used h :: es) h = .misused := by
  rw [statusAfter_apply, eventsOf, List.filter_cons_of_pos (by simp [HandleEvent.handle]),
    lifeAfter_cons, used_next hnot, lifeAfter_misused]

/-- A misused handle stays misused. -/
theorem statusAfter_misused {status : η → Status} {es : List (HandleEvent η)} {h : η}
    (hmisused : status h = .misused) : statusAfter status es h = .misused := by
  rw [statusAfter_apply, hmisused, lifeAfter_misused]

/-- What releasing several handles makes of the statuses. -/
theorem statusAfter_released {status : η → Status} {hs : List η} (hnodup : hs.Nodup) (h : η) :
    statusAfter status (hs.map .released) h =
      if h ∈ hs then (HandleEvent.released h).next (status h) else status h := by
  induction hs generalizing status with
  | nil => rfl
  | cons k rest ih =>
      obtain ⟨hnot, hrest⟩ := List.nodup_cons.mp hnodup
      have hcons : statusAfter status ((k :: rest).map .released) =
          statusAfter ((HandleEvent.released k).after status) (rest.map .released) := rfl
      rw [hcons, ih hrest, HandleEvent.after]
      by_cases hk : h = k
      · subst hk
        rw [if_neg hnot, if_pos List.mem_cons_self]
        exact Function.update_self ..
      · have hsame : Function.update status (HandleEvent.released k).handle
            ((HandleEvent.released k).next (status (HandleEvent.released k).handle)) h =
            status h := Function.update_of_ne hk ..
        rw [hsame]
        simp only [List.mem_cons, hk, false_or]

/-- What has been released is not open. -/
theorem released_ne_opened {status : η → Status} {hs : List η} (hnodup : hs.Nodup) {h : η}
    (hh : h ∈ hs) : statusAfter status (hs.map .released) h ≠ .opened := by
  rw [statusAfter_released hnodup, if_pos hh]
  cases status h <;> exact Status.noConfusion

omit [DecidableEq η] in
theorem handle_of_opening {h : η} {n : Nat} {e : HandleEvent η}
    (he : e ∈ HandleEvent.opened h :: List.replicate n (.used h)) : e.handle = h := by
  rcases List.mem_cons.mp he with rfl | hused
  · rfl
  · rw [List.eq_of_mem_replicate hused]
    rfl

/-- A handle that is opened and used at once is open. -/
theorem statusAfter_opening {status : η → Status} {h : η} (hnew : status h = .unopened) (n : Nat) :
    statusAfter status (.opened h :: List.replicate n (.used h)) h = .opened := by
  have hstays : ∀ n, lifeAfter .opened (List.replicate n (.used h)) = .opened := by
    intro n
    induction n with
    | zero => rfl
    | succ n ih =>
        rw [List.replicate_succ, lifeAfter_cons]
        exact ih
  have hall : ∀ e ∈ HandleEvent.opened h :: List.replicate n (.used h), decide (e.handle = h) :=
    fun e he => decide_eq_true (handle_of_opening he)
  rw [statusAfter_apply, eventsOf, List.filter_eq_self.mpr hall, hnew, lifeAfter_cons]
  exact hstays n

/-- The events of opening handles one after the other, each used some times at
once. -/
def openings (hs : List (η × Nat)) : List (HandleEvent η) :=
  hs.flatMap fun p => .opened p.1 :: List.replicate p.2 (.used p.1)

omit [DecidableEq η] in
/-- The handles that `openings` opens. -/
theorem opened_mem_openings {hs : List (η × Nat)} {h : η} :
    .opened h ∈ openings hs ↔ h ∈ hs.map Prod.fst := by
  simp only [openings, List.mem_flatMap, List.mem_cons, HandleEvent.opened.injEq,
    List.mem_replicate, reduceCtorEq, and_false, or_false, List.mem_map]
  exact exists_congr fun p => and_congr_right fun _ => eq_comm

omit [DecidableEq η] in
/-- What is touched while handles are opened has just been opened. -/
theorem opened_of_mem_openings {hs : List (η × Nat)} {e : HandleEvent η} (he : e ∈ openings hs) :
    .opened e.handle ∈ openings hs := by
  obtain ⟨p, hp, hmem⟩ := List.mem_flatMap.mp he
  rw [opened_mem_openings, handle_of_opening hmem]
  exact List.mem_map_of_mem hp

/-- Handles opened one after the other are open in the end. -/
theorem statusAfter_openings {status : η → Status} {hs : List (η × Nat)} {h : η}
    (hnodup : (hs.map Prod.fst).Nodup) (hnew : h ∈ hs.map Prod.fst → status h = .unopened) :
    statusAfter status (openings hs) h = if h ∈ hs.map Prod.fst then .opened else status h := by
  induction hs generalizing status with
  | nil => rfl
  | cons p rest ih =>
      rw [List.map_cons, List.nodup_cons] at hnodup
      rw [List.map_cons, List.mem_cons] at hnew
      have hcons : openings (p :: rest) =
          (.opened p.1 :: List.replicate p.2 (.used p.1)) ++ openings rest := rfl
      rw [hcons, statusAfter_append, List.map_cons]
      by_cases hp : h = p.1
      · subst hp
        rw [ih hnodup.2 fun hlater => absurd hlater hnodup.1, if_neg hnodup.1,
          if_pos List.mem_cons_self]
        exact statusAfter_opening (hnew (.inl rfl)) p.2
      · have hsame : statusAfter status (.opened p.1 :: List.replicate p.2 (.used p.1)) h =
            status h :=
          statusAfter_untouched fun e he heq => hp (by rw [← heq, handle_of_opening he])
        rw [ih hnodup.2 fun hlater => by rw [hsame]; exact hnew (.inr hlater), hsame]
        simp only [List.mem_cons, hp, false_or]

/-- A handle that is not open, and is not opened, is not open afterwards. -/
theorem statusAfter_ne_opened {status : η → Status} {es : List (HandleEvent η)} {h : η}
    (hnot : status h ≠ .opened) (hnone : .opened h ∉ es) :
    statusAfter status es h ≠ .opened := by
  induction es generalizing status with
  | nil => exact hnot
  | cons e rest ih =>
      rw [List.mem_cons, not_or] at hnone
      obtain ⟨hfirst, hrest⟩ := hnone
      refine @ih (e.after status) ?_ hrest
      rw [HandleEvent.after]
      by_cases hown : h = e.handle
      · subst hown
        rw [Function.update_self]
        cases e with
        | opened k => exact absurd rfl hfirst
        | used k =>
            rw [used_next hnot]
            exact Status.noConfusion
        | released k =>
            rw [released_next hnot]
            exact Status.noConfusion
      · rwa [Function.update_of_ne hown]

/-- Using an open handle changes no status. -/
theorem statusAfter_used {status : η → Status} {h : η} (hopen : status h = .opened) :
    statusAfter status [.used h] = status := by
  have hnext : (HandleEvent.used h).next .opened = .opened := rfl
  show Function.update status h ((HandleEvent.used h).next (status h)) = status
  rw [hopen, hnext, ← hopen, Function.update_eq_self]

/-- **A handle that was never open before has lived once exactly if it ends
closed.** -/
theorem statusAfter_closed_iff {status : η → Status} {es : List (HandleEvent η)} {h : η}
    (hnew : status h = .unopened) :
    statusAfter status es h = .closed ↔ LivesOnce es h := by
  have hall : ∀ e ∈ eventsOf h es, e.handle = h := fun e he => by
    simpa [eventsOf] using (List.mem_filter.mp he).2
  rw [statusAfter_apply, hnew, LivesOnce]
  generalize eventsOf h es = own at hall
  cases own with
  | nil => exact iff_of_false Status.noConfusion (by simp)
  | cons e rest =>
      obtain ⟨hhead, hrest⟩ := List.forall_mem_cons.mp hall
      rw [lifeAfter_cons]
      cases e with
      | opened h' =>
          obtain rfl : h' = h := hhead
          have hnext : (HandleEvent.opened h').next .unopened = .opened := rfl
          rw [hnext, lifeAfter_opened_iff hrest]
          simp
      | used h' =>
          have hnext : (HandleEvent.used h').next .unopened = .misused := rfl
          rw [hnext, lifeAfter_misused]
          exact iff_of_false Status.noConfusion (by simp)
      | released h' =>
          have hnext : (HandleEvent.released h').next .unopened = .misused := rfl
          rw [hnext, lifeAfter_misused]
          exact iff_of_false Status.noConfusion (by simp)

end Events

/-! ## Machines that hold handles -/

variable {σ α η : Type*} [DecidableEq η]

/-- Which handles a machine holds in a state, and what its steps do with them. -/
structure Custody (m : Machine σ α (HandleEvent η)) where
  /-- What the events so far amount to, for each handle. -/
  status : σ → η → Status
  held : σ → η → Prop
  /-- The states that the machine can be in. -/
  valid : σ → Prop
  valid_step : ∀ {s a s' es}, valid s → m.step s a = some (s', es) → valid s'
  status_step : ∀ {s a s' es}, m.step s a = some (s', es) →
    status s' = statusAfter (status s) es
  touched : ∀ {s a s' es}, m.step s a = some (s', es) →
    ∀ e ∈ es, held s e.handle ∨ .opened e.handle ∈ es
  held_step : ∀ {s a s' es}, m.step s a = some (s', es) →
    ∀ h, held s' h → held s h ∨ .opened h ∈ es
  fresh : ∀ {s a s' es}, valid s → m.step s a = some (s', es) →
    ∀ h, .opened h ∈ es → status s h = .unopened

namespace Custody

variable {m : Machine σ α (HandleEvent η)} (c : Custody m)

/-- No handle is misused, and every open one is held. -/
structure Sound (s : σ) : Prop where
  proper : ∀ h, c.status s h ≠ .misused
  kept : ∀ h, c.status s h = .opened → c.held s h

/-- A handle that is not held is not touched, unless it is new. -/
theorem untouched {s s' : σ} {a : α} {es : List (HandleEvent η)} (hvalid : c.valid s)
    (hstep : m.step s a = some (s', es)) {h : η} (hopen : c.status s h = .opened)
    (hlost : ¬ c.held s h) : ∀ e ∈ es, e.handle ≠ h := by
  rintro e he rfl
  rcases c.touched hstep e he with hheld | hnew
  · exact hlost hheld
  · rw [c.fresh hvalid hstep _ hnew] at hopen
    cases hopen

/-- **A state that is not sound stays so**: misuse cannot be undone, and what
nobody holds any more is never released. -/
theorem not_sound_step {s s' : σ} {a : α} {es : List (HandleEvent η)} (hvalid : c.valid s)
    (hstep : m.step s a = some (s', es)) (hnot : ¬ c.Sound s) : ¬ c.Sound s' := by
  intro hsound
  apply hnot
  constructor
  · intro h hmisused
    apply hsound.proper h
    rw [c.status_step hstep]
    exact statusAfter_misused hmisused
  · intro h hopen
    by_contra hlost
    have hnone := c.untouched hvalid hstep hopen hlost
    have hstill : c.status s' h = .opened := by
      rw [c.status_step hstep, statusAfter_untouched hnone, hopen]
    rcases c.held_step hstep h (hsound.kept h hstill) with hheld | hnew
    · exact hlost hheld
    · exact hnone _ hnew rfl

/-- A step that releases some handles, and forgets no others. -/
theorem sound_releases {s s' : σ} {a : α} {hs : List η}
    (hstep : m.step s a = some (s', hs.map .released)) (hsound : c.Sound s) (hnodup : hs.Nodup)
    (hkeeps : ∀ h, c.held s h → c.held s' h ∨ h ∈ hs) :
    c.Sound s' ↔ ∀ h ∈ hs, c.status s h = .opened := by
  have hstatus : ∀ h, c.status s' h =
      if h ∈ hs then (HandleEvent.released h).next (c.status s h) else c.status s h := by
    intro h
    rw [c.status_step hstep, statusAfter_released hnodup]
  have hclosed : ∀ h : η, (HandleEvent.released h).next .opened = .closed := fun h => rfl
  constructor
  · intro hafter h hh
    by_contra hnot
    apply hafter.proper h
    rw [hstatus, if_pos hh, released_next hnot]
  · intro hopen
    refine ⟨fun h => ?_, fun h => ?_⟩
    · rw [hstatus]
      by_cases hh : h ∈ hs
      · rw [if_pos hh, hopen h hh, hclosed]
        exact Status.noConfusion
      · rw [if_neg hh]
        exact hsound.proper h
    · rw [hstatus]
      by_cases hh : h ∈ hs
      · rw [if_pos hh, hopen h hh, hclosed]
        exact Status.noConfusion
      · rw [if_neg hh]
        intro hstill
        exact (hkeeps h (hsound.kept h hstill)).resolve_right hh

/-- A step that leaves some new handles open, and hands them to someone. -/
theorem sound_opens {s s' : σ} {news : List η}
    (hstatus : ∀ h, c.status s' h = if h ∈ news then .opened else c.status s h)
    (hnews : ∀ h ∈ news, c.held s' h) (hsound : c.Sound s) :
    c.Sound s' ↔ ∀ h, c.held s h → c.status s h = .opened → c.held s' h := by
  constructor
  · intro hafter h _ hopen
    apply hafter.kept
    rw [hstatus, hopen, ite_self]
  · intro hkeeps
    refine ⟨fun h => ?_, fun h => ?_⟩
    · rw [hstatus]
      by_cases hh : h ∈ news
      · rw [if_pos hh]
        exact Status.noConfusion
      · rw [if_neg hh]
        exact hsound.proper h
    · rw [hstatus]
      by_cases hh : h ∈ news
      · exact fun _ => hnews h hh
      · rw [if_neg hh]
        exact fun hopen => hkeeps h (hsound.kept h hopen) hopen

variable {admits : σ → α → Bool}

/-- If the admitted steps are those that keep a state sound, a schedule meets
them all exactly if it ends in a sound state. -/
theorem along_iff_sound
    (hadmits : ∀ {s a s' es}, c.valid s → c.Sound s → m.step s a = some (s', es) →
      (admits s a = true ↔ c.Sound s'))
    {schedule : List α} {s s' : σ} {es : List (HandleEvent η)}
    (h : exec m s schedule = some (s', es)) (hvalid : c.valid s) (hsound : c.Sound s) :
    along m admits s schedule = true ↔ c.Sound s' := by
  induction schedule generalizing s es with
  | nil =>
      obtain ⟨rfl, -⟩ := exec_nil h
      exact iff_of_true rfl hsound
  | cons a rest ih =>
      obtain ⟨middle, left, right, hfirst, hrest, rfl⟩ := exec_cons h
      simp only [along, hfirst, Bool.and_eq_true, hadmits hvalid hsound hfirst]
      have hmiddle := c.valid_step hvalid hfirst
      by_cases hkept : c.Sound middle
      · rw [ih hrest hmiddle hkept]
        exact and_iff_right hkept
      · have hstays : c.valid s' ∧ ¬ c.Sound s' := by
          refine exec_stays (fun s => c.valid s ∧ ¬ c.Sound s) ?_ hrest (fun _ _ => trivial)
            ⟨hmiddle, hkept⟩
          rintro s a s' es ⟨hv, hnot⟩ hstep -
          exact ⟨c.valid_step hv hstep, c.not_sound_step hv hstep hnot⟩
        exact iff_of_false (fun hboth => hkept hboth.1) hstays.2

/-- What a run holds or has touched, it has opened. -/
theorem run_opened {s s' : σ} {trace : List (HandleEvent η)} (h : Run m s trace s')
    (hnew : ∀ k, c.status s k = .unopened) (hnone : ∀ k, ¬ c.held s k) :
    ∀ k, c.held s' k ∨ c.status s' k ≠ .unopened → .opened k ∈ trace := by
  induction h with
  | nil =>
      rintro k (hheld | hstatus)
      · exact absurd hheld (hnone k)
      · exact absurd (hnew k) hstatus
  | @snoc trace es s₁ s₂ a before hstep ih =>
      rintro k (hheld | hstatus)
      · rcases c.held_step hstep k hheld with hbefore | hopened
        · exact List.mem_append_left _ (ih k (.inl hbefore))
        · exact List.mem_append_right _ hopened
      · by_cases hsame : ∀ e ∈ es, e.handle ≠ k
        · rw [c.status_step hstep, statusAfter_untouched hsame] at hstatus
          exact List.mem_append_left _ (ih k (.inr hstatus))
        · push Not at hsame
          obtain ⟨e, he, rfl⟩ := hsame
          rcases c.touched hstep e he with hbefore | hopened
          · exact List.mem_append_left _ (ih _ (.inl hbefore))
          · exact List.mem_append_right _ hopened

/-- The statuses after a run. -/
theorem run_status {s s' : σ} {trace : List (HandleEvent η)} (h : Run m s trace s') :
    c.status s' = statusAfter (c.status s) trace := by
  induction h with
  | nil => rfl
  | snoc before hstep ih => rw [c.status_step hstep, ih, statusAfter_append]

/-- **Every handle lives once** exactly if every step is admitted, where the
admitted steps are those that keep a sound state sound, and nothing is held at
either end of the schedule. -/
theorem lives_once_iff_along
    (hadmits : ∀ {s a s' es}, c.valid s → c.Sound s → m.step s a = some (s', es) →
      (admits s a = true ↔ c.Sound s'))
    {schedule : List α} {s s' : σ} {es : List (HandleEvent η)}
    (h : exec m s schedule = some (s', es)) (hvalid : c.valid s)
    (hnew : ∀ k, c.status s k = .unopened) (hstart : ∀ k, ¬ c.held s k)
    (hend : ∀ k, ¬ c.held s' k) :
    (∀ k, .opened k ∈ es → LivesOnce es k) ↔ along m admits s schedule = true := by
  have hsound : c.Sound s := by
    refine ⟨fun k hmisused => ?_, fun k hopen => ?_⟩
    · rw [hnew] at hmisused
      cases hmisused
    · rw [hnew] at hopen
      cases hopen
  have hstatus := c.run_status (exec_run h)
  have hopened := c.run_opened (exec_run h) hnew hstart
  rw [c.along_iff_sound hadmits h hvalid hsound]
  constructor
  · intro hlives
    have hclosed : ∀ k, .opened k ∈ es → c.status s' k = .closed := fun k hk => by
      rw [hstatus]
      exact (statusAfter_closed_iff (hnew k)).mpr (hlives k hk)
    refine ⟨fun k hmisused => ?_, fun k hopen => ?_⟩
    · have hk := hclosed k (hopened k (.inr (by rw [hmisused]; exact Status.noConfusion)))
      rw [hmisused] at hk
      cases hk
    · have hk := hclosed k (hopened k (.inr (by rw [hopen]; exact Status.noConfusion)))
      rw [hopen] at hk
      cases hk
  · intro hsound' k hk
    rw [← statusAfter_closed_iff (hnew k), ← hstatus]
    cases hlast : c.status s' k with
    | closed => rfl
    | opened => exact absurd (hsound'.kept k hlast) (hend k)
    | misused => exact absurd hlast (hsound'.proper k)
    | unopened =>
        -- An `opened` event leaves no handle unopened.
        exfalso
        have hown : HandleEvent.opened k ∈ eventsOf k es :=
          List.mem_filter.mpr ⟨hk, by simp [HandleEvent.handle]⟩
        rw [hstatus, statusAfter_apply, hnew] at hlast
        exact lifeAfter_ne_unopened hown hlast

end Custody

end HandleCustody
