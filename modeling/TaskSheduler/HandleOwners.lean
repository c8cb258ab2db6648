import TaskSheduler.HandleCustody

/-!
# Handles with one owner each

A program in which every handle is a variable of one place only: a step uses
handles that are owned, gives one that is new to an owner, releases what some
owners have, or makes an owner forget its handle.  `OwnerMove` lists these, and
`Accounted` is what they all keep: no two owners of one handle, every owned
handle open, and no misuse.  Only a handle that is forgotten can be lost.

`Ownership` ties this to a machine, and is a custody: `never_misused` holds of
all its runs, and every handle lives once exactly if no step forgets one.
-/

namespace HandleCustody

open Interleaving

variable {σ α κ η : Type*}

/-- These events use owned handles. -/
def UsesOwned (owner : κ → Option η) (es : List (HandleEvent η)) : Prop :=
  ∀ e ∈ es, ∃ o k, owner o = some k ∧ e = .used k

theorem usesOwned_nil {owner : κ → Option η} : UsesOwned owner [] := by
  intro e he
  cases he

theorem usesOwned_one {owner : κ → Option η} {o : κ} {k : η} (ho : owner o = some k) :
    UsesOwned owner [.used k] := by
  intro e he
  exact ⟨o, k, ho, List.mem_singleton.mp he⟩

/-- What a step does to the owners.  The proposition says that no handle is
forgotten. -/
inductive OwnerMove [DecidableEq κ] (owner : κ → Option η) :
    (κ → Option η) → List (HandleEvent η) → Prop → Prop
  | uses {us : List (HandleEvent η)} (huses : UsesOwned owner us) : OwnerMove owner owner us True
  | opens {o : κ} {k : η} {us : List (HandleEvent η)} (huses : UsesOwned owner us) :
      OwnerMove owner (Function.update owner o (some k)) (us ++ [.opened k]) (owner o = none)
  | releases {gone : κ → Bool} {ks : List η} (hnodup : ks.Nodup)
      (hks : ∀ k ∈ ks, ∃ o, gone o = true ∧ owner o = some k) :
      OwnerMove owner (fun o => if gone o then none else owner o) (ks.map .released)
        (∀ o k, gone o = true → owner o = some k → k ∈ ks)
  | forgets {o : κ} {k : η} {us : List (HandleEvent η)} (huses : UsesOwned owner us)
      (hown : owner o = some k) : OwnerMove owner (Function.update owner o none) us False

/-- An owner releases its handle. -/
theorem OwnerMove.release [DecidableEq κ] {owner : κ → Option η} {o : κ} {k : η}
    (ho : owner o = some k) :
    OwnerMove owner (Function.update owner o none) [.released k] True := by
  have hgone : Function.update owner o none =
      fun o' => if decide (o' = o) then none else owner o' := by
    funext o'
    by_cases hsame : o' = o
    · subst hsame
      simp
    · simp [hsame]
  have hmove : OwnerMove owner (fun o' => if decide (o' = o) then none else owner o')
      ([k].map .released) (∀ o' k', decide (o' = o) = true → owner o' = some k' → k' ∈ [k]) := by
    refine .releases (List.nodup_singleton k) fun k' hk' => ⟨o, decide_eq_true rfl, ?_⟩
    rw [ho, List.mem_singleton.mp hk']
  have hall : ∀ o' k', decide (o' = o) = true → owner o' = some k' → k' ∈ [k] := by
    intro o' k' hsame hown
    rw [of_decide_eq_true hsame, ho] at hown
    rw [Option.some.inj hown]
    exact List.mem_cons_self
  rw [hgone]
  rwa [eq_true hall] at hmove

/-- Every owned handle is open and has one owner, and none is misused. -/
structure Accounted (owner : κ → Option η) (status : η → Status) : Prop where
  one : ∀ {o o' k}, owner o = some k → owner o' = some k → o = o'
  opened : ∀ {o k}, owner o = some k → status k = .opened
  proper : ∀ k, status k ≠ .misused

/-- Every open handle has an owner. -/
def AllOwned (owner : κ → Option η) (status : η → Status) : Prop :=
  ∀ k, status k = .opened → ∃ o, owner o = some k

/-- Where nothing is owned or open, all is accounted for. -/
theorem accounted_none {owner : κ → Option η} {status : η → Status}
    (hnone : ∀ o, owner o = none) (hnew : ∀ k, status k = .unopened) :
    Accounted owner status := by
  refine ⟨fun {o o' k} ho => ?_, fun {o k} ho => ?_, fun k hk => ?_⟩
  · rw [hnone] at ho
    cases ho
  · rw [hnone] at ho
    cases ho
  · rw [hnew] at hk
    cases hk

/-! ## One step -/

section Moves

variable {owner owner' : κ → Option η} {status : η → Status} {es us : List (HandleEvent η)}

section Statuses

variable [DecidableEq η]

/-- Using owned handles changes no status. -/
theorem statusAfter_uses (hacc : Accounted owner status) (huses : UsesOwned owner us) :
    statusAfter status us = status := by
  induction us with
  | nil => rfl
  | cons e rest ih =>
      obtain ⟨⟨o, k, ho, rfl⟩, hrest⟩ := List.forall_mem_cons.mp huses
      have hcons : statusAfter status (.used k :: rest) =
          statusAfter (statusAfter status [.used k]) rest := rfl
      rw [hcons, statusAfter_used (hacc.opened ho)]
      exact ih hrest

/-- The statuses after using owned handles and opening a new one. -/
theorem statusAfter_opens (hacc : Accounted owner status) (huses : UsesOwned owner us) {k : η}
    (hnew : status k = .unopened) (k' : η) :
    statusAfter status (us ++ [.opened k]) k' = if k' = k then .opened else status k' := by
  have hopened : openings [(k, 0)] = [.opened k] := rfl
  have hnodup : ([(k, 0)].map Prod.fst).Nodup := List.nodup_singleton k
  have hfresh : k' ∈ [(k, 0)].map Prod.fst → status k' = .unopened := by
    intro hmem
    rw [List.mem_singleton.mp hmem]
    exact hnew
  rw [statusAfter_append, statusAfter_uses hacc huses, ← hopened,
    statusAfter_openings hnodup hfresh]
  exact if_congr List.mem_singleton rfl rfl

/-- The statuses after releasing what some owners have. -/
theorem statusAfter_releases (hacc : Accounted owner status) {gone : κ → Bool} {ks : List η}
    (hnodup : ks.Nodup) (hks : ∀ k ∈ ks, ∃ o, gone o = true ∧ owner o = some k) (k : η) :
    statusAfter status (ks.map .released) k = if k ∈ ks then .closed else status k := by
  rw [statusAfter_released hnodup]
  by_cases hk : k ∈ ks
  · obtain ⟨o, -, ho⟩ := hks k hk
    rw [if_pos hk, if_pos hk, hacc.opened ho]
    rfl
  · rw [if_neg hk, if_neg hk]

end Statuses

/-- Owners that are left have not released anything. -/
theorem left_owner {gone : κ → Bool} {o : κ} {k : η}
    (ho : (if gone o then none else owner o) = some k) : gone o = false ∧ owner o = some k := by
  cases hgone : gone o with
  | true => simp [hgone] at ho
  | false => exact ⟨rfl, by simpa [hgone] using ho⟩

variable [DecidableEq κ] {kept : Prop}

/-- A new handle has the owner to whom it is given. -/
theorem given_owner {o o₁ : κ} {k k₁ : η} (ho : Function.update owner o₁ (some k₁) o = some k) :
    (o = o₁ ∧ k = k₁) ∨ (o ≠ o₁ ∧ owner o = some k) := by
  by_cases hsame : o = o₁
  · subst hsame
    rw [Function.update_self] at ho
    exact .inl ⟨rfl, (Option.some.inj ho).symm⟩
  · rw [Function.update_of_ne hsame] at ho
    exact .inr ⟨hsame, ho⟩

/-- Who forgets a handle has none. -/
theorem forgetting_owner {o o₁ : κ} {k : η} (ho : Function.update owner o₁ none o = some k) :
    o ≠ o₁ ∧ owner o = some k := by
  have hother : o ≠ o₁ := by
    rintro rfl
    simp at ho
  rw [Function.update_of_ne hother] at ho
  exact ⟨hother, ho⟩

/-- A step touches what is owned or what it opens. -/
theorem OwnerMove.touches (hmove : OwnerMove owner owner' es kept) {e : HandleEvent η}
    (he : e ∈ es) : (∃ o, owner o = some e.handle) ∨ .opened e.handle ∈ es := by
  have hused : ∀ {us : List (HandleEvent η)}, UsesOwned owner us → e ∈ us →
      ∃ o, owner o = some e.handle := by
    intro us huses hmem
    obtain ⟨o, k, ho, rfl⟩ := huses e hmem
    exact ⟨o, ho⟩
  cases hmove with
  | uses huses => exact .inl (hused huses he)
  | opens huses =>
      rcases List.mem_append.mp he with hmem | hmem
      · exact .inl (hused huses hmem)
      · obtain rfl := List.mem_singleton.mp hmem
        exact .inr he
  | releases hnodup hks =>
      obtain ⟨k, hk, rfl⟩ := List.mem_map.mp he
      obtain ⟨o, -, ho⟩ := hks k hk
      exact .inl ⟨o, ho⟩
  | forgets huses hown => exact .inl (hused huses he)

/-- What is owned afterwards was owned before, or is new. -/
theorem OwnerMove.owns (hmove : OwnerMove owner owner' es kept) {o : κ} {k : η}
    (ho : owner' o = some k) : owner o = some k ∨ .opened k ∈ es := by
  cases hmove with
  | uses huses => exact .inl ho
  | opens huses =>
      rcases given_owner ho with ⟨-, rfl⟩ | ⟨-, hbefore⟩
      · exact .inr (List.mem_append_right _ List.mem_cons_self)
      · exact .inl hbefore
  | releases hnodup hks => exact .inl (left_owner ho).2
  | forgets huses hown => exact .inl (forgetting_owner ho).2

variable [DecidableEq η]

/-- **Every step keeps the account.** -/
theorem OwnerMove.accounted (hmove : OwnerMove owner owner' es kept)
    (hacc : Accounted owner status) (hfresh : ∀ k, .opened k ∈ es → status k = .unopened) :
    Accounted owner' (statusAfter status es) := by
  cases hmove with
  | uses huses => rwa [statusAfter_uses hacc huses]
  | @opens o₁ k₁ us huses =>
      have hnew := hfresh k₁ (List.mem_append_right _ List.mem_cons_self)
      have hstatus := statusAfter_opens hacc huses hnew
      have hother : ∀ {o k}, owner o = some k → k ≠ k₁ := by
        rintro o k ho rfl
        have hopen := hacc.opened ho
        rw [hnew] at hopen
        cases hopen
      refine ⟨fun {o o' k} ho ho' => ?_, fun {o k} ho => ?_, fun k => ?_⟩
      · rcases given_owner ho with ⟨rfl, rfl⟩ | ⟨-, hbefore⟩
        · rcases given_owner ho' with ⟨rfl, -⟩ | ⟨-, hbefore'⟩
          · rfl
          · exact absurd rfl (hother hbefore')
        · rcases given_owner ho' with ⟨-, rfl⟩ | ⟨-, hbefore'⟩
          · exact absurd rfl (hother hbefore)
          · exact hacc.one hbefore hbefore'
      · rw [hstatus]
        rcases given_owner ho with ⟨-, rfl⟩ | ⟨-, hbefore⟩
        · exact if_pos rfl
        · rw [if_neg (hother hbefore), hacc.opened hbefore]
      · rw [hstatus]
        by_cases hk : k = k₁
        · rw [if_pos hk]
          exact Status.noConfusion
        · rw [if_neg hk]
          exact hacc.proper k
  | @releases gone ks hnodup hks =>
      have hstatus := statusAfter_releases hacc hnodup hks
      refine ⟨fun {o o' k} ho ho' => hacc.one (left_owner ho).2 (left_owner ho').2,
        fun {o k} ho => ?_, fun k => ?_⟩
      · obtain ⟨hstill, hbefore⟩ := left_owner ho
        have hk : k ∉ ks := by
          intro hk
          obtain ⟨o', hgone, ho'⟩ := hks k hk
          rw [hacc.one ho' hbefore, hstill] at hgone
          cases hgone
        rw [hstatus, if_neg hk, hacc.opened hbefore]
      · rw [hstatus]
        by_cases hk : k ∈ ks
        · rw [if_pos hk]
          exact Status.noConfusion
        · rw [if_neg hk]
          exact hacc.proper k
  | @forgets o₁ k₁ us huses hown =>
      rw [statusAfter_uses hacc huses]
      exact ⟨fun ho ho' => hacc.one (forgetting_owner ho).2 (forgetting_owner ho').2,
        fun ho => hacc.opened (forgetting_owner ho).2, hacc.proper⟩

/-- **Open handles stay owned** exactly if the step forgets none. -/
theorem OwnerMove.allOwned_iff (hmove : OwnerMove owner owner' es kept)
    (hacc : Accounted owner status) (hfresh : ∀ k, .opened k ∈ es → status k = .unopened)
    (hall : AllOwned owner status) : AllOwned owner' (statusAfter status es) ↔ kept := by
  cases hmove with
  | uses huses =>
      rw [statusAfter_uses hacc huses]
      exact iff_of_true hall trivial
  | @opens o₁ k₁ us huses =>
      have hnew := hfresh k₁ (List.mem_append_right _ List.mem_cons_self)
      have hstatus := statusAfter_opens hacc huses hnew
      constructor
      · intro hafter
        by_contra hhad
        obtain ⟨k, hk⟩ := Option.ne_none_iff_exists'.mp hhad
        have hopen : statusAfter status (us ++ [.opened k₁]) k = .opened := by
          rw [hstatus, hacc.opened hk, ite_self]
        obtain ⟨o, ho⟩ := hafter k hopen
        rcases given_owner ho with ⟨-, rfl⟩ | ⟨hother, hown⟩
        · -- The new handle was not open.
          have hold := hacc.opened hk
          rw [hnew] at hold
          cases hold
        · exact hother (hacc.one hown hk)
      · intro hfree k hopen
        rw [hstatus] at hopen
        by_cases hk : k = k₁
        · exact ⟨o₁, by rw [Function.update_self, hk]⟩
        · rw [if_neg hk] at hopen
          obtain ⟨o, ho⟩ := hall k hopen
          have hother : o ≠ o₁ := by
            rintro rfl
            rw [hfree] at ho
            cases ho
          exact ⟨o, by rw [Function.update_of_ne hother, ho]⟩
  | @releases gone ks hnodup hks =>
      have hstatus := statusAfter_releases hacc hnodup hks
      constructor
      · intro hafter o k hgone ho
        by_contra hk
        have hopen : statusAfter status (ks.map .released) k = .opened := by
          rw [hstatus, if_neg hk, hacc.opened ho]
        obtain ⟨o', ho'⟩ := hafter k hopen
        obtain ⟨hstill, hown⟩ := left_owner ho'
        rw [hacc.one ho hown, hstill] at hgone
        cases hgone
      · intro hall' k hopen
        rw [hstatus] at hopen
        by_cases hk : k ∈ ks
        · rw [if_pos hk] at hopen
          cases hopen
        · rw [if_neg hk] at hopen
          obtain ⟨o, ho⟩ := hall k hopen
          have hstill : gone o ≠ true := fun hgone => hk (hall' o k hgone ho)
          exact ⟨o, (if_neg hstill).trans ho⟩
  | @forgets o₁ k₁ us huses hown =>
      rw [statusAfter_uses hacc huses]
      refine iff_of_false (fun hafter => ?_) id
      obtain ⟨o, ho⟩ := hafter k₁ (hacc.opened hown)
      obtain ⟨hother, hstill⟩ := forgetting_owner ho
      exact hother (hacc.one hstill hown)

end Moves

/-! ## Machines -/

/-- The owners of the handles of a machine. -/
structure Ownership [DecidableEq η] (m : Machine σ α (HandleEvent η)) (κ : Type*)
    [DecidableEq κ] where
  owner : σ → κ → Option η
  status : σ → η → Status
  /-- The states that the machine can be in. -/
  ready : σ → Prop
  /-- The steps that forget no handle. -/
  keeps : σ → α → Bool
  ready_step : ∀ {s a s' es}, ready s → m.step s a = some (s', es) → ready s'
  status_step : ∀ {s a s' es}, m.step s a = some (s', es) →
    status s' = statusAfter (status s) es
  move : ∀ {s a s' es}, m.step s a = some (s', es) →
    ∃ kept, OwnerMove (owner s) (owner s') es kept ∧ (ready s → (kept ↔ keeps s a = true))
  fresh : ∀ {s a s' es}, ready s → m.step s a = some (s', es) →
    ∀ k, .opened k ∈ es → status s k = .unopened

namespace Ownership

variable [DecidableEq η] [DecidableEq κ] {m : Machine σ α (HandleEvent η)} (c : Ownership m κ)

/-- A handle is held while it has an owner. -/
def custody : Custody m where
  status := c.status
  held s k := ∃ o, c.owner s o = some k
  valid s := c.ready s ∧ Accounted (c.owner s) (c.status s)
  valid_step := by
    rintro s a s' es ⟨hready, hacc⟩ hstep
    obtain ⟨kept, hmove, -⟩ := c.move hstep
    refine ⟨c.ready_step hready hstep, ?_⟩
    rw [c.status_step hstep]
    exact hmove.accounted hacc (c.fresh hready hstep)
  status_step := c.status_step
  touched := by
    intro s a s' es hstep e he
    obtain ⟨kept, hmove, -⟩ := c.move hstep
    exact hmove.touches he
  held_step := by
    rintro s a s' es hstep k ⟨o, ho⟩
    obtain ⟨kept, hmove, -⟩ := c.move hstep
    exact (hmove.owns ho).imp_left fun hbefore => ⟨o, hbefore⟩
  fresh := fun hvalid hstep => c.fresh hvalid.1 hstep

/-- What is accounted for is sound if every open handle is owned. -/
theorem sound_iff {s : σ} (hacc : Accounted (c.owner s) (c.status s)) :
    c.custody.Sound s ↔ AllOwned (c.owner s) (c.status s) :=
  ⟨fun hsound => hsound.kept, fun hall => ⟨hacc.proper, hall⟩⟩

theorem keeps_iff_sound {s s' : σ} {a : α} {es : List (HandleEvent η)}
    (hvalid : c.custody.valid s) (hsound : c.custody.Sound s)
    (hstep : m.step s a = some (s', es)) : c.keeps s a = true ↔ c.custody.Sound s' := by
  obtain ⟨kept, hmove, hkept⟩ := c.move hstep
  have hall := (c.sound_iff hvalid.2).mp hsound
  rw [c.sound_iff (c.custody.valid_step hvalid hstep).2, c.status_step hstep,
    hmove.allOwned_iff hvalid.2 (c.fresh hvalid.1 hstep) hall, hkept hvalid.1]

variable {start : σ}

/-- **No handle is ever misused.** -/
theorem never_misused (hready : c.ready start) (hnew : ∀ k, c.status start k = .unopened)
    (hnone : ∀ o, c.owner start o = none) {trace : List (HandleEvent η)} {s : σ}
    (h : Run m start trace s) (k : η) : statusAfter (fun _ => .unopened) trace k ≠ .misused := by
  have hvalid : c.custody.valid s := h.invariant (fun _ => c.custody.valid)
    ⟨hready, accounted_none hnone hnew⟩ fun _ _ _ _ _ => c.custody.valid_step
  have hstart : c.status start = fun _ => .unopened := funext hnew
  have hstatus : c.status s = statusAfter (c.status start) trace := c.custody.run_status h
  rw [← hstart, ← hstatus]
  exact hvalid.2.proper k

/-- **Every handle lives once** exactly if no step forgets one, when nothing is
owned in the end. -/
theorem lives_once_iff_keeps (hready : c.ready start) (hnew : ∀ k, c.status start k = .unopened)
    (hnone : ∀ o, c.owner start o = none) {schedule : List α} {s : σ}
    {es : List (HandleEvent η)} (h : exec m start schedule = some (s, es))
    (hend : ∀ o, c.owner s o = none) :
    (∀ k, .opened k ∈ es → LivesOnce es k) ↔ along m c.keeps start schedule = true := by
  have hheld : ∀ {s}, (∀ o, c.owner s o = none) → ∀ k, ¬ c.custody.held s k := by
    rintro s hnobody k ⟨o, ho⟩
    rw [hnobody] at ho
    cases ho
  exact c.custody.lives_once_iff_along c.keeps_iff_sound h
    ⟨hready, accounted_none hnone hnew⟩ hnew (hheld hnone) (hheld hend)

end Ownership

end HandleCustody
