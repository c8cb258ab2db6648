import TaskSheduler.Program

/-!
# Programs that depend on a part of the state

A program respects a relation between states if it cannot tell related states
apart: it ends alike in both, in states that are related again.  The rules
follow the constructs a program is made of, so that a local piece of code can
be moved from one state to another (`Respects.returned`).

`attempt` turns what a program returns or throws into one value.
-/

namespace Programs

variable {σ α β : Type}

/-- The program ends alike in related states. -/
def Respects (R : σ → σ → Prop) (x : Program σ α) : Prop :=
  ∀ s t, R s t → match x s with
    | .ok a s' => ∃ t', x t = .ok a t' ∧ R s' t'
    | .error e s' => ∃ t', x t = .error e t' ∧ R s' t'

/-- What a program returns or throws, as one value. -/
def attempt (returned : α → β) (thrown : String → β) (x : Program σ α) : Program σ β :=
  catchThrown (do return returned (← x)) fun message => return thrown message

/-- What a program returns and the state it leaves, if it returns. -/
def result? (x : Program σ α) (s : σ) : Option (α × σ) :=
  match x s with
  | .ok a s' => some (a, s')
  | .error _ _ => none

theorem result?_eq_some {x : Program σ α} {s s' : σ} {a : α} :
    result? x s = some (a, s') ↔ x s = .ok a s' := by
  cases hx : x s with
  | ok b s₁ => simp only [result?, hx, Option.some.injEq, Prod.mk.injEq, EStateM.Result.ok.injEq]
  | error e s₁ => simp only [result?, hx, reduceCtorEq]

namespace Respects

variable {R : σ → σ → Prop} {x : Program σ α} {s t s' : σ}

/-- What returns, returns the same in a related state. -/
theorem returned {a : α} (h : Respects R x) (hst : R s t) (hx : x s = .ok a s') :
    ∃ t', x t = .ok a t' ∧ R s' t' := by
  have hboth := h s t hst
  rwa [hx] at hboth

theorem stopped {e : Stop} (h : Respects R x) (hst : R s t) (hx : x s = .error e s') :
    ∃ t', x t = .error e t' ∧ R s' t' := by
  have hboth := h s t hst
  rwa [hx] at hboth

theorem pure (a : α) : Respects R (Pure.pure a : Program σ α) :=
  fun _ t hst => ⟨t, rfl, hst⟩

theorem stop (e : Stop) : Respects R (throw e : Program σ α) :=
  fun _ t hst => ⟨t, rfl, hst⟩

theorem bind {f : α → Program σ β} (hx : Respects R x) (hf : ∀ a, Respects R (f a)) :
    Respects R (x >>= f) := by
  intro s t hst
  cases hrun : x s with
  | ok a s' =>
      obtain ⟨t', hrun', hst'⟩ := hx.returned hst hrun
      rw [returns hrun, returns hrun']
      exact hf a s' t' hst'
  | error e s' =>
      obtain ⟨t', hrun', hst'⟩ := hx.stopped hst hrun
      rw [stops hrun]
      exact ⟨t', stops hrun', hst'⟩

theorem catchThrown {handler : String → Program σ α} (hx : Respects R x)
    (hhandler : ∀ message, Respects R (handler message)) :
    Respects R (Programs.catchThrown x handler) := by
  intro s t hst
  cases hrun : x s with
  | ok a s' =>
      obtain ⟨t', hrun', hst'⟩ := hx.returned hst hrun
      rw [catchThrown_returns hrun]
      exact ⟨t', catchThrown_returns hrun', hst'⟩
  | error e s' =>
      obtain ⟨t', hrun', hst'⟩ := hx.stopped hst hrun
      cases e with
      | thrown message =>
          rw [catchThrown_thrown hrun, catchThrown_thrown hrun']
          exact hhandler message s' t' hst'
      | blocked | outOfFuel =>
          simp only [Programs.catchThrown, hrun, hrun']
          exact ⟨t', rfl, hst'⟩

theorem mapM {f : α → Program σ β} (hf : ∀ a, Respects R (f a)) (as : List α) :
    Respects R (as.mapM f) := by
  induction as with
  | nil =>
      rw [List.mapM_nil]
      exact pure []
  | cons a rest ih =>
      rw [List.mapM_cons]
      exact (hf a).bind fun b => ih.bind fun bs => pure (b :: bs)

end Respects

section Attempts

variable {r : α → β} {t : String → β} {x : Program σ α} {s s' : σ} {b : β}

theorem attempt_returned {a : α} (h : x s = .ok a s') :
    attempt r t x s = .ok (r a) s' :=
  catchThrown_returns ((returns h).trans rfl)

theorem attempt_thrown {message : String} (h : x s = .error (.thrown message) s') :
    attempt r t x s = .ok (t message) s' :=
  (catchThrown_thrown (stops h)).trans rfl

/-- An attempt that ends has returned or thrown. -/
theorem attempt_ended (h : attempt r t x s = .ok b s') :
    (∃ a, x s = .ok a s' ∧ b = r a) ∨
      ∃ message, x s = .error (.thrown message) s' ∧ b = t message := by
  cases hx : x s with
  | ok a s₁ =>
      rw [attempt_returned hx] at h
      cases h
      exact .inl ⟨a, rfl, rfl⟩
  | error e s₁ =>
      cases e with
      | thrown message =>
          rw [attempt_thrown hx] at h
          cases h
          exact .inr ⟨message, rfl, rfl⟩
      | blocked | outOfFuel =>
          simp only [attempt, catchThrown, stops hx] at h
          cases h

/-- A program that is over has been attempted. -/
theorem Ends.attempt (h : Ends x s s') (r : α → β) (t : String → β) :
    ∃ b, Programs.attempt r t x s = .ok b s' := by
  rcases h with ⟨a, hx⟩ | ⟨message, hx⟩
  · exact ⟨r a, attempt_returned hx⟩
  · exact ⟨t message, attempt_thrown hx⟩

/-- It has not stopped for another reason. -/
theorem Ends.thrown {e : Stop} {s₁ : σ} (h : Ends x s s') (hx : x s = .error e s₁) :
    ∃ message, e = .thrown message := by
  rcases h with ⟨a, hok⟩ | ⟨message, herror⟩
  · rw [hx] at hok
    cases hok
  · rw [hx] at herror
    cases herror
    exact ⟨message, rfl⟩

/-- What is caught is over, and then handled. -/
theorem catchThrown_ended {handler : String → Program σ α} {a : α}
    (h : catchThrown x handler s = .ok a s') :
    ∃ s₁, Ends x s s₁ ∧ (s₁ = s' ∨ ∃ message, handler message s₁ = .ok a s') := by
  cases hx : x s with
  | ok a₁ s₁ =>
      rw [catchThrown_returns hx] at h
      cases h
      exact ⟨s', .inl ⟨a, hx⟩, .inl rfl⟩
  | error e s₁ =>
      cases e with
      | thrown message =>
          rw [catchThrown_thrown hx] at h
          exact ⟨s₁, .inr ⟨message, hx⟩, .inr ⟨message, h⟩⟩
      | blocked | outOfFuel =>
          simp only [catchThrown, hx] at h
          cases h

/-- A sequence that threw: the first program did, or the second after it. -/
theorem bind_thrown {f : α → Program σ β} {e : Stop} (h : (x >>= f) s = .error e s') :
    x s = .error e s' ∨ ∃ a s₁, x s = .ok a s₁ ∧ f a s₁ = .error e s' := by
  cases hx : x s with
  | ok a s₁ =>
      rw [returns hx] at h
      exact .inr ⟨a, s₁, rfl, h⟩
  | error e' s₁ =>
      rw [stops hx] at h
      cases h
      exact .inl rfl

end Attempts

end Programs
