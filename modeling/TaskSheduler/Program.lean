import Mathlib.Data.List.Basic

/-!
# Sequential programs that may throw, block or run out of fuel

A `Program σ α` changes a state `σ` and returns an `α`, or stops early: with
an exception, in a wait that nobody will end, or because the fuel of a loop
is used up.  The state reached is kept in every case, as in a language whose
exceptions do not undo what was done.

`returns` and `stops` are the two sequencing rules; `catchThrown` handles
exceptions only; `whileFuel` is the loop, with `whileFuel_returns` as its
rule: a variant that each round decreases and an invariant that each round
keeps make the loop return.

Where a program may end in several ways, `Triple P x Q E` says what holds of
each: started where `P` holds, it returns with `Q` or stops with `E`.
-/

namespace Programs

/-- Why a program stops without returning. -/
inductive Stop
  | thrown (message : String)
  | blocked
  | outOfFuel
deriving DecidableEq, Repr

/-- A sequential program over the state `σ`. -/
abbrev Program (σ α : Type) := EStateM Stop σ α

variable {σ α β : Type}

/-- Throw an exception with this text. -/
def raise (message : String) : Program σ α := throw (.thrown message)

/-- Catch an exception; blocking and missing fuel pass through. -/
def catchThrown (body : Program σ α) (handler : String → Program σ α) : Program σ α :=
  fun s => match body s with
    | .error (.thrown message) s' => handler message s'
    | other => other

/-- Turn the outcome of a pure computation into a program. -/
def fromExcept : Except String α → Program σ α
  | .ok a => pure a
  | .error message => raise message

/-- `while (cond) body`, for at most `fuel` tests of the condition. -/
def whileFuel (cond : β → Program σ Bool) (body : β → Program σ β) :
    Nat → β → Program σ β
  | 0, _ => throw .outOfFuel
  | fuel + 1, b => do
      if ← cond b then
        whileFuel cond body fuel (← body b)
      else
        pure b

/-- The state in which a program ends, however it ends. -/
def endState (x : Program σ α) (s : σ) : σ :=
  match x s with
  | .ok _ s' => s'
  | .error _ s' => s'

section Rules

variable {x : Program σ α} {f : α → Program σ β} {s s' : σ} {a : α} {e : Stop}

/-- After a program that returns, the next one runs. -/
theorem returns (h : x s = .ok a s') : (x >>= f) s = f a s' := by
  show EStateM.bind x f s = _
  rw [EStateM.bind, h]

/-- After a program that stops, nothing runs. -/
theorem stops (h : x s = .error e s') : (x >>= f) s = .error e s' := by
  show EStateM.bind x f s = _
  rw [EStateM.bind, h]

/-- Sequencing, in the state it starts in. -/
theorem bind_apply : (x >>= f) s = match x s with
    | .ok a s' => f a s'
    | .error e s' => .error e s' := by
  cases hx : x s with
  | ok a s' => exact returns hx
  | error e s' => exact stops hx

/-- A sequence that returned: the first program returned, and then the second. -/
theorem bind_returned {b : β} (h : (x >>= f) s = .ok b s') :
    ∃ a s₁, x s = .ok a s₁ ∧ f a s₁ = .ok b s' := by
  cases hx : x s with
  | ok a s₁ =>
      rw [returns hx] at h
      exact ⟨a, s₁, rfl, h⟩
  | error e s₁ =>
      rw [stops hx] at h
      cases h

/-- Mapping a function over the result. -/
theorem map_apply {g : α → β} : (g <$> x) s = match x s with
    | .ok a s' => .ok (g a) s'
    | .error e s' => .error e s' := by
  show EStateM.map g x s = _
  cases hx : x s with
  | ok a s' => rw [EStateM.map, hx]
  | error e s' => rw [EStateM.map, hx]

/-- The program is over in the state `s'`, having returned or thrown. -/
def Ends (x : Program σ α) (s s' : σ) : Prop :=
  (∃ a, x s = .ok a s') ∨ ∃ message, x s = .error (.thrown message) s'

theorem Ends.returned (h : Ends x s s') {s₁ : σ} (hx : x s = .ok a s₁) : s' = s₁ := by
  rcases h with ⟨b, hok⟩ | ⟨message, herror⟩
  · rw [hx] at hok
    cases hok
    rfl
  · rw [hx] at herror
    cases herror

theorem Ends.stopped (h : Ends x s s') {s₁ : σ} (hx : x s = .error e s₁) : s' = s₁ := by
  rcases h with ⟨b, hok⟩ | ⟨message, herror⟩
  · rw [hx] at hok
    cases hok
  · rw [hx] at herror
    cases herror
    rfl

/-- The rest of a sequence whose first program returned. -/
theorem Ends.rest (h : Ends (x >>= f) s s') {s₁ : σ} (hx : x s = .ok a s₁) :
    Ends (f a) s₁ s' := by
  rcases h with ⟨b, hok⟩ | ⟨message, herror⟩
  · rw [returns hx] at hok
    exact .inl ⟨b, hok⟩
  · rw [returns hx] at herror
    exact .inr ⟨message, herror⟩

@[simp] theorem pure_apply : (pure a : Program σ α) s = .ok a s := rfl

@[simp] theorem raise_apply {message : String} :
    (raise message : Program σ α) s = .error (.thrown message) s := rfl

/-- What returns is not caught. -/
theorem catchThrown_returns {handler : String → Program σ α} (h : x s = .ok a s') :
    catchThrown x handler s = .ok a s' := by
  simp only [catchThrown, h]

/-- What throws is handled in the state the exception left. -/
theorem catchThrown_thrown {handler : String → Program σ α} {message : String}
    (h : x s = .error (.thrown message) s') :
    catchThrown x handler s = handler message s' := by
  simp only [catchThrown, h]

end Rules

/-- **The loop rule.**  If, as long as the variant is positive, the condition
holds and a round decreases the variant by one and keeps the invariant, and
if the condition fails when the variant is zero, then enough fuel makes the
loop return with the invariant and the variant at zero. -/
theorem whileFuel_returns {cond : β → Program σ Bool} {body : β → Program σ β}
    (I : Nat → β → σ → Prop)
    (hround : ∀ n b s, I (n + 1) b s → ∃ s₁ b' s₂, cond b s = .ok true s₁ ∧
      body b s₁ = .ok b' s₂ ∧ I n b' s₂)
    (hlast : ∀ b s, I 0 b s → ∃ s₁, cond b s = .ok false s₁ ∧ I 0 b s₁)
    {n fuel : Nat} (hfuel : n < fuel) {b : β} {s : σ} (h : I n b s) :
    ∃ b' s', whileFuel cond body fuel b s = .ok b' s' ∧ I 0 b' s' := by
  induction n generalizing fuel b s with
  | zero =>
      obtain ⟨fuel, rfl⟩ : ∃ k, fuel = k + 1 := ⟨fuel - 1, by omega⟩
      obtain ⟨s₁, hcond, hI⟩ := hlast b s h
      refine ⟨b, s₁, ?_, hI⟩
      rw [whileFuel, returns hcond]
      rfl
  | succ n ih =>
      obtain ⟨fuel, rfl⟩ : ∃ k, fuel = k + 1 := ⟨fuel - 1, by omega⟩
      obtain ⟨s₁, b', s₂, hcond, hbody, hI⟩ := hround n b s h
      obtain ⟨b'', s', hrest, hend⟩ := ih (Nat.lt_of_succ_lt_succ hfuel) hI
      refine ⟨b'', s', ?_, hend⟩
      rw [whileFuel, returns hcond]
      simp only [↓reduceIte]
      rw [returns hbody, hrest]

/-! ## Pre- and postconditions -/

/-- Started where `P` holds, `x` returns with `Q`, or stops with `E`. -/
def Triple (P : σ → Prop) (x : Program σ α) (Q : α → σ → Prop) (E : Stop → σ → Prop) : Prop :=
  ∀ s, P s → match x s with
    | .ok a s' => Q a s'
    | .error e s' => E e s'

namespace Triple

variable {P : σ → Prop} {x : Program σ α} {Q : α → σ → Prop} {E : Stop → σ → Prop}

/-- What a triple says of a program that returned. -/
theorem returned (h : Triple P x Q E) {s s' : σ} {a : α} (hs : P s) (hx : x s = .ok a s') :
    Q a s' := by
  have hend := h s hs
  rwa [hx] at hend

/-- What a triple says of a program that stopped. -/
theorem stopped (h : Triple P x Q E) {s s' : σ} {e : Stop} (hs : P s)
    (hx : x s = .error e s') : E e s' := by
  have hend := h s hs
  rwa [hx] at hend

/-- Sequencing: the postcondition of the first is the precondition of the next. -/
theorem bind {f : α → Program σ β} {R : β → σ → Prop} (hx : Triple P x Q E)
    (hf : ∀ a, Triple (Q a) (f a) R E) : Triple P (x >>= f) R E := by
  intro s hs
  have hend := hx s hs
  cases hrun : x s with
  | ok a s' =>
      rw [hrun] at hend
      rw [returns hrun]
      exact hf a s' hend
  | error e s' =>
      rw [hrun] at hend
      rw [stops hrun]
      exact hend

/-- Returning a value. -/
theorem pure {a : α} (h : ∀ s, P s → Q a s) : Triple P (Pure.pure a) Q E :=
  fun s hs => h s hs

/-- Throwing an exception. -/
theorem raise {message : String} (h : ∀ s, P s → E (.thrown message) s) :
    Triple P (Programs.raise message) Q E :=
  fun s hs => h s hs

/-- Branching: each branch under its case of the condition. -/
theorem ite {p : Prop} [Decidable p] {left right : Program σ α} (hleft : p → Triple P left Q E)
    (hright : ¬p → Triple P right Q E) : Triple P (if p then left else right) Q E := by
  by_cases h : p
  · rw [if_pos h]
    exact hleft h
  · rw [if_neg h]
    exact hright h

/-- Weaker conclusions from the same start. -/
theorem weaken {Q' : α → σ → Prop} {E' : Stop → σ → Prop} (h : Triple P x Q E)
    (hQ : ∀ a s, Q a s → Q' a s) (hE : ∀ e s, E e s → E' e s) : Triple P x Q' E' := by
  intro s hs
  have hend := h s hs
  cases hrun : x s with
  | ok a s' =>
      rw [hrun] at hend
      exact hQ a s' hend
  | error e s' =>
      rw [hrun] at hend
      exact hE e s' hend

end Triple

end Programs
