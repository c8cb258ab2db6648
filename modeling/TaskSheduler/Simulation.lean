import TaskSheduler.Interleaving
import Mathlib.Data.List.Basic

/-!
# Forward simulation of machines, and machines under watch

A concrete machine is explained by an abstract one through a relation `R`
between their states and an observation of the concrete events: whatever the
concrete machine does in one step, the abstract machine does in a run, possibly
an empty one, that shows exactly what the observer sees of that step.

`Simulation.run` lifts this to whole runs, so that every property of the
abstract traces holds of what is observed of the concrete ones.  The abstract
run so far may be used in the step; that is how invariants of the abstract
machine enter the proof about the concrete one.

`Machine.watch` replaces the events of a machine by what an observer notes down
at each step, who sees the state and the action as well.  `RunWhere` are the
runs whose steps all meet a condition on the state and the action.
-/

namespace Interleaving

variable {σ α ε τ β δ : Type*}

/-- Every step of `m` is matched by a run of `n`, from related states to
related states, along the runs of `n` from `start`. -/
structure Simulation (m : Machine σ α ε) (n : Machine τ β δ) (start : τ)
    (observe : ε → Option δ) (R : σ → τ → Prop) : Prop where
  step : ∀ {trace : List δ} {s s' : σ} {a : α} {es : List ε} {r : τ},
    Run n start trace r → R s r → m.step s a = some (s', es) →
      ∃ r', Run n r (es.filterMap observe) r' ∧ R s' r'

/-- What is observed of a run of the concrete machine is a run of the abstract
one, and it ends in a related state. -/
theorem Simulation.run {m : Machine σ α ε} {n : Machine τ β δ} {start : τ}
    {observe : ε → Option δ} {R : σ → τ → Prop} (h : Simulation m n start observe R)
    {s₀ s : σ} {trace : List ε} (hstart : R s₀ start) (hrun : Run m s₀ trace s) :
    ∃ r, Run n start (trace.filterMap observe) r ∧ R s r := by
  induction hrun with
  | nil => exact ⟨start, .nil, hstart⟩
  | snoc before hstep ih =>
      obtain ⟨r, hbefore, hR⟩ := ih
      obtain ⟨r', hmatch, hR'⟩ := h.step hbefore hR hstep
      refine ⟨r', ?_, hR'⟩
      rw [List.filterMap_append]
      exact hbefore.append hmatch

/-- The machine with the notes of an observer as its events. -/
def Machine.watch (m : Machine σ α ε) (see : σ → α → List ε → List δ) : Machine σ α δ where
  step s a := (m.step s a).map fun r => (r.1, see s a r.2)

/-- A step under watch is a step, and its events are what the observer makes of
it. -/
theorem watch_step {m : Machine σ α ε} {see : σ → α → List ε → List δ} {s s' : σ} {a : α}
    {ds : List δ} (h : (m.watch see).step s a = some (s', ds)) :
    ∃ es, m.step s a = some (s', es) ∧ ds = see s a es := by
  simp only [Machine.watch, Option.map_eq_some_iff, Prod.mk.injEq] at h
  obtain ⟨⟨middle, es⟩, hstep, rfl, rfl⟩ := h
  exact ⟨es, hstep, rfl⟩

/-- Watching excludes no run. -/
theorem Run.watch {m : Machine σ α ε} {start s : σ} {trace : List ε} (h : Run m start trace s)
    (see : σ → α → List ε → List δ) : ∃ notes, Run (m.watch see) start notes s := by
  induction h with
  | nil => exact ⟨[], .nil⟩
  | @snoc trace es s s' a before hstep ih =>
      obtain ⟨notes, hnotes⟩ := ih
      refine ⟨notes ++ see s a es, hnotes.snoc (a := a) ?_⟩
      simp only [Machine.watch, hstep, Option.map_some]

/-- The runs of `m` all of whose steps are admitted. -/
inductive RunWhere (m : Machine σ α ε) (admits : σ → α → Prop) (start : σ) :
    List ε → σ → Prop
  | nil : RunWhere m admits start [] start
  | snoc {trace es : List ε} {s s' : σ} {a : α} (before : RunWhere m admits start trace s)
      (hadmits : admits s a) (hstep : m.step s a = some (s', es)) :
      RunWhere m admits start (trace ++ es) s'

variable {m : Machine σ α ε} {admits : σ → α → Prop} {start s : σ} {trace : List ε}

/-- They are runs. -/
theorem RunWhere.run (h : RunWhere m admits start trace s) : Run m start trace s := by
  induction h with
  | nil => exact .nil
  | snoc before hadmits hstep ih => exact ih.snoc hstep

/-- What every admitted step preserves holds after all of them. -/
theorem RunWhere.invariant (I : List ε → σ → Prop) (hstart : I [] start)
    (hstep : ∀ trace s a s' es, I trace s → admits s a → m.step s a = some (s', es) →
      I (trace ++ es) s')
    (h : RunWhere m admits start trace s) : I trace s := by
  induction h with
  | nil => exact hstart
  | snoc before hadmits hs ih => exact hstep _ _ _ _ _ ih hadmits hs

/-- A schedule whose steps pass a check that implies the condition. -/
theorem exec_runWhere {check : σ → α → Bool} (hcheck : ∀ s a, check s a = true → admits s a)
    {schedule : List α} {s' : σ} {es : List ε} (h : exec m start schedule = some (s', es))
    (halong : along m check start schedule = true) : RunWhere m admits start es s' := by
  have hsteps : ∀ (trace : List ε) s a s' es, RunWhere m admits start trace s →
      check s a = true → m.step s a = some (s', es) → RunWhere m admits start (trace ++ es) s' :=
    fun _ _ _ _ _ before hadmits hs => before.snoc (hcheck _ _ hadmits) hs
  exact exec_invariant (RunWhere m admits start) hsteps h halong .nil

end Interleaving
