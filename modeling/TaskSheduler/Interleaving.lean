import Mathlib.Algebra.BigOperators.Group.Finset.Basic
import Mathlib.Algebra.BigOperators.Group.Finset.Piecewise
import Mathlib.Algebra.Order.BigOperators.Group.Finset
import Mathlib.Data.Fintype.Basic
import Mathlib.Tactic.Abel

/-!
# Labelled machines, their runs, and token sums over threads

A `Machine` is a partial step function: an action that is not possible in a
state yields `none`, one that is possible yields the next state and the
events it shows to an observer.  A scheduler is nothing but a list of
actions, so a property of every `Run` is a property of every interleaving.

Four rules carry all later proofs about runs: `Run.invariant` (what every
step preserves holds after every run), `exec_invariant` (the same for a
schedule whose steps all meet a condition, `along`), `exec_erase` (a schedule
executes without one's own steps as long as they make no difference) and
`exec_run` (executing a concrete schedule yields a run).

The second half is about what threads hold.  A counting semaphore and the
tokens in flight are tied by sums over a finite set of threads, and a step
changes the program point of one thread only; `sum_moved` says what that does
to such a sum.  `Sole` is a list in the hands of one thread at most.
-/

namespace Interleaving

/-- A machine over states `σ`, with actions `α` and observable events `ε`. -/
structure Machine (σ α ε : Type*) where
  step : σ → α → Option (σ × List ε)

variable {σ α ε : Type*}

/-- The runs of `m` from `start`, with the events shown so far. -/
inductive Run (m : Machine σ α ε) (start : σ) : List ε → σ → Prop
  | nil : Run m start [] start
  | snoc {trace es : List ε} {s s' : σ} {a : α}
      (before : Run m start trace s) (hstep : m.step s a = some (s', es)) :
      Run m start (trace ++ es) s'

/-- What holds at the start and is preserved by every step holds after every
run, together with the events shown. -/
theorem Run.invariant {m : Machine σ α ε} {start : σ} (I : List ε → σ → Prop)
    (hstart : I [] start)
    (hstep : ∀ trace s a s' es, I trace s → m.step s a = some (s', es) →
      I (trace ++ es) s')
    {trace : List ε} {s : σ} (h : Run m start trace s) : I trace s := by
  induction h with
  | nil => exact hstart
  | snoc before hs ih => exact hstep _ _ _ _ _ ih hs

/-- Runs compose. -/
theorem Run.append {m : Machine σ α ε} {start middle finish : σ}
    {left right : List ε} (hleft : Run m start left middle)
    (hright : Run m middle right finish) : Run m start (left ++ right) finish := by
  induction hright with
  | nil => simpa using hleft
  | snoc before hs ih =>
      rw [← List.append_assoc]
      exact ih.snoc hs

/-- A single possible action is a run. -/
theorem Run.single {m : Machine σ α ε} {s s' : σ} {a : α} {es : List ε}
    (h : m.step s a = some (s', es)) : Run m s es s' := by
  simpa using Run.nil.snoc h

/-- Execute a schedule; `none` when some action of it is not possible. -/
def exec (m : Machine σ α ε) : σ → List α → Option (σ × List ε)
  | s, [] => some (s, [])
  | s, a :: rest =>
      (m.step s a).bind fun r => (exec m r.1 rest).map fun q => (q.1, r.2 ++ q.2)

/-- The empty schedule leads nowhere. -/
theorem exec_nil {m : Machine σ α ε} {s s' : σ} {es : List ε}
    (h : exec m s [] = some (s', es)) : s' = s ∧ es = [] := by
  simp only [exec, Option.some.injEq, Prod.mk.injEq] at h
  exact ⟨h.1.symm, h.2.symm⟩

/-- A schedule executes its first action and then the others. -/
theorem exec_cons {m : Machine σ α ε} {a : α} {rest : List α} {s s' : σ} {es : List ε}
    (h : exec m s (a :: rest) = some (s', es)) :
    ∃ middle left right, m.step s a = some (middle, left) ∧
      exec m middle rest = some (s', right) ∧ es = left ++ right := by
  simp only [exec, Option.bind_eq_some_iff, Option.map_eq_some_iff] at h
  obtain ⟨⟨middle, left⟩, hfirst, ⟨finish, right⟩, hrest, heq⟩ := h
  simp only [Prod.mk.injEq] at heq
  obtain ⟨rfl, rfl⟩ := heq
  exact ⟨middle, left, right, hfirst, hrest, rfl⟩

/-- A schedule that executes is a run. -/
theorem exec_run {m : Machine σ α ε} {schedule : List α} {s s' : σ} {es : List ε}
    (h : exec m s schedule = some (s', es)) : Run m s es s' := by
  induction schedule generalizing s es with
  | nil =>
      obtain ⟨rfl, rfl⟩ := exec_nil h
      exact .nil
  | cons a rest ih =>
      obtain ⟨middle, left, right, hfirst, hrest, rfl⟩ := exec_cons h
      exact (Run.single hfirst).append (ih hrest)

/-- A schedule that executes leads to its end. -/
theorem exec_get {m : Machine σ α ε} {schedule : List α} {s : σ}
    (h : (exec m s schedule).isSome = true) :
    exec m s schedule =
      some (((exec m s schedule).get h).1, ((exec m s schedule).get h).2) :=
  (Option.some_get h).symm

/-- A schedule that executes is the run to where it leads. -/
theorem exec_get_run {m : Machine σ α ε} {schedule : List α} {s : σ}
    (h : (exec m s schedule).isSome = true) :
    Run m s ((exec m s schedule).get h).2 ((exec m s schedule).get h).1 :=
  exec_run (exec_get h)

/-- A schedule executes as its two parts do, one after the other. -/
theorem exec_append {m : Machine σ α ε} {xs ys : List α} {s s' : σ} {es : List ε}
    (h : exec m s (xs ++ ys) = some (s', es)) :
    ∃ middle left right, exec m s xs = some (middle, left) ∧
      exec m middle ys = some (s', right) ∧ es = left ++ right := by
  induction xs generalizing s es with
  | nil => exact ⟨s, [], es, rfl, h, rfl⟩
  | cons a rest ih =>
      rw [List.cons_append] at h
      obtain ⟨s₁, first, later, hfirst, hlater, rfl⟩ := exec_cons h
      obtain ⟨middle, left, right, hleft, hright, rfl⟩ := ih hlater
      refine ⟨middle, first ++ left, right, ?_, hright, (List.append_assoc _ _ _).symm⟩
      simp only [exec, hfirst, hleft, Option.bind_some, Option.map_some]

/-- What every step with silent events preserves, a schedule with silent
events preserves. -/
theorem exec_stays {m : Machine σ α ε} {silent : ε → Prop} (I : σ → Prop)
    (hstep : ∀ s a s' es, I s → m.step s a = some (s', es) → (∀ e ∈ es, silent e) → I s')
    {schedule : List α} {s s' : σ} {es : List ε} (h : exec m s schedule = some (s', es))
    (hsilent : ∀ e ∈ es, silent e) (hstart : I s) : I s' := by
  induction schedule generalizing s es with
  | nil =>
      obtain ⟨rfl, rfl⟩ := exec_nil h
      exact hstart
  | cons a rest ih =>
      obtain ⟨middle, left, right, hfirst, hrest, rfl⟩ := exec_cons h
      obtain ⟨hleft, hright⟩ := List.forall_mem_append.mp hsilent
      exact ih hrest hright (hstep _ _ _ _ hstart hfirst hleft)

/-- **Erasing one's own steps.**  While they show nothing and change nothing
that `erase` keeps, the rest of a schedule executes without them, between the
erased states.  An own step may also leave `I` for good. -/
theorem exec_erase {m : Machine σ α ε} {silent : ε → Prop} (own : α → Bool) (erase : σ → σ)
    (I gone : σ → Prop)
    (hgone : ∀ s a s' es, gone s → m.step s a = some (s', es) → (∀ e ∈ es, silent e) → gone s')
    (hother : ∀ s a s' es, I s → own a = false → m.step s a = some (s', es) →
      I s' ∧ m.step (erase s) a = some (erase s', es))
    (hown : ∀ s a s' es, I s → own a = true → m.step s a = some (s', es) →
      (∀ e ∈ es, silent e) → gone s' ∨ (I s' ∧ erase s' = erase s ∧ es = []))
    {schedule : List α} {s s' : σ} {es : List ε} (h : exec m s schedule = some (s', es))
    (hsilent : ∀ e ∈ es, silent e) (hstart : I s) :
    gone s' ∨ (I s' ∧
      exec m (erase s) (schedule.filter fun a => !own a) = some (erase s', es)) := by
  induction schedule generalizing s es with
  | nil =>
      obtain ⟨rfl, rfl⟩ := exec_nil h
      exact .inr ⟨hstart, rfl⟩
  | cons a rest ih =>
      obtain ⟨middle, left, right, hfirst, hrest, rfl⟩ := exec_cons h
      obtain ⟨hleft, hright⟩ := List.forall_mem_append.mp hsilent
      cases hmine : own a with
      | false =>
          obtain ⟨hI, herased⟩ := hother _ _ _ _ hstart hmine hfirst
          refine (ih hrest hright hI).imp_right fun hlater => ⟨hlater.1, ?_⟩
          rw [List.filter_cons_of_pos (by simp [hmine])]
          simp only [exec, herased, hlater.2, Option.bind_some, Option.map_some]
      | true =>
          rcases hown _ _ _ _ hstart hmine hfirst hleft with hleaves | ⟨hI, hsame, rfl⟩
          · exact .inl (exec_stays gone hgone hrest hright hleaves)
          · rw [List.filter_cons_of_neg (by simp [hmine]), ← hsame]
            exact ih hrest hright hI

/-- Whether every step of a schedule is taken in a state that admits it. -/
def along (m : Machine σ α ε) (admits : σ → α → Bool) : σ → List α → Bool
  | _, [] => true
  | s, a :: rest =>
      admits s a && match m.step s a with
        | none => true
        | some r => along m admits r.1 rest

/-- What every admitted step preserves holds after a schedule of such steps,
together with the events shown. -/
theorem exec_invariant {m : Machine σ α ε} {admits : σ → α → Bool} (I : List ε → σ → Prop)
    (hstep : ∀ trace s a s' es, I trace s → admits s a = true →
      m.step s a = some (s', es) → I (trace ++ es) s')
    {schedule : List α} {trace es : List ε} {s s' : σ}
    (h : exec m s schedule = some (s', es)) (halong : along m admits s schedule = true)
    (hstart : I trace s) : I (trace ++ es) s' := by
  induction schedule generalizing trace s es with
  | nil =>
      obtain ⟨rfl, rfl⟩ := exec_nil h
      simpa using hstart
  | cons a rest ih =>
      obtain ⟨middle, left, right, hfirst, hrest, rfl⟩ := exec_cons h
      simp only [along, hfirst, Bool.and_eq_true] at halong
      obtain ⟨hadmits, hlater⟩ := halong
      rw [← List.append_assoc]
      exact ih hrest hlater (hstep _ _ _ _ _ hstart hadmits hfirst)

/-- What every admitted step preserves holds after a schedule of such steps. -/
theorem exec_keeps {m : Machine σ α ε} {admits : σ → α → Bool} (I : σ → Prop)
    (hstep : ∀ s a s' es, I s → admits s a = true → m.step s a = some (s', es) → I s')
    {schedule : List α} {es : List ε} {s s' : σ} (h : exec m s schedule = some (s', es))
    (halong : along m admits s schedule = true) (hstart : I s) : I s' := by
  have hinvariant : ∀ (trace : List ε) s a s' es, I s → admits s a = true →
      m.step s a = some (s', es) → I s' := fun _ => hstep
  exact @exec_invariant _ _ _ _ _ (fun _ => I) hinvariant _ [] _ _ _ h halong hstart

/-- Let `counts` admit exactly the steps that show good events only.  Then a
schedule meets it at every step if and only if it shows good events only. -/
theorem along_iff_events {m : Machine σ α ε} {admits counts : σ → α → Bool} {good : ε → Prop}
    (I : σ → Prop)
    (hstep : ∀ s a s' es, I s → admits s a = true → m.step s a = some (s', es) →
      I s' ∧ (counts s a = true ↔ ∀ e ∈ es, good e))
    {schedule : List α} {s s' : σ} {es : List ε} (h : exec m s schedule = some (s', es))
    (halong : along m admits s schedule = true) (hstart : I s) :
    along m counts s schedule = true ↔ ∀ e ∈ es, good e := by
  induction schedule generalizing s es with
  | nil =>
      obtain ⟨-, rfl⟩ := exec_nil h
      simp [along]
  | cons a rest ih =>
      obtain ⟨middle, left, right, hfirst, hrest, rfl⟩ := exec_cons h
      simp only [along, hfirst, Bool.and_eq_true] at halong ⊢
      obtain ⟨hI, hcounts⟩ := hstep _ _ _ _ hstart halong.1 hfirst
      simp only [hcounts, ih hrest halong.2 hI, List.forall_mem_append]

/-! ## Tokens held by threads -/

section Tokens

variable {ι π : Type*} [Fintype ι] [DecidableEq ι]

/-- Moving one thread changes a sum over all threads by that thread's own
contribution. -/
theorem sum_moved {M : Type*} [AddCommMonoid M] (weight : π → M) (pc : ι → π) (t : ι)
    (next : π) :
    (∑ u, weight (Function.update pc t next u)) + weight (pc t) =
      (∑ u, weight (pc u)) + weight next := by
  have hnew := Finset.add_sum_erase Finset.univ
    (fun u => weight (Function.update pc t next u)) (Finset.mem_univ t)
  have hold := Finset.add_sum_erase Finset.univ
    (fun u => weight (pc u)) (Finset.mem_univ t)
  have hrest : ∑ u ∈ Finset.univ.erase t, weight (Function.update pc t next u) =
      ∑ u ∈ Finset.univ.erase t, weight (pc u) := by
    refine Finset.sum_congr rfl fun u hu => ?_
    rw [Function.update_of_ne (Finset.ne_of_mem_erase hu)]
  simp only [Function.update_self] at hnew
  rw [← hnew, ← hold, hrest]
  abel

/-- What one thread gains is what the rest of the state loses: then the total,
with what has left for good, is the same as before. -/
theorem account_moved {M : Type*} [AddCancelCommMonoid M] (weight : π → M) (pc : ι → π) (t : ι)
    (next : π) {x x' gone : M} (h : x' + weight next + gone = x + weight (pc t)) :
    x' + (∑ u, weight (Function.update pc t next u)) + gone = x + ∑ u, weight (pc u) := by
  have hmoved := sum_moved weight pc t next
  refine add_right_cancel (b := weight (pc t)) ?_
  calc x' + (∑ u, weight (Function.update pc t next u)) + gone + weight (pc t)
      = x' + gone + ((∑ u, weight (Function.update pc t next u)) + weight (pc t)) := by abel
    _ = x' + weight next + gone + ∑ u, weight (pc u) := by rw [hmoved]; abel
    _ = x + (∑ u, weight (pc u)) + weight (pc t) := by rw [h]; abel

omit [DecidableEq ι] in
/-- One thread's tokens are among those of all threads. -/
theorem weight_le_sum (weight : π → Nat) (pc : ι → π) (t : ι) :
    weight (pc t) ≤ ∑ u, weight (pc u) :=
  Finset.single_le_sum (f := fun u => weight (pc u)) (fun _ _ => Nat.zero_le _)
    (Finset.mem_univ t)

/-- Two different threads' tokens are among those of all threads. -/
theorem weight_pair_le_sum (weight : π → Nat) (pc : ι → π) {t u : ι} (h : t ≠ u) :
    weight (pc t) + weight (pc u) ≤ ∑ v, weight (pc v) := by
  have hsplit := Finset.add_sum_erase Finset.univ
    (fun v => weight (pc v)) (Finset.mem_univ t)
  have hu : weight (pc u) ≤ ∑ v ∈ Finset.univ.erase t, weight (pc v) :=
    Finset.single_le_sum (f := fun v => weight (pc v)) (fun _ _ => Nat.zero_le _)
      (Finset.mem_erase.mpr ⟨h.symm, Finset.mem_univ u⟩)
  omega

end Tokens

/-! ## A list in the hands of one thread -/

section Sole

variable {ι π β : Type*} {f : ι → List β} {l : List β}

/-- At most one thread holds a list that is not empty, and `l` is that list. -/
def Sole (f : ι → List β) (l : List β) : Prop :=
  (∃ t, f t = l ∧ ∀ u, u ≠ t → f u = []) ∨ (l = [] ∧ ∀ u, f u = [])

/-- A thread that alone may hold something holds `l`. -/
theorem Sole.eq_of_others (h : Sole f l) {t : ι} (hothers : ∀ u, u ≠ t → f u = []) :
    l = f t := by
  rcases h with ⟨u, hu, hrest⟩ | ⟨rfl, hnone⟩
  · by_cases hut : u = t
    · rw [← hut, hu]
    · rw [← hu, hothers u hut, hrest t (Ne.symm hut)]
  · exact (hnone t).symm

/-- A thread that holds something holds it alone. -/
theorem Sole.others (h : Sole f l) {t : ι} (hne : f t ≠ []) : ∀ u, u ≠ t → f u = [] := by
  rcases h with ⟨v, -, hrest⟩ | ⟨-, hnone⟩
  · have htv : t = v := by
      by_contra hdiff
      exact hne (hrest t hdiff)
    exact fun u hu => hrest u (htv ▸ hu)
  · exact absurd (hnone t) hne

/-- When nobody holds anything, there is nothing to hold. -/
theorem Sole.eq_nil (h : Sole f l) (hnone : ∀ t, f t = []) : l = [] := by
  rcases h with ⟨t, rfl, -⟩ | ⟨rfl, -⟩
  · exact hnone t
  · rfl

theorem Sole.length_le [Fintype ι] (h : Sole f l) : l.length ≤ ∑ t, (f t).length := by
  rcases h with ⟨t, rfl, -⟩ | ⟨rfl, -⟩
  · exact weight_le_sum List.length f t
  · exact Nat.zero_le _

variable [DecidableEq ι] {g : π → List β} {pc : ι → π} {t : ι} {next : π}

/-- A step that keeps what its thread holds. -/
theorem Sole.kept (h : Sole (fun u => g (pc u)) l) (hsame : g next = g (pc t)) :
    Sole (fun u => g (Function.update pc t next u)) l := by
  have heq : (fun u => g (Function.update pc t next u)) = fun u => g (pc u) := by
    funext u
    by_cases hu : u = t
    · rw [hu, Function.update_self, hsame]
    · rw [Function.update_of_ne hu]
  rwa [heq]

/-- A step that changes what its thread holds, while the others hold nothing. -/
theorem Sole.moved (hothers : ∀ u, u ≠ t → g (pc u) = []) :
    Sole (fun u => g (Function.update pc t next u)) (g next) := by
  refine .inl ⟨t, by simp only [Function.update_self], fun u hu => ?_⟩
  simp only [Function.update_of_ne hu]
  exact hothers u hu

end Sole

end Interleaving
