import Mathlib.Data.List.Perm.Basic
import Mathlib.Order.Lattice

/-!
# Stable order by a key

A list is put into stable order by a key if the keys do not increase and the
elements of each key keep their order.  Taking the first element of the
greatest key out of a list, and going on with the rest, produces such an
order: `FirstMax.stablyOrders` is the step.
-/

namespace StableOrder

variable {α β : Type*} [LinearOrder β] {key : α → β}

/-- `after` is `before` by non-increasing key, with equal keys in their order. -/
structure StablyOrders (key : α → β) (before after : List α) : Prop where
  perm : after.Perm before
  nonIncreasing : after.Pairwise fun earlier later => key later ≤ key earlier
  stable : ∀ k, (after.filter fun x => key x = k) = before.filter fun x => key x = k

theorem StablyOrders.nil : StablyOrders key [] [] :=
  ⟨.nil, .nil, fun _ => rfl⟩

/-- Between `front` and `back`, `a` is the first element of the greatest key. -/
structure FirstMax (key : α → β) (front : List α) (a : α) (back : List α) : Prop where
  before : ∀ b ∈ front, key b < key a
  after : ∀ b ∈ back, key b ≤ key a

/-- No key is greater than that of the first maximum. -/
theorem FirstMax.le {front back : List α} {a : α} (h : FirstMax key front a back) {b : α}
    (hb : b ∈ front ++ back) : key b ≤ key a := by
  rcases List.mem_append.mp hb with hfront | hback
  · exact (h.before b hfront).le
  · exact h.after b hback

/-- Of its own key nothing stands before the first maximum. -/
theorem FirstMax.filter_front {front back : List α} {a : α} (h : FirstMax key front a back) :
    (front.filter fun x => key x = key a) = [] := by
  apply List.filter_eq_nil_iff.mpr
  intro b hb hsame
  have hlt := h.before b hb
  rw [of_decide_eq_true hsame] at hlt
  exact lt_irrefl _ hlt

/-- **Taking out the first maximum** and putting the rest into stable order puts
the whole list into stable order. -/
theorem FirstMax.stablyOrders {front back rest : List α} {a : α}
    (h : FirstMax key front a back) (hrest : StablyOrders key (front ++ back) rest) :
    StablyOrders key (front ++ a :: back) (a :: rest) where
  perm := (hrest.perm.cons a).trans List.perm_middle.symm
  nonIncreasing := by
    refine List.pairwise_cons.mpr ⟨fun b hb => ?_, hrest.nonIncreasing⟩
    exact h.le (hrest.perm.subset hb)
  stable := by
    intro k
    have hstable := hrest.stable k
    rw [List.filter_append] at hstable
    rw [List.filter_append, List.filter_cons, List.filter_cons, hstable]
    by_cases hk : key a = k
    · subst hk
      rw [h.filter_front, if_pos (decide_eq_true rfl), if_pos (decide_eq_true rfl)]
      rfl
    · rw [if_neg (by simpa using hk), if_neg (by simpa using hk)]

end StableOrder
