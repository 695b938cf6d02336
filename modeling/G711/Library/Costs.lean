import Mathlib.Algebra.Order.BigOperators.Group.List
import G711.Library.Codes

/-!
# What a code costs on lists

A cost says how much is lost where one value is put for another; on lists it adds up.  A pointwise
code is cheapest for a list, among all lists of codewords of that length, exactly when it is
cheapest for every element (`forall_totalCost_le_iff`): at one element that has a cheaper codeword,
this codeword can be put in.
-/

namespace Code

variable {κ ξ M : Type*} (C : Code κ ξ)

/-- The cost of having the second list for the first. -/
def totalCost [AddCommMonoid M] (cost : ξ → ξ → M) (xs ys : List ξ) : M :=
  (List.zipWith cost xs ys).sum

/-- No codeword costs less for a value than the one it is encoded as. -/
def Cheapest [LE M] (cost : ξ → ξ → M) (x : ξ) : Prop :=
  ∀ c, cost x (C.quantise x) ≤ cost x (C.decode c)

/-- Only the values that codewords have compete. -/
theorem cheapest_iff [LE M] {cost : ξ → ξ → M} {x : ξ} :
    C.Cheapest cost x ↔ ∀ y, cost x (C.quantise x) ≤ cost x (C.quantise y) := by
  constructor
  · intro h y
    exact h (C.encode y)
  · intro h c
    have := h (C.decode c)
    rwa [C.quantise_decode] at this

variable [AddCommMonoid M] [PartialOrder M] [IsOrderedCancelAddMonoid M] {cost : ξ → ξ → M}

/-- A bound at every element gives one on the whole list. -/
theorem totalCost_le {xs ys : List ξ} {bound : ξ → M}
    (h : List.Forall₂ (fun x y => cost x y ≤ bound x) xs ys) :
    totalCost cost xs ys ≤ (xs.map bound).sum := by
  induction h with
  | nil => exact le_refl _
  | cons hxy _ ih =>
    simp only [totalCost, List.zipWith_cons_cons, List.map_cons, List.sum_cons] at ih ⊢
    exact add_le_add hxy ih

/-- **A list is encoded at the least cost exactly when each element is.** -/
theorem forall_totalCost_le_iff (xs : List ξ) :
    (∀ w, w.length = xs.length →
      totalCost cost xs (C.pointwise.quantise xs) ≤ totalCost cost xs (C.pointwise.decode w)) ↔
        ∀ x ∈ xs, C.Cheapest cost x := by
  induction xs with
  | nil =>
    constructor
    · intro _ x hx
      cases hx
    · intro _ w _
      exact le_refl _
  | cons x xs ih =>
    have hsum : ∀ c w, (totalCost cost (x :: xs) (C.pointwise.quantise (x :: xs))
        ≤ totalCost cost (x :: xs) (C.pointwise.decode (c :: w)) ↔
          cost x (C.quantise x) + totalCost cost xs (C.pointwise.quantise xs)
            ≤ cost x (C.decode c) + totalCost cost xs (C.pointwise.decode w)) := by
      intro c w
      rfl
    constructor
    · intro h y hy
      rcases List.mem_cons.1 hy with rfl | hy
      · -- the competitor that differs in the first codeword only
        intro c
        have := (hsum c (C.pointwise.encode xs)).1 (h _ (by simp [pointwise]))
        exact le_of_add_le_add_right this
      · apply ih.1 _ y hy
        intro w hw
        have := (hsum (C.encode x) w).1 (h _ (by simp [hw]))
        exact le_of_add_le_add_left this
    · intro h w hw
      cases w with
      | nil => simp at hw
      | cons c w =>
        rw [hsum]
        have htail := ih.2 (fun y hy => h y (List.mem_cons_of_mem x hy)) w (by simpa using hw)
        exact add_le_add (h x List.mem_cons_self c) htail

end Code
