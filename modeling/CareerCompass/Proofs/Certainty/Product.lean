import Mathlib
import CareerCompass.Proofs.Inference.Monotone
/-!
# Combining as a product of complements

In the classical model, independent evidences `e₁, …, eₙ` for one conclusion combine to
`1 - (1 - e₁) ⋯ (1 - eₙ)`, whatever their order. Over exact rationals `combineAll` computes
exactly that as long as the running value never falls below zero, for each step then combines
as `1 - (1 - old) · (1 - new)` (`combine_eq_of_nonneg`).

* `combineAll_eq_of_prefixes`: the closed form holds when every prefix has a product of
  complements at most 1.
* `prod_complements_le_one`: that is so for non-negative evidences of which at most one
  exceeds 1, and so for every prefix of such a list.
* `combineAll_perm_eq_one_sub_prod`: for positive evidences of which at most one exceeds 1, the
  closed form holds and the order does not matter.

Two evidences above 1 can drive the running value to zero or below. `combine` then drops it and
starts again from the next evidence, so the closed form and the independence of order both fail
(`combineAll_two_above_one`).
-/

namespace CareerCompass

/-- The complements of non-negative evidences, at most one of them above 1, multiply to at
most 1: at most one factor is negative, and the others lie in `[0, 1]`. -/
theorem prod_complements_le_one {es : List Rat} (nonneg : ∀ e ∈ es, 0 ≤ e)
    (atMostOneAbove : (es.filter (1 < ·)).length ≤ 1) : (es.map (1 - ·)).prod ≤ 1 := by
  induction es with
  | nil => simp
  | cons e rest ih =>
    have restNonneg : ∀ x ∈ rest, 0 ≤ x := fun x member => nonneg x (List.mem_cons_of_mem e member)
    rw [List.map_cons, List.prod_cons]
    by_cases above : 1 < e
    · -- the only factor above 1 comes first: the rest multiply to a non-negative number
      have restBelow : rest.filter (1 < ·) = [] := by
        simp only [List.filter_cons, above, decide_true, if_true, List.length_cons] at atMostOneAbove
        exact List.length_eq_zero_iff.1 (by omega)
      have restFactors : ∀ x ∈ rest.map (1 - ·), 0 ≤ x := by
        intro x member
        obtain ⟨y, yMember, rfl⟩ := List.mem_map.1 member
        have notAbove : ¬ 1 < y := by simpa using List.filter_eq_nil_iff.1 restBelow y yMember
        linarith [not_lt.1 notAbove]
      have negative : 1 - e ≤ 0 := by linarith
      linarith [mul_nonpos_of_nonpos_of_nonneg negative (List.prod_nonneg restFactors)]
    · have restAtMostOne : (rest.filter (1 < ·)).length ≤ 1 := by
        simpa [List.filter_cons, above] using atMostOneAbove
      have restLe := ih restNonneg restAtMostOne
      have complementNonneg : 0 ≤ 1 - e := by linarith [not_lt.1 above]
      have shrinks : (1 - e) * ((rest.map (1 - ·)).prod - 1) ≤ 0 :=
        mul_nonpos_of_nonneg_of_nonpos complementNonneg (by linarith)
      calc (1 - e) * (rest.map (1 - ·)).prod
          = (1 - e) * ((rest.map (1 - ·)).prod - 1) + (1 - e) := by ring
        _ ≤ 0 + 1 := add_le_add shrinks (by linarith [nonneg e List.mem_cons_self])
        _ = 1 := by ring

/-- The fold follows the closed form as long as no prefix multiplies its complements above 1,
that is, as long as the running value stays at or above zero. -/
theorem combineAll_eq_of_prefixes {es : List Rat}
    (prefixes : ∀ ys, ys <+: es → (ys.map (1 - ·)).prod ≤ 1) :
    combineAll es = 1 - (es.map (1 - ·)).prod := by
  induction es using List.reverseRecOn with
  | nil => simp [combineAll_nil]
  | append_singleton xs e ih =>
    have earlier : combineAll xs = 1 - (xs.map (1 - ·)).prod :=
      ih fun ys isPrefix => prefixes ys (isPrefix.trans (List.prefix_append xs [e]))
    have nonneg : 0 ≤ combineAll xs := by
      rw [earlier]
      linarith [prefixes xs (List.prefix_append xs [e])]
    rw [combineAll_append, List.foldl_cons, List.foldl_nil, combine_eq_of_nonneg nonneg, earlier,
      List.map_append, List.prod_append, List.map_singleton, List.prod_singleton]
    ring

/-- Positive evidences of which at most one exceeds 1 combine to one minus the product of their
complements. -/
theorem combineAll_eq_one_sub_prod {es : List Rat} (positive : ∀ e ∈ es, 0 < e)
    (atMostOneAbove : (es.filter (1 < ·)).length ≤ 1) :
    combineAll es = 1 - (es.map (1 - ·)).prod := by
  refine combineAll_eq_of_prefixes fun ys isPrefix => prod_complements_le_one ?_ ?_
  · exact fun e member => le_of_lt (positive e (isPrefix.subset member))
  · exact le_trans ((isPrefix.filter (1 < ·)).length_le) atMostOneAbove

/-- **Order does not matter.** Positive evidences of which at most one exceeds 1 (in particular
evidences in `(0, 1]`) combine to one minus the product of their complements, and so to the same
value in every order. -/
theorem combineAll_perm_eq_one_sub_prod {es : List Rat} (positive : ∀ e ∈ es, 0 < e)
    (atMostOneAbove : (es.filter (1 < ·)).length ≤ 1) :
    combineAll es = 1 - (es.map (1 - ·)).prod ∧
      ∀ es', es'.Perm es → combineAll es' = combineAll es := by
  have closed := combineAll_eq_one_sub_prod positive atMostOneAbove
  refine ⟨closed, fun es' perm => ?_⟩
  have positive' : ∀ e ∈ es', 0 < e := fun e member => positive e (perm.subset member)
  have atMostOneAbove' : (es'.filter (1 < ·)).length ≤ 1 := by
    rw [(perm.filter (1 < ·)).length_eq]
    exact atMostOneAbove
  rw [combineAll_eq_one_sub_prod positive' atMostOneAbove', closed, (perm.map (1 - ·)).prod_eq]

/-- Three evidences, one of them above 1: each order gives the product of complements. -/
theorem combineAll_perm_eq_one_sub_prod_oneAbove :
    (∀ e ∈ ([1 / 2, 2, 1 / 4] : List Rat), 0 < e) ∧
      (([1 / 2, 2, 1 / 4] : List Rat).filter (1 < ·)).length ≤ 1 ∧
      (combineAll ([1 / 2, 2, 1 / 4] : List Rat) =
          1 - (([1 / 2, 2, 1 / 4] : List Rat).map (1 - ·)).prod ∧
        ∀ es' : List Rat, es'.Perm [1 / 2, 2, 1 / 4] →
          combineAll es' = combineAll ([1 / 2, 2, 1 / 4] : List Rat)) := by
  have positive : ∀ e ∈ ([1 / 2, 2, 1 / 4] : List Rat), 0 < e := by decide +kernel
  have atMostOneAbove : (([1 / 2, 2, 1 / 4] : List Rat).filter (1 < ·)).length ≤ 1 := by
    decide +kernel
  exact ⟨positive, atMostOneAbove, combineAll_perm_eq_one_sub_prod positive atMostOneAbove⟩

/-- With two evidences above 1 the running value reaches `-1` and is dropped: `2, 3, 1/2`
combines to `1/2`, not to the product form `0`, and the order `1/2, 2, 3` gives `0`. -/
theorem combineAll_two_above_one :
    combineAll ([2, 3, 1 / 2] : List Rat) = 1 / 2 ∧
      1 - (([2, 3, 1 / 2] : List Rat).map (1 - ·)).prod = 0 ∧
      combineAll ([1 / 2, 2, 3] : List Rat) = 0 := by
  decide +kernel

end CareerCompass
