/-!
# Numbers for certainty factors

Certainty factors, rule weights and agenda priorities are all numbers of one type `α` with a
`Scalar α` instance. Doubles run the program; exact rationals are where its arithmetic laws are
stated. Beside the field operations a scalar has `floor`, the comparisons `≤` and `<` (which may
leave two values unordered, as a NaN is), and `totalCompare`, the total order used wherever
values are sorted.

Main statement: `sortDescBy_perm`, sorting keeps the items.
-/

namespace CareerCompass

/-- The numbers that certainty factors, rule weights and priorities are computed in. -/
class Scalar (α : Type) extends Zero α, One α, Add α, Sub α, Mul α, Div α, LE α, LT α,
    OfScientific α where
  /-- The largest integral value not above. -/
  floor : α → α
  /-- A total order for sorting. -/
  totalCompare : α → α → Ordering
  /-- `≤` can be decided. -/
  decLe : ∀ a b : α, Decidable (a ≤ b)
  /-- `<` can be decided. -/
  decLt : ∀ a b : α, Decidable (a < b)

instance instDecidableLeOfScalar {α : Type} [Scalar α] (a b : α) : Decidable (a ≤ b) :=
  Scalar.decLe a b

instance instDecidableLtOfScalar {α : Type} [Scalar α] (a b : α) : Decidable (a < b) :=
  Scalar.decLt a b

/-- Sorts by a scalar key, largest first in the total order; equal keys keep their order. -/
def sortDescBy {α β : Type} [Scalar α] (key : β → α) (xs : List β) : List β :=
  xs.mergeSort fun a b => Scalar.totalCompare (key a) (key b) != .lt

/-- Sorting keeps the items, each as often as before. -/
theorem sortDescBy_perm {α β : Type} [Scalar α] (key : β → α) (xs : List β) :
    (sortDescBy key xs).Perm xs :=
  List.mergeSort_perm _ _

/-- Exact rationals: the usual order is already total. -/
instance : Scalar Rat where
  zero := 0
  one := 1
  floor q := (q.floor : Rat)
  totalCompare a b := if a < b then .lt else if a = b then .eq else .gt
  decLe a b := inferInstanceAs (Decidable (a ≤ b))
  decLt a b := inferInstanceAs (Decidable (a < b))

end CareerCompass
