import CareerCompass.Scalar
/-!
# The Likert scale of answers

An answer to "how much did you like this course?" is one of five levels, from 1 (strongly
dislike) to 5 (strongly like). Each level stands for a certainty factor: 0, 0.25, 0.5, 0.75, 1.
A number outside 1–5 is refused with `Likert.Error.outOfRange`.

Main statements: `ofValue?_value` (each level is read back from its number) and
`ofValue?_eq_error_iff` (exactly the numbers outside 1–5 are refused).
-/

namespace CareerCompass

/-- An answer on the five-level scale. -/
inductive Likert where
  | stronglyDislike
  | dislike
  | neutral
  | like
  | stronglyLike
deriving DecidableEq, Repr

namespace Likert

/-- The five levels, from the lowest. -/
def all : List Likert := [.stronglyDislike, .dislike, .neutral, .like, .stronglyLike]

/-- The number of a level, 1 to 5. -/
def value : Likert → Nat
  | .stronglyDislike => 1
  | .dislike => 2
  | .neutral => 3
  | .like => 4
  | .stronglyLike => 5

/-- The label shown for a level. -/
def label : Likert → String
  | .stronglyDislike => "Strongly dislike"
  | .dislike => "Dislike"
  | .neutral => "Neutral"
  | .like => "Like"
  | .stronglyLike => "Strongly like"

/-- The certainty factor a level stands for. -/
def cf {α : Type} [Scalar α] : Likert → α
  | .stronglyDislike => 0.0
  | .dislike => 0.25
  | .neutral => 0.5
  | .like => 0.75
  | .stronglyLike => 1.0

/-- Why a number is not an answer. -/
inductive Error where
  /-- The number is outside 1–5. -/
  | outOfRange (value : Nat)
deriving DecidableEq, Repr

/-- The message of a refused answer. -/
def Error.message : Error → String
  | .outOfRange v => "valor Likert " ++ Nat.repr v ++ " fora da escala (esperado 1..=5)"

/-- The level with this number. -/
def ofValue? (v : Nat) : Except Error Likert :=
  match all.find? (·.value == v) with
  | some l => .ok l
  | none => .error (.outOfRange v)

theorem ofValue?_value (l : Likert) : ofValue? l.value = .ok l := by
  cases l <;> rfl

theorem ofValue?_eq_error_iff (v : Nat) : ofValue? v = .error (.outOfRange v) ↔ v < 1 ∨ 5 < v := by
  constructor
  · intro h
    rcases Nat.lt_or_ge v 1 with hv | hv
    · exact Or.inl hv
    rcases Nat.lt_or_ge 5 v with hv' | hv'
    · exact Or.inr hv'
    have : v = 1 ∨ v = 2 ∨ v = 3 ∨ v = 4 ∨ v = 5 := by omega
    rcases this with rfl | rfl | rfl | rfl | rfl <;> simp [ofValue?, all, value] at h
  · intro hv
    unfold ofValue?
    have : all.find? (·.value == v) = none := by
      rw [List.find?_eq_none]
      intro l _
      cases l <;> simp [value] <;> omega
    rw [this]

end Likert

end CareerCompass
