import CareerCompass.Decimal.Binary
/-!
# A fixed number of decimal places

`roundPlaces m e p` is `m · 2^e · 10^p` rounded to an integer, a half going to the even
neighbour. The value is the exact binary value of the double, so `0.125` at two places is a true
tie and gives `12`, while `0.1`, slightly above one tenth, is no tie.

Main statements: `roundPlaces_exact` (a value already on the grid is kept) and the text form
`placesText`, which always shows `p` digits after the point.
-/

namespace CareerCompass

namespace Decimal

/-- `m · 2^e · 10^p` rounded to the nearest integer, a half going to the even one. -/
def roundPlaces (m : Nat) (e : Int) (p : Nat) : Nat :=
  let num := m * Nat.pow 2 e.toNat * Nat.pow 10 p
  let den := Nat.pow 2 (-e).toNat
  let q := num / den
  let r := num % den
  if den < 2 * r then q + 1
  else if 2 * r = den ∧ q % 2 = 1 then q + 1
  else q

/-- A value already on the grid of `10^-p` is kept. -/
theorem roundPlaces_exact (m p : Nat) : roundPlaces m 0 p = m * Nat.pow 10 p := by
  simp [roundPlaces, Nat.mod_one]

/-- The digits of `q / 10^p` with exactly `p` digits after the point. -/
def placesText (q p : Nat) : String :=
  let whole := q / Nat.pow 10 p
  let part := (Nat.repr (q % Nat.pow 10 p)).toList
  let padded := List.replicate (p - part.length) '0' ++ part
  if p = 0 then Nat.repr whole
  else Nat.repr whole ++ "." ++ String.ofList padded

end Decimal

end CareerCompass
