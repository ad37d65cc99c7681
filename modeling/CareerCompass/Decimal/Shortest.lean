import CareerCompass.Decimal.Binary
/-!
# The shortest decimal that reads back

A positive double `m · 2^e` stands for every real that rounds to it: the interval from halfway
down to the next double below to halfway up to the next double above, ends included exactly when
`m` is even (a half goes to the even mantissa when a decimal is read). At the bottom of a binade
(`m = 2^52`, above the subnormals) the double below is twice as close, so the interval is narrower
below.

`shortest m e` walks the decimal grids with 1, 2, … 17 significant digits. On each grid only the
two points around the value can lie in the interval; the first grid with such a point wins, the
nearer of two points is taken, and an exact tie goes to the even one. Trailing zeros are then
removed, so the digits are unique for the value.

Main statements: `digitCount_pos` and the trailing-zero law `Decimal.normalize_digits` pin down
the output form; everything is exact `Nat` arithmetic.
-/

namespace CareerCompass

/-- A nonnegative decimal `digits · 10^exponent`. -/
structure Decimal where
  /-- The significant digits, as a number. -/
  digits : Nat
  /-- The power of ten of the last digit. -/
  exponent : Int
deriving DecidableEq, Repr

namespace Decimal

/-- Number of decimal digits of `n`; zero has one. -/
def digitCount (n : Nat) : Nat :=
  if n < 10 then 1 else digitCount (n / 10) + 1
termination_by n
decreasing_by omega

theorem digitCount_pos (n : Nat) : 0 < digitCount n := by
  unfold digitCount
  split <;> omega

/-- Compares `x · 2^a · 10^b` with `y · 2^c · 10^d` exactly. -/
def compareScaled (x : Nat) (a b : Int) (y : Nat) (c d : Int) : Ordering :=
  let p := min a c
  let r := min b d
  compare (x * Nat.pow 2 (a - p).toNat * Nat.pow 10 (b - r).toNat)
    (y * Nat.pow 2 (c - p).toNat * Nat.pow 10 (d - r).toNat)

/-- `⌊m · 2^e / 10^i⌋`. -/
def floorScaled (m : Nat) (e i : Int) : Nat :=
  m * Nat.pow 2 e.toNat * Nat.pow 10 (-i).toNat / (Nat.pow 2 (-e).toNat * Nat.pow 10 i.toNat)

/-- `⌊log₁₀ (m · 2^e)⌋`, for `m > 0`. -/
def decimalExponent (m : Nat) (e : Int) : Int :=
  let num := m * Nat.pow 2 e.toNat
  let den := Nat.pow 2 (-e).toNat
  if den ≤ num then (digitCount (num / den) : Int) - 1
  else
    let k := digitCount (den / num) - 1
    if num * Nat.pow 10 k = den then -(k : Int) else -(k : Int) - 1

/-- Whether the decimal `k · 10^i` reads back as the double `m · 2^e` (round half to even). -/
def readsBack (m : Nat) (e : Int) (k : Nat) (i : Int) : Bool :=
  let gapBelow := if m = Nat.pow 2 52 ∧ e > -1074 then 1 else 2
  let fromBelow := compareScaled (4 * m - gapBelow) (e - 2) 0 k 0 i
  let toAbove := compareScaled k 0 i (4 * m + 2) (e - 2) 0
  if m % 2 = 0 then fromBelow != .gt && toAbove != .gt
  else fromBelow == .lt && toAbove == .lt

/-- Removes trailing zeros of the digits, raising the exponent to match. -/
def normalize (d : Decimal) : Decimal :=
  if d.digits ≠ 0 ∧ d.digits % 10 = 0 then
    normalize ⟨d.digits / 10, d.exponent + 1⟩
  else d
termination_by d.digits
decreasing_by omega

/-- Normalizing leaves no trailing zero on a nonzero decimal. -/
theorem normalize_digits (d : Decimal) :
    (normalize d).digits = 0 ∨ (normalize d).digits % 10 ≠ 0 := by
  induction d using normalize.induct with
  | case1 d h ih => rw [normalize, if_pos h]; exact ih
  | case2 d h => rw [normalize, if_neg h]; omega

/-- Of the two grid neighbours `s` and `s + 1` at `10^i`, the one nearer to `m · 2^e`;
an exact tie goes to the even one. -/
def nearer (m : Nat) (e : Int) (s : Nat) (i : Int) : Nat :=
  match compareScaled (2 * m) e 0 (2 * s + 1) 0 i with
  | .lt => s
  | .gt => s + 1
  | .eq => if s % 2 = 0 then s else s + 1

/-- The first grid, from `n` significant digits up to 17, with a point that reads back. -/
def scan (m : Nat) (e e10 : Int) : Nat → Nat → Decimal
  | 0, n =>
    let i := e10 + 1 - n
    ⟨nearer m e (floorScaled m e i) i, i⟩
  | fuel + 1, n =>
    let i := e10 + 1 - n
    let s := floorScaled m e i
    match readsBack m e s i, readsBack m e (s + 1) i with
    | true, true => ⟨nearer m e s i, i⟩
    | true, false => ⟨s, i⟩
    | false, true => ⟨s + 1, i⟩
    | false, false => scan m e e10 fuel (n + 1)

/-- The shortest decimal that reads back as the positive double `m · 2^e`, without trailing zeros. -/
def shortest (m : Nat) (e : Int) : Decimal :=
  normalize (scan m e (decimalExponent m e) 16 1)

end Decimal

end CareerCompass
