import CareerCompass.Scalar
/-!
# Doubles whose NaNs keep their sign

A `Double` is an IEEE 754 binary64 number given by its 64 bits. Finite and infinite values compute
as the core `Float` does, rounded to nearest. A NaN, though, is more than one value here: its sign
bit is kept, and the total order of `totalCompare` sees it (`-NaN` sorts below everything, `+NaN`
above). The NaN rules are those of x86-64 arithmetic:

* a NaN operand goes through, quieted; of two NaN operands the first one does;
* an invalid operation on numbers (`∞ - ∞`, `0 · ∞`, `0 / 0`, `∞ / ∞`) gives the quiet NaN with
  the sign bit set (`invalidNaN`).

Comparisons `≤` and `<` are IEEE ones: false as soon as one side is a NaN, and `-0 ≤ +0`.

Main statements: `totalCompare_eq_iff` (the total order tells every two doubles apart, so the
zeros and the NaNs of each sign are apart too), `totalCompare_neg` (negation turns the total order
around) and `isNaN_arith_of_left` (a NaN on the left goes through an operation).
-/

namespace CareerCompass

/-- An IEEE 754 double, as its sign bit, eleven exponent bits and 52 fraction bits. -/
structure Double where
  bits : UInt64
deriving DecidableEq, Repr

namespace Double

/-- The sign bit. -/
def signMask : UInt64 := 0x8000000000000000

/-- The exponent bits. -/
def exponentMask : UInt64 := 0x7FF0000000000000

/-- The fraction bits. -/
def fractionMask : UInt64 := 0x000FFFFFFFFFFFFF

/-- The top fraction bit, set in a quiet NaN. -/
def quietMask : UInt64 := 0x0008000000000000

/-- Whether the value is a NaN: all exponent bits set and some fraction bit. -/
def isNaN (x : Double) : Bool :=
  x.bits &&& exponentMask == exponentMask && x.bits &&& fractionMask != 0

/-- The value as a core float; a NaN loses its sign there. -/
def toFloat (x : Double) : Float := Float.ofBits x.bits

/-- A core float as a double. -/
def ofFloat (x : Float) : Double := ⟨x.toBits⟩

/-- The NaN of an invalid operation: quiet, sign bit set. -/
def invalidNaN : Double := ⟨0xFFF8000000000000⟩

/-- The positive quiet NaN. -/
def nan : Double := ⟨0x7FF8000000000000⟩

/-- Positive infinity. -/
def infinity : Double := ⟨0x7FF0000000000000⟩

/-- A NaN with its quiet bit set; other values are left alone by callers. -/
def quiet (x : Double) : Double := ⟨x.bits ||| quietMask⟩

/-- A binary operation with the NaN rules of the module: NaN operands go through, the first one
first; otherwise the float result, an invalid one giving `invalidNaN`. -/
def arith (op : Float → Float → Float) (x y : Double) : Double :=
  if x.isNaN then x.quiet
  else if y.isNaN then y.quiet
  else
    let r := op x.toFloat y.toFloat
    if r.isNaN then invalidNaN else ofFloat r

/-- The value with its sign bit flipped, NaNs included. -/
def neg (x : Double) : Double := ⟨x.bits ^^^ signMask⟩

/-- The largest integral value not above; a NaN goes through. -/
def floor (x : Double) : Double := if x.isNaN then x.quiet else ofFloat x.toFloat.floor

/-- The sort key: the bits read as sign and magnitude in one integer, so that
`-NaN < -∞ < … < -0 < +0 < … < +∞ < +NaN`. -/
def totalKey (x : Double) : Int :=
  let n := x.bits.toNat
  if Nat.pow 2 63 ≤ n then -((n - Nat.pow 2 63 : Nat) : Int) - 1 else n

instance : Zero Double := ⟨⟨0⟩⟩

instance : One Double := ⟨⟨0x3FF0000000000000⟩⟩

instance : Add Double := ⟨arith (· + ·)⟩

instance : Sub Double := ⟨arith (· - ·)⟩

instance : Mul Double := ⟨arith (· * ·)⟩

instance : Div Double := ⟨arith (· / ·)⟩

instance : Neg Double := ⟨neg⟩

instance : LE Double := ⟨fun x y => x.toFloat ≤ y.toFloat⟩

instance : LT Double := ⟨fun x y => x.toFloat < y.toFloat⟩

instance : OfScientific Double := ⟨fun m s e => ofFloat (OfScientific.ofScientific m s e)⟩

/-- Doubles: IEEE arithmetic and comparisons, NaNs with a sign, and the bitwise total order. -/
instance : Scalar Double where
  floor := floor
  totalCompare a b := compare a.totalKey b.totalKey
  decLe a b := Float.decLe a.toFloat b.toFloat
  decLt a b := Float.decLt a.toFloat b.toFloat

/-- Flipping the sign bit moves a bit pattern across `2^63`. -/
theorem toNat_xor_signMask (b : UInt64) :
    (b ^^^ signMask).toNat =
      if Nat.pow 2 63 ≤ b.toNat then b.toNat - Nat.pow 2 63 else b.toNat + Nat.pow 2 63 := by
  have below : b.toNat < Nat.pow 2 64 := b.toNat_lt
  have sign : signMask.toNat = Nat.pow 2 63 := rfl
  rw [UInt64.toNat_xor, sign]
  -- the low 63 bits stay and the top bit flips
  have low : (b.toNat ^^^ Nat.pow 2 63) % Nat.pow 2 63 = b.toNat % Nat.pow 2 63 := by
    rw [Nat.pow_eq, Nat.xor_mod_two_pow, Nat.mod_self, Nat.xor_zero]
  have high : (b.toNat ^^^ Nat.pow 2 63) / Nat.pow 2 63 = b.toNat / Nat.pow 2 63 ^^^ 1 := by
    rw [Nat.pow_eq, Nat.xor_div_two_pow, Nat.div_self (Nat.two_pow_pos 63)]
  have whole := Nat.div_add_mod (b.toNat ^^^ Nat.pow 2 63) (Nat.pow 2 63)
  have parts := Nat.div_add_mod b.toNat (Nat.pow 2 63)
  have top : b.toNat / Nat.pow 2 63 = 0 ∨ b.toNat / Nat.pow 2 63 = 1 := by
    simp only [Nat.pow_eq] at below ⊢
    omega
  rw [high, low] at whole
  rcases top with top | top
  · rw [top, Nat.zero_xor] at whole
    rw [top] at parts
    simp only [Nat.pow_eq] at whole parts ⊢
    split <;> omega
  · rw [top, Nat.xor_self] at whole
    rw [top] at parts
    simp only [Nat.pow_eq] at whole parts ⊢
    split <;> omega

/-- Flipping the sign bit mirrors the key: `-0` sits just below `+0`, `-∞` as far below as `+∞`
above, and likewise the NaNs. -/
theorem totalKey_neg (x : Double) : x.neg.totalKey = -x.totalKey - 1 := by
  have below : x.bits.toNat < Nat.pow 2 64 := x.bits.toNat_lt
  unfold totalKey neg
  simp only [toNat_xor_signMask]
  simp only [Nat.pow_eq] at below ⊢
  split <;> split <;> omega

/-- Negative zero sorts just below positive zero. -/
example : totalKey ⟨signMask⟩ = totalKey ⟨0⟩ - 1 := by decide

/-- Two doubles with one key are the same bits. -/
theorem totalKey_inj {x y : Double} : x.totalKey = y.totalKey ↔ x = y := by
  constructor
  · intro same
    have xBelow : x.bits.toNat < Nat.pow 2 64 := x.bits.toNat_lt
    have yBelow : y.bits.toNat < Nat.pow 2 64 := y.bits.toNat_lt
    have bits : x.bits.toNat = y.bits.toNat := by
      unfold totalKey at same
      simp only [Nat.pow_eq] at xBelow yBelow same
      split at same <;> split at same <;> omega
    cases x
    cases y
    simpa using UInt64.toNat_inj.1 bits
  · rintro rfl
    rfl

/-- **The total order tells every two doubles apart**: two doubles are level in it only when they
are the same bits. -/
theorem totalCompare_eq_iff (x y : Double) : Scalar.totalCompare x y = .eq ↔ x = y := by
  show compare x.totalKey y.totalKey = .eq ↔ x = y
  rw [Int.compare_eq_eq, totalKey_inj]

/-- **Negation turns the total order around.** -/
theorem totalCompare_neg (x y : Double) :
    Scalar.totalCompare (-x) (-y) = Scalar.totalCompare y x := by
  show compare x.neg.totalKey y.neg.totalKey = compare y.totalKey x.totalKey
  rw [totalKey_neg, totalKey_neg]
  rcases Int.lt_trichotomy y.totalKey x.totalKey with below | same | above
  · rw [Int.compare_eq_lt.2 below, Int.compare_eq_lt.2 (by omega)]
  · rw [Int.compare_eq_eq.2 same, Int.compare_eq_eq.2 (by omega)]
  · rw [Int.compare_eq_gt.2 above, Int.compare_eq_gt.2 (by omega)]

/-- A NaN on the left of an operation gives that NaN, quieted. -/
theorem isNaN_arith_of_left (op : Float → Float → Float) (x y : Double) (h : x.isNaN = true) :
    arith op x y = x.quiet := by
  simp [arith, h]

end Double

end CareerCompass
