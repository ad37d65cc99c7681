import CareerCompass.Decimal.Shortest
import CareerCompass.Decimal.Fixed
/-!
# Writing doubles as text

Two decisions make a number style (`NumberStyle`): which point positions are written without an
exponent, and whether an integral value keeps `.0`. The digits themselves always come from
`Decimal.shortest`, and the fixed-place form from `Decimal.roundPlaces`.

* `NumberStyle.plain` writes every value positionally and drops `.0`: `1`, `0.1`, `-0`,
  `1000000000000000000000`, `NaN`, `inf`.
* `NumberStyle.json` is positional from `1e-5` up to below `1e16`, keeps `.0`, and otherwise
  writes `d.ddde±x`, the exponent always signed: `1.0`, `1e+16`, `1.5e-7`.

Main statement: `Decimal.render_zero` (zero is `0`, or `0.0` when the style keeps the point).
-/

namespace CareerCompass

/-- How a double is written as text. -/
structure NumberStyle where
  /-- Point positions `k` (digits before the point) written positionally: `lo < k ≤ hi`;
  `none` writes every value positionally. -/
  positional : Option (Int × Int)
  /-- Whether an integral value keeps a trailing `.0`. -/
  keepPointZero : Bool
  /-- The text of a NaN. -/
  nanText : String
  /-- The text of an infinity, after its sign. -/
  infinityText : String

namespace NumberStyle

/-- Every value positional, no `.0`: the plain text of a number in a sentence. -/
def plain : NumberStyle := ⟨none, false, "NaN", "inf"⟩

/-- Positional from `1e-5` up to below `1e16`, `.0` kept: the text of a JSON number. -/
def json : NumberStyle := ⟨some (-5, 16), true, "NaN", "inf"⟩

end NumberStyle

/-- The text of an integer, with a minus sign when negative. -/
def intText (i : Int) : String :=
  if i < 0 then "-" ++ Nat.repr i.natAbs else Nat.repr i.natAbs

namespace Decimal

/-- Writes a decimal in a style: positionally when its point position is in the style's range,
else as `d.ddde±x`, with `+` or `-` before the exponent's digits. -/
def render (style : NumberStyle) (d : Decimal) : String :=
  let ds := (Nat.repr d.digits).toList
  let n := ds.length
  let k : Int := n + d.exponent
  let positional := match style.positional with
    | none => true
    | some (lo, hi) => decide (lo < k ∧ k ≤ hi)
  if positional then
    if 0 ≤ d.exponent then
      String.ofList ds ++ String.ofList (List.replicate d.exponent.toNat '0') ++
        (if style.keepPointZero then ".0" else "")
    else if 0 < k then
      String.ofList (ds.take k.toNat) ++ "." ++ String.ofList (ds.drop k.toNat)
    else
      "0." ++ String.ofList (List.replicate (-k).toNat '0') ++ String.ofList ds
  else
    let mark := "e" ++ (if k - 1 < 0 then "-" else "+") ++ Nat.repr (k - 1).natAbs
    match ds with
    | [c] => String.singleton c ++ mark
    | c :: rest => String.singleton c ++ "." ++ String.ofList rest ++ mark
    | [] => mark

/-- Zero is `0`, or `0.0` when the style keeps the point. -/
theorem render_zero (style : NumberStyle) (h : style.positional = none ∨
    ∃ lo hi, style.positional = some (lo, hi) ∧ lo < 1 ∧ 1 ≤ hi) :
    render style ⟨0, 0⟩ = "0" ++ (if style.keepPointZero then ".0" else "") := by
  rcases h with h | ⟨lo, hi, h, hlo, hhi⟩
  · simp [render, h, Nat.repr]
  · simp [render, h, hlo, hhi, Nat.repr]

end Decimal

/-- The text of a double in a style: shortest digits that read back, sign kept for `-0`. -/
def floatText (style : NumberStyle) (x : Float) : String :=
  match BinaryValue.ofFloat x with
  | .nan _ => style.nanText
  | .infinite s => (if s then "-" else "") ++ style.infinityText
  | .finite s m e =>
    (if s then "-" else "") ++
      (if m = 0 then Decimal.render style ⟨0, 0⟩ else Decimal.render style (Decimal.shortest m e))

/-- The text of a double with exactly `p` decimal places, rounded half to even on the exact
binary value; a negative value (also `-0`) keeps its sign. -/
def floatPlacesText (p : Nat) (x : Float) : String :=
  match BinaryValue.ofFloat x with
  | .nan _ => "NaN"
  | .infinite s => (if s then "-" else "") ++ "inf"
  | .finite s m e => (if s then "-" else "") ++ Decimal.placesText (Decimal.roundPlaces m e p) p

end CareerCompass
