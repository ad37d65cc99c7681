import CareerCompass.Text.Utf8
/-!
# Percent-encoded text

In a URL a byte may be written `%` and two hexadecimal digits of either case; a `%` that is not
followed by two such digits stands for itself. `percentDecode` reads the bytes back.

A query string of the `application/x-www-form-urlencoded` kind is a list of name–value pairs:
the pieces between `&` (empty ones skipped), each split at its first `=` (no `=` means an empty
value). In a name or a value `+` stands for a blank, then percent-decoding applies, and bytes that
are not UTF-8 become U+FFFD.

Main statement: `percentDecode_cons_of_ne` (a byte other than `%` passes through).
-/

namespace CareerCompass

namespace Percent

/-- The value of a hexadecimal digit byte. -/
def hexValue? (b : UInt8) : Option Nat :=
  let n := b.toNat
  if 0x30 ≤ n ∧ n ≤ 0x39 then some (n - 0x30)
  else if 0x41 ≤ n ∧ n ≤ 0x46 then some (n - 0x41 + 10)
  else if 0x61 ≤ n ∧ n ≤ 0x66 then some (n - 0x61 + 10)
  else none

/-- Reads `%` and two hexadecimal digits as the byte they write. -/
def percentDecode : List UInt8 → List UInt8
  | [] => []
  | [b] => [b]
  | [b, c] => [b, c]
  | b :: h :: l :: more =>
    if b = 0x25 then
      match hexValue? h, hexValue? l with
      | some x, some y => UInt8.ofNat (16 * x + y) :: percentDecode more
      | _, _ => b :: percentDecode (h :: l :: more)
    else b :: percentDecode (h :: l :: more)

/-- A byte other than `%` passes through. -/
theorem percentDecode_cons_of_ne (b : UInt8) (rest : List UInt8) (h : b ≠ 0x25) :
    percentDecode (b :: rest) = b :: percentDecode rest := by
  match rest with
  | [] => rfl
  | [_] => rfl
  | [_, _] => simp [percentDecode, h]
  | _ :: _ :: _ :: _ => simp [percentDecode, h]

/-- A name or value of a query: `+` as a blank, then percent-decoding, then UTF-8 with
U+FFFD for broken bytes. -/
def formComponent (text : List Char) : String :=
  let text := text.map fun c => if c = '+' then ' ' else c
  Utf8.decodeLossy (percentDecode (Utf8.encode (String.ofList text)))

/-- The name–value pairs of a query string. -/
def formPairs (query : String) : List (String × String) :=
  (query.toList.splitOn '&').filterMap fun piece =>
    if piece.isEmpty then none
    else
      let name := piece.takeWhile (· != '=')
      let value := (piece.dropWhile (· != '=')).drop 1
      some (formComponent name, formComponent value)

end Percent

end CareerCompass
