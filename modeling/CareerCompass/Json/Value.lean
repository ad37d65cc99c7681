import CareerCompass.Decimal.Text
/-!
# JSON values and their compact text

A JSON number keeps the kind it was read as: an unsigned integer, a negative integer, or a
double. The kind is part of a value (`3` and `3.0` are different answers), so the printer writes
integers as digits and doubles in `NumberStyle.json`, which keeps `.0`.

Objects keep their fields in the order read. `JsonValue.field?` looks a name up as a map that
was filled in that order would: the last field of that name wins. `JsonValue.canonical` turns
every object into that map, fields sorted by name, which is the order a sorted map writes.

Main statements: `field?_append_of_absent` (a later field that does not have the name does not
change the lookup) and `escapeChar_ascii` (printable ASCII other than the quote and the
backslash is written as it is).
-/

namespace CareerCompass

/-- A JSON number as it was read. -/
inductive JsonNumber where
  /-- A nonnegative integer below `2^64`. -/
  | unsigned (n : Nat)
  /-- A negative integer, at least `-2^63`. -/
  | negative (n : Int)
  /-- A double: a number with a fraction or an exponent, or an integer out of range. -/
  | float (x : Float)

/-- A JSON document. -/
inductive JsonValue where
  | null
  | bool (b : Bool)
  | number (n : JsonNumber)
  | string (s : String)
  | array (items : List JsonValue)
  | object (fields : List (String × JsonValue))

namespace JsonNumber

/-- The number as a double: integers are rounded to the nearest double. -/
def toFloat : JsonNumber → Float
  | .unsigned n => n.toUInt64.toFloat
  | .negative n => -(n.natAbs.toUInt64.toFloat)
  | .float x => x

/-- The text of the number: digits for integers, `NumberStyle.json` for doubles; a double that
is not finite has no JSON text and is written `null`. -/
def text : JsonNumber → String
  | .unsigned n => Nat.repr n
  | .negative n => intText n
  | .float x => if x.isFinite then floatText .json x else "null"

end JsonNumber

namespace JsonValue

/-- The value of the last field with this name. -/
def field? (fields : List (String × JsonValue)) (name : String) : Option JsonValue :=
  fields.foldl (fun found (k, v) => if k = name then some v else found) none

theorem field?_append_of_absent (xs ys : List (String × JsonValue)) (name : String)
    (h : ∀ p ∈ ys, p.1 ≠ name) : field? (xs ++ ys) name = field? xs name := by
  unfold field?
  rw [List.foldl_append]
  generalize List.foldl _ none xs = acc
  induction ys generalizing acc with
  | nil => rfl
  | cons p rest ih =>
    simp only [List.foldl_cons]
    rw [if_neg (h p (by simp))]
    exact ih (fun q hq => h q (by simp [hq])) acc

/-- Looks up a field of an object value. -/
def get? (v : JsonValue) (name : String) : Option JsonValue :=
  match v with
  | .object fields => field? fields name
  | _ => none

/-- Inserts a field into a list sorted by name, replacing a field of the same name. -/
def insertSorted (p : String × JsonValue) :
    List (String × JsonValue) → List (String × JsonValue)
  | [] => [p]
  | q :: rest =>
    if p.1 < q.1 then p :: q :: rest
    else if p.1 = q.1 then p :: rest
    else q :: insertSorted p rest

/-- Every object as a map filled in reading order: sorted by name, the last field of a name kept. -/
def canonical : JsonValue → JsonValue
  | .array items => .array (items.attach.map fun ⟨v, _⟩ => canonical v)
  | .object fields =>
    .object ((fields.attach.map fun ⟨(k, v), _⟩ => (k, canonical v)).foldl
      (fun acc p => insertSorted p acc) [])
  | v => v
decreasing_by
  all_goals simp_wf
  · have := List.sizeOf_lt_of_mem ‹_ ∈ items›
    omega
  · have := List.sizeOf_lt_of_mem ‹_ ∈ fields›
    simp at this
    omega

/-- Lowercase hexadecimal digit. -/
def hexDigit (n : Nat) : Char :=
  if n < 10 then Char.ofNat (48 + n) else Char.ofNat (87 + n)

/-- How a character is written inside a JSON string: the quote, the backslash and control
characters are escaped (`\n` style where one exists, else `\u00xx`); all else as it is. -/
def escapeChar (c : Char) : List Char :=
  if c = '"' then ['\\', '"']
  else if c = '\\' then ['\\', '\\']
  else if c = '\n' then ['\\', 'n']
  else if c = '\r' then ['\\', 'r']
  else if c = '\t' then ['\\', 't']
  else if c.toNat = 8 then ['\\', 'b']
  else if c.toNat = 12 then ['\\', 'f']
  else if c.toNat < 32 then ['\\', 'u', '0', '0', hexDigit (c.toNat / 16), hexDigit (c.toNat % 16)]
  else [c]

theorem escapeChar_ascii (c : Char) (h1 : 32 ≤ c.toNat) (h2 : c ≠ '"') (h3 : c ≠ '\\') :
    escapeChar c = [c] := by
  have hn : c ≠ '\n' := by intro h; subst h; simp at h1
  have hr : c ≠ '\r' := by intro h; subst h; simp at h1
  have ht : c ≠ '\t' := by intro h; subst h; simp at h1
  have h8 : ¬ c.toNat = 8 := by omega
  have h12 : ¬ c.toNat = 12 := by omega
  have h32 : ¬ c.toNat < 32 := by omega
  simp only [escapeChar, if_neg h2, if_neg h3, if_neg hn, if_neg hr, if_neg ht, if_neg h8,
    if_neg h12, if_neg h32]

/-- A string as a quoted JSON string. -/
def quote (s : String) : String :=
  String.ofList ('"' :: (s.toList.flatMap escapeChar ++ ['"']))

/-- Compact JSON text: no blanks, fields in their order. -/
def render : JsonValue → String
  | .null => "null"
  | .bool b => if b then "true" else "false"
  | .number n => n.text
  | .string s => quote s
  | .array items => "[" ++ ",".intercalate (items.attach.map fun ⟨v, _⟩ => render v) ++ "]"
  | .object fields =>
    "\x7b" ++ ",".intercalate (fields.attach.map fun ⟨(k, v), _⟩ => quote k ++ ":" ++ render v) ++
      "\x7d"
decreasing_by
  all_goals simp_wf
  · have := List.sizeOf_lt_of_mem ‹_ ∈ items›
    omega
  · have := List.sizeOf_lt_of_mem ‹_ ∈ fields›
    simp at this
    omega

end JsonValue

end CareerCompass
