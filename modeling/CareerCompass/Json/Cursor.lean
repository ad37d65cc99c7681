import CareerCompass.Json.Value
import CareerCompass.Text.Printable
/-!
# Reading JSON text: positions, errors and tokens

A `Cursor` is the text still to read together with the line and the byte column reached. Errors
name the place where they were noticed: `Cursor.position` is the place reached, and
`Cursor.peekPosition` is one byte further, on the character being looked at. Columns count bytes
of UTF-8, from zero at the start of a line; lines count from one.

Tokens are read here: blanks, the literals `null`, `true` and `false`, numbers and strings.

* A number without fraction and exponent is an integer while it fits in 64 bits. Otherwise it is
  a double built from the first digits that fit in 64 bits (the significand) and a power of ten:
  the significand is rounded to a double, then multiplied or divided once by `10^|k|` (itself
  the double nearest to it); beyond `10^308` the division is repeated. A result that overflows is
  the error "number out of range"; `-0` is the double `-0.0`.
* A string may not hold a control character; escapes are `\" \\ \/ \b \f \n \r \t \uXXXX`, and a
  surrogate pair must be written as two escapes.

Main statements: `length_advance` (each step consumes one character) and `skipBlanks_rest`
(skipping blanks drops exactly the leading blanks).
-/

namespace CareerCompass

namespace Json

/-- A place in a text: line from one, byte column from zero. -/
structure Position where
  line : Nat
  column : Nat
deriving DecidableEq, Repr

/-- The text still to read, and where it starts. -/
structure Cursor where
  rest : List Char
  line : Nat
  column : Nat

/-- Why a text is not JSON. -/
inductive SyntaxCode where
  | eofWhileParsingList
  | eofWhileParsingObject
  | eofWhileParsingString
  | eofWhileParsingValue
  | expectedColon
  | expectedListCommaOrEnd
  | expectedObjectCommaOrEnd
  | expectedSomeIdent
  | expectedSomeValue
  | invalidEscape
  | invalidNumber
  | numberOutOfRange
  | controlCharacterInString
  | keyMustBeAString
  | loneLeadingSurrogate
  | trailingComma
  | trailingCharacters
  | unexpectedEndOfHexEscape
  | recursionLimitExceeded
deriving DecidableEq, Repr

/-- The sentence for each syntax error. -/
def SyntaxCode.message : SyntaxCode → String
  | .eofWhileParsingList => "EOF while parsing a list"
  | .eofWhileParsingObject => "EOF while parsing an object"
  | .eofWhileParsingString => "EOF while parsing a string"
  | .eofWhileParsingValue => "EOF while parsing a value"
  | .expectedColon => "expected `:`"
  | .expectedListCommaOrEnd => "expected `,` or `]`"
  | .expectedObjectCommaOrEnd => "expected `,` or `\x7d`"
  | .expectedSomeIdent => "expected ident"
  | .expectedSomeValue => "expected value"
  | .invalidEscape => "invalid escape"
  | .invalidNumber => "invalid number"
  | .numberOutOfRange => "number out of range"
  | .controlCharacterInString => "control character (\\u0000-\\u001F) found while parsing a string"
  | .keyMustBeAString => "key must be a string"
  | .loneLeadingSurrogate => "lone leading surrogate in hex escape"
  | .trailingComma => "trailing comma"
  | .trailingCharacters => "trailing characters"
  | .unexpectedEndOfHexEscape => "unexpected end of hex escape"
  | .recursionLimitExceeded => "recursion limit exceeded"

/-- A reading error: the text is not JSON (`malformed`), or it is JSON of the wrong shape (`data`);
a data error learns its position from the reader that sees it first. -/
inductive JsonError where
  | malformed (code : SyntaxCode) (at_ : Position)
  | data (message : String) (at_ : Option Position)

namespace JsonError

/-- The error with a position: a data error without one takes `p`. -/
def locate (p : Position) : JsonError → JsonError
  | .data m none => .data m (some p)
  | e => e

/-- The message, followed by `at line L column C` when the position is known. -/
def message : JsonError → String
  | .malformed code p => code.message ++ " at line " ++ Nat.repr p.line ++ " column " ++ Nat.repr p.column
  | .data m none => m
  | .data m (some p) => m ++ " at line " ++ Nat.repr p.line ++ " column " ++ Nat.repr p.column

/-- Whether the text itself is malformed (as opposed to well-formed JSON of the wrong shape). -/
def isMalformed : JsonError → Bool
  | .malformed _ _ => true
  | .data _ _ => false

end JsonError

/-- What a reader found where it wanted something else. -/
inductive Unexpected where
  | bool (b : Bool)
  | unsigned (n : Nat)
  | signed (n : Int)
  | float (x : Float)
  | string (s : String)
  | null
  | sequence
  | map

/-- Lowercase hexadecimal digits of a number, without leading zeros. -/
def hexText (n : Nat) : String :=
  String.ofList ((Nat.toDigits 16 n))

/-- A string quoted for a message: quote and backslash escaped, `\t \r \n \0` by name, and the
other characters that `Printable.isShown` does not show as `\u{hex}`. -/
def debugQuote (s : String) : String :=
  let body := s.toList.flatMap fun c =>
    if c = '"' then ['\\', '"']
    else if c = '\\' then ['\\', '\\']
    else if c = '\t' then ['\\', 't']
    else if c = '\r' then ['\\', 'r']
    else if c = '\n' then ['\\', 'n']
    else if c.toNat = 0 then ['\\', '0']
    else if Printable.isShown c then [c]
    else ("\\u\x7b" ++ hexText c.toNat ++ "\x7d").toList
  String.ofList ('"' :: body ++ ['"'])

/-- The words for what was found, as in "invalid type: integer `5`". -/
def Unexpected.text : Unexpected → String
  | .bool b => "boolean `" ++ (if b then "true" else "false") ++ "`"
  | .unsigned n => "integer `" ++ Nat.repr n ++ "`"
  | .signed n => "integer `" ++ intText n ++ "`"
  | .float x => "floating point `" ++ floatText .json x ++ "`"
  | .string s => "string " ++ debugQuote s
  | .null => "null"
  | .sequence => "sequence"
  | .map => "map"

/-- "invalid type: …, expected …" as a data error. -/
def invalidType (found : Unexpected) (expected : String) : JsonError :=
  .data ("invalid type: " ++ found.text ++ ", expected " ++ expected) none

/-- "invalid value: …, expected …" as a data error. -/
def invalidValue (found : Unexpected) (expected : String) : JsonError :=
  .data ("invalid value: " ++ found.text ++ ", expected " ++ expected) none

namespace Cursor

/-- A cursor at the start of a text. -/
def ofString (s : String) : Cursor := ⟨s.toList, 1, 0⟩

/-- The place reached. -/
def position (c : Cursor) : Position := ⟨c.line, c.column⟩

/-- One byte further: the place of the character being looked at, counted as read. -/
def peekPosition (c : Cursor) : Position :=
  match c.rest with
  | [] => ⟨c.line, c.column⟩
  | ch :: _ => if ch = '\n' then ⟨c.line + 1, 0⟩ else ⟨c.line, c.column + 1⟩

/-- The place `k` bytes further; a character cut by that byte counts its bytes before it. -/
def positionAfterBytes (c : Cursor) (k : Nat) : Position :=
  go c.rest c.line c.column k
where
  go : List Char → Nat → Nat → Nat → Position
    | _, line, column, 0 => ⟨line, column⟩
    | [], line, column, _ => ⟨line, column⟩
    | ch :: rest, line, column, k + 1 =>
      if ch = '\n' then go rest (line + 1) 0 k
      else if ch.utf8Size ≤ k + 1 then go rest line (column + ch.utf8Size) (k + 1 - ch.utf8Size)
      else ⟨line, column + (k + 1)⟩

/-- The next character, if any. -/
def peek? (c : Cursor) : Option Char := c.rest.head?

/-- Consumes one character. -/
def advance (c : Cursor) : Cursor :=
  match c.rest with
  | [] => c
  | ch :: rest => if ch = '\n' then ⟨rest, c.line + 1, 0⟩ else ⟨rest, c.line, c.column + ch.utf8Size⟩

theorem advance_rest (c : Cursor) : c.advance.rest = c.rest.tail := by
  unfold advance
  split
  · simp_all
  · split <;> simp_all

theorem length_advance {c : Cursor} {ch : Char} {rest : List Char} (h : c.rest = ch :: rest) :
    c.advance.rest.length < c.rest.length := by
  rw [advance_rest, h]
  simp

/-- A JSON blank: space, line feed, tab or carriage return. -/
def isBlank (ch : Char) : Bool :=
  ch = ' ' || ch = '\n' || ch = '\t' || ch = '\r'

/-- The cursor after the leading blanks of a text that starts at this line and column. -/
def skipBlanksFrom (line column : Nat) : List Char → Cursor
  | [] => ⟨[], line, column⟩
  | ch :: rest =>
    if isBlank ch then
      if ch = '\n' then skipBlanksFrom (line + 1) 0 rest
      else skipBlanksFrom line (column + ch.utf8Size) rest
    else ⟨ch :: rest, line, column⟩

/-- Skips blanks. -/
def skipBlanks (c : Cursor) : Cursor := skipBlanksFrom c.line c.column c.rest

theorem skipBlanksFrom_rest (line column : Nat) (text : List Char) :
    (skipBlanksFrom line column text).rest = text.dropWhile isBlank := by
  induction text generalizing line column with
  | nil => rfl
  | cons ch rest ih =>
    unfold skipBlanksFrom
    by_cases hb : isBlank ch
    · simp only [hb, if_true, List.dropWhile_cons]
      split <;> exact ih _ _
    · simp [hb]

/-- Skipping blanks drops exactly the leading blanks. -/
theorem skipBlanks_rest (c : Cursor) : (skipBlanks c).rest = c.rest.dropWhile isBlank :=
  skipBlanksFrom_rest _ _ _

/-- Skips blanks and looks at the next character. -/
def peekAfterBlanks (c : Cursor) : Cursor × Option Char :=
  let c := c.skipBlanks
  (c, c.peek?)

/-- The cursor after the leading decimal digits of a text that starts at this line and column. -/
def skipDigitsFrom (line column : Nat) : List Char → Cursor
  | [] => ⟨[], line, column⟩
  | ch :: rest =>
    if ch.isDigit then skipDigitsFrom line (column + 1) rest else ⟨ch :: rest, line, column⟩

/-- Skips decimal digits. -/
def skipDigits (c : Cursor) : Cursor := skipDigitsFrom c.line c.column c.rest

/-- Reads the rest of a literal (`ull`, `rue` or `alse`) after its first letter. -/
def expectWord (word : List Char) (c : Cursor) : Except JsonError Cursor :=
  match word with
  | [] => .ok c
  | w :: ws =>
    match c.rest with
    | [] => .error (.malformed .eofWhileParsingValue c.position)
    | ch :: _ =>
      if ch = w then expectWord ws c.advance
      else .error (.malformed .expectedSomeIdent c.peekPosition)

end Cursor

/-- The double nearest to `10^k`, rounding half to even; `k ≤ 308`. -/
def pow10Float (k : Nat) : Float :=
  let n := Nat.pow 10 k
  let len := n.log2 + 1
  if len ≤ 53 then n.toUInt64.toFloat
  else
    let shift := len - 53
    let q := n / Nat.pow 2 shift
    let r := n % Nat.pow 2 shift
    let half := Nat.pow 2 (shift - 1)
    let q := if half < r ∨ (r = half ∧ q % 2 = 1) then q + 1 else q
    let (q, shift) := if q = Nat.pow 2 53 then (Nat.pow 2 52, shift + 1) else (q, shift)
    Float.ofBits ((shift + 52 + 1023) * Nat.pow 2 52 + (q - Nat.pow 2 52)).toUInt64

/-- The doubles nearest to `10^0` … `10^308`. -/
def pow10Table : Array Float := (List.range 309).toArray.map pow10Float

/-- `significand · 10^exponent` as a double, by one multiplication or division by a power of ten
(repeated division by `10^308` for smaller exponents); an overflow is an error. -/
def floatOfParts (positive : Bool) (significand : Nat) (exponent : Int) (at_ : Position) :
    Except JsonError Float :=
  let rec go (fuel : Nat) (f : Float) (e : Int) : Except JsonError Float :=
    if e.natAbs ≤ 308 then
      let pow := pow10Table.getD e.natAbs 1
      if 0 ≤ e then
        let g := f * pow
        if g.isInf then .error (.malformed .numberOutOfRange at_) else .ok g
      else .ok (f / pow)
    else if f == 0 then .ok f
    else if 0 ≤ e then .error (.malformed .numberOutOfRange at_)
    else match fuel with
      | 0 => .ok 0
      | fuel + 1 => go fuel (f / pow10Float 308) (e + 308)
  match go 8 significand.toUInt64.toFloat exponent with
  | .ok f => .ok (if positive then f else -f)
  | .error e => .error e

/-- The largest value of a 64-bit unsigned integer. -/
def u64Max : Nat := Nat.pow 2 64 - 1

/-- The largest value of a 32-bit signed integer. -/
def i32Max : Int := Int.pow 2 31 - 1

/-- Adds within the 32-bit signed range, stopping at its ends. -/
def saturate32 (x : Int) : Int :=
  if x > i32Max then i32Max else if x < -(Int.pow 2 31) then -(Int.pow 2 31) else x

namespace Cursor

/-- The double of the parts once the exponent is read. -/
def exponentDone (positive : Bool) (significand : Nat) (start : Int) (positiveExp : Bool)
    (c : Cursor) (exp : Nat) : Except JsonError (JsonNumber × Cursor) :=
  let e := saturate32 (if positiveExp then start + exp else start - exp)
  match floatOfParts positive significand e c.position with
  | .ok f => .ok (.float f, c)
  | .error err => .error err

/-- The digits of an exponent; one that overflows 32 bits gives a zero, or is out of range. -/
def exponentDigits (positive : Bool) (significand : Nat) (start : Int) (positiveExp : Bool)
    (c : Cursor) (exp : Nat) : Except JsonError (JsonNumber × Cursor) :=
  match h : c.rest with
  | d :: _ =>
    if d.isDigit then
      let c' := c.advance
      let exp' := exp * 10 + (d.toNat - 48)
      if exp' > Nat.pow 2 31 - 1 then
        if significand ≠ 0 ∧ positiveExp then .error (.malformed .numberOutOfRange c'.position)
        else .ok (.float (if positive then 0 else -0.0), c'.skipDigits)
      else exponentDigits positive significand start positiveExp c' exp'
    else exponentDone positive significand start positiveExp c exp
  | [] => exponentDone positive significand start positiveExp c exp
termination_by c.rest.length
decreasing_by exact length_advance h

/-- Reads an exponent after `e` or `E` (the cursor is on the letter). -/
def readExponent (positive : Bool) (significand : Nat) (start : Int) (c : Cursor) :
    Except JsonError (JsonNumber × Cursor) :=
  let c := c.advance
  let (c, positiveExp) := match c.peek? with
    | some '+' => (c.advance, true)
    | some '-' => (c.advance, false)
    | _ => (c, true)
  match c.rest with
  | [] => .error (.malformed .eofWhileParsingValue c.position)
  | ch :: _ =>
    if !ch.isDigit then .error (.malformed .invalidNumber c.peekPosition)
    else exponentDigits positive significand start positiveExp c.advance (ch.toNat - 48)

/-- After a fraction's digits: a missing digit is an error, then an optional exponent. -/
def afterFraction (positive : Bool) (c : Cursor) (sig : Nat) (exp : Int) (anyDigit : Bool) :
    Except JsonError (JsonNumber × Cursor) :=
  if !anyDigit then
    match c.peek? with
    | some _ => .error (.malformed .invalidNumber c.peekPosition)
    | none => .error (.malformed .eofWhileParsingValue c.peekPosition)
  else match c.peek? with
    | some 'e' | some 'E' => readExponent positive sig exp c
    | _ =>
      match floatOfParts positive sig exp c.position with
      | .ok f => .ok (.float f, c)
      | .error err => .error err

/-- Reads the digits of a fraction into `sig`, each lowering the exponent `exp` by one; once the
significand passes 64 bits the remaining digits are skipped. `anyDigit` tells whether a digit has
been read. -/
def fractionDigits (positive : Bool) (c : Cursor) (sig : Nat) (exp : Int) (anyDigit : Bool) :
    Except JsonError (JsonNumber × Cursor) :=
  match h : c.rest with
  | d :: _ =>
    if d.isDigit then
      let sig' := sig * 10 + (d.toNat - 48)
      if sig' > u64Max then
        -- further digits cannot change the significand
        afterFraction positive c.skipDigits sig exp true
      else fractionDigits positive c.advance sig' (exp - 1) true
    else afterFraction positive c sig exp anyDigit
  | [] => afterFraction positive c sig exp anyDigit
termination_by c.rest.length
decreasing_by exact length_advance h

/-- Reads a fraction after `.` (the cursor is on the point). -/
def readFraction (positive : Bool) (significand : Nat) (start : Int) (c : Cursor) :
    Except JsonError (JsonNumber × Cursor) :=
  fractionDigits positive c.advance significand start false

/-- After the integer digits: a fraction, an exponent, or an integer. -/
def afterInteger (positive : Bool) (significand : Nat) (c : Cursor) :
    Except JsonError (JsonNumber × Cursor) :=
  match c.peek? with
  | some '.' => readFraction positive significand 0 c
  | some 'e' | some 'E' => readExponent positive significand 0 c
  | _ =>
    if positive then .ok (.unsigned significand, c)
    else if significand = 0 then .ok (.float (-0.0), c)
    else if significand ≤ Nat.pow 2 63 then .ok (.negative (-(significand : Int)), c)
    else .ok (.float (-(significand.toUInt64.toFloat)), c)

/-- Digits beyond 64 bits: each raises the exponent; then a fraction, an exponent, or the end. -/
def longInteger (positive : Bool) (significand : Nat) (c : Cursor) (exp : Nat) :
    Except JsonError (JsonNumber × Cursor) :=
  match h : c.rest with
  | d :: _ =>
    if d.isDigit then longInteger positive significand c.advance (exp + 1)
    else if d = '.' then readFraction positive significand exp c
    else if d = 'e' ∨ d = 'E' then readExponent positive significand exp c
    else done c
  | [] => done c
termination_by c.rest.length
decreasing_by exact length_advance h
where
  done (c : Cursor) : Except JsonError (JsonNumber × Cursor) :=
    match floatOfParts positive significand exp c.position with
    | .ok f => .ok (.float f, c)
    | .error err => .error err

/-- Reads a number whose sign (if any) has been consumed. -/
def readNumber (positive : Bool) (c : Cursor) : Except JsonError (JsonNumber × Cursor) :=
  match c.rest with
  | [] => .error (.malformed .eofWhileParsingValue c.position)
  | ch :: _ =>
    if !ch.isDigit then .error (.malformed .invalidNumber c.peekPosition)
    else if ch = '0' then
      let c := c.advance
      match c.peek? with
      | some d => if d.isDigit then .error (.malformed .invalidNumber c.peekPosition)
        else afterInteger positive 0 c
      | none => afterInteger positive 0 c
    else
      let rec digits (c : Cursor) (sig : Nat) : Except JsonError (JsonNumber × Cursor) :=
        match h : c.rest with
        | d :: _ =>
          if d.isDigit then
            let sig' := sig * 10 + (d.toNat - 48)
            if sig' > u64Max then longInteger positive sig c 0
            else digits c.advance sig'
          else afterInteger positive sig c
        | [] => afterInteger positive sig c
      termination_by c.rest.length
      decreasing_by exact length_advance h
      digits c.advance (ch.toNat - 48)

/-- The integer part of a number being passed over: `first` is its first character, read at
`firstAt`, and `c` the cursor after it. -/
def skipIntegerPart (first : Option Char) (firstAt : Position) (c : Cursor) :
    Except JsonError Cursor :=
  match first with
  | some '0' =>
    match c.peek? with
    | some d => if d.isDigit then .error (.malformed .invalidNumber c.peekPosition) else .ok c
    | none => .ok c
  | some d => if d.isDigit then .ok c.skipDigits else .error (.malformed .invalidNumber firstAt)
  | none => .error (.malformed .invalidNumber c.position)

/-- Skips the sign of an exponent, if there is one. -/
def skipSign (c : Cursor) : Cursor :=
  match c.peek? with
  | some '+' | some '-' => c.advance
  | _ => c

/-- The exponent of a number being passed over (the cursor is on `e` or `E`). -/
def skipExponent (c : Cursor) : Except JsonError Cursor :=
  let c := skipSign c.advance
  match c.peek? with
  | some d => if d.isDigit then .ok c.advance.skipDigits else .error (.malformed .invalidNumber c.peekPosition)
  | none => .error (.malformed .invalidNumber c.position)

/-- What may follow the integer part of a number being passed over: a fraction, an exponent. -/
def skipAfterInteger (c : Cursor) : Except JsonError Cursor :=
  match c.peek? with
  | some '.' =>
    let c := c.advance
    match c.peek? with
    | some d =>
      if d.isDigit then
        let c := c.skipDigits
        match c.peek? with
        | some 'e' | some 'E' => skipExponent c
        | _ => .ok c
      else .error (.malformed .invalidNumber c.peekPosition)
    | none => .error (.malformed .invalidNumber c.peekPosition)
  | some 'e' | some 'E' => skipExponent c
  | _ => .ok c

/-- Skips a number whose sign (if any) has been consumed, checking only its form. -/
def skipNumber (c : Cursor) : Except JsonError Cursor :=
  match skipIntegerPart c.peek? c.peekPosition c.advance with
  | .error e => .error e
  | .ok c => skipAfterInteger c

/-- The value of a hexadecimal digit. -/
def hexValue (ch : Char) : Option Nat :=
  if '0' ≤ ch ∧ ch ≤ '9' then some (ch.toNat - 48)
  else if 'a' ≤ ch ∧ ch ≤ 'f' then some (ch.toNat - 87)
  else if 'A' ≤ ch ∧ ch ≤ 'F' then some (ch.toNat - 55)
  else none

/-- Reads the four hexadecimal digits of a `\u` escape. -/
def readHex4 (c : Cursor) : Except JsonError (Nat × Cursor) :=
  let bytes := c.rest.foldl (fun n ch => n + ch.utf8Size) 0
  if bytes < 4 then
    .error (.malformed .eofWhileParsingString (c.positionAfterBytes bytes))
  else match c.rest with
    | a :: b :: d :: e :: _ =>
      match hexValue a, hexValue b, hexValue d, hexValue e with
      | some va, some vb, some vd, some ve =>
        .ok (((va * 16 + vb) * 16 + vd) * 16 + ve, c.advance.advance.advance.advance)
      | _, _, _, _ => .error (.malformed .invalidEscape (c.positionAfterBytes 4))
    | _ => .error (.malformed .invalidEscape (c.positionAfterBytes 4))

/-- Reads the escape after a backslash into the characters read so far (kept in reverse). -/
def readEscape (c : Cursor) (acc : List Char) : Except JsonError (List Char × Cursor) :=
  match c.rest with
  | [] => .error (.malformed .eofWhileParsingString c.position)
  | ch :: _ =>
    let escapeAt := c.peekPosition
    let c := c.advance
    match ch with
    | '"' => .ok ('"' :: acc, c)
    | '\\' => .ok ('\\' :: acc, c)
    | '/' => .ok ('/' :: acc, c)
    | 'b' => .ok (Char.ofNat 8 :: acc, c)
    | 'f' => .ok (Char.ofNat 12 :: acc, c)
    | 'n' => .ok ('\n' :: acc, c)
    | 'r' => .ok ('\r' :: acc, c)
    | 't' => .ok ('\t' :: acc, c)
    | 'u' =>
      match readHex4 c with
      | .error e => .error e
      | .ok (n, c) =>
        if 0xDC00 ≤ n ∧ n ≤ 0xDFFF then .error (.malformed .loneLeadingSurrogate c.position)
        else if n < 0xD800 ∨ 0xDBFF < n then .ok (Char.ofNat n :: acc, c)
        else
          -- a leading surrogate: a trailing one must follow as a second escape
          match c.rest with
          | [] => .error (.malformed .eofWhileParsingString c.position)
          | '\\' :: _ =>
            let c := c.advance
            match c.rest with
            | [] => .error (.malformed .eofWhileParsingString c.position)
            | 'u' :: _ =>
              match readHex4 c.advance with
              | .error e => .error e
              | .ok (n2, c) =>
                if n2 < 0xDC00 ∨ 0xDFFF < n2 then .error (.malformed .loneLeadingSurrogate c.position)
                else .ok (Char.ofNat ((n - 0xD800) * 1024 + (n2 - 0xDC00) + 0x10000) :: acc, c)
            | _ :: _ => .error (.malformed .unexpectedEndOfHexEscape c.peekPosition)
          | _ :: _ => .error (.malformed .unexpectedEndOfHexEscape c.peekPosition)
    | _ => .error (.malformed .invalidEscape escapeAt)

/-- Reads a string after its opening quote. -/
def readString (c : Cursor) : Except JsonError (String × Cursor) :=
  go c [] (c.rest.length + 1)
where
  go (c : Cursor) (acc : List Char) : Nat → Except JsonError (String × Cursor)
    | 0 => .error (.malformed .eofWhileParsingString c.position)
    | fuel + 1 =>
      match c.rest with
      | [] => .error (.malformed .eofWhileParsingString c.position)
      | ch :: _ =>
        if ch = '"' then .ok (String.ofList acc.reverse, c.advance)
        else if ch = '\\' then
          match readEscape c.advance acc with
          | .ok (acc, c) => go c acc fuel
          | .error e => .error e
        else if ch.toNat < 0x20 then .error (.malformed .controlCharacterInString c.peekPosition)
        else go c.advance (ch :: acc) fuel

/-- Skips a string after its opening quote, checking its escapes only for form. -/
def skipString (c : Cursor) : Except JsonError Cursor :=
  go c (c.rest.length + 1)
where
  go (c : Cursor) : Nat → Except JsonError Cursor
    | 0 => .error (.malformed .eofWhileParsingString c.position)
    | fuel + 1 =>
      match c.rest with
      | [] => .error (.malformed .eofWhileParsingString c.position)
      | ch :: _ =>
        if ch = '"' then .ok c.advance
        else if ch = '\\' then
          let c := c.advance
          match c.rest with
          | [] => .error (.malformed .eofWhileParsingString c.position)
          | e :: _ =>
            let escapeAt := c.peekPosition
            let c := c.advance
            if e = 'u' then
              match readHex4 c with
              | .ok (_, c) => go c fuel
              | .error err => .error err
            else if e = '"' ∨ e = '\\' ∨ e = '/' ∨ e = 'b' ∨ e = 'f' ∨ e = 'n' ∨ e = 'r' ∨ e = 't'
            then go c fuel
            else .error (.malformed .invalidEscape escapeAt)
        else if ch.toNat < 0x20 then .error (.malformed .controlCharacterInString c.position)
        else go c.advance fuel

end Cursor

end Json

end CareerCompass
