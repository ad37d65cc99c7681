import CareerCompass.Json.Reader
/-!
# The body of an answer

A client answers with a JSON body naming a course and a Likert value: an object
`{"course": text, "value": 0..255}`, or an array `[text, 0..255]` of the two in that order.
Reading it follows these rules, and the first error met is the one reported:

* In an object, fields are read in order. Another field is passed over whatever it holds. A field
  met a second time is an error as soon as its name is read, before its value. When the object
  closes, a missing `course` is reported before a missing `value`.
* In an array, the first item is the course and the second the value; fewer items is an error of
  length, and an item after the second is text after the end.
* A course must be a string; a value must be an integer from 0 to 255.
* Blanks may stand around the body; anything else after it is an error.

An error that arises inside a field's value (after its colon) or inside an item names that
field (`course`) or item (`[1]`); a missing colon names no field. An error of the body's shape (a missing or repeated field, a
short array) is placed after the closing bracket, as read by then.

That the bodies a client writes read back as the answer is shown in
`CareerCompass.Proofs.Web.AnswerBody`.
-/

namespace CareerCompass

namespace Web

open Json

/-- An answer as a client sends it: a course's display name and a Likert value. -/
structure AnswerRequest where
  course : String
  value : Nat
deriving DecidableEq, Repr

/-- A body that cannot be read: the error, and the field or item whose value it arose in. -/
structure BodyError where
  /-- The field name, or the item index in brackets. -/
  path : Option String
  error : JsonError

namespace BodyError

/-- The error's text, led by the field or item it arose in. -/
def message (e : BodyError) : String :=
  (match e.path with
    | some p => p ++ ": "
    | none => "") ++ e.error.message

/-- Whether the body is not JSON at all (as opposed to JSON of the wrong shape). -/
def isMalformed (e : BodyError) : Bool := e.error.isMalformed

end BodyError

namespace AnswerBody

/-- What a number is called when it is found where something else was wanted. -/
def unexpectedNumber : JsonNumber → Unexpected
  | .unsigned n => .unsigned n
  | .negative n => .signed n
  | .float x => .float x

/-- The error for a value of the wrong kind at the cursor: the value is read as far as needed to
name it, and the error is placed just past what was read. -/
def unexpectedAt (c : Cursor) (expected : String) : JsonError :=
  let literal (word : String) (found : Unexpected) : JsonError :=
    match c.advance.expectWord word.toList with
    | .ok c => (invalidType found expected).locate c.position
    | .error e => e
  let number (r : Except JsonError (JsonNumber × Cursor)) : JsonError :=
    match r with
    | .ok (n, c) => (invalidType (unexpectedNumber n) expected).locate c.position
    | .error e => e
  match c.peek? with
  | some 'n' => literal "ull" .null
  | some 't' => literal "rue" (.bool true)
  | some 'f' => literal "alse" (.bool false)
  | some '-' => number (c.advance.readNumber false)
  | some '"' =>
    match c.advance.readString with
    | .ok (s, c) => (invalidType (.string s) expected).locate c.position
    | .error e => e
  | some '[' => (invalidType .sequence expected).locate c.position
  | some '{' => (invalidType .map expected).locate c.position
  | some ch =>
    if ch.isDigit then number (c.readNumber true)
    else .malformed .expectedSomeValue c.peekPosition
  | none => .malformed .expectedSomeValue c.peekPosition

/-- Reads a string value. -/
def readText (c : Cursor) : Except JsonError (String × Cursor) :=
  let c := c.skipBlanks
  match c.peek? with
  | none => .error (.malformed .eofWhileParsingValue c.peekPosition)
  | some '"' => c.advance.readString
  | some _ => .error (unexpectedAt c "a string")

/-- A number read where a byte was wanted: an integer from 0 to 255, else an error placed at
`at_`. -/
def byteOfNumber (n : JsonNumber) (at_ : Position) : Except JsonError Nat :=
  match n with
  | .unsigned k =>
    if k ≤ 255 then .ok k else .error ((invalidValue (.unsigned k) "u8").locate at_)
  | .negative k => .error ((invalidValue (.signed k) "u8").locate at_)
  | .float x => .error ((invalidType (.float x) "u8").locate at_)

/-- Reads a byte value, an integer from 0 to 255. -/
def readByte (c : Cursor) : Except JsonError (Nat × Cursor) :=
  let c := c.skipBlanks
  match c.peek? with
  | none => .error (.malformed .eofWhileParsingValue c.peekPosition)
  | some ch =>
    let number : Option (Except JsonError (JsonNumber × Cursor)) :=
      if ch = '-' then some (c.advance.readNumber false)
      else if ch.isDigit then some (c.readNumber true)
      else none
    match number with
    | none => .error (unexpectedAt c "u8")
    | some (.error e) => .error e
    | some (.ok (n, c)) => (byteOfNumber n c.position).map fun v => (v, c)

/-- The error of a field named twice. -/
def duplicateField (name : String) : JsonError := .data ("duplicate field `" ++ name ++ "`") none

/-- The error of a field not given. -/
def missingField (name : String) : JsonError := .data ("missing field `" ++ name ++ "`") none

/-- The error of an array with `n` items. -/
def invalidLength (n : Nat) : JsonError :=
  .data ("invalid length " ++ Nat.repr n ++ ", expected struct AnswerRequest with 2 elements") none

/-- Where an error of the object's shape is placed: after blanks and the closing brace, if it
comes next. -/
def objectEnd (c : Cursor) : Position :=
  let c := c.skipBlanks
  match c.peek? with
  | some '}' => c.advance.position
  | _ => c.position

/-- Where an error of the array's shape is placed: after blanks and the closing bracket, if it
comes next, or after a comma and the blanks behind it. -/
def arrayEnd (c : Cursor) : Position :=
  let c := c.skipBlanks
  match c.peek? with
  | some ']' => c.advance.position
  | some ',' => c.advance.skipBlanks.position
  | _ => c.position

/-- After a key: the colon, whose errors name no field, then the value, whose errors name the
key. -/
def fieldValue {β : Type} (key : String) (read : Cursor → Except JsonError (β × Cursor))
    (c : Cursor) : Except BodyError (β × Cursor) :=
  match c.expectColon with
  | .error e => .error ⟨none, e⟩
  | .ok c =>
    match read c with
    | .error e => .error ⟨some key, e⟩
    | .ok r => .ok r

/-- Reads the fields of an answer object after its opening brace, up to the closing brace (left
unread); `fuel` bounds the number of fields. -/
def readFields : Nat → Cursor → Bool → Option String → Option Nat →
    Except BodyError (Option String × Option Nat × Cursor)
  | 0, c, _, _, _ => .error ⟨none, .malformed .recursionLimitExceeded c.peekPosition⟩
  | fuel + 1, c, first, course, value =>
    let c := c.skipBlanks
    match c.peek? with
    | none => .error ⟨none, .malformed .eofWhileParsingObject c.peekPosition⟩
    | some '}' => .ok (course, value, c)
    | some ch =>
      let start : Except JsonError Cursor :=
        if ch = ',' ∧ ¬first then .ok c.advance.skipBlanks
        else if first then .ok c
        else .error (.malformed .expectedObjectCommaOrEnd c.peekPosition)
      match start with
      | .error e => .error ⟨none, e⟩
      | .ok c =>
        match c.peek? with
        | some '"' =>
          match c.advance.readString with
          | .error e => .error ⟨none, e⟩
          | .ok (key, c) =>
            if key = "course" then
              if course.isSome then .error ⟨none, (duplicateField key).locate (objectEnd c)⟩
              else
                match fieldValue key readText c with
                | .error e => .error e
                | .ok (s, c) => readFields fuel c false (some s) value
            else if key = "value" then
              if value.isSome then .error ⟨none, (duplicateField key).locate (objectEnd c)⟩
              else
                match fieldValue key readByte c with
                | .error e => .error e
                | .ok (v, c) => readFields fuel c false course (some v)
            else
              match fieldValue key (fun c => c.skipValue.map ((), ·)) c with
              | .error e => .error e
              | .ok (_, c) => readFields fuel c false course value
        | some '}' => .error ⟨none, .malformed .trailingComma c.peekPosition⟩
        | some _ => .error ⟨none, .malformed .keyMustBeAString c.peekPosition⟩
        | none => .error ⟨none, .malformed .eofWhileParsingValue c.peekPosition⟩

/-- Reads an answer object after its opening brace, through the closing brace. -/
def readObject (c : Cursor) : Except BodyError (AnswerRequest × Cursor) :=
  match readFields (c.rest.length + 1) c true none none with
  | .error e => .error e
  | .ok (course, value, c) =>
    let c := c.advance
    match course, value with
    | none, _ => .error ⟨none, (missingField "course").locate c.position⟩
    | some _, none => .error ⟨none, (missingField "value").locate c.position⟩
    | some course, some value => .ok (⟨course, value⟩, c)

/-- After the two items of an answer array: the closing bracket. -/
def closeArray (c : Cursor) : Except JsonError Cursor :=
  let c := c.skipBlanks
  match c.peek? with
  | some ']' => .ok c.advance
  | some ',' =>
    let c := c.advance.skipBlanks
    match c.peek? with
    | some ']' => .error (.malformed .trailingComma c.peekPosition)
    | _ => .error (.malformed .trailingCharacters c.peekPosition)
  | some _ => .error (.malformed .trailingCharacters c.peekPosition)
  | none => .error (.malformed .eofWhileParsingList c.peekPosition)

/-- Reads an answer array after its opening bracket, through the closing bracket. -/
def readArray (c : Cursor) : Except BodyError (AnswerRequest × Cursor) :=
  let c := c.skipBlanks
  match c.peek? with
  | none => .error ⟨none, .malformed .eofWhileParsingList c.peekPosition⟩
  | some ']' => .error ⟨none, (invalidLength 0).locate (arrayEnd c)⟩
  | some _ =>
    match readText c with
    | .error e => .error ⟨some "[0]", e⟩
    | .ok (course, c) =>
      let c := c.skipBlanks
      match c.peek? with
      | none => .error ⟨none, .malformed .eofWhileParsingList c.peekPosition⟩
      | some ']' => .error ⟨none, (invalidLength 1).locate (arrayEnd c)⟩
      | some ',' =>
        let c := c.advance.skipBlanks
        match c.peek? with
        | some ']' => .error ⟨none, .malformed .trailingComma c.peekPosition⟩
        | none => .error ⟨none, .malformed .eofWhileParsingValue c.peekPosition⟩
        | some _ =>
          match readByte c with
          | .error e => .error ⟨some "[1]", e⟩
          | .ok (value, c) =>
            match closeArray c with
            | .error e => .error ⟨none, e⟩
            | .ok c => .ok (⟨course, value⟩, c)
      | some _ => .error ⟨none, .malformed .expectedListCommaOrEnd c.peekPosition⟩

end AnswerBody

namespace AnswerRequest

open AnswerBody in
/-- Reads an answer body. -/
def decode (text : String) : Except BodyError AnswerRequest :=
  let c := (Cursor.ofString text).skipBlanks
  let body : Except BodyError (AnswerRequest × Cursor) :=
    match c.peek? with
    | none => .error ⟨none, .malformed .eofWhileParsingValue c.peekPosition⟩
    | some '{' => readObject c.advance
    | some '[' => readArray c.advance
    | some _ => .error ⟨none, unexpectedAt c "struct AnswerRequest"⟩
  match body with
  | .error e => .error e
  | .ok (request, c) =>
    let c := c.skipBlanks
    match c.peek? with
    | none => .ok request
    | some _ => .error ⟨none, .malformed .trailingCharacters c.peekPosition⟩

end AnswerRequest

end Web

end CareerCompass
