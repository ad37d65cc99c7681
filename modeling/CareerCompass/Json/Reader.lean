import CareerCompass.Json.Cursor
/-!
# Passing over a JSON value

`Json.Cursor.skipValue` passes over a value without building it, as a reader does with a field
it does not want: it checks the grammar of JSON values, with no limit on nesting, and its numbers
are only checked for form. Each error has its cause and place (`Json.JsonError`): the first
character that cannot continue a value is reported, on the character itself ("expected value at
line 1 column 5" points at the fifth byte), while an error found only after reading a token (a bad
literal) points just past what was read.

The nesting is kept as a stack of open brackets rather than by recursion, so that deep nesting
costs no stack. That passing over a value consumes text, and only text, is shown in
`CareerCompass.Proofs.Json.Tokens`.
-/

namespace CareerCompass

namespace Json

namespace Cursor

/-- The colon between a key and its value. -/
def expectColon (c : Cursor) : Except JsonError Cursor :=
  let c := c.skipBlanks
  match c.peek? with
  | some ':' => .ok c.advance
  | some _ => .error (.malformed .expectedColon c.peekPosition)
  | none => .error (.malformed .eofWhileParsingObject c.peekPosition)

/-- How a frame of nested brackets closes, when the value inside it has been passed. -/
inductive Resume where
  /-- The outermost bracket closed: the value is over. -/
  | done (c : Cursor)
  /-- Another item or field starts inside `frame`, below the open brackets `stack`. -/
  | next (c : Cursor) (frame : Char) (stack : List Char)

/-- After an item: closes brackets as long as they close, until a comma or a new item. -/
def closeFrames : Nat → Cursor → Bool → Char → List Char → Except JsonError Resume
  | 0, c, _, _, _ => .error (.malformed .recursionLimitExceeded c.peekPosition)
  | fuel + 1, c, acceptComma, frame, stack =>
    let c := c.skipBlanks
    let closing := if frame = '[' then ']' else '}'
    match c.peek? with
    | some ',' =>
      if acceptComma then .ok (.next c.advance frame stack)
      else .ok (.next c frame stack)
    | some ch =>
      if ch = closing then
        let c := c.advance
        match stack with
        | [] => .ok (.done c)
        | f :: rest => closeFrames fuel c true f rest
      else if acceptComma then
        .error (.malformed (if frame = '[' then .expectedListCommaOrEnd else .expectedObjectCommaOrEnd)
          c.peekPosition)
      else .ok (.next c frame stack)
    | none =>
      .error (.malformed (if frame = '[' then .eofWhileParsingList else .eofWhileParsingObject)
        c.peekPosition)

/-- The key and colon that start a field of an object being passed over. -/
def skipKey (c : Cursor) : Except JsonError Cursor :=
  let c := c.skipBlanks
  match c.peek? with
  | some '"' =>
    match c.advance.skipString with
    | .error e => .error e
    | .ok c => c.expectColon
  | some _ => .error (.malformed .keyMustBeAString c.peekPosition)
  | none => .error (.malformed .eofWhileParsingObject c.peekPosition)

/-- Passes over one value without building it, checking its grammar. -/
def skipValueLoop : Nat → Cursor → List Char → Except JsonError Cursor
  | 0, c, _ => .error (.malformed .recursionLimitExceeded c.peekPosition)
  | fuel + 1, c, stack =>
    let c := c.skipBlanks
    match c.peek? with
    | none => .error (.malformed .eofWhileParsingValue c.peekPosition)
    | some 'n' => afterScalar fuel stack (c.advance.expectWord "ull".toList)
    | some 't' => afterScalar fuel stack (c.advance.expectWord "rue".toList)
    | some 'f' => afterScalar fuel stack (c.advance.expectWord "alse".toList)
    | some '-' => afterScalar fuel stack c.advance.skipNumber
    | some '"' => afterScalar fuel stack c.advance.skipString
    | some '[' => afterFrames fuel (closeFrames fuel c.advance false '[' stack)
    | some '{' => afterFrames fuel (closeFrames fuel c.advance false '{' stack)
    | some ch =>
      if ch.isDigit then afterScalar fuel stack c.skipNumber
      else .error (.malformed .expectedSomeValue c.peekPosition)
termination_by fuel _ _ => (fuel, 0)
where
  /-- After a value that is not an array or an object: the brackets it closes, and the next item
  if one follows. -/
  afterScalar (fuel : Nat) (stack : List Char) (r : Except JsonError Cursor) :
      Except JsonError Cursor :=
    match r with
    | .error e => .error e
    | .ok c =>
      match stack with
      | [] => .ok c
      | f :: rest => afterFrames fuel (closeFrames fuel c true f rest)
  termination_by (fuel, 3)
  /-- Once the brackets that close are closed: the value is over, or the next item starts. -/
  afterFrames (fuel : Nat) (r : Except JsonError Resume) : Except JsonError Cursor :=
    match r with
    | .error e => .error e
    | .ok (.done c) => .ok c
    | .ok (.next c frame stack) => resume fuel c frame stack
  termination_by (fuel, 2)
  /-- Starts the next item of `frame`: after the key and colon if it is an object. -/
  resume (fuel : Nat) (c : Cursor) (frame : Char) (stack : List Char) : Except JsonError Cursor :=
    if frame = '{' then
      match skipKey c with
      | .error e => .error e
      | .ok c => skipValueLoop fuel c (frame :: stack)
    else skipValueLoop fuel c (frame :: stack)
  termination_by (fuel, 1)

/-- Passes over one value without building it. -/
def skipValue (c : Cursor) : Except JsonError Cursor :=
  skipValueLoop (2 * c.rest.length + 4) c []

end Cursor

end Json

end CareerCompass
