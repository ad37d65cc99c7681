import CareerCompass.Interview.Session
/-!
# Settings from the environment

The service reads five variables, each named `CAREER_` and a field name, in any case of ASCII
letters: `CAREER_ADDR`, `CAREER_SEED_COUNT`, `CAREER_AGENDA_MODE`, `CAREER_TOP_EVIDENCE` and
`CAREER_SESSION_TTL_SECS`. Other variables are ignored, and of two that name one field the later
one counts. A value that does not read falls back to the default on its own:

* the address is taken as it is, even empty;
* a count is blanks, an optional `+`, ASCII digits and blanks, and fits in 64 bits;
* a mode reads as `AgendaMode.parse` reads it;
* a lifetime of zero seconds is the default too.

The name after `CAREER_`, lowered, is a key path (`KeyPath`): a name, then steps `.name` or
`[index]`. A variable whose path starts at a field with a step makes that field a table or a list
instead of a text, which is an error (`SettingsError`) rather than a fall-back. A name that does
not read as a path is a key of its own and names no field.

What the reading does with every environment is shown in `CareerCompass.Proofs.Settings`.
-/

namespace CareerCompass

/-- How the service runs. -/
structure Settings where
  /-- Where the server listens. -/
  addr : String := "0.0.0.0:3000"
  /-- The options of every new session. -/
  session : SessionOptions := {}
  /-- Idle seconds after which a session is dropped. -/
  sessionTtlSecs : Nat := 1800
deriving DecidableEq, Repr

namespace Settings

/-- The largest count, `2^64 - 1`. -/
def countLimit : Nat := Nat.pow 2 64 - 1

/-- Characters without a leading `+`. -/
def dropPlus : List Char → List Char
  | '+' :: rest => rest
  | cs => cs

/-- Reads a count: blanks around, an optional `+`, one or more ASCII digits, at most
`countLimit`. -/
def readCount? (text : String) : Option Nat :=
  let digits := dropPlus (trimBlanks text).toList
  if digits.isEmpty || !digits.all Char.isDigit then none
  else
    let n := digits.foldl (fun n c => 10 * n + (c.toNat - '0'.toNat)) 0
    if n ≤ countLimit then some n else none

/-- Whether a character may stand in a name of a key path: ASCII letters and digits, blank, `_`
and `-`. -/
def isKeyNameChar (c : Char) : Bool :=
  c.isAlphanum || c = ' ' || c = '_' || c = '-'

/-- A step of a key path: into a table by name, or into a list by index. -/
inductive KeyStep where
  | child (name : String)
  | index (i : Int)
deriving DecidableEq, Repr

/-- A key read as a path: the name it starts at, then its steps. -/
structure KeyPath where
  root : String
  steps : List KeyStep
deriving DecidableEq, Repr

namespace KeyPath

/-- Reads an index after `[`: blanks or tabs, an optional `-`, digits, blanks or tabs and `]`; the
index fits in 64 bits with its sign. -/
def readIndex (cs : List Char) : Option (Int × List Char) :=
  let isBlank (c : Char) : Bool := c = ' ' || c = '\t'
  let cs := cs.dropWhile isBlank
  let (negative, cs) := match cs with
    | '-' :: more => (true, more)
    | more => (false, more)
  let digits := cs.takeWhile Char.isDigit
  let magnitude : Nat := digits.foldl (fun n c => 10 * n + (c.toNat - '0'.toNat)) 0
  let value : Int := if negative then -(magnitude : Int) else magnitude
  match (cs.drop digits.length).dropWhile isBlank with
  | ']' :: rest =>
    if digits.isEmpty || value < -(Int.pow 2 63) || Int.pow 2 63 - 1 < value then none
    else some (value, rest)
  | _ => none

/-- Reads the steps of a path; `fuel` bounds their number. -/
def readSteps : Nat → List Char → Option (List KeyStep)
  | _, [] => some []
  | 0, _ :: _ => none
  | fuel + 1, '.' :: more =>
    let name := more.takeWhile isKeyNameChar
    if name.isEmpty then none
    else (readSteps fuel (more.drop name.length)).map (.child (String.ofList name) :: ·)
  | fuel + 1, '[' :: more =>
    match readIndex more with
    | some (i, rest) => (readSteps fuel rest).map (.index i :: ·)
    | none => none
  | _ + 1, _ :: _ => none

/-- Reads a key as a path; a key that does not read is a name of its own. -/
def parse (key : String) : KeyPath :=
  let cs := key.toList
  let root := cs.takeWhile isKeyNameChar
  let whole : KeyPath := ⟨key, []⟩
  if root.isEmpty then whole
  else
    match readSteps cs.length (cs.drop root.length) with
    | some steps => ⟨String.ofList root, steps⟩
    | none => whole

end KeyPath

/-- What a field holds that is not a text. -/
inductive Nested where
  | table
  | list
deriving DecidableEq, Repr

/-- A field made a table or a list by a variable. -/
structure SettingsError where
  field : String
  found : Nested
deriving DecidableEq, Repr

/-- The message of a settings error. -/
def SettingsError.message (e : SettingsError) : String :=
  "invalid type: " ++ (match e.found with | .table => "map" | .list => "sequence") ++
    ", expected a string for key `" ++ e.field ++ "`"

/-- A variable name lowered as the environment's keys are: ASCII letters, and the Kelvin sign,
the one letter beyond ASCII whose lower case is an ASCII letter. -/
def lowerKey (name : String) : String :=
  asciiLower (String.ofList (name.toList.map fun c => if c.toNat = 0x212A then 'k' else c))

/-- The key path of a variable, if its name starts with `CAREER_` in any case. -/
def pathOf? (name : String) : Option KeyPath :=
  let key := (lowerKey name).toList
  if key.take 7 = "career_".toList then some (KeyPath.parse (String.ofList (key.drop 7)))
  else none

/-- What one variable makes of a field: none if its path does not start at the field, else the
value as a text if the path has no step, or a table or a list after its first step. -/
def varValue? (field : String) (var : String × String) : Option (Except Nested String) :=
  match pathOf? var.1 with
  | some p =>
    if p.root = field then
      some (match p.steps with
        | [] => .ok var.2
        | .child _ :: _ => .error .table
        | .index _ :: _ => .error .list)
    else none
  | none => none

/-- What the variables make of a field: what the last variable whose path starts at it makes of
it. -/
def fieldValue? (vars : List (String × String)) (field : String) : Option (Except Nested String) :=
  vars.foldl (fun acc var => (varValue? field var).or acc) none

/-- The fields, in the order their errors are reported. -/
def fields : List String := ["addr", "seed_count", "agenda_mode", "top_evidence", "session_ttl_secs"]

/-- The settings that an environment gives. -/
def ofEnvironment (vars : List (String × String)) : Except SettingsError Settings :=
  let nested := fields.filterMap fun field =>
    match fieldValue? vars field with
    | some (.error found) => some ⟨field, found⟩
    | _ => none
  match nested with
  | e :: _ => .error e
  | [] =>
    let raw (field : String) : Option String :=
      match fieldValue? vars field with
      | some (.ok text) => some text
      | _ => none
    let defaults : Settings := {}
    let count (field : String) (default : Nat) : Nat := ((raw field).bind readCount?).getD default
    let ttl := count "session_ttl_secs" defaults.sessionTtlSecs
    .ok { addr := (raw "addr").getD defaults.addr
          session := {
            seedCount := count "seed_count" defaults.session.seedCount
            mode := ((raw "agenda_mode").bind AgendaMode.parse).getD defaults.session.mode
            topEvidence := count "top_evidence" defaults.session.topEvidence }
          sessionTtlSecs := if ttl = 0 then defaults.sessionTtlSecs else ttl }

end Settings

end CareerCompass
