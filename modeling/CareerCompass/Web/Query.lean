import CareerCompass.Interview.Agenda
import CareerCompass.Text.Percent
/-!
# The query of a new session

`POST /sessions` may carry `?mode=adaptive` or `?mode=exhaustive`. The query is read as
`application/x-www-form-urlencoded` pairs; names other than `mode` are ignored. The first `mode`
is read when it is met, so a bad value is reported before a second `mode`, which is an error of
its own.

Main statement: `readMode_eq` (the first `mode` decides, and a second one is refused).
-/

namespace CareerCompass

namespace Web

/-- Why a session query is refused. -/
inductive QueryError where
  /-- A mode that is neither `adaptive` nor `exhaustive`. -/
  | unknownMode (text : String)
  /-- `mode` given twice. -/
  | duplicateMode
deriving DecidableEq, Repr

/-- The text of a refused query. -/
def QueryError.message : QueryError → String
  | .unknownMode text => "Failed to deserialize query string: mode: unknown variant `" ++ text ++
      "`, expected `adaptive` or `exhaustive`"
  | .duplicateMode => "Failed to deserialize query string: duplicate field `mode`"

/-- The mode a `mode` value names, spelled exactly. -/
def modeNamed? : String → Option AgendaMode
  | "adaptive" => some .adaptive
  | "exhaustive" => some .exhaustive
  | _ => none

/-- Reads one name–value pair of a query, given the mode found before it. -/
def modeStep (found : Option AgendaMode) (pair : String × String) :
    Except QueryError (Option AgendaMode) :=
  if pair.1 = "mode" then
    match found with
    | some _ => .error .duplicateMode
    | none =>
      match modeNamed? pair.2 with
      | some mode => .ok (some mode)
      | none => .error (.unknownMode pair.2)
  else .ok found

/-- Reads the mode a query asks for, if any. -/
def readMode (query : String) : Except QueryError (Option AgendaMode) :=
  (Percent.formPairs query).foldlM modeStep none

/-- The values of the `mode` pairs of a query, in order. -/
def modeValues (query : String) : List String :=
  ((Percent.formPairs query).filter (·.1 == "mode")).map (·.2)

/-- Reading pairs from a mode found before them: with no further `mode` the mode stands, and a
further `mode` is a duplicate. -/
theorem foldlM_modeStep_some (pairs : List (String × String)) (found : AgendaMode) :
    pairs.foldlM modeStep (some found) =
      if (pairs.filter (·.1 == "mode")).isEmpty then .ok (some found)
      else .error .duplicateMode := by
  induction pairs with
  | nil => rfl
  | cons pair rest ih =>
    by_cases named : pair.1 = "mode"
    · have step : modeStep (some found) pair = .error .duplicateMode := by simp [modeStep, named]
      simp only [List.foldlM_cons, step, List.filter_cons, named, beq_self_eq_true, if_true]
      rfl
    · have step : modeStep (some found) pair = .ok (some found) := by simp [modeStep, named]
      have other : (pair.1 == "mode") = false := by simpa using named
      simp only [List.foldlM_cons, step, bind, Except.bind, List.filter_cons, other]
      exact ih

/-- **Only the `mode` pairs count, and the first one decides.** A query with no `mode` asks for no
mode. Otherwise the first value must name a mode, and a second `mode` is refused as a duplicate
whatever its value, while a bad first value is reported before it. -/
theorem readMode_eq (query : String) :
    readMode query =
      match modeValues query with
      | [] => .ok none
      | value :: later =>
        match modeNamed? value with
        | none => .error (.unknownMode value)
        | some mode => if later = [] then .ok (some mode) else .error .duplicateMode := by
  unfold readMode modeValues
  generalize Percent.formPairs query = pairs
  -- pairs before the first `mode` are passed over with nothing found
  induction pairs with
  | nil => rfl
  | cons pair rest ih =>
    by_cases named : pair.1 = "mode"
    · simp only [List.foldlM_cons, List.filter_cons, named, beq_self_eq_true, if_true,
        List.map_cons, modeStep]
      cases modeNamed? pair.2 with
      | none => rfl
      | some mode =>
        simp only [bind, Except.bind, foldlM_modeStep_some, List.isEmpty_iff, List.map_eq_nil_iff]
    · have step : modeStep none pair = .ok none := by simp [modeStep, named]
      have other : (pair.1 == "mode") = false := by simpa using named
      simp only [List.foldlM_cons, step, List.filter_cons, other]
      exact ih

example : (readMode "x=1&mode=exhaustive").toOption = some (some .exhaustive) := by decide +kernel

end Web

end CareerCompass
