import CareerCompass.Interview.Agenda
import CareerCompass.Interview.Likert
import CareerCompass.Inference.Ranking
/-!
# An interview session

A session asks course after course and keeps the answers. Answering records the answer under
the given name (any text); if the name is a course of the catalogue, that course counts as asked.
Then the jobs are scored again from all answers, the agenda grows from the scores, and the next
question is the agenda's next course. A Likert answer outside 1–5 is refused and changes
nothing. Resetting forgets the answers and starts a fresh agenda.

Main statement: `submitAnswer_error` (a refused answer leaves no trace).
-/

namespace CareerCompass

/-- How a session runs: seed count, agenda mode, evidence rows per ranked job. -/
structure SessionOptions where
  seedCount : Nat := 8
  mode : AgendaMode := .adaptive
  topEvidence : Nat := 4
deriving DecidableEq, Repr

/-- An interview in progress. -/
structure Session (α : Type) where
  rules : RuleBase α
  options : SessionOptions
  facts : Facts α
  agenda : Agenda α

namespace Session

variable {α : Type} [Scalar α]

/-- A fresh session. -/
def create (rb : RuleBase α) (options : SessionOptions) : Session α :=
  ⟨rb, options, .empty, Agenda.create rb options.seedCount options.mode⟩

/-- The course to ask now; none when the interview is over. -/
def currentQuestion (s : Session α) : Option Course := s.agenda.peekNext

/-- Whether the interview is over. -/
def isDone (s : Session α) : Bool := s.currentQuestion.isNone

/-- The number of the current question, from one. -/
def questionNumber (s : Session α) : Nat := s.agenda.asked.length + 1

/-- The mode the session runs in. -/
def mode (s : Session α) : AgendaMode := s.options.mode

/-- The scores from the answers so far. -/
def inference (s : Session α) : Inference α := infer s.rules s.facts

/-- The ranked jobs from the answers so far. -/
def rankedResults (s : Session α) : List (RankedJob α) := s.inference.ranked s.options.topEvidence

/-- Records an answer for a name, asks the course if it is one, rescores and grows the agenda;
gives the next question. -/
def answer (s : Session α) (name : String) (cf : α) : Session α × Option Course :=
  let facts := (s.facts.record name cf).2
  let agenda := match Course.ofName? name with
    | some c => (s.agenda.markAsked c).2
    | none => s.agenda
  let agenda := (agenda.expand s.rules (infer s.rules facts)).2
  let s := { s with facts, agenda }
  (s, s.currentQuestion)

/-- Answers on the Likert scale; a number outside 1–5 is refused. -/
def submitAnswer (s : Session α) (name : String) (value : Nat) :
    Except Likert.Error (Session α × Option Course) :=
  match Likert.ofValue? value with
  | .ok level => .ok (s.answer name level.cf)
  | .error e => .error e

/-- Forgets the answers and starts a fresh agenda. -/
def reset (s : Session α) : Session α :=
  { s with facts := .empty, agenda := Agenda.create s.rules s.options.seedCount s.options.mode }

/-- A refused answer leaves no trace: the error is all there is. -/
theorem submitAnswer_error (s : Session α) (name : String) (value : Nat) (h : value < 1 ∨ 5 < value) :
    s.submitAnswer name value = .error (.outOfRange value) := by
  simp [submitAnswer, (Likert.ofValue?_eq_error_iff value).2 h]

end Session

end CareerCompass
