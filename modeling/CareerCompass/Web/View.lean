import CareerCompass.Interview.Session
import CareerCompass.Json.Value
import CareerCompass.Web.Uuid
/-!
# What the service answers with

Each answer of the service is a JSON object, written compactly with its fields in a fixed order.
Numbers that are doubles keep a `.0` when integral and are `null` when not finite.

* status: `ready`, the number of referenced courses, of jobs with rules, of rules, of sessions;
* catalogue: each referenced course with its weight, each job with its rules, the Likert scale;
* question: the session id, its mode, the course to ask (or `null`), the question's number,
  whether the interview is over, how many courses were asked and how many wait;
* results: the session id, whether it is over, and the ranked jobs with their evidence and
  explanation;
* an error: its message.

Main statement: `error_fields` fixes the error shape.
-/

namespace CareerCompass

namespace Web

namespace View

/-- A double as a JSON number. -/
def number (x : Double) : JsonValue := .number (.float x.toFloat)

/-- A count as a JSON number. -/
def count (n : Nat) : JsonValue := .number (.unsigned n)

/-- A course with a weight. -/
def courseWeight (row : Course × Double) : JsonValue :=
  .object [("course", .string row.1.name), ("weight", number row.2)]

/-- The liveness answer. -/
def status (rules : RuleBase Double) (sessions : Nat) : JsonValue :=
  .object [("ready", .bool true), ("courses", count rules.referencedCourses.length),
    ("jobs", count rules.jobs.length), ("rules", count rules.rules.length),
    ("sessions", count sessions)]

/-- One choice of the Likert scale. -/
def likert (l : Likert) : JsonValue :=
  .object [("value", count l.value), ("label", .string l.label), ("cf", number l.cf)]

/-- The catalogue: courses with their weights, jobs with their rules, the scale. -/
def catalog (rules : RuleBase Double) : JsonValue :=
  .object [("courses", .array (rules.courseWeights.map courseWeight)),
    ("jobs", .array (rules.jobs.map fun job =>
      .object [("job", .string job.name), ("rules", .array ((rules.rulesFor job).map courseWeight))])),
    ("likert", .array (Likert.all.map likert))]

/-- Where a session stands. -/
def question (id : Uuid) (s : Session Double) : JsonValue :=
  .object [("session_id", .string id.text), ("mode", .string s.mode.name),
    ("course", match s.currentQuestion with
      | some c => .string c.name
      | none => .null),
    ("question_number", count s.questionNumber), ("done", .bool s.isDone),
    ("asked", count s.agenda.asked.length), ("pending", count s.agenda.pending)]

/-- One evidence row. -/
def evidenceRow (row : EvidenceRow Double) : JsonValue :=
  .object [("course", .string row.course.name), ("cf_user", number row.cfUser),
    ("evidence", number row.evidence)]

/-- The ranked jobs of a session. -/
def results (id : Uuid) (s : Session Double) : JsonValue :=
  .object [("session_id", .string id.text), ("done", .bool s.isDone),
    ("results", .array (s.rankedResults.map fun r =>
      .object [("job", .string r.job.name), ("cf", number r.cf),
        ("evidence", .array (r.evidence.map evidenceRow)), ("explanation", .string r.explanation)]))]

/-- An error answer. -/
def error (message : String) : JsonValue := .object [("error", .string message)]

theorem error_fields (message : String) : error message = .object [("error", .string message)] :=
  rfl

end View

end Web

end CareerCompass
