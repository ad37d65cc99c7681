import CareerCompass.RuleBase.Basic
import CareerCompass.Certainty
import CareerCompass.Facts
/-!
# Scoring jobs from the answers

For each job of a rule table, in table order, `infer` goes through its rules. A rule whose
course has an answer with certainty `cf > 0` (a NaN counts as positive: it is not `≤ 0`) gives
the evidence `cf · weight`; the job's score combines its evidences in rule order and is rounded
to four places. A job without evidence gets no score. The evidence rows of a job keep the answer,
and the evidence rounded to four places, sorted with the strongest first (equal evidences in rule
order).

Main statement: `scores_jobs` (scores and evidence list the same jobs, in the same order).
-/

namespace CareerCompass

/-- One piece of evidence for a job: a course, the user's answer, and the rounded evidence. -/
structure EvidenceRow (α : Type) where
  course : Course
  cfUser : α
  evidence : α

/-- The outcome of scoring: per scored job, its score and its evidence rows. -/
structure Inference (α : Type) where
  /-- Each scored job with its rounded score, in catalogue order. -/
  scores : List (Job × α)
  /-- Each scored job with its rows, strongest first. -/
  evidence : List (Job × List (EvidenceRow α))

namespace Inference

variable {α : Type} [Scalar α]

/-- The evidence of one job's rules: rows in rule order and the combined certainty. -/
def collect (facts : Facts α) (rules : List (Course × α)) : List (EvidenceRow α) × α :=
  rules.foldl (fun (rows, cf) (course, weight) =>
    let cfUser := facts.cf course
    if cfUser ≤ 0 then (rows, cf)
    else
      let e := cfUser * weight
      (rows ++ [⟨course, cfUser, round4 e⟩], combine cf e)) ([], 0)

/-- The score and sorted rows of one job, when some rule has evidence. -/
def jobEvidence (facts : Facts α) (rules : List (Course × α)) :
    Option (α × List (EvidenceRow α)) :=
  let (rows, cf) := collect facts rules
  if rows.isEmpty then none else some (round4 cf, sortDescBy (·.evidence) rows)

/-- An outcome with given scores and no evidence rows: the scores are put in catalogue order,
a later score of a job replacing an earlier one. -/
def ofScores (pairs : List (Job × α)) : Inference α :=
  { scores := Job.all.filterMap fun job =>
      (pairs.reverse.find? (·.1 == job)).map fun (_, cf) => (job, cf)
    evidence := [] }

/-- Whether there is no score at all. -/
def isEmpty (inf : Inference α) : Bool := inf.scores.isEmpty

/-- The score of a job. -/
def score (inf : Inference α) (job : Job) : Option α :=
  (inf.scores.find? (·.1 == job)).map (·.2)

/-- The evidence rows of a job; none when it has no score. -/
def evidenceFor (inf : Inference α) (job : Job) : List (EvidenceRow α) :=
  match inf.evidence.find? (·.1 == job) with
  | some (_, rows) => rows
  | none => []

/-- The jobs of a rule table that have evidence, in table order, each with its score and sorted
evidence rows. -/
def scoredJobs (rb : RuleBase α) (facts : Facts α) : List (Job × α × List (EvidenceRow α)) :=
  rb.jobs.filterMap fun job =>
    (jobEvidence facts (rb.rulesFor job)).map fun (cf, rows) => (job, cf, rows)

end Inference

/-- Scores every job of a rule table from the answers. -/
def infer {α : Type} [Scalar α] (rb : RuleBase α) (facts : Facts α) : Inference α :=
  let scored := Inference.scoredJobs rb facts
  { scores := scored.map fun (job, cf, _) => (job, cf)
    evidence := scored.map fun (job, _, rows) => (job, rows) }

namespace Inference

variable {α : Type} [Scalar α]

theorem scores_jobs (rb : RuleBase α) (facts : Facts α) :
    (infer rb facts).scores.map (·.1) = (infer rb facts).evidence.map (·.1) := by
  simp [infer, List.map_map]

end Inference

end CareerCompass
