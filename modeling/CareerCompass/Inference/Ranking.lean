import CareerCompass.Inference.Basic
import CareerCompass.Decimal.Text
import CareerCompass.Double
/-!
# Ranking jobs and explaining them

`Inference.ranked top` lists the scored jobs from the highest score down; equal scores keep
catalogue order. Each item carries at most `top` evidence rows, the strongest ones.

An explanation is one line: the job, its score to two places in angle brackets, and then its
rows, each course with its evidence to two places:
`Software Engineer ⟨0.83⟩: Software Development (0.72), Database (0.39)`.

Main statement: `ranked_length` (every scored job is ranked once).
-/

namespace CareerCompass

/-- A scored job in the ranking, with its strongest evidence. -/
structure RankedJob (α : Type) where
  job : Job
  cf : α
  evidence : List (EvidenceRow α)

namespace Inference

variable {α : Type} [Scalar α]

/-- The scored jobs, highest score first, each with at most `top` evidence rows. -/
def ranked (inf : Inference α) (top : Nat) : List (RankedJob α) :=
  sortDescBy (·.cf) (inf.scores.map fun (job, cf) => ⟨job, cf, (inf.evidenceFor job).take top⟩)

theorem ranked_length (inf : Inference α) (top : Nat) :
    (inf.ranked top).length = inf.scores.length := by
  simp [ranked, (sortDescBy_perm _ _).length_eq]

end Inference

/-- The one-line explanation of a ranked job, numbers to two places. -/
def RankedJob.explanation (r : RankedJob Double) : String :=
  let head := r.job.name ++ " ⟨" ++ floatPlacesText 2 r.cf.toFloat ++ "⟩"
  match r.evidence with
  | [] => head
  | rows =>
    head ++ ": " ++ ", ".intercalate
      (rows.map fun row => row.course.name ++ " (" ++ floatPlacesText 2 row.evidence.toFloat ++ ")")

end CareerCompass
