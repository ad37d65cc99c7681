import CareerCompass.RuleBase.Basic
import CareerCompass.Certainty
/-!
# Course weights and seed courses

The weight of a course is the sum of its rule weights over all jobs (in table order), rounded to
four places: how much answering it can tell. An interview starts with the `k` heaviest courses,
the seeds; equal weights keep catalogue order.

Main statements: `referencedCourses_sublist` (referenced courses are in catalogue order) and
`seedCourses_length` (there are `min k n` seeds for `n` referenced courses).
-/

namespace CareerCompass

namespace RuleBase

variable {α : Type} [Scalar α]

/-- Whether some rule names the course. -/
def references (rb : RuleBase α) (course : Course) : Bool :=
  rb.rules.any fun r => r.2.1 == course

/-- The summed weight of a course over all rules, rounded to four places. -/
def courseWeight (rb : RuleBase α) (course : Course) : α :=
  round4 ((rb.rules.filter fun r => r.2.1 == course).foldl (fun s r => s + r.2.2) 0)

/-- The courses some rule names, in catalogue order. -/
def referencedCourses (rb : RuleBase α) : List Course :=
  Course.all.filter rb.references

/-- The referenced courses with their weights, in catalogue order. -/
def courseWeights (rb : RuleBase α) : List (Course × α) :=
  rb.referencedCourses.map fun c => (c, rb.courseWeight c)

/-- The `k` heaviest referenced courses, heaviest first; equal weights in catalogue order. -/
def seedCourses (rb : RuleBase α) (k : Nat) : List Course :=
  ((sortDescBy (·.2) rb.courseWeights).take k).map (·.1)

omit [Scalar α] in
theorem referencedCourses_sublist (rb : RuleBase α) : rb.referencedCourses.Sublist Course.all :=
  List.filter_sublist

theorem seedCourses_length (rb : RuleBase α) (k : Nat) :
    (rb.seedCourses k).length = min k rb.referencedCourses.length := by
  simp [seedCourses, courseWeights, (sortDescBy_perm _ _).length_eq]

end RuleBase

end CareerCompass
