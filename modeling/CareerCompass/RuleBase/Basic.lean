import CareerCompass.Catalog
import CareerCompass.Scalar
/-!
# Rule tables

A rule says that liking a course is evidence, with a weight in `(0, 1]`, for a job. A rule table
lists, for some jobs, their rules in order. `RuleBase.ofTable` accepts a table given in any order:
it sorts the entries by job (keeping the given order of equal jobs), and then refuses

1. a job listed twice (`duplicateJob`, the first such job in catalogue order);
2. else, at the first job in catalogue order with a bad rule, its first bad rule: a weight not in
   `(0, 1]` (`weightOutOfRange`; a NaN is not in it), or a course listed before in the same job
   (`duplicateRule`); at one rule the weight is checked first.

Main statements: `ofTable_jobs` (an accepted table lists its jobs in catalogue order) and
`firstViolation_eq_none_iff` (a job's rules pass exactly when every weight is in range and no
course repeats).
-/

namespace CareerCompass

/-- A validated table of rules: each job once, in catalogue order, with its weighted courses. -/
structure RuleBase (α : Type) where
  /-- The jobs with their rules, in catalogue order. -/
  table : List (Job × List (Course × α))

namespace RuleBase

variable {α : Type} [Scalar α]

/-- Why a table is refused. -/
inductive Error (α : Type) where
  /-- A weight outside `(0, 1]`. -/
  | weightOutOfRange (job : Job) (course : Course) (weight : α)
  /-- A course listed twice for one job. -/
  | duplicateRule (job : Job) (course : Course)
  /-- A job listed twice. -/
  | duplicateJob (job : Job)

/-- The message of a refused table; `weightText` writes a weight. -/
def Error.message (weightText : α → String) : Error α → String
  | .weightOutOfRange job course w =>
    "peso " ++ weightText w ++ " inválido para " ++ job.name ++ " / " ++ course.name ++
      ": deve estar em (0, 1]"
  | .duplicateRule job course => "regra duplicada para " ++ job.name ++ " / " ++ course.name
  | .duplicateJob job => "carreira " ++ job.name ++ " declarada mais de uma vez"

/-- Whether a weight is in `(0, 1]`. -/
def weightInRange (w : α) : Bool := decide (0 < w) && decide (w ≤ 1)

/-- The first bad rule of a job: a weight out of range, or a course already listed before it. -/
def firstViolation (job : Job) (rules : List (Course × α)) : Option (Error α) :=
  go [] rules
where
  /-- `seen` holds the courses of the rules before. -/
  go (seen : List Course) : List (Course × α) → Option (Error α)
    | [] => none
    | (c, w) :: rest =>
      if !weightInRange w then some (.weightOutOfRange job c w)
      else if seen.contains c then some (.duplicateRule job c)
      else go (c :: seen) rest

/-- The first job that appears twice in a row. -/
def firstRepeatedJob : List (Job × List (Course × α)) → Option Job
  | a :: b :: rest => if a.1 = b.1 then some a.1 else firstRepeatedJob (b :: rest)
  | _ => none

/-- Sorts table entries by job, keeping the given order of equal jobs. -/
def sortByJob (table : List (Job × List (Course × α))) : List (Job × List (Course × α)) :=
  table.mergeSort fun a b => a.1.index ≤ b.1.index

/-- Validates a table given in any order. -/
def ofTable (table : List (Job × List (Course × α))) : Except (Error α) (RuleBase α) :=
  let sorted := sortByJob table
  match firstRepeatedJob sorted with
  | some job => .error (.duplicateJob job)
  | none =>
    match sorted.findSome? fun (job, rules) => firstViolation job rules with
    | some e => .error e
    | none => .ok ⟨sorted⟩

/-- The jobs that have rules, in catalogue order. -/
def jobs (rb : RuleBase α) : List Job := rb.table.map (·.1)

/-- The rules of a job, in table order; none when the job has no entry. -/
def rulesFor (rb : RuleBase α) (job : Job) : List (Course × α) :=
  match rb.table.find? (·.1 == job) with
  | some (_, rules) => rules
  | none => []

/-- Every rule as (job, course, weight), in table order. -/
def rules (rb : RuleBase α) : List (Job × Course × α) :=
  rb.table.flatMap fun (job, rs) => rs.map fun (c, w) => (job, c, w)

/-- The weight of a course for a job, when the job has such a rule. -/
def weight (rb : RuleBase α) (job : Job) (course : Course) : Option α :=
  ((rb.rulesFor job).find? (·.1 == course)).map (·.2)

theorem firstViolation_go_eq_none_iff (job : Job) (seen : List Course)
    (rules : List (Course × α)) :
    firstViolation.go job seen rules = none ↔
      (∀ r ∈ rules, weightInRange r.2 = true) ∧ (rules.map (·.1)).Nodup ∧
        ∀ r ∈ rules, r.1 ∉ seen := by
  induction rules generalizing seen with
  | nil => simp [firstViolation.go]
  | cons r rest ih =>
    obtain ⟨c, w⟩ := r
    by_cases hw : weightInRange w = true
    · by_cases hc : c ∈ seen
      · simp [firstViolation.go, hw, hc]
      · have hstep : firstViolation.go job seen ((c, w) :: rest) =
            firstViolation.go job (c :: seen) rest := by
          simp [firstViolation.go, hw, hc]
        rw [hstep, ih, List.forall_mem_cons, List.map_cons, List.nodup_cons, List.forall_mem_cons]
        constructor
        · rintro ⟨h1, h2, h3⟩
          refine ⟨⟨hw, h1⟩, ⟨?_, h2⟩, hc, fun r hr hs => h3 r hr (List.mem_cons_of_mem _ hs)⟩
          intro hm
          obtain ⟨r, hr, hrc⟩ := List.mem_map.1 hm
          exact h3 r hr (hrc ▸ List.mem_cons_self)
        · rintro ⟨⟨_, h1⟩, ⟨h2, h3⟩, _, h4⟩
          refine ⟨h1, h3, fun r hr hs => ?_⟩
          rcases List.mem_cons.1 hs with hs | hs
          · exact h2 (List.mem_map.2 ⟨r, hr, hs⟩)
          · exact h4 r hr hs
    · simp [firstViolation.go, hw]

/-- A job's rules pass exactly when every weight is in `(0, 1]` and no course repeats. -/
theorem firstViolation_eq_none_iff (job : Job) (rules : List (Course × α)) :
    firstViolation job rules = none ↔
      (∀ r ∈ rules, weightInRange r.2 = true) ∧ (rules.map (·.1)).Nodup := by
  simp [firstViolation, firstViolation_go_eq_none_iff]

/-- An accepted table holds the entries sorted by job. -/
theorem ofTable_table {table : List (Job × List (Course × α))} {rb : RuleBase α}
    (h : ofTable table = .ok rb) : rb.table = sortByJob table := by
  dsimp only [ofTable] at h
  split at h
  · cases h
  · split at h
    · cases h
    · cases h; rfl

/-- An accepted table lists its jobs in catalogue order. -/
theorem ofTable_jobs {table : List (Job × List (Course × α))} {rb : RuleBase α}
    (h : ofTable table = .ok rb) : rb.jobs.Pairwise (fun a b => a.index ≤ b.index) := by
  rw [jobs, ofTable_table h, List.pairwise_map]
  have : (sortByJob table).Pairwise fun a b => decide (a.1.index ≤ b.1.index) = true :=
    List.pairwise_mergeSort (fun a b c hab hbc => by simp at *; omega)
      (fun a b => by simp; omega) table
  simpa [sortByJob] using this

end RuleBase

end CareerCompass
