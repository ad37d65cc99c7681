import CareerCompass.Proofs.Session.Runs
import CareerCompass.Proofs.TotalOrder
import Mathlib.Data.List.Induction
/-!
# What scoring reads

`infer` reads an answer only where a rule names its course, and only when the answer is not
`≤ 0`; such an answer becomes one evidence row of the rule's job.

* `infer_congr_of_referenced`: two sets of answers that agree on every referenced course, or are
  both `≤ 0` there, give the same inference. So unknown names, unreferenced courses and answers
  `≤ 0` change nothing.
* `mem_scores_infer_iff`: the scored jobs are exactly the jobs with a rule whose course has an
  answer not `≤ 0`, and the evidence lists the same jobs.
* `evidenceFor_infer`: a job's evidence is its `evidenceRows` (one row per such rule, with the
  answer and the evidence rounded to four places) sorted strongest first.
* `infer_reads_positive_answers`: all of it, with the order of the rows spelled out: descending in
  the total order, rows of equal evidence in rule order.

Each of these comes from one step of the loop over a job's rules (`collect_append`). Over doubles
a NaN answer is not `≤ 0`, so it counts as evidence.
-/

set_option linter.unusedSectionVars false

namespace CareerCompass

variable {α : Type} [Scalar α]

namespace RuleBase

theorem mem_jobs_of_mem_rulesFor {rb : RuleBase α} {job : Job} {rule : Course × α}
    (member : rule ∈ rb.rulesFor job) : job ∈ rb.jobs := by
  unfold rulesFor at member
  split at member
  · next j rules found =>
    have named : j = job := by simpa using List.find?_some found
    exact List.mem_map.2 ⟨(j, rules), List.mem_of_find?_eq_some found, named⟩
  · cases member

end RuleBase

namespace Inference

/-- The rows a job's rules give, in rule order: one for each rule whose course has an answer not
`≤ 0`, with that answer and the evidence `answer · weight` rounded to four places. -/
def evidenceRows (facts : Facts α) (rules : List (Course × α)) : List (EvidenceRow α) :=
  rules.filterMap fun (c, w) =>
    if facts.cf c ≤ 0 then none else some ⟨c, facts.cf c, round4 (facts.cf c * w)⟩

theorem evidenceRows_eq_nil_iff (facts : Facts α) (rules : List (Course × α)) :
    evidenceRows facts rules = [] ↔ ∀ r ∈ rules, facts.cf r.1 ≤ 0 := by
  simp [evidenceRows, List.filterMap_eq_nil_iff]

/-! ### One rule at a time -/

theorem collect_nil (facts : Facts α) : collect facts [] = ([], 0) := rfl

/-- One step of the loop over a job's rules: an answer `≤ 0` is skipped; any other adds its row
and combines its evidence into the job's certainty. -/
theorem collect_append (facts : Facts α) (rules : List (Course × α)) (c : Course) (w : α) :
    collect facts (rules ++ [(c, w)]) =
      if facts.cf c ≤ 0 then collect facts rules
      else ((collect facts rules).1 ++ [⟨c, facts.cf c, round4 (facts.cf c * w)⟩],
        combine (collect facts rules).2 (facts.cf c * w)) := by
  have unfolded : collect facts (rules ++ [(c, w)]) = [(c, w)].foldl _ (collect facts rules) :=
    List.foldl_append
  rw [unfolded]
  rcases collect facts rules with ⟨rows, cf⟩
  rfl

/-- The rows the loop collects are the rule rows, before sorting. -/
theorem collect_rows (facts : Facts α) (rules : List (Course × α)) :
    (collect facts rules).1 = evidenceRows facts rules := by
  induction rules using List.reverseRecOn with
  | nil => rfl
  | append_singleton rules rule ih =>
    obtain ⟨c, w⟩ := rule
    rw [collect_append, evidenceRows, List.filterMap_append, ← evidenceRows, ← ih]
    by_cases skipped : facts.cf c ≤ 0 <;> simp [skipped]

/-- Answers that agree on the rules' courses, or are both `≤ 0` there, collect alike. -/
theorem collect_congr_of_agree {F G : Facts α} {rules : List (Course × α)}
    (agree : ∀ r ∈ rules, F.cf r.1 ≤ 0 ∧ G.cf r.1 ≤ 0 ∨ F.cf r.1 = G.cf r.1) :
    collect F rules = collect G rules := by
  induction rules using List.reverseRecOn with
  | nil => rfl
  | append_singleton rules rule ih =>
    obtain ⟨c, w⟩ := rule
    have earlier := ih fun r member => agree r (List.mem_append_left _ member)
    rw [collect_append, collect_append, earlier]
    rcases agree (c, w) (List.mem_append_right _ List.mem_cons_self) with ⟨skipF, skipG⟩ | same
    · simp only [skipF, skipG, if_true]
    · simp only at same
      rw [same]

theorem jobEvidence_eq (facts : Facts α) (rules : List (Course × α)) :
    jobEvidence facts rules =
      if evidenceRows facts rules = [] then none
      else some (round4 (collect facts rules).2, sortDescBy (·.evidence) (evidenceRows facts rules)) := by
  rw [← collect_rows]
  unfold jobEvidence
  generalize collect facts rules = acc
  obtain ⟨rows, cf⟩ := acc
  simp [List.isEmpty_iff]

/-! ### The inference -/

/-- The scored jobs are the jobs of the table with some evidence row, each with its combined
evidence rounded and its rows sorted strongest first. Scores and evidence are both read off this
list. -/
theorem mem_scoredJobs {rb : RuleBase α} {facts : Facts α} {job : Job} {cf : α}
    {rows : List (EvidenceRow α)} :
    (job, cf, rows) ∈ scoredJobs rb facts ↔
      evidenceRows facts (rb.rulesFor job) ≠ [] ∧ job ∈ rb.jobs ∧
        cf = round4 (collect facts (rb.rulesFor job)).2 ∧
        rows = sortDescBy (·.evidence) (evidenceRows facts (rb.rulesFor job)) := by
  simp only [scoredJobs, List.mem_filterMap, Option.map_eq_some_iff, jobEvidence_eq]
  constructor
  · rintro ⟨j, listed, ⟨cf', rows'⟩, found, same⟩
    cases same
    split at found
    · cases found
    · next rowsNonempty =>
      cases found
      exact ⟨rowsNonempty, listed, rfl, rfl⟩
  · rintro ⟨rowsNonempty, listed, rfl, rfl⟩
    exact ⟨job, listed, _, if_neg rowsNonempty, rfl⟩

theorem mem_scored {rb : RuleBase α} {facts : Facts α} {job : Job} {rows : List (EvidenceRow α)} :
    (job, rows) ∈ (infer rb facts).evidence ↔
      evidenceRows facts (rb.rulesFor job) ≠ [] ∧ job ∈ rb.jobs ∧
        rows = sortDescBy (·.evidence) (evidenceRows facts (rb.rulesFor job)) := by
  simp only [infer, List.mem_map, Prod.exists, Prod.mk.injEq]
  constructor
  · rintro ⟨j, cf, rows', member, rfl, rfl⟩
    obtain ⟨rowsNonempty, listed, -, rfl⟩ := mem_scoredJobs.1 member
    exact ⟨rowsNonempty, listed, rfl⟩
  · rintro ⟨rowsNonempty, listed, rfl⟩
    exact ⟨job, _, _, mem_scoredJobs.2 ⟨rowsNonempty, listed, rfl, rfl⟩, rfl, rfl⟩

/-- A job is scored exactly when some rule gives evidence, with its combined evidence rounded. -/
theorem mem_scores {rb : RuleBase α} {facts : Facts α} {job : Job} {score : α} :
    (job, score) ∈ (infer rb facts).scores ↔
      evidenceRows facts (rb.rulesFor job) ≠ [] ∧ job ∈ rb.jobs ∧
        score = round4 (collect facts (rb.rulesFor job)).2 := by
  simp only [infer, List.mem_map, Prod.exists, Prod.mk.injEq]
  constructor
  · rintro ⟨j, cf, rows, member, rfl, rfl⟩
    obtain ⟨rowsNonempty, listed, rfl, -⟩ := mem_scoredJobs.1 member
    exact ⟨rowsNonempty, listed, rfl⟩
  · rintro ⟨rowsNonempty, listed, rfl⟩
    exact ⟨job, _, _, mem_scoredJobs.2 ⟨rowsNonempty, listed, rfl, rfl⟩, rfl, rfl⟩

/-- A job is scored exactly when one of its rules has an answer not `≤ 0`. -/
theorem mem_scores_infer_iff (rb : RuleBase α) (facts : Facts α) (job : Job) :
    job ∈ (infer rb facts).scores.map (·.1) ↔ ∃ r ∈ rb.rulesFor job, ¬ facts.cf r.1 ≤ 0 := by
  rw [scores_jobs]
  constructor
  · intro member
    obtain ⟨⟨j, rows⟩, listed, rfl⟩ := List.mem_map.1 member
    have found := (mem_scored.1 listed).1
    simpa [evidenceRows_eq_nil_iff] using found
  · rintro ⟨r, rule, positive⟩
    have rowsNonempty : evidenceRows facts (rb.rulesFor job) ≠ [] := fun none =>
      positive ((evidenceRows_eq_nil_iff _ _).1 none r rule)
    exact List.mem_map.2 ⟨_, mem_scored.2 ⟨rowsNonempty, RuleBase.mem_jobs_of_mem_rulesFor rule, rfl⟩,
      rfl⟩

/-- A job's evidence is its rule rows, sorted strongest first; none when it is not scored. -/
theorem evidenceFor_infer (rb : RuleBase α) (facts : Facts α) (job : Job) :
    (infer rb facts).evidenceFor job = sortDescBy (·.evidence) (evidenceRows facts (rb.rulesFor job)) := by
  unfold evidenceFor
  split
  · next j rows found =>
    have named : j = job := by simpa using List.find?_some found
    subst named
    exact (mem_scored.1 (List.mem_of_find?_eq_some found)).2.2
  · next missing =>
    -- an unscored job has no rule rows, and sorting none gives none
    have silent : evidenceRows facts (rb.rulesFor job) = [] := by
      by_contra rowsNonempty
      obtain ⟨r, rule, positive⟩ : ∃ r ∈ rb.rulesFor job, ¬ facts.cf r.1 ≤ 0 := by
        simpa [evidenceRows_eq_nil_iff] using rowsNonempty
      have scored := mem_scored.2
        ⟨rowsNonempty, RuleBase.mem_jobs_of_mem_rulesFor rule, rfl⟩
      exact List.find?_eq_none.1 missing _ scored (by simp)
    rw [silent, sortDescBy, List.mergeSort_nil]

end Inference

/-- Answers that agree on every referenced course, or are both `≤ 0` there, score alike. -/
theorem infer_congr_of_referenced (rb : RuleBase α) {F G : Facts α}
    (agree : ∀ c, rb.references c = true → F.cf c ≤ 0 ∧ G.cf c ≤ 0 ∨ F.cf c = G.cf c) :
    infer rb F = infer rb G := by
  have same : ∀ job, Inference.jobEvidence F (rb.rulesFor job) =
      Inference.jobEvidence G (rb.rulesFor job) := by
    intro job
    have collected : Inference.collect F (rb.rulesFor job) = Inference.collect G (rb.rulesFor job) :=
      Inference.collect_congr_of_agree fun r rule =>
        agree r.1 (RuleBase.references_of_mem_rulesFor (List.mem_map.2 ⟨r, rule, rfl⟩))
    simp only [Inference.jobEvidence, collected]
  simp only [infer, Inference.scoredJobs, same]

/-- **Scoring reads only the answers not `≤ 0` of referenced courses.** Two sets of answers that
agree on every referenced course, or are both `≤ 0` there, give the same inference. The scores and
the evidence list the same jobs: those with a rule whose course has an answer not `≤ 0`. A job's
evidence has one row per such rule, with the answer and the rounded evidence, in descending order
of evidence, rows of equal evidence in rule order. -/
theorem infer_reads_positive_answers [Std.TransCmp (Scalar.totalCompare (α := α))]
    (rb : RuleBase α) :
    (∀ F G : Facts α, (∀ c, rb.references c = true → F.cf c ≤ 0 ∧ G.cf c ≤ 0 ∨ F.cf c = G.cf c) →
        infer rb F = infer rb G) ∧
      ∀ F : Facts α,
        (infer rb F).scores.map (·.1) = (infer rb F).evidence.map (·.1) ∧
        (∀ job, job ∈ (infer rb F).scores.map (·.1) ↔ ∃ r ∈ rb.rulesFor job, ¬ F.cf r.1 ≤ 0) ∧
        ∀ job,
          ((infer rb F).evidenceFor job).Perm (Inference.evidenceRows F (rb.rulesFor job)) ∧
          ((infer rb F).evidenceFor job).Pairwise
            (fun x y => Scalar.totalCompare x.evidence y.evidence ≠ .lt) ∧
          ∀ x y, [x, y].Sublist (Inference.evidenceRows F (rb.rulesFor job)) →
            Scalar.totalCompare x.evidence y.evidence = .eq →
            [x, y].Sublist ((infer rb F).evidenceFor job) := by
  refine ⟨fun F G agree => infer_congr_of_referenced rb agree, fun F => ⟨Inference.scores_jobs rb F,
    Inference.mem_scores_infer_iff rb F, fun job => ?_⟩⟩
  rw [Inference.evidenceFor_infer]
  refine ⟨sortDescBy_perm _ _, sortDescBy_sorted _ _, fun x y ordered tie => ?_⟩
  exact sortDescBy_keeps_order _ (by rw [tie]; decide) ordered

/-- Software Engineer from three courses: an answer under an unknown name and a negative answer
for Database change nothing, and the two courses answered with 1 give two rows. -/
theorem infer_reads_positive_answers_unknownName :
    let rb : RuleBase Rat := ⟨[(.softwareEngineer,
      [(.softwareDevelopment, 9 / 10), (.algorithmsAndProgramming, 9 / 10), (.database, 13 / 20)])]⟩
    let F : Facts Rat := .ofList
      [("Algorithms and Programming", 1), ("Software Development", 1), ("Astrologia", 1 / 2)]
    let G : Facts Rat := .ofList
      [("Software Development", 1), ("Algorithms and Programming", 1), ("Database", -1 / 2)]
    infer rb F = infer rb G ∧ Job.softwareEngineer ∈ (infer rb F).scores.map (·.1) ∧
      ((infer rb F).evidenceFor .softwareEngineer).length = 2 := by
  intro rb F G
  obtain ⟨congr, shape⟩ := infer_reads_positive_answers rb
  have referenced : ∀ c, rb.references c = true →
      c = .softwareDevelopment ∨ c = .algorithmsAndProgramming ∨ c = .database := by
    intro c
    cases c <;> decide +kernel
  refine ⟨congr F G fun c listed => ?_, ((shape F).2.1 .softwareEngineer).2
    ⟨(.softwareDevelopment, 9 / 10), by decide +kernel, by decide +kernel⟩, ?_⟩
  · rcases referenced c listed with rfl | rfl | rfl
    · exact .inr (by decide +kernel)
    · exact .inr (by decide +kernel)
    · exact .inl (by decide +kernel)
  · rw [((shape F).2.2 .softwareEngineer).1.length_eq]
    decide +kernel

end CareerCompass
