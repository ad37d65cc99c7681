import CareerCompass.Proofs.Session.Reordering
/-!
# Scores are certainty factors

Over exact rationals, a validated table weighs every rule in `(0, 1]`. With answers in `[0, 1]`
at every referenced course, each evidence `answer · weight` is in `[0, 1]`, so is every combined
value (`Inference.collect_mono`), and rounding to four places keeps both ends, which are on its
grid (`round4_mem_unit`).

* `score_mem_unit`: every score lies in `[0, 1]`.
* `infer_scores_unit_mono`: that, and the monotonicity of `score_mono` under the hypotheses a
  validated table and Likert answers give: raising or adding an answer never lowers a score, so a
  job that passed the expansion gate still passes it.
-/

namespace CareerCompass

/-- Rounding to four places keeps `[0, 1]`: both ends are on the grid. -/
theorem round4_mem_unit {x : Rat} (nonneg : 0 ≤ x) (le_one : x ≤ 1) :
    0 ≤ round4 x ∧ round4 x ≤ 1 := by
  have zero : round4 (0 : Rat) = 0 := by decide +kernel
  have one : round4 (1 : Rat) = 1 := by decide +kernel
  exact ⟨zero ▸ round4_mono nonneg, one ▸ round4_mono le_one⟩

section Scores

variable {rb : RuleBase Rat} {F G : Facts Rat}

/-- With weights and referenced answers in `[0, 1]`, every score is in `[0, 1]`. -/
theorem score_mem_unit (weights : ∀ job, ∀ r ∈ rb.rulesFor job, 0 ≤ r.2 ∧ r.2 ≤ 1)
    (unit : ∀ c, rb.references c = true → 0 ≤ F.cf c ∧ F.cf c ≤ 1) {job : Job} {score : Rat}
    (scored : (job, score) ∈ (infer rb F).scores) : 0 ≤ score ∧ score ≤ 1 := by
  obtain ⟨-, -, rfl⟩ := Inference.mem_scores.1 scored
  -- the answers bound themselves, so the combined value is in `[0, 1]`
  have ruled : ∀ r ∈ rb.rulesFor job, UnitLe (F.cf r.1) (F.cf r.1) := fun r rule =>
    have bounds := unit r.1 (RuleBase.references_of_mem_rulesFor (List.mem_map_of_mem rule))
    UnitLe.refl bounds.1 bounds.2
  have bounded : UnitLe (Inference.collect F (rb.rulesFor job)).2
      (Inference.collect F (rb.rulesFor job)).2 :=
    Inference.collect_mono ruled (weights job)
  exact round4_mem_unit bounded.nonneg bounded.le_one

/-- **Scores are certainty factors, and they grow with the answers.** Over a validated table,
with answers in `[0, 1]` at every referenced course, every score is in `[0, 1]`. If moreover the
answers of `G` are at least those of `F` at every referenced course, then every job scored under
`F` is scored under `G`, at least as high; a job at or above the expansion gate under `F` stays
there under `G`. -/
theorem infer_scores_unit_mono {table : List (Job × List (Course × Rat))}
    (validated : RuleBase.ofTable table = .ok rb)
    (unitF : ∀ c, rb.references c = true → 0 ≤ F.cf c ∧ F.cf c ≤ 1)
    (unitG : ∀ c, rb.references c = true → 0 ≤ G.cf c ∧ G.cf c ≤ 1) :
    (∀ p ∈ (infer rb F).scores, 0 ≤ p.2 ∧ p.2 ≤ 1) ∧
      ((∀ c, rb.references c = true → F.cf c ≤ G.cf c) →
        ∀ job score, (job, score) ∈ (infer rb F).scores →
          ∃ score', (job, score') ∈ (infer rb G).scores ∧ score ≤ score' ∧
            (¬ score < expansionGate → ¬ score' < expansionGate)) := by
  have weights := RuleBase.weights_of_ofTable validated
  refine ⟨fun p scored => score_mem_unit weights unitF scored, fun grows job score scored => ?_⟩
  have below : ∀ c, rb.references c = true → UnitLe (F.cf c) (G.cf c) := fun c referenced =>
    ⟨(unitF c referenced).1, grows c referenced, (unitG c referenced).2⟩
  obtain ⟨score', scoredG, raised⟩ := score_mono weights below scored
  exact ⟨score', scoredG, raised, fun passes dropped => passes (lt_of_le_of_lt raised dropped)⟩

end Scores

/-- Software Engineer from Database at `4/5` and Software Testing at `7/10`: answering Database
with `1/2`, then raising it to `1` and adding Software Testing at `1/2`. -/
theorem infer_scores_unit_mono_database :
    let rb : RuleBase Rat :=
      ⟨[(.softwareEngineer, [(.database, 4 / 5), (.softwareTesting, 7 / 10)])]⟩
    let F : Facts Rat := .ofList [("Database", 1 / 2)]
    let G : Facts Rat := .ofList [("Database", 1), ("Software Testing", 1 / 2)]
    RuleBase.ofTable [(.softwareEngineer, [(.database, 4 / 5), (.softwareTesting, 7 / 10)])] =
        .ok rb ∧
      (∀ c, rb.references c = true → 0 ≤ F.cf c ∧ F.cf c ≤ 1) ∧
      (∀ c, rb.references c = true → 0 ≤ G.cf c ∧ G.cf c ≤ 1) ∧
      (∀ c, rb.references c = true → F.cf c ≤ G.cf c) ∧
      ((∀ p ∈ (infer rb F).scores, 0 ≤ p.2 ∧ p.2 ≤ 1) ∧
        ((∀ c, rb.references c = true → F.cf c ≤ G.cf c) →
          ∀ job score, (job, score) ∈ (infer rb F).scores →
            ∃ score', (job, score') ∈ (infer rb G).scores ∧ score ≤ score' ∧
              (¬ score < expansionGate → ¬ score' < expansionGate))) := by
  intro rb F G
  have validated : RuleBase.ofTable
      [(.softwareEngineer, [(.database, 4 / 5), (.softwareTesting, 7 / 10)])] = .ok rb := by
    have inRange : RuleBase.weightInRange (4 / 5 : Rat) = true := by decide +kernel
    have inRange' : RuleBase.weightInRange (7 / 10 : Rat) = true := by decide +kernel
    rw [RuleBase.ofTable, RuleBase.sortByJob, List.mergeSort_singleton]
    simp [RuleBase.firstRepeatedJob, RuleBase.firstViolation, RuleBase.firstViolation.go, inRange,
      inRange', rb]
  -- at the referenced courses, Database and Software Testing, both answer lists are in range
  have answers : ∀ c, rb.references c = true →
      (0 ≤ F.cf c ∧ F.cf c ≤ 1) ∧ (0 ≤ G.cf c ∧ G.cf c ≤ 1) ∧ F.cf c ≤ G.cf c := by
    intro c
    cases c <;> decide +kernel
  have unitF : ∀ c, rb.references c = true → 0 ≤ F.cf c ∧ F.cf c ≤ 1 :=
    fun c listed => (answers c listed).1
  have unitG : ∀ c, rb.references c = true → 0 ≤ G.cf c ∧ G.cf c ≤ 1 :=
    fun c listed => (answers c listed).2.1
  have grows : ∀ c, rb.references c = true → F.cf c ≤ G.cf c :=
    fun c listed => (answers c listed).2.2
  exact ⟨validated, unitF, unitG, grows, infer_scores_unit_mono validated unitF unitG⟩

end CareerCompass
