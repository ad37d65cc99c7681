import CareerCompass.Proofs.Inference.Evidence
import CareerCompass.Proofs.RuleBase.Validation
/-!
# The ranking of scored jobs

An inference keeps its scores as a map keyed by job: each job at most once, in catalogue order
(`Keyed`). Every inference that scoring returns over a table with its jobs in catalogue order is
keyed (`keyed_infer`), so every inference over a validated table is (`keyed_infer_of_ofTable`).

`ranked top` builds one item per score, with the job's evidence rows cut to `top`, and sorts the
items by score with a stable sort in the total order. Over keyed scores that is an order by score,
highest first, and among equal scores by catalogue order (`SortsBefore`).

* `ranked_map_perm`: the items are the scores, each job with its own score.
* `ranked_sorted`: the items are ordered by score, then by catalogue order.
* `ranked_sorts_scores`: all of it for doubles, the program's numbers, whose total order places
  NaNs of either sign and both zeros; each item's evidence is the first `min top n` of its `n` rows.
-/

set_option linter.unusedSectionVars false

namespace CareerCompass

namespace Inference

variable {α : Type} [Scalar α]

/-- Scores list each job at most once, in catalogue order, as a map keyed by job does. -/
def Keyed (inf : Inference α) : Prop :=
  inf.scores.Pairwise fun a b => a.1.index < b.1.index

/-- Scoring a table whose jobs are in catalogue order gives keyed scores: it scores the jobs in
table order, dropping those without evidence. -/
theorem keyed_infer (rb : RuleBase α) (facts : Facts α)
    (sorted : rb.jobs.Pairwise fun a b => a.index < b.index) : (infer rb facts).Keyed := by
  refine List.pairwise_map.2 (sorted.filterMap _ fun a b before scored found scored' found' => ?_)
  obtain ⟨-, -, rfl⟩ := Option.map_eq_some_iff.1 found
  obtain ⟨-, -, rfl⟩ := Option.map_eq_some_iff.1 found'
  exact before

theorem keyed_infer_of_ofTable {table : List (Job × List (Course × α))} {rb : RuleBase α}
    (validated : RuleBase.ofTable table = .ok rb) (facts : Facts α) : (infer rb facts).Keyed :=
  keyed_infer rb facts (RuleBase.ofTable_ok validated).1

/-- The item of one score: the job, its score and its first `top` evidence rows. -/
theorem mem_ranked {inf : Inference α} {top : Nat} {r : RankedJob α} :
    r ∈ inf.ranked top ↔
      (r.job, r.cf) ∈ inf.scores ∧ r.evidence = (inf.evidenceFor r.job).take top := by
  rw [ranked, (sortDescBy_perm _ _).mem_iff, List.mem_map]
  constructor
  · rintro ⟨⟨job, cf⟩, scored, rfl⟩
    exact ⟨scored, rfl⟩
  · rintro ⟨scored, cut⟩
    refine ⟨(r.job, r.cf), scored, ?_⟩
    obtain ⟨job, cf, rows⟩ := r
    dsimp only at cut ⊢
    rw [cut]

/-- The items are the scores: each job once per score, with that score. -/
theorem ranked_map_perm (inf : Inference α) (top : Nat) :
    ((inf.ranked top).map fun r => (r.job, r.cf)).Perm inf.scores := by
  rw [ranked]
  refine ((sortDescBy_perm _ _).map _).trans ?_
  simp [List.map_map, Function.comp_def]

/-- Each item keeps the first `top` rows of its job's evidence, in their order. -/
theorem evidence_of_mem_ranked {inf : Inference α} {top : Nat} {r : RankedJob α}
    (member : r ∈ inf.ranked top) :
    r.evidence <+: inf.evidenceFor r.job ∧
      r.evidence.length = min top (inf.evidenceFor r.job).length := by
  rw [(mem_ranked.1 member).2]
  exact ⟨List.take_prefix top _, List.length_take⟩

/-- **Ranked by score, then by catalogue order.** Over keyed scores, each item comes before the
later ones: above them in the total order of scores, or level and earlier in the catalogue. -/
theorem ranked_sorted [Std.TransCmp (Scalar.totalCompare (α := α))] {inf : Inference α}
    (keyed : inf.Keyed) (top : Nat) :
    (inf.ranked top).Pairwise (SortsBefore (·.cf) (·.job.index)) := by
  -- the items are built in the order of the scores, whose jobs increase
  apply sortDescBy_sortsBefore
  exact List.pairwise_map.2 keyed

end Inference

/-- **The ranking of an inference.** Over doubles, for every keyed inference (every inference that
scoring returns over a validated table is one) and every `top`, the ranking holds each scored job
exactly once, with its score; it is ordered by score, highest first in the total order of doubles,
equal scores in catalogue order; and each item's evidence is the first `min top n` of the `n` rows
of its job's evidence. -/
theorem ranked_sorts_scores (inf : Inference Double) (top : Nat) (keyed : inf.Keyed) :
    ((inf.ranked top).map fun r => (r.job, r.cf)).Perm inf.scores ∧
      ((inf.ranked top).map (·.job)).Nodup ∧
      (inf.ranked top).Pairwise (SortsBefore (·.cf) (·.job.index)) ∧
      ∀ r ∈ inf.ranked top, r.evidence <+: inf.evidenceFor r.job ∧
        r.evidence.length = min top (inf.evidenceFor r.job).length := by
  have perm := Inference.ranked_map_perm inf top
  -- keyed scores name each job once, and the ranking names the same jobs
  have jobsNodup : (inf.scores.map (·.1)).Nodup :=
    List.pairwise_map.2 (keyed.imp fun before same => Nat.ne_of_lt before (congrArg _ same))
  have sameJobs : ((inf.ranked top).map (·.job)).Perm (inf.scores.map (·.1)) := by
    simpa [List.map_map, Function.comp_def] using perm.map Prod.fst
  exact ⟨perm, sameJobs.nodup_iff.2 jobsNodup, Inference.ranked_sorted keyed top,
    fun r member => Inference.evidence_of_mem_ranked member⟩

/-- Software Engineer and Web Developer each scored from Database alone, so level: the ranking
keeps them in catalogue order. -/
theorem ranked_sorts_scores_level :
    let rb : RuleBase Double :=
      ⟨[(.softwareEngineer, [(.database, 0.5)]), (.webDeveloper, [(.database, 0.5)])]⟩
    let inf := infer rb (Facts.ofList [("Database", 1.0)])
    inf.Keyed ∧
      (((inf.ranked 1).map fun r => (r.job, r.cf)).Perm inf.scores ∧
        ((inf.ranked 1).map (·.job)).Nodup ∧
        (inf.ranked 1).Pairwise (SortsBefore (·.cf) (·.job.index)) ∧
        ∀ r ∈ inf.ranked 1, r.evidence <+: inf.evidenceFor r.job ∧
          r.evidence.length = min 1 (inf.evidenceFor r.job).length) := by
  intro rb inf
  have keyed : inf.Keyed := Inference.keyed_infer rb _ (by decide)
  exact ⟨keyed, ranked_sorts_scores inf 1 keyed⟩

end CareerCompass
