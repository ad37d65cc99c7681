import CareerCompass.Proofs.Inference.Evidence
import CareerCompass.Proofs.Agenda.Growth
import Mathlib.Data.Rat.Floor
import Mathlib.Tactic.Linarith
import Mathlib.Tactic.Ring
import Mathlib.Tactic.NormNum
/-!
# Scores grow with the answers

Over exact rationals, with every answer and every weight in `[0, 1]`, a job's score can only grow
when answers grow. Two certainty factors in `[0, 1]` combine to `1 - (1 - old) · (1 - new)`
(`combine_eq_of_nonneg`), which grows in both arguments and stays in `[0, 1]`; rounding to four
places keeps order; and a rule whose answer is positive stays positive when the answer grows.

* `UnitLe x y`: `x ≤ y`, both in `[0, 1]`; certainty factors that grow.
* `collect_mono`: a job's combined evidence grows with its answers.
* `score_mono`: a job scored under smaller answers is scored under larger ones, at least as high.
* `expansionOffers_mono`: every course the smaller answers offer, the larger answers offer too.

This is what an interview needs to end in the same place whatever the order of its answers: a job
that passed the gate at some step still passes it at the end.
-/

namespace CareerCompass

/-- `x ≤ y` with both in `[0, 1]`. -/
structure UnitLe (x y : Rat) : Prop where
  nonneg : 0 ≤ x
  le : x ≤ y
  le_one : y ≤ 1

namespace UnitLe

variable {x y : Rat}

theorem refl (nonneg : 0 ≤ x) (le_one : x ≤ 1) : UnitLe x x := ⟨nonneg, le_refl x, le_one⟩

theorem nonneg_right (below : UnitLe x y) : 0 ≤ y := le_trans below.nonneg below.le

theorem mul_weight (below : UnitLe x y) {w : Rat} (nonneg : 0 ≤ w) (le_one : w ≤ 1) :
    UnitLe (x * w) (y * w) where
  nonneg := mul_nonneg below.nonneg nonneg
  le := mul_le_mul_of_nonneg_right below.le nonneg
  le_one := mul_le_one₀ below.le_one nonneg le_one

end UnitLe

/-! ### Combining grows in both arguments -/

/-- From a factor in `[0, 1]`, combining is `1 - (1 - old) · (1 - new)`: a first factor, over
`old = 0`, is the same formula. -/
theorem combine_eq_of_nonneg {old : Rat} (nonneg : 0 ≤ old) (new : Rat) :
    combine old new = 1 - (1 - old) * (1 - new) := by
  by_cases first : old ≤ 0
  · have zero : old = 0 := le_antisymm first nonneg
    rw [combine_of_nonpos first, zero]
    ring
  · rw [combine_of_not_nonpos first]
    ring

namespace UnitLe

variable {a a' e e' : Rat}

theorem combine (acc : UnitLe a a') (evidence : UnitLe e e') :
    UnitLe (CareerCompass.combine a e) (CareerCompass.combine a' e') := by
  rw [combine_eq_of_nonneg acc.nonneg, combine_eq_of_nonneg acc.nonneg_right]
  -- the complements `1 - ·` shrink and stay in `[0, 1]`
  have restA : 1 - a' ≤ 1 - a := by linarith [acc.le]
  have restE : 1 - e' ≤ 1 - e := by linarith [evidence.le]
  have restA' : 0 ≤ 1 - a' := by linarith [acc.le_one]
  have restE' : 0 ≤ 1 - e' := by linarith [evidence.le_one]
  have restA1 : 1 - a ≤ 1 := by linarith [acc.nonneg]
  have restE1 : 1 - e ≤ 1 := by linarith [evidence.nonneg]
  refine ⟨?_, ?_, ?_⟩
  · have atMostOne : (1 - a) * (1 - e) ≤ 1 :=
      mul_le_one₀ restA1 (le_trans restE' restE) restE1
    linarith
  · have shrinks : (1 - a') * (1 - e') ≤ (1 - a) * (1 - e) :=
      mul_le_mul restA restE restE' (le_trans restA' restA)
    linarith
  · have nonneg : 0 ≤ (1 - a') * (1 - e') := mul_nonneg restA' restE'
    linarith

/-- A new piece of evidence only for the larger side keeps it larger. -/
theorem combine_right (acc : UnitLe a a') (nonneg : 0 ≤ e) (le_one : e ≤ 1) :
    UnitLe a (CareerCompass.combine a' e) := by
  -- the larger side is `combine a' 0`, which grows to `combine a' e`
  have grown : UnitLe (CareerCompass.combine a' 0) (CareerCompass.combine a' e) :=
    UnitLe.combine (UnitLe.refl acc.nonneg_right acc.le_one) ⟨le_refl 0, nonneg, le_one⟩
  have unchanged : CareerCompass.combine a' 0 = a' := by
    rw [combine_eq_of_nonneg acc.nonneg_right]
    ring
  rw [unchanged] at grown
  exact ⟨acc.nonneg, le_trans acc.le grown.le, grown.le_one⟩

end UnitLe

/-- Rounding to four places keeps order. -/
theorem round4_mono {x y : Rat} (le : x ≤ y) : round4 x ≤ round4 y := by
  have scale : (0 : Rat) < 10000.0 := by norm_num
  have floors : Scalar.floor (x * 10000.0 + 0.5 : Rat) ≤ Scalar.floor (y * 10000.0 + 0.5) := by
    show ((⌊x * 10000.0 + 0.5⌋ : Int) : Rat) ≤ ((⌊y * 10000.0 + 0.5⌋ : Int) : Rat)
    have scaled : x * 10000.0 + 0.5 ≤ y * 10000.0 + 0.5 := by
      have := mul_le_mul_of_nonneg_right le scale.le
      linarith
    exact Int.cast_le.2 (Int.floor_mono scaled)
  exact div_le_div_of_nonneg_right floors scale.le

/-! ### A job's evidence grows with its answers -/

namespace Inference

variable {F G : Facts Rat}

/-- Along a job's rules, in order, the combined evidence under larger answers stays larger. -/
theorem collect_mono {rules : List (Course × Rat)}
    (below : ∀ r ∈ rules, UnitLe (F.cf r.1) (G.cf r.1))
    (weights : ∀ r ∈ rules, 0 ≤ r.2 ∧ r.2 ≤ 1) :
    UnitLe (collect F rules).2 (collect G rules).2 := by
  induction rules using List.reverseRecOn with
  | nil => exact UnitLe.refl (le_refl 0) zero_le_one
  | append_singleton rules rule ih =>
    obtain ⟨c, w⟩ := rule
    have last : (c, w) ∈ rules ++ [(c, w)] := List.mem_append_right _ List.mem_cons_self
    have acc := ih (fun r member => below r (List.mem_append_left _ member))
      (fun r member => weights r (List.mem_append_left _ member))
    have answer : UnitLe (F.cf c) (G.cf c) := below _ last
    have evidence : UnitLe (F.cf c * w) (G.cf c * w) :=
      answer.mul_weight (weights _ last).1 (weights _ last).2
    rw [collect_append, collect_append]
    by_cases skipF : F.cf c ≤ 0
    · by_cases skipG : G.cf c ≤ 0
      · rw [if_pos skipF, if_pos skipG]
        exact acc
      · -- only the larger answers give evidence here
        rw [if_pos skipF, if_neg skipG]
        exact acc.combine_right evidence.nonneg_right evidence.le_one
    · -- a positive answer stays positive when it grows
      have skipG : ¬ G.cf c ≤ 0 := fun nonpos => skipF (le_trans answer.le nonpos)
      rw [if_neg skipF, if_neg skipG]
      exact acc.combine evidence

/-- A job with evidence under smaller answers has evidence under larger ones. -/
theorem evidenceRows_ne_nil_mono {rules : List (Course × Rat)}
    (below : ∀ r ∈ rules, UnitLe (F.cf r.1) (G.cf r.1)) (rows : evidenceRows F rules ≠ []) :
    evidenceRows G rules ≠ [] := by
  intro none
  apply rows
  rw [evidenceRows_eq_nil_iff] at none ⊢
  intro r rule
  exact le_trans (below r rule).le (none r rule)

end Inference

section Scores

variable {rb : RuleBase Rat} {F G : Facts Rat}

/-- **Scores only grow with the answers.** With weights in `[0, 1]` and answers that grow within
`[0, 1]` at every referenced course, a job scored under the smaller answers is scored under the
larger ones, at least as high. -/
theorem score_mono (weights : ∀ job, ∀ r ∈ rb.rulesFor job, 0 ≤ r.2 ∧ r.2 ≤ 1)
    (below : ∀ c, rb.references c = true → UnitLe (F.cf c) (G.cf c)) {job : Job} {score : Rat}
    (scored : (job, score) ∈ (infer rb F).scores) :
    ∃ score', (job, score') ∈ (infer rb G).scores ∧ score ≤ score' := by
  obtain ⟨rows, listed, rfl⟩ := Inference.mem_scores.1 scored
  -- a job's rules name only referenced courses
  have ruled : ∀ r ∈ rb.rulesFor job, UnitLe (F.cf r.1) (G.cf r.1) := fun r rule =>
    below r.1 (RuleBase.references_of_mem_rulesFor (List.mem_map_of_mem rule))
  have rowsG := Inference.evidenceRows_ne_nil_mono ruled rows
  have grown : UnitLe (Inference.collect F (rb.rulesFor job)).2
      (Inference.collect G (rb.rulesFor job)).2 :=
    Inference.collect_mono ruled (weights job)
  exact ⟨_, Inference.mem_scores.2 ⟨rowsG, listed, rfl⟩, round4_mono grown.le⟩

/-- Every course that the smaller answers offer for expansion, the larger answers offer too. -/
theorem expansionOffers_mono (weights : ∀ job, ∀ r ∈ rb.rulesFor job, 0 ≤ r.2 ∧ r.2 ≤ 1)
    (below : ∀ c, UnitLe (F.cf c) (G.cf c)) {c : Course}
    (offered : c ∈ (Agenda.expansionOffers rb (infer rb F)).map (·.1)) :
    c ∈ (Agenda.expansionOffers rb (infer rb G)).map (·.1) := by
  obtain ⟨job, score, scored, passes, rule⟩ := (Agenda.mem_expansionOffers_iff _ _ _).1 offered
  obtain ⟨score', scoredG, grown⟩ := score_mono weights (fun c _ => below c) scored
  exact (Agenda.mem_expansionOffers_iff _ _ _).2
    ⟨job, score', scoredG, fun below => passes (lt_of_le_of_lt grown below), rule⟩

end Scores

end CareerCompass
