import CareerCompass.Proofs.Session.Runs
/-!
# Expansion in an adaptive session

Every answer rescores the jobs from all answers and grows the agenda from the new scores. In
adaptive mode that growth is complete: after it, every course that the current scores offer (the
rules of each job whose score reaches the gate) is asked or queued.

* `Expanded`: every course offered by the current scores has been met by the agenda.
* `applyAll_expanded`: after any run of an adaptive session, `Expanded` holds. A fresh session
  has no scores, since no answer is positive; every answer ends with the expansion that
  establishes it.
* `adaptive_session_expanded`: hence every rule course of a job whose score reaches the gate is
  asked or queued; answering a name that is no course changes nothing but the facts; and when the
  interview is over, every such course has been asked.

An unknown name is inert for two reasons together: the scores read answers only under course
names, so they do not change, and a second expansion by the same scores offers only courses
already met, which `push` refuses.
-/

set_option linter.unusedSectionVars false

namespace CareerCompass

variable {α : Type} [Scalar α]

/-! ### Scores read answers only under course names -/

namespace Facts

theorem cf_record_of_unnamed {facts : Facts α} {name : String} (value : α)
    (unnamed : Course.ofName? name = none) (c : Course) :
    (facts.record name value).2.cf c = facts.cf c := by
  have other : c.name ≠ name := Course.ofName?_eq_none_iff.1 unnamed c
  simp only [cf, get?_record, other, if_false]

/-- With no answer positive, no rule gives evidence. -/
theorem cf_empty (c : Course) : (empty : Facts α).cf c = 0 := rfl

end Facts

namespace Inference

theorem collect_congr {F G : Facts α} (same : ∀ c, F.cf c = G.cf c)
    (rules : List (Course × α)) : collect F rules = collect G rules := by
  simp only [collect, same]

/-- With every answer at most zero, a job's rules collect no evidence. -/
theorem collect_of_nonpos {facts : Facts α} (nonpos : ∀ c, facts.cf c ≤ 0)
    (rules : List (Course × α)) : collect facts rules = ([], 0) := by
  unfold collect
  apply List.foldlRecOn (motive := fun acc : List (EvidenceRow α) × α => acc = ([], 0))
  · rfl
  · rintro acc rfl ⟨c, w⟩ _
    simp [nonpos c]

end Inference

theorem infer_congr {F G : Facts α} (same : ∀ c, F.cf c = G.cf c) (rb : RuleBase α) :
    infer rb F = infer rb G := by
  simp only [infer, Inference.scoredJobs, Inference.jobEvidence, Inference.collect_congr same]

/-- An answer under a name that is no course leaves the scores as they were. -/
theorem infer_record_of_unnamed (rb : RuleBase α) (facts : Facts α) {name : String} (value : α)
    (unnamed : Course.ofName? name = none) :
    infer rb (facts.record name value).2 = infer rb facts :=
  infer_congr (Facts.cf_record_of_unnamed value unnamed) rb

/-- With no answer positive, no job is scored. -/
theorem infer_scores_of_nonpos (rb : RuleBase α) {facts : Facts α}
    (nonpos : ∀ c, facts.cf c ≤ 0) : (infer rb facts).scores = [] := by
  have silent : ∀ job, Inference.jobEvidence facts (rb.rulesFor job) = none := by
    intro job
    rw [Inference.jobEvidence, Inference.collect_of_nonpos nonpos]
    rfl
  simp [infer, Inference.scoredJobs, silent]

/-- With no answers, no job is scored, as long as zero is at most zero. -/
theorem infer_empty_scores (rb : RuleBase α) (zeroLeZero : (0 : α) ≤ 0) :
    (infer rb Facts.empty).scores = [] :=
  infer_scores_of_nonpos rb fun c => by
    rw [Facts.cf_empty]
    exact zeroLeZero

/-! ### Offers of the current scores -/

namespace Agenda

/-- A rule course of a job whose score reaches the gate is offered by the expansion. -/
theorem mem_expansionOffers {rb : RuleBase α} {inf : Inference α} {job : Job} {score : α}
    (scored : inf.score job = some score) (passes : ¬ score < expansionGate) {c : Course}
    (rule : c ∈ (rb.rulesFor job).map (·.1)) : c ∈ (expansionOffers rb inf).map (·.1) := by
  obtain ⟨p, found, rfl⟩ := Option.map_eq_some_iff.1 scored
  have named : p.1 = job := by simpa using List.find?_some found
  obtain ⟨⟨c, w⟩, member, rfl⟩ := List.mem_map.1 rule
  refine List.mem_map.2
    ⟨(c, w), List.mem_flatMap.2 ⟨p, List.mem_of_find?_eq_some found, ?_⟩, rfl⟩
  obtain ⟨j, score⟩ := p
  cases named
  show (c, w) ∈ (if score < expansionGate then [] else rb.rulesFor j)
  rw [if_neg passes]
  exact member

/-- With nothing waiting, every course met has been asked. -/
theorem Seen.asked_of_open_eq_nil {a : Agenda α} {c : Course} (seen : a.Seen c)
    (nothing : a.open_ = []) : c ∈ a.asked := by
  rcases seen with asked | queued
  · exact asked
  · obtain ⟨e, member, rfl⟩ := List.mem_map.1 queued
    have done := List.filter_eq_nil_iff.1 nothing e member
    simpa [isAsked] using done

end Agenda

namespace Session

/-- Every course that the current scores offer has been met by the agenda. -/
def Expanded (s : Session α) : Prop :=
  ∀ c ∈ (Agenda.expansionOffers s.rules s.inference).map (·.1), s.agenda.Seen c

theorem markAnswered_of_unnamed (a : Agenda α) {name : String}
    (unnamed : Course.ofName? name = none) : markAnswered a name = a := by
  rw [markAnswered, unnamed]

/-- In adaptive mode an answer ends with the expansion by the new scores, which meets them all. -/
theorem Expanded.answer (s : Session α) (adaptive : s.agenda.mode = .adaptive) (name : String)
    (cf : α) : (s.answer name cf).1.Expanded := by
  have marked : (markAnswered s.agenda name).mode = .adaptive :=
    markAnswered_grows.mode_eq.trans adaptive
  intro c offered
  rw [answer_agenda, Agenda.expand_adaptive marked]
  exact Agenda.seen_foldl_offer _ _ c offered

/-- **An answer under a name that is no course changes nothing but the facts.** The scores stay,
and the expansion by them offers only courses already met. -/
theorem answer_of_unnamed {s : Session α} (adaptive : s.agenda.mode = .adaptive)
    (expanded : s.Expanded) {name : String} (unnamed : Course.ofName? name = none) (cf : α) :
    (s.answer name cf).1 = { s with facts := (s.facts.record name cf).2 } ∧
      (s.answer name cf).2 = s.currentQuestion := by
  have unchanged : (s.answer name cf).1.agenda = s.agenda := by
    rw [answer_agenda, markAnswered_of_unnamed _ unnamed,
      infer_record_of_unnamed _ _ _ unnamed, Agenda.expand_adaptive adaptive,
      Agenda.foldl_offer_of_seen (0, s.agenda)
        (Agenda.expansionOffers s.rules (infer s.rules s.facts))
        fun c offered => expanded c offered]
  have shape : (s.answer name cf).1 =
      { s with facts := (s.facts.record name cf).2, agenda := (s.answer name cf).1.agenda } := rfl
  refine ⟨by rw [shape, unchanged], ?_⟩
  show (s.answer name cf).1.agenda.peekNext = s.agenda.peekNext
  rw [unchanged]

/-- **After every run of an adaptive session, the agenda has met every course its scores offer.**
This needs zero to be at most zero, which holds in both scalars of the library. -/
theorem applyAll_expanded (rb : RuleBase α) (options : SessionOptions)
    (adaptive : options.mode = .adaptive) (zeroLeZero : (0 : α) ≤ 0) (ops : List (Op α)) :
    let s := (create rb options).applyAll ops
    s.agenda.mode = .adaptive ∧ s.Expanded := by
  refine applyAll_induction (fun s => s.agenda.mode = .adaptive ∧ s.Expanded) ⟨?_, ?_⟩ ?_ ops
  · obtain ⟨_, grows⟩ := Agenda.create_grows rb options.seedCount options.mode
    exact grows.mode_eq.trans adaptive
  · -- a fresh session scores no job, so it offers nothing
    intro c offered
    have unscored : (create rb options).inference.scores = [] := infer_empty_scores rb zeroLeZero
    rw [Agenda.expansionOffers, unscored] at offered
    simp at offered
  · rintro s name cf - - ⟨mode, -⟩
    exact ⟨(answer_agenda_mode s name cf).trans mode, Expanded.answer s mode name cf⟩

/-- **An adaptive session has asked or queued every rule course of every job that passes the
gate.** After any run from a fresh session: every rule course of a job whose score reaches the
gate is asked or queued; answering a name that is no course changes the facts and nothing else,
and the current question stays; and once the interview is over, every such course has been asked.
-/
theorem adaptive_session_expanded (rb : RuleBase α) (options : SessionOptions)
    (adaptive : options.mode = .adaptive) (zeroLeZero : (0 : α) ≤ 0) (ops : List (Op α)) :
    let s := (create rb options).applyAll ops
    (∀ job score, s.inference.score job = some score → ¬ score < expansionGate →
      ∀ c ∈ (rb.rulesFor job).map (·.1),
        s.agenda.isAsked c = true ∨ s.agenda.isQueued c = true) ∧
    (∀ name cf, Course.ofName? name = none →
      (s.answer name cf).1 = { s with facts := (s.facts.record name cf).2 } ∧
        (s.answer name cf).2 = s.currentQuestion) ∧
    (s.isDone = true → ∀ job score, s.inference.score job = some score →
      ¬ score < expansionGate →
        ∀ c ∈ (rb.rulesFor job).map (·.1), s.agenda.isAsked c = true) := by
  intro s
  obtain ⟨mode, expanded⟩ := applyAll_expanded rb options adaptive zeroLeZero ops
  have rules : s.rules = rb := applyAll_rules rb options ops
  have met : ∀ job score, s.inference.score job = some score → ¬ score < expansionGate →
      ∀ c ∈ (rb.rulesFor job).map (·.1), s.agenda.Seen c := by
    intro job score scored passes c rule
    rw [← rules] at rule
    exact expanded c (Agenda.mem_expansionOffers scored passes rule)
  refine ⟨fun job score scored passes c rule => ?_,
    fun name cf unnamed => answer_of_unnamed mode expanded unnamed cf,
    fun done job score scored passes c rule => ?_⟩
  · rcases met job score scored passes c rule with asked | queued
    · exact Or.inl ((Agenda.isAsked_iff _ _).2 asked)
    · exact Or.inr ((Agenda.isQueued_iff _ _).2 queued)
  · -- a finished interview has nothing waiting
    have none : s.agenda.peekNext = none := Option.isNone_iff_eq_none.1 done
    have nothing : s.agenda.open_ = [] := (Agenda.peekNext_eq_none_iff_open s.agenda).1 none
    rw [Agenda.isAsked_iff]
    exact (met job score scored passes c rule).asked_of_open_eq_nil nothing

/-- Over the standard table with eight seeds: once Software Development is answered with `1`,
Software Engineer scores `0.9` and passes the gate, so Software Testing, one of its courses and no
seed, waits in the frontier; an answer under a name that is no course leaves the next question as
it was. -/
theorem adaptive_session_expanded_standard :
    let rb : RuleBase Rat := RuleBase.standard
    let s := (create rb {}).applyAll [.answer "Software Development" 1]
    s.inference.score .softwareEngineer = some (9 / 10) ∧
      s.agenda.isQueued .softwareTesting = true ∧
      (s.answer "Underwater Basket Weaving" 1).2 = s.currentQuestion := by
  intro rb s
  obtain ⟨met, inert, -⟩ :=
    adaptive_session_expanded rb {} rfl (le_refl 0) [.answer "Software Development" 1]
  have scored : s.inference.score .softwareEngineer = some (9 / 10) := by decide +kernel
  have passes : ¬ (9 / 10 : Rat) < expansionGate := by decide +kernel
  have rule : Course.softwareTesting ∈ (rb.rulesFor .softwareEngineer).map (·.1) := by
    decide +kernel
  -- only Software Development has an answer, so Software Testing is not asked
  have unasked : s.agenda.isAsked .softwareTesting = false := by
    rw [Bool.eq_false_iff, ne_eq, Agenda.isAsked_iff, (applyAll_tracked rb {} _).asked_iff]
    decide +kernel
  have unnamed : Course.ofName? "Underwater Basket Weaving" = none := by decide +kernel
  refine ⟨scored, ?_, (inert _ 1 unnamed).2⟩
  rcases met _ _ scored passes _ rule with asked | queued
  · rw [unasked] at asked
    cases asked
  · exact queued

end Session

end CareerCompass
