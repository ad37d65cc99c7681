import CareerCompass.Proofs.Inference.Monotone
import CareerCompass.Proofs.Session.QuestionOrder
import CareerCompass.Proofs.RuleBase.Validation
/-!
# Answering in another order

An adaptive session grows its frontier from the scores after each answer, and these intermediate
scores depend on the order of the answers. Over exact rationals the end does not: two runs that
give the same answers in two orders, each catalogue course with one value in `[0, 1]`, end with
the same scores, the same asked courses and the same waiting courses, so with as many questions
pending. Only the priorities of the waiting courses and the order they are served in may differ.

* `get?_answering_of_mem`, `get?_answering_of_not_mem`: after a run of answers a name holds its
  answer, when it got one value throughout, and its old value when it got none.
* `MetBelow`: the invariant of a run whose answers stay below the final ones. What the agenda has
  met started the interview, is asked, or is offered by the final scores; scores only grow
  (`expansionOffers_mono`), so a job that passed the gate at some step passes it at the end.
* `queued_iff_of_answers`: at the end, a course waits exactly when it is not asked and is an
  initial course or offered by the final scores.
* `reordered_answers_agree`: the two orders agree on all of that, and on the facts of every name
  answered with one value.
* `reordered_answers_last_wins`: a name outside the catalogue answered twice with two values keeps
  the later one, so there the facts depend on the order.
-/

set_option linter.unusedSectionVars false

namespace CareerCompass

/-! ### Facts are their lookups -/

namespace Facts

variable {α : Type}

theorem keys_nodup (facts : Facts α) : (facts.entries.map (·.1)).Nodup := by
  have increasing : (facts.entries.map (·.1)).Pairwise (· < ·) := List.pairwise_map.2 facts.sorted
  apply increasing.imp
  intro a b before same
  subst same
  exact String.lt_irrefl a before

theorem mem_entries_iff {facts : Facts α} {name : String} {value : α} :
    (name, value) ∈ facts.entries ↔ facts.get? name = some value := by
  constructor
  · intro member
    obtain ⟨p, found⟩ : ∃ p, facts.entries.find? (·.1 == name) = some p :=
      Option.isSome_iff_exists.1 (List.find?_isSome.2 ⟨_, member, by simp⟩)
    have named : p.1 = name := by simpa using List.find?_some found
    -- names are distinct, so the entry found is the one given
    have same : p = (name, value) :=
      List.inj_on_of_nodup_map facts.keys_nodup (List.mem_of_find?_eq_some found) member named
    rw [get?, found, same]
    rfl
  · intro found
    rw [get?] at found
    obtain ⟨p, hit, rfl⟩ := Option.map_eq_some_iff.1 found
    have named : p.1 = name := by simpa using List.find?_some hit
    rw [← named]
    exact List.mem_of_find?_eq_some hit

/-- Facts with the same lookups are the same: both lists are sorted by distinct names. -/
theorem ext_get? {F G : Facts α} (same : ∀ name, F.get? name = G.get? name) : F = G := by
  have members : ∀ p, p ∈ F.entries ↔ p ∈ G.entries := fun ⟨name, value⟩ => by
    rw [mem_entries_iff, mem_entries_iff, same]
  have perm : F.entries.Perm G.entries :=
    (List.perm_ext_iff_of_nodup (F.keys_nodup.of_map _) (G.keys_nodup.of_map _)).2 members
  have entries : F.entries = G.entries :=
    perm.eq_of_pairwise (fun _ _ _ _ before after =>
      absurd (String.lt_trans before after) (String.lt_irrefl _)) F.sorted G.sorted
  cases F
  cases G
  cases entries
  rfl

end Facts

/-- Two agendas of the shape a caller reaches, with the same queued courses, have as many
pending: the queued courses are distinct on both sides, so the two lists are permutations. -/
theorem Agenda.Wf.pending_eq_of_queued {α : Type} [Scalar α] {a b : Agenda α} (wfA : a.Wf)
    (wfB : b.Wf) (same : ∀ c, c ∈ a.entries.map (·.course) ↔ c ∈ b.entries.map (·.course)) :
    a.pending = b.pending := by
  have perm := (List.perm_ext_iff_of_nodup wfA.nodup wfB.nodup).2 same
  have lengths : a.entries.length = b.entries.length := by
    simpa only [List.length_map] using perm.length_eq
  rw [wfA.pending_eq, wfB.pending_eq, lengths]

/-- A validated rule base has its weights in `[0, 1]`. -/
theorem RuleBase.weights_of_ofTable {table : List (Job × List (Course × Rat))} {rb : RuleBase Rat}
    (valid : RuleBase.ofTable table = .ok rb) : ∀ job, ∀ r ∈ rb.rulesFor job, 0 ≤ r.2 ∧ r.2 ≤ 1 := by
  intro job r rule
  have inRange := (RuleBase.weightInRange_iff r.2).1 (RuleBase.weightInRange_of_ofTable valid rule)
  exact ⟨le_of_lt inRange.1, inRange.2⟩

namespace Session

/-! ### Runs of answers -/

section Answers

variable {α : Type} [Scalar α]

/-- Answers to names, one after another. -/
def answering (answers : List (String × α)) : List (Op α) :=
  answers.map fun p => .answer p.1 p.2

theorem applyAll_answering_cons (s : Session α) (p : String × α) (answers : List (String × α)) :
    s.applyAll (answering (p :: answers)) = (s.answer p.1 p.2).1.applyAll (answering answers) :=
  rfl

/-- A name that no answer mentions keeps its value. -/
theorem get?_answering_of_not_mem (s : Session α) {answers : List (String × α)} {name : String}
    (unanswered : ∀ p ∈ answers, p.1 ≠ name) :
    (s.applyAll (answering answers)).facts.get? name = s.facts.get? name := by
  induction answers generalizing s with
  | nil => rfl
  | cons p rest ih =>
    rw [applyAll_answering_cons, ih _ fun q member => unanswered q (List.mem_cons_of_mem _ member),
      answer_facts, Facts.get?_record, if_neg (Ne.symm (unanswered p List.mem_cons_self))]

/-- A name answered with one value throughout ends with that value. -/
theorem get?_answering_of_mem (s : Session α) {answers : List (String × α)} {name : String}
    {value : α} (answered : (name, value) ∈ answers)
    (single : ∀ v, (name, v) ∈ answers → v = value) :
    (s.applyAll (answering answers)).facts.get? name = some value := by
  induction answers generalizing s with
  | nil => cases answered
  | cons p rest ih =>
    rw [applyAll_answering_cons]
    by_cases later : (name, value) ∈ rest
    · exact ih _ later fun v member => single v (List.mem_cons_of_mem _ member)
    · -- the first answer is the only one to this name
      have first : p = (name, value) := by
        rcases List.mem_cons.1 answered with same | member
        · exact same.symm
        · exact absurd member later
      have unanswered : ∀ q ∈ rest, q.1 ≠ name := by
        rintro ⟨n, v⟩ member rfl
        exact later (single v (List.mem_cons_of_mem _ member) ▸ member)
      subst first
      rw [get?_answering_of_not_mem _ unanswered, answer_facts, Facts.get?_record, if_pos rfl]

/-- A value a name holds after a run of answers was one of its answers, or its old value. -/
theorem get?_answering_eq_some (s : Session α) {answers : List (String × α)} {name : String}
    {value : α} (found : (s.applyAll (answering answers)).facts.get? name = some value) :
    (name, value) ∈ answers ∨ s.facts.get? name = some value := by
  induction answers generalizing s with
  | nil => exact Or.inr found
  | cons p rest ih =>
    rw [applyAll_answering_cons] at found
    rcases ih _ found with later | recorded
    · exact Or.inl (List.mem_cons_of_mem _ later)
    · rw [answer_facts, Facts.get?_record] at recorded
      by_cases named : name = p.1
      · rw [if_pos named, Option.some_inj] at recorded
        refine Or.inl (List.mem_cons.2 (Or.inl ?_))
        rw [named, ← recorded]
      · rw [if_neg named] at recorded
        exact Or.inr recorded

/-- Two runs of the same answers, in any orders, agree on a name answered with one value. -/
theorem get?_answering_of_sameSet (s : Session α) {first second : List (String × α)}
    (sameSet : ∀ p, p ∈ first ↔ p ∈ second) {name : String}
    (single : ∀ x y, (name, x) ∈ first → (name, y) ∈ first → x = y) :
    (s.applyAll (answering first)).facts.get? name =
      (s.applyAll (answering second)).facts.get? name := by
  by_cases answered : ∃ x, (name, x) ∈ first
  · obtain ⟨x, member⟩ := answered
    rw [get?_answering_of_mem _ member fun v answer => single v x answer member,
      get?_answering_of_mem _ ((sameSet _).1 member)
        fun v answer => single v x ((sameSet _).2 answer) member]
  · have unanswered : ∀ p ∈ first, p.1 ≠ name := fun p member named =>
      answered ⟨p.2, named ▸ member⟩
    rw [get?_answering_of_not_mem _ unanswered,
      get?_answering_of_not_mem _ fun p member => unanswered p ((sameSet p).2 member)]

/-- An interview is over exactly when nothing is pending. -/
theorem isDone_eq_pending (s : Session α) : s.isDone = (s.agenda.pending == 0) := by
  rw [Bool.eq_iff_iff, isDone, currentQuestion, Option.isNone_iff_eq_none,
    Agenda.peekNext_eq_none_iff_open, beq_iff_eq, Agenda.pending, List.length_eq_zero_iff]

end Answers

/-! ### A run whose answers stay below the final ones -/

section Rational

variable {rb : RuleBase Rat} {initial : List Course} {G : Facts Rat}

/-- What a run keeps while its answers stay below the final answers `G`: every course the agenda
has met started the interview, is asked, or is offered by the scores of `G`; and the courses it
started with stay met. -/
structure MetBelow (rb : RuleBase Rat) (initial : List Course) (G : Facts Rat)
    (s : Session Rat) : Prop where
  rules : s.rules = rb
  facts_below : ∀ c, UnitLe (s.facts.cf c) (G.cf c)
  initial_met : ∀ c ∈ initial, s.agenda.Seen c
  met_within : ∀ c, s.agenda.Seen c →
    c ∈ initial ∨ c ∈ s.agenda.asked ∨ c ∈ (Agenda.expansionOffers rb (infer rb G)).map (·.1)

/-- A fresh session has met only the courses it starts with, and answers nothing. -/
theorem MetBelow.create (rb : RuleBase Rat) (options : SessionOptions) {G : Facts Rat}
    (unit : ∀ c, 0 ≤ G.cf c ∧ G.cf c ≤ 1) :
    MetBelow rb (Agenda.initialCourses rb options.seedCount options.mode) G (create rb options) where
  rules := rfl
  facts_below c := ⟨le_refl 0, (unit c).1, (unit c).2⟩
  initial_met := Agenda.seen_create rb options.seedCount options.mode
  met_within c seen := by
    rcases seen with asked | queued
    · simp [Session.create, Agenda.create_asked] at asked
    · have courses := (Agenda.create_entries rb options.seedCount options.mode).1
      exact Or.inl (courses ▸ queued)

/-- **One answer keeps the invariant** when its value is below the final value of its course. The
expansion after it offers only courses that the final scores offer too, since scores grow. -/
theorem MetBelow.answer {s : Session Rat} (inv : MetBelow rb initial G s)
    (weights : ∀ job, ∀ r ∈ rb.rulesFor job, 0 ≤ r.2 ∧ r.2 ≤ 1) {name : String} {cf : Rat}
    (bounded : ∀ c : Course, c.name = name → UnitLe cf (G.cf c)) :
    MetBelow rb initial G (s.answer name cf).1 := by
  have below : ∀ c, UnitLe ((s.facts.record name cf).2.cf c) (G.cf c) := by
    intro c
    rw [Facts.cf, Facts.get?_record]
    by_cases named : c.name = name
    · rw [if_pos named]
      exact bounded c named
    · rw [if_neg named]
      exact inv.facts_below c
  have askedLater : ∀ c ∈ s.agenda.asked, c ∈ (s.answer name cf).1.agenda.asked := by
    intro c asked
    rw [answer_agenda, Agenda.expand_asked, mem_markAnswered_asked]
    exact Or.inr asked
  obtain ⟨_, grows⟩ := answer_grows s name cf
  refine ⟨by rw [answer_rules, inv.rules], below, fun c member => grows.seen (inv.initial_met c member),
    fun c seen => ?_⟩
  rcases seen with asked | queued
  · exact Or.inr (Or.inl asked)
  · obtain ⟨e, member, rfl⟩ := List.mem_map.1 queued
    rw [answer_agenda] at member
    rcases Agenda.mem_expand_entries member with old | offered
    · -- an entry from before the answer keeps its reason
      have seenBefore : s.agenda.Seen e.course :=
        Or.inr (List.mem_map_of_mem (mem_markAnswered_entries old))
      rcases inv.met_within e.course seenBefore with start | asked | offered
      · exact Or.inl start
      · exact Or.inr (Or.inl (askedLater _ asked))
      · exact Or.inr (Or.inr offered)
    · rw [inv.rules] at offered
      exact Or.inr (Or.inr (expansionOffers_mono weights below offered))

/-- **A run of answers keeps the invariant** when each answer is below the final value of its
course. -/
theorem MetBelow.applyAll_answering {s : Session Rat} (inv : MetBelow rb initial G s)
    (weights : ∀ job, ∀ r ∈ rb.rulesFor job, 0 ≤ r.2 ∧ r.2 ≤ 1) (answers : List (String × Rat))
    (bounded : ∀ p ∈ answers, ∀ c : Course, c.name = p.1 → UnitLe p.2 (G.cf c)) :
    MetBelow rb initial G (s.applyAll (answering answers)) := by
  induction answers generalizing s with
  | nil => exact inv
  | cons p rest ih =>
    rw [applyAll_answering_cons]
    exact ih (inv.answer weights (bounded p List.mem_cons_self))
      fun q member => bounded q (List.mem_cons_of_mem _ member)

variable {options : SessionOptions} {answers : List (String × Rat)}

/-- A catalogue course answered with one value throughout ends with that value. -/
theorem cf_answering_of_mem (s : Session Rat)
    (once : ∀ (c : Course) x y, (c.name, x) ∈ answers → (c.name, y) ∈ answers → x = y)
    {c : Course} {value : Rat} (answered : (c.name, value) ∈ answers) :
    (s.applyAll (answering answers)).facts.cf c = value := by
  rw [Facts.cf, get?_answering_of_mem s answered fun v member => once c v value member answered]
  rfl

/-- After answers within `[0, 1]` from a fresh session, every course's value is within `[0, 1]`. -/
theorem cf_answering_mem_unit (inRange : ∀ p ∈ answers, 0 ≤ p.2 ∧ p.2 ≤ 1) (c : Course) :
    0 ≤ ((create rb options).applyAll (answering answers)).facts.cf c ∧
      ((create rb options).applyAll (answering answers)).facts.cf c ≤ 1 := by
  unfold Facts.cf
  cases found : ((create rb options).applyAll (answering answers)).facts.get? c.name with
  | none => exact ⟨le_refl 0, zero_le_one⟩
  | some value =>
    rcases get?_answering_eq_some _ found with answered | fresh
    · exact inRange _ answered
    · cases fresh

/-- **The frontier at the end of an adaptive run of answers is fixed by the final answers.** With
weights in `[0, 1]` and each catalogue course answered with one value in `[0, 1]`, a course waits
exactly when it is not asked and either starts the interview or is offered by the final scores. -/
theorem queued_iff_of_answers (weights : ∀ job, ∀ r ∈ rb.rulesFor job, 0 ≤ r.2 ∧ r.2 ≤ 1)
    (adaptive : options.mode = .adaptive)
    (once : ∀ (c : Course) x y, (c.name, x) ∈ answers → (c.name, y) ∈ answers → x = y)
    (inRange : ∀ p ∈ answers, 0 ≤ p.2 ∧ p.2 ≤ 1) (c : Course) :
    let s := (create rb options).applyAll (answering answers)
    c ∈ s.agenda.entries.map (·.course) ↔ c ∉ s.agenda.asked ∧
      (c ∈ Agenda.initialCourses rb options.seedCount options.mode ∨
        c ∈ (Agenda.expansionOffers rb s.inference).map (·.1)) := by
  intro s
  -- the final answers bound every answer of the run: each is its course's final value
  have bounded : ∀ p ∈ answers, ∀ d : Course, d.name = p.1 → UnitLe p.2 (s.facts.cf d) := by
    intro p member d named
    have answered : (d.name, p.2) ∈ answers := by
      rw [named]
      exact member
    rw [cf_answering_of_mem _ once answered]
    exact UnitLe.refl (inRange p member).1 (inRange p member).2
  have inv : MetBelow rb _ s.facts s :=
    (MetBelow.create rb options (cf_answering_mem_unit inRange)).applyAll_answering weights
      answers bounded
  have rules : s.rules = rb := applyAll_rules rb options _
  have fresh : ∀ e ∈ s.agenda.entries, e.course ∉ s.agenda.asked :=
    (applyAll_wf rb options _).fresh
  obtain ⟨-, expanded⟩ := applyAll_expanded rb options adaptive (le_refl 0) (answering answers)
  constructor
  · intro queued
    obtain ⟨e, member, rfl⟩ := List.mem_map.1 queued
    refine ⟨fresh e member, ?_⟩
    rcases inv.met_within e.course (Or.inr queued) with start | asked | offered
    · exact Or.inl start
    · exact absurd asked (fresh e member)
    · rw [Session.inference, rules]
      exact Or.inr offered
  · rintro ⟨unasked, start | offered⟩
    · exact (inv.initial_met c start).resolve_left unasked
    · have seen : s.agenda.Seen c := expanded c (by rw [rules]; exact offered)
      exact seen.resolve_left unasked

end Rational

/-! ### Two orders of the same answers -/

/-- **Answers given in another order end in the same place.** Over exact rationals, take two
adaptive runs from one fresh session over a validated rule base that give the same answers, each
catalogue course with one value and every value in `[0, 1]`, in any two orders. They end with the
same value for every name answered with one value (so the same facts, when every name is), the
same scores, the same asked courses and the same waiting courses, hence as many questions pending
and the interview over in both or in neither. -/
theorem reordered_answers_agree (table : List (Job × List (Course × Rat))) (rb : RuleBase Rat)
    (valid : RuleBase.ofTable table = .ok rb) (options : SessionOptions)
    (adaptive : options.mode = .adaptive) (first second : List (String × Rat))
    (sameSet : ∀ p, p ∈ first ↔ p ∈ second)
    (once : ∀ (c : Course) x y, (c.name, x) ∈ first → (c.name, y) ∈ first → x = y)
    (inRange : ∀ p ∈ first, 0 ≤ p.2 ∧ p.2 ≤ 1) :
    let s₁ := (create rb options).applyAll (answering first)
    let s₂ := (create rb options).applyAll (answering second)
    (∀ name, (∀ x y, (name, x) ∈ first → (name, y) ∈ first → x = y) →
        s₁.facts.get? name = s₂.facts.get? name) ∧
      ((∀ name x y, (name, x) ∈ first → (name, y) ∈ first → x = y) → s₁.facts = s₂.facts) ∧
      s₁.inference = s₂.inference ∧
      (∀ c, c ∈ s₁.agenda.asked ↔ c ∈ s₂.agenda.asked) ∧
      (∀ c, s₁.agenda.isQueued c = s₂.agenda.isQueued c) ∧
      s₁.agenda.pending = s₂.agenda.pending ∧ s₁.isDone = s₂.isDone := by
  intro s₁ s₂
  have weights := RuleBase.weights_of_ofTable valid
  have once₂ : ∀ (c : Course) x y, (c.name, x) ∈ second → (c.name, y) ∈ second → x = y :=
    fun c x y left right => once c x y ((sameSet _).2 left) ((sameSet _).2 right)
  have inRange₂ : ∀ p ∈ second, 0 ≤ p.2 ∧ p.2 ≤ 1 := fun p member => inRange p ((sameSet p).2 member)
  have sameName : ∀ name, (∀ x y, (name, x) ∈ first → (name, y) ∈ first → x = y) →
      s₁.facts.get? name = s₂.facts.get? name :=
    fun _ single => get?_answering_of_sameSet _ sameSet single
  have sameInference : s₁.inference = s₂.inference := by
    rw [Session.inference, Session.inference, applyAll_rules, applyAll_rules]
    exact infer_congr (fun c => by rw [Facts.cf, Facts.cf, sameName c.name (once c)]) rb
  have sameAsked : ∀ c, c ∈ s₁.agenda.asked ↔ c ∈ s₂.agenda.asked := by
    intro c
    rw [(applyAll_tracked rb options _).asked_iff, (applyAll_tracked rb options _).asked_iff,
      sameName c.name (once c)]
  have sameQueued : ∀ c, c ∈ s₁.agenda.entries.map (·.course) ↔
      c ∈ s₂.agenda.entries.map (·.course) := by
    intro c
    have queued₁ := queued_iff_of_answers weights adaptive once inRange c
    have queued₂ := queued_iff_of_answers weights adaptive once₂ inRange₂ c
    dsimp only at queued₁ queued₂
    rw [queued₁, queued₂, sameAsked, sameInference]
  have samePending : s₁.agenda.pending = s₂.agenda.pending :=
    (applyAll_wf rb options _).pending_eq_of_queued (applyAll_wf rb options _) sameQueued
  refine ⟨sameName, fun single => Facts.ext_get? fun name => sameName name (single name),
    sameInference, sameAsked, fun c => ?_, samePending, ?_⟩
  · rw [Bool.eq_iff_iff, Agenda.isQueued_iff, Agenda.isQueued_iff]
    exact sameQueued c
  · rw [isDone_eq_pending, isDone_eq_pending, samePending]

/-- Over the standard table with eight seeds: answering Software Development with `1`, Web
Programming with `1/2` and a name outside the catalogue with `1/2`, in one order or the reverse,
ends with the same facts, the same scores (Web Developer at `0.8688` in both) and as many questions
pending, though the two runs grew their frontiers in different orders. -/
theorem reordered_answers_agree_standard :
    let rb : RuleBase Rat := RuleBase.standard
    let first : List (String × Rat) :=
      [("Software Development", 1), ("Web Programming", 1 / 2), ("Foo", 1 / 2)]
    let second : List (String × Rat) :=
      [("Foo", 1 / 2), ("Web Programming", 1 / 2), ("Software Development", 1)]
    let s₁ := (create rb {}).applyAll (answering first)
    let s₂ := (create rb {}).applyAll (answering second)
    s₁.facts = s₂.facts ∧ s₁.inference = s₂.inference ∧ s₁.agenda.pending = s₂.agenda.pending ∧
      s₁.inference.score .webDeveloper = some (543 / 625) := by
  intro rb first second s₁ s₂
  have sameSet : ∀ p, p ∈ first ↔ p ∈ second := by
    intro p
    simp only [first, second, List.mem_cons, List.not_mem_nil, or_false]
    tauto
  have single : ∀ name x y, (name, x) ∈ first → (name, y) ∈ first → x = y := by
    intro name x y left right
    simp only [first, List.mem_cons, List.not_mem_nil, or_false, Prod.mk.injEq] at left right
    rcases left with ⟨rfl, rfl⟩ | ⟨rfl, rfl⟩ | ⟨rfl, rfl⟩ <;>
      rcases right with ⟨named, rfl⟩ | ⟨named, rfl⟩ | ⟨named, rfl⟩ <;>
      first | rfl | exact absurd named (by decide)
  have inRange : ∀ p ∈ first, 0 ≤ p.2 ∧ p.2 ≤ 1 := by decide +kernel
  obtain ⟨-, facts, inference, -, -, pending, -⟩ := reordered_answers_agree _ rb
    RuleBase.ofTable_standard {} rfl first second sameSet (fun c => single c.name) inRange
  have scored : s₁.inference.score .webDeveloper = some (543 / 625) := by decide +kernel
  exact ⟨facts single, inference, pending, scored⟩

/-- **A name outside the catalogue answered twice keeps its later value.** With no rules and no
seeds, answering such a name with `1/2` then `1`, or with `1` then `1/2`, gives the same answers
in two orders, none to a catalogue course and all in `[0, 1]`; the two runs end with different
facts. -/
theorem reordered_answers_last_wins :
    let first : List (String × Rat) := [("Foo", 1 / 2), ("Foo", 1)]
    let second : List (String × Rat) := [("Foo", 1), ("Foo", 1 / 2)]
    let s₁ := (create (⟨[]⟩ : RuleBase Rat) { seedCount := 0 }).applyAll (answering first)
    let s₂ := (create (⟨[]⟩ : RuleBase Rat) { seedCount := 0 }).applyAll (answering second)
    RuleBase.ofTable [] = .ok (⟨[]⟩ : RuleBase Rat) ∧ (∀ p, p ∈ first ↔ p ∈ second) ∧
      (∀ (c : Course) x y, (c.name, x) ∈ first → (c.name, y) ∈ first → x = y) ∧
      (∀ p ∈ first, 0 ≤ p.2 ∧ p.2 ≤ 1) ∧
      s₁.facts.get? "Foo" = some 1 ∧ s₂.facts.get? "Foo" = some (1 / 2) ∧ s₁.facts ≠ s₂.facts := by
  intro first second s₁ s₂
  have unnamed : ∀ c : Course, c.name ≠ "Foo" := Course.ofName?_eq_none_iff.1 (by decide)
  -- each run ends by recording its last answer
  have later₁ : s₁.facts.get? "Foo" = some 1 := by
    rw [show s₁ = ((((create ⟨[]⟩ { seedCount := 0 }).answer "Foo" (1 / 2)).1).answer "Foo" 1).1
      from rfl, answer_facts, Facts.get?_record, if_pos rfl]
  have later₂ : s₂.facts.get? "Foo" = some (1 / 2) := by
    rw [show s₂ = ((((create ⟨[]⟩ { seedCount := 0 }).answer "Foo" 1).1).answer "Foo" (1 / 2)).1
      from rfl, answer_facts, Facts.get?_record, if_pos rfl]
  refine ⟨by simp [RuleBase.ofTable, RuleBase.sortByJob, RuleBase.firstRepeatedJob], ?_, ?_,
    by decide +kernel, later₁, later₂, fun same => ?_⟩
  · intro p
    simp only [first, second, List.mem_cons, List.not_mem_nil, or_false]
    exact or_comm
  · intro c x y answered
    simp only [first, List.mem_cons, List.not_mem_nil, or_false, Prod.mk.injEq] at answered
    rcases answered with ⟨named, -⟩ | ⟨named, -⟩ <;> exact absurd named (unnamed c)
  · rw [same, later₂, Option.some_inj] at later₁
    exact absurd later₁ (by decide +kernel)

end Session

end CareerCompass
