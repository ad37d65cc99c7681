import CareerCompass.Proofs.Agenda.NextQuestion
import CareerCompass.Interview.Session
/-!
# Runs of a session

A caller drives a session by answers (any name, any certainty factor), Likert answers (refused
outside 1–5, leaving the session as it was) and resets. Each operation answers, does nothing or
starts afresh (`apply_cases`), so a property of fresh sessions that every answer keeps holds after
every run (`applyAll_induction`).

* `Tracked`: the asked courses are exactly the catalogue courses whose name has an answer, each
  asked once; every queued course is referenced by the rules; the agenda is a history of single
  steps from the empty one.
* `session_asked_iff_answered`: hence, after any run, the frontier holds referenced courses not
  yet asked, the current question is one of them, and the question number is one more than the
  number of catalogue courses answered, at most 29.

Answering a name marks a course asked exactly when the name is that course's display name, so
the asked set follows the answers through the inverse `Course.ofName?` of `Course.name`.
-/

set_option linter.unusedSectionVars false

namespace CareerCompass

/-! ### Display names -/

namespace Course

theorem ofName?_name (c : Course) : ofName? c.name = some c := by
  have everyName : ∀ d ∈ all, ofName? d.name = some d := by decide +kernel
  exact everyName c (mem_all c)

theorem name_injective : Function.Injective Course.name := by
  intro c d same
  have found := ofName?_name c
  rw [same, ofName?_name d] at found
  exact (Option.some.inj found).symm

theorem ofName?_eq_some_iff {text : String} {c : Course} :
    ofName? text = some c ↔ c.name = text := by
  constructor
  · intro found
    simpa using List.find?_some found
  · rintro rfl
    exact ofName?_name c

theorem ofName?_eq_none_iff {text : String} :
    ofName? text = none ↔ ∀ c : Course, c.name ≠ text := by
  constructor
  · intro missing c named
    rw [← named, ofName?_name] at missing
    cases missing
  · intro unnamed
    exact List.find?_eq_none.2 fun c _ named => unnamed c (by simpa using named)

end Course

/-! ### Referenced courses -/

namespace RuleBase

variable {α : Type} [Scalar α]

theorem references_of_mem_rulesFor {rb : RuleBase α} {job : Job} {c : Course}
    (member : c ∈ (rb.rulesFor job).map (·.1)) : rb.references c = true := by
  unfold rulesFor at member
  split at member
  · next j rules found =>
    obtain ⟨⟨c, w⟩, rule, rfl⟩ := List.mem_map.1 member
    have entry := List.mem_of_find?_eq_some found
    have listed : (j, c, w) ∈ rb.rules :=
      List.mem_flatMap.2 ⟨(j, rules), entry, List.mem_map.2 ⟨(c, w), rule, rfl⟩⟩
    simp only [references, List.any_eq_true, beq_iff_eq]
    exact ⟨(j, c, w), listed, rfl⟩
  · cases member

theorem references_of_mem_referencedCourses {rb : RuleBase α} {c : Course}
    (member : c ∈ rb.referencedCourses) : rb.references c = true :=
  (List.mem_filter.1 member).2

theorem mem_referencedCourses_of_mem_seedCourses {rb : RuleBase α} {k : Nat} {c : Course}
    (member : c ∈ rb.seedCourses k) : c ∈ rb.referencedCourses := by
  obtain ⟨⟨d, w⟩, taken, rfl⟩ := List.mem_map.1 member
  have weighed := (sortDescBy_perm _ _).subset (List.mem_of_mem_take taken)
  obtain ⟨e, referenced, same⟩ := List.mem_map.1 weighed
  cases same
  exact referenced

end RuleBase

namespace Agenda

variable {α : Type} [Scalar α]

theorem references_of_mem_expansionOffers {rb : RuleBase α} {inf : Inference α} {c : Course}
    (member : c ∈ (expansionOffers rb inf).map (·.1)) : rb.references c = true := by
  obtain ⟨⟨c, w⟩, offered, rfl⟩ := List.mem_map.1 member
  obtain ⟨⟨job, cf⟩, _, rules⟩ := List.mem_flatMap.1 offered
  dsimp only at rules
  split at rules
  · cases rules
  · exact RuleBase.references_of_mem_rulesFor (List.mem_map.2 ⟨(c, w), rules, rfl⟩)

/-- A fresh agenda queues only referenced courses: seeds or every referenced course. -/
theorem references_of_mem_create {rb : RuleBase α} {seedCount : Nat} {mode : AgendaMode}
    {e : FrontierEntry α} (member : e ∈ (create rb seedCount mode).entries) :
    rb.references e.course = true := by
  revert member e
  unfold create
  apply List.foldlRecOn
    (motive := fun b : Agenda α => ∀ e ∈ b.entries, rb.references e.course = true)
  · intro e member
    cases member
  · intro b queued c chosen e member
    rcases mem_push_entries member with old | new
    · exact queued e old
    · rw [new]
      -- the initial courses are the seeds or all referenced courses
      cases mode with
      | adaptive =>
        exact RuleBase.references_of_mem_referencedCourses
          (RuleBase.mem_referencedCourses_of_mem_seedCourses chosen)
      | exhaustive => exact RuleBase.references_of_mem_referencedCourses chosen

end Agenda

/-! ### Operations and runs -/

namespace Session

variable {α : Type} [Scalar α]

/-- What a caller can do to a session. -/
inductive Op (α : Type) where
  /-- Answer a name (any text) with a certainty factor. -/
  | answer (name : String) (cf : α)
  /-- Answer a name on the Likert scale. -/
  | submit (name : String) (value : Nat)
  /-- Forget the answers and start over. -/
  | reset

/-- Performs an operation; a refused Likert answer leaves the session as it was. -/
def apply (s : Session α) : Op α → Session α
  | .answer name cf => (s.answer name cf).1
  | .submit name value =>
    match s.submitAnswer name value with
    | .ok (next, _) => next
    | .error _ => s
  | .reset => s.reset

/-- Performs operations in order. -/
def applyAll (s : Session α) (ops : List (Op α)) : Session α := ops.foldl apply s

/-- The agenda after an answer is recorded and before it grows: the course of that name, if
there is one, is asked. -/
def markAnswered (a : Agenda α) (name : String) : Agenda α :=
  match Course.ofName? name with
  | some c => (a.markAsked c).2
  | none => a

theorem answer_agenda (s : Session α) (name : String) (cf : α) :
    (s.answer name cf).1.agenda =
      ((markAnswered s.agenda name).expand s.rules (infer s.rules (s.facts.record name cf).2)).2 :=
  rfl

@[simp] theorem answer_facts (s : Session α) (name : String) (cf : α) :
    (s.answer name cf).1.facts = (s.facts.record name cf).2 := rfl

@[simp] theorem answer_rules (s : Session α) (name : String) (cf : α) :
    (s.answer name cf).1.rules = s.rules := rfl

@[simp] theorem answer_options (s : Session α) (name : String) (cf : α) :
    (s.answer name cf).1.options = s.options := rfl

/-- Every operation answers, does nothing, or starts afresh. -/
theorem apply_cases (s : Session α) (op : Op α) :
    (∃ name cf, s.apply op = (s.answer name cf).1) ∨ s.apply op = s ∨
      s.apply op = create s.rules s.options := by
  cases op with
  | answer name cf => exact Or.inl ⟨name, cf, rfl⟩
  | submit name value =>
    cases read : Likert.ofValue? value with
    | ok level => exact Or.inl ⟨name, level.cf, by simp [apply, submitAnswer, read]⟩
    | error e => exact Or.inr (Or.inl (by simp [apply, submitAnswer, read]))
  | reset => exact Or.inr (Or.inr rfl)

/-- **What holds of a fresh session and survives every answer holds after every run.** -/
theorem applyAll_induction (P : Session α → Prop) {rb : RuleBase α} {options : SessionOptions}
    (created : P (create rb options))
    (answered : ∀ s name cf, s.rules = rb → s.options = options → P s →
      P (s.answer name cf).1)
    (ops : List (Op α)) : P ((create rb options).applyAll ops) := by
  -- the run is on a session of the same rules and options all along
  suffices along : ∀ s : Session α, s.rules = rb → s.options = options → P s →
      P (s.applyAll ops) from along _ rfl rfl created
  induction ops with
  | nil => exact fun s _ _ holds => holds
  | cons op ops ih =>
    intro s rules options' holds
    rcases apply_cases s op with ⟨name, cf, step⟩ | step | step
    · rw [applyAll, List.foldl_cons, ← applyAll, step]
      exact ih _ rules options' (answered s name cf rules options' holds)
    · rw [applyAll, List.foldl_cons, ← applyAll, step]
      exact ih s rules options' holds
    · rw [applyAll, List.foldl_cons, ← applyAll, step, rules, options']
      exact ih _ rfl rfl created

theorem applyAll_rules (rb : RuleBase α) (options : SessionOptions) (ops : List (Op α)) :
    ((create rb options).applyAll ops).rules = rb :=
  applyAll_induction (fun s => s.rules = rb) rfl (fun _ _ _ rules _ _ => rules) ops

theorem applyAll_options (rb : RuleBase α) (options : SessionOptions) (ops : List (Op α)) :
    ((create rb options).applyAll ops).options = options :=
  applyAll_induction (fun s => s.options = options) rfl (fun _ _ _ _ options' _ => options') ops

/-! ### Asking by name -/

section MarkAnswered

variable {a : Agenda α} {name : String}

theorem mem_markAnswered_asked (c : Course) :
    c ∈ (markAnswered a name).asked ↔ c.name = name ∨ c ∈ a.asked := by
  unfold markAnswered
  split
  · next d named =>
    rw [Agenda.mem_markAsked_asked, ← Course.ofName?_eq_some_iff.1 named]
    exact or_congr_left ⟨fun same => by rw [same], fun same => Course.name_injective same⟩
  · next unnamed =>
    have other := Course.ofName?_eq_none_iff.1 unnamed c
    simp [other]

theorem markAnswered_asked_nodup (nodup : a.asked.Nodup) : (markAnswered a name).asked.Nodup := by
  unfold markAnswered
  split
  · exact Agenda.markAsked_asked_nodup nodup _
  · exact nodup

theorem mem_markAnswered_entries {e : FrontierEntry α}
    (member : e ∈ (markAnswered a name).entries) : e ∈ a.entries := by
  unfold markAnswered at member
  split at member
  · simp only [Agenda.markAsked_entries, List.mem_filter] at member
    exact member.1
  · exact member

theorem markAnswered_grows : a.Grows [] (markAnswered a name) := by
  unfold markAnswered
  split
  · exact .ask _ .refl
  · exact .refl

end MarkAnswered

/-- An answer asks its course, if it names one, and expands: a history of single steps. -/
theorem answer_grows (s : Session α) (name : String) (cf : α) :
    ∃ new, s.agenda.Grows new (s.answer name cf).1.agenda := by
  obtain ⟨new, expanded, _⟩ := Agenda.expand_grows (a := markAnswered s.agenda name) s.rules
    (infer s.rules (s.facts.record name cf).2)
  rw [answer_agenda]
  exact ⟨[] ++ new, markAnswered_grows.trans expanded⟩

theorem answer_agenda_mode (s : Session α) (name : String) (cf : α) :
    (s.answer name cf).1.agenda.mode = s.agenda.mode := by
  obtain ⟨_, grows⟩ := answer_grows s name cf
  exact grows.mode_eq

/-! ### What every run keeps -/

/-- What a session keeps along every run. -/
structure Tracked (s : Session α) : Prop where
  /-- A course is asked exactly when its name has an answer. -/
  asked_iff : ∀ c : Course, c ∈ s.agenda.asked ↔ (s.facts.get? c.name).isSome
  /-- No course is asked twice. -/
  asked_nodup : s.agenda.asked.Nodup
  /-- Only courses of the rules are queued. -/
  referenced : ∀ e ∈ s.agenda.entries, s.rules.references e.course = true
  /-- The agenda is a history of single steps from the empty one. -/
  history : ∃ log, (Agenda.empty s.options.mode).Grows log s.agenda

theorem Tracked.create (rb : RuleBase α) (options : SessionOptions) :
    (create rb options).Tracked where
  asked_iff c := by simp [Session.create, Agenda.create_asked, Facts.empty, Facts.get?]
  asked_nodup := by simp [Session.create, Agenda.create_asked]
  referenced _ member := Agenda.references_of_mem_create member
  history := Agenda.create_grows rb options.seedCount options.mode

theorem Tracked.answer {s : Session α} (inv : s.Tracked) (name : String) (cf : α) :
    (s.answer name cf).1.Tracked where
  asked_iff c := by
    rw [answer_agenda, Agenda.expand_asked, mem_markAnswered_asked, inv.asked_iff, answer_facts,
      Facts.get?_record]
    by_cases named : c.name = name <;> simp [named]
  asked_nodup := by
    rw [answer_agenda, Agenda.expand_asked]
    exact markAnswered_asked_nodup inv.asked_nodup
  referenced e member := by
    rw [answer_agenda] at member
    rcases Agenda.mem_expand_entries member with old | offered
    · exact inv.referenced e (mem_markAnswered_entries old)
    · exact Agenda.references_of_mem_expansionOffers offered
  history := by
    obtain ⟨log, grows⟩ := inv.history
    obtain ⟨new, answered⟩ := answer_grows s name cf
    exact ⟨log ++ new, grows.trans answered⟩

theorem applyAll_tracked (rb : RuleBase α) (options : SessionOptions) (ops : List (Op α)) :
    ((create rb options).applyAll ops).Tracked :=
  applyAll_induction Tracked (.create rb options) (fun _ name cf _ _ inv => inv.answer name cf) ops

/-- **The asked courses follow the answers, and the frontier stays within the rules.** After any
run from a fresh session, in either mode, a catalogue course is asked exactly when its name has an
answer. Every course of the frontier is referenced by the rules and not yet asked, and so is the
current question. The question number is one more than the number of catalogue courses answered,
so it is at most 29. -/
theorem session_asked_iff_answered (rb : RuleBase α) (options : SessionOptions)
    (ops : List (Op α)) :
    let s := (create rb options).applyAll ops
    (∀ c : Course, c ∈ s.agenda.asked ↔ (s.facts.get? c.name).isSome) ∧
      (∀ e ∈ s.agenda.frontier,
        rb.references e.course = true ∧ e.course ∉ s.agenda.asked) ∧
      (∀ c, s.currentQuestion = some c → rb.references c = true ∧ c ∉ s.agenda.asked) ∧
      s.questionNumber = (Course.all.filter fun c => (s.facts.get? c.name).isSome).length + 1 ∧
      s.questionNumber ≤ 29 := by
  intro s
  have inv := applyAll_tracked rb options ops
  have rules := applyAll_rules rb options ops
  have waiting : ∀ e ∈ s.agenda.open_,
      rb.references e.course = true ∧ e.course ∉ s.agenda.asked := by
    intro e member
    have kept := List.mem_filter.1 member
    refine ⟨rules ▸ inv.referenced e kept.1, fun asked => ?_⟩
    simp [Agenda.isAsked, asked] at kept
  -- both lists hold each answered course once
  have answered : s.agenda.asked.Perm (Course.all.filter fun c => (s.facts.get? c.name).isSome) :=
    (List.perm_ext_iff_of_nodup inv.asked_nodup (Course.all_nodup.filter _)).2 fun c => by
      rw [inv.asked_iff, List.mem_filter]
      exact ⟨fun named => ⟨Course.mem_all c, named⟩, fun named => named.2⟩
  refine ⟨inv.asked_iff, fun e member => ?_, fun c next => ?_, ?_, ?_⟩
  · exact waiting e (Agenda.mem_frontier_iff.1 member)
  · obtain ⟨e, member, rfl⟩ := Agenda.mem_open_of_peekNext next
    exact waiting e member
  · rw [questionNumber, answered.length_eq]
  · rw [questionNumber, answered.length_eq]
    have bound := List.length_filter_le (fun c => (s.facts.get? c.name).isSome) Course.all
    have catalogue : Course.all.length = 28 := rfl
    omega

/-- With the standard table over rationals and no seeds, answering `Software Development` with 1
queues the rules of the three jobs it scores: `Algorithms and Programming` arrives first, and the
next question is `Web Programming`, the first at 0.95. Both are referenced and not asked. -/
theorem session_asked_iff_answered_softwareDevelopment :
    let s := (create (RuleBase.standard : RuleBase Rat) { seedCount := 0 }).applyAll
      [.answer "Software Development" 1]
    (∃ e ∈ s.agenda.frontier, e.course = .algorithmsAndProgramming ∧
        (RuleBase.standard : RuleBase Rat).references e.course = true ∧
        e.course ∉ s.agenda.asked) ∧
      ((RuleBase.standard : RuleBase Rat).references Course.webProgramming = true ∧
        Course.webProgramming ∉ s.agenda.asked) ∧
      s.questionNumber = 2 := by
  intro s
  obtain ⟨-, frontier, next, number, -⟩ :=
    session_asked_iff_answered (RuleBase.standard : RuleBase Rat) { seedCount := 0 }
      [.answer "Software Development" 1]
  have first : (s.agenda.open_.map (·.course)).head? = some .algorithmsAndProgramming := by
    decide +kernel
  obtain ⟨e, waiting, named⟩ := List.mem_map.1 (List.mem_of_mem_head? first)
  have queued : e ∈ s.agenda.frontier := Agenda.mem_frontier_iff.2 waiting
  have current : s.currentQuestion = some .webProgramming := by decide +kernel
  have counted : (Course.all.filter fun c => (s.facts.get? c.name).isSome).length = 1 := by
    decide +kernel
  exact ⟨⟨e, queued, named, frontier e queued⟩, next _ current, by rw [number, counted]⟩

end Session

end CareerCompass
