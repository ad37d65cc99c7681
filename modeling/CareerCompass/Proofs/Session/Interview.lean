import CareerCompass.Proofs.Session.Expansion
/-!
# The interview loop

A client runs an interview by answering the current question, over and over, until there is none.
`Session.interview` is that loop. It takes its replies in turn from a stream, each a certainty
factor (sent through `answer`) or a Likert level (sent through `submitAnswer`), and gives each
question with the session after its answer, and the session it ends in.

The current question is a waiting course, so it is not asked yet, and answering it asks it. The
catalogue courses not yet asked are therefore a measure that every round lowers, and the loop ends.

* `interview_asked`: the loop asks exactly its questions, each once and none asked before it
  started.
* `interview_induction`: what holds at the start and survives every answer holds of every session
  of the loop.
* `interview_ends`: from any session a caller reaches, the loop ends with the interview over, after
  at most as many answers as referenced courses remain unasked. From a fresh session, which is
  also what a reset gives, it asks between `min k r` and `r` of the `r` referenced courses in
  adaptive mode (`k` the seed count) and all `r` of them in exhaustive mode.

The lower bound holds because the fresh agenda meets every seed, a course once met stays met, and
when the interview is over every course met has been asked.
-/

set_option linter.unusedSectionVars false

namespace CareerCompass

namespace Agenda

variable {α : Type} [Scalar α]

/-- A course once met stays met along a history. -/
theorem Grows.seen {start a : Agenda α} {log : List Course} (grows : start.Grows log a)
    {c : Course} (seen : start.Seen c) : a.Seen c := by
  induction grows with
  | refl => exact seen
  | push course priority _ ih => exact ih.push course priority
  | ask course _ ih => exact ih.markAsked course

theorem markAsked_asked_of_not_mem {a : Agenda α} {course : Course} (fresh : course ∉ a.asked) :
    (a.markAsked course).2.asked = course :: a.asked := by
  have unasked : a.asked.contains course = false := by simpa using fresh
  simp only [markAsked, unasked, Bool.false_eq_true, if_false]

/-- The courses a fresh agenda starts with: the seeds, or every referenced course. -/
def initialCourses (rb : RuleBase α) (seedCount : Nat) : AgendaMode → List Course
  | .adaptive => rb.seedCourses seedCount
  | .exhaustive => rb.referencedCourses

theorem create_eq (rb : RuleBase α) (seedCount : Nat) (mode : AgendaMode) :
    create rb seedCount mode =
      (initialCourses rb seedCount mode).foldl (fun a c => (a.push c seedPriority).2)
        (empty mode) := by
  cases mode <;> rfl

/-- Pushing courses at one priority is offering them. -/
theorem foldl_push_eq_foldl_offer (courses : List Course) (priority : α) (acc : Nat × Agenda α) :
    courses.foldl (fun a c => (a.push c priority).2) acc.2 =
      ((courses.map fun c => (c, priority)).foldl offer acc).2 := by
  induction courses generalizing acc with
  | nil => rfl
  | cons c rest ih => exact ih (offer acc (c, priority))

/-- A fresh agenda has met every course it starts with. -/
theorem seen_create (rb : RuleBase α) (seedCount : Nat) (mode : AgendaMode) :
    ∀ c ∈ initialCourses rb seedCount mode, (create rb seedCount mode).Seen c := by
  intro c member
  rw [create_eq, foldl_push_eq_foldl_offer _ _ (0, empty mode)]
  refine seen_foldl_offer _ _ c ?_
  simpa [List.map_map] using member

end Agenda

namespace RuleBase

variable {α : Type} [Scalar α]

omit [Scalar α] in
theorem referencedCourses_nodup (rb : RuleBase α) : rb.referencedCourses.Nodup :=
  Course.all_nodup.filter _

/-- The seeds are distinct: they are some of the referenced courses, reordered. -/
theorem seedCourses_nodup (rb : RuleBase α) (k : Nat) : (rb.seedCourses k).Nodup := by
  have weighed : (rb.courseWeights.map (·.1)).Nodup := by
    simpa [courseWeights, List.map_map, Function.comp_def] using rb.referencedCourses_nodup
  have sorted : ((sortDescBy (·.2) rb.courseWeights).map (·.1)).Nodup :=
    (((sortDescBy_perm _ _).map _).nodup_iff).2 weighed
  exact sorted.sublist ((List.take_sublist k _).map _)

theorem initialCourses_nodup (rb : RuleBase α) (seedCount : Nat) (mode : AgendaMode) :
    (Agenda.initialCourses rb seedCount mode).Nodup := by
  cases mode with
  | adaptive => exact rb.seedCourses_nodup seedCount
  | exhaustive => exact rb.referencedCourses_nodup

end RuleBase

namespace Session

variable {α : Type} [Scalar α]

/-! ### Replies -/

/-- How a caller answers a question. -/
inductive Reply (α : Type) where
  /-- A certainty factor, through `answer`. -/
  | cf (value : α)
  /-- A Likert level, through `submitAnswer`. -/
  | likert (level : Likert)

namespace Reply

/-- The operation that gives the reply to the question of a name. -/
def op : Reply α → String → Op α
  | .cf value, name => .answer name value
  | .likert level, name => .submit name level.value

/-- The certainty factor a reply records. -/
def certainty : Reply α → α
  | .cf value => value
  | .likert level => level.cf

end Reply

/-- A reply records its certainty factor: a Likert level is always on the scale. -/
theorem apply_op (s : Session α) (r : Reply α) (name : String) :
    s.apply (r.op name) = (s.answer name r.certainty).1 := by
  cases r with
  | cf value => rfl
  | likert level => simp [Reply.op, Reply.certainty, apply, submitAnswer, Likert.ofValue?_value]

/-! ### Answering the current question -/

/-- The catalogue courses not yet asked. -/
def unasked (s : Session α) : List Course := Course.all.filter fun c => !s.agenda.isAsked c

/-- The current question waits, so it is not asked yet. -/
theorem not_mem_asked_of_currentQuestion {s : Session α} {c : Course}
    (next : s.currentQuestion = some c) : c ∉ s.agenda.asked := by
  obtain ⟨e, waiting, rfl⟩ := Agenda.mem_open_of_peekNext next
  simpa [Agenda.isAsked] using (List.mem_filter.1 waiting).2

/-- Answering the current question asks it, in front of the courses asked before. -/
theorem answer_current_asked {s : Session α} {c : Course} (next : s.currentQuestion = some c)
    (cf : α) : (s.answer c.name cf).1.agenda.asked = c :: s.agenda.asked := by
  rw [answer_agenda, Agenda.expand_asked, markAnswered, Course.ofName?_name]
  exact Agenda.markAsked_asked_of_not_mem (not_mem_asked_of_currentQuestion next)

/-- Answering the current question takes it out of the courses not yet asked, in any list. -/
theorem filter_unasked_answer_current {s : Session α} {c : Course}
    (next : s.currentQuestion = some c) (cf : α) (courses : List Course) :
    (courses.filter fun d => !(s.answer c.name cf).1.agenda.isAsked d) =
      (courses.filter fun d => !s.agenda.isAsked d).filter (· != c) := by
  simp only [List.filter_filter, Agenda.isAsked, answer_current_asked next]
  apply List.filter_congr
  intro d _
  rw [List.contains_cons, Bool.not_or, bne, Bool.and_comm]

/-- Each answer to the current question lowers the number of courses not yet asked. -/
theorem unasked_length_lt {s : Session α} {c : Course} (next : s.currentQuestion = some c)
    (r : Reply α) : (s.apply (r.op c.name)).unasked.length < s.unasked.length := by
  rw [apply_op, unasked, unasked, filter_unasked_answer_current next,
    List.length_filter_lt_length_iff_exists]
  refine ⟨c, List.mem_filter.2 ⟨Course.mem_all c, ?_⟩, by simp⟩
  simpa [Agenda.isAsked] using not_mem_asked_of_currentQuestion next

/-! ### The loop -/

/-- The interview loop: while there is a question, answer it with the next reply. Gives each
question with the session after its answer, and the session the loop ends in. -/
def interview (s : Session α) (replies : Nat → Reply α) :
    List (Course × Session α) × Session α :=
  match next : s.currentQuestion with
  | none => ([], s)
  | some c =>
    let rest := (s.apply ((replies 0).op c.name)).interview fun i => replies (i + 1)
    ((c, s.apply ((replies 0).op c.name)) :: rest.1, rest.2)
termination_by s.unasked.length
decreasing_by exact unasked_length_lt next (replies 0)

/-- The questions of an interview, in the order asked. -/
def questions (s : Session α) (replies : Nat → Reply α) : List Course :=
  (s.interview replies).1.map (·.1)

theorem interview_of_none {s : Session α} (done : s.currentQuestion = none)
    (replies : Nat → Reply α) : s.interview replies = ([], s) := by
  rw [interview]
  split
  · rfl
  · next c next => rw [done] at next; cases next

theorem interview_of_some {s : Session α} {c : Course} (next : s.currentQuestion = some c)
    (replies : Nat → Reply α) :
    s.interview replies =
      ((c, s.apply ((replies 0).op c.name)) ::
          ((s.apply ((replies 0).op c.name)).interview fun i => replies (i + 1)).1,
        ((s.apply ((replies 0).op c.name)).interview fun i => replies (i + 1)).2) := by
  rw [interview]
  split
  · next none => rw [next] at none; cases none
  · next d same => rw [next, Option.some.injEq] at same; rw [same]

theorem questions_of_none {s : Session α} (done : s.currentQuestion = none)
    (replies : Nat → Reply α) : s.questions replies = [] := by
  rw [questions, interview_of_none done]
  rfl

theorem questions_of_some {s : Session α} {c : Course} (next : s.currentQuestion = some c)
    (replies : Nat → Reply α) :
    s.questions replies =
      c :: (s.apply ((replies 0).op c.name)).questions fun i => replies (i + 1) := by
  rw [questions, interview_of_some next]
  rfl

/-- The loop ends when the interview is over. -/
theorem interview_isDone (s : Session α) (replies : Nat → Reply α) :
    (s.interview replies).2.isDone = true := by
  induction s, replies using interview.induct with
  | case1 s replies done =>
    rw [interview_of_none done, isDone, done]
    rfl
  | case2 s replies c next ih =>
    rw [interview_of_some next]
    exact ih

/-- **The loop asks exactly its questions, each once and none asked before.** The courses asked
at the end are the questions, latest first, in front of those asked at the start. -/
theorem interview_asked (s : Session α) (replies : Nat → Reply α) :
    (s.interview replies).2.agenda.asked = (s.questions replies).reverse ++ s.agenda.asked ∧
      (s.questions replies).Nodup ∧ (s.questions replies).Disjoint s.agenda.asked := by
  induction s, replies using interview.induct with
  | case1 s replies done =>
    rw [interview_of_none done, questions_of_none done]
    exact ⟨rfl, List.nodup_nil, fun _ none => by cases none⟩
  | case2 s replies c next ih =>
    obtain ⟨asked, nodup, disjoint⟩ := ih
    have fresh := not_mem_asked_of_currentQuestion next
    -- after the answer, `c` heads the asked courses, and the later questions avoid them all
    have moved : (s.apply ((replies 0).op c.name)).agenda.asked = c :: s.agenda.asked := by
      rw [apply_op, answer_current_asked next]
    rw [moved] at asked disjoint
    rw [interview_of_some next, questions_of_some next]
    refine ⟨by simpa using asked, List.nodup_cons.2 ⟨fun later => ?_, nodup⟩, ?_⟩
    · exact disjoint later List.mem_cons_self
    · intro d member wasAsked
      rcases List.mem_cons.1 member with rfl | later
      · exact fresh wasAsked
      · exact disjoint later (List.mem_cons_of_mem c wasAsked)

/-- **What holds at the start and survives every answer holds along the whole interview.** A
property kept by answering the current question with the `i`-th reply, whenever the session this
reaches passes a guard, holds of every session of an interview whose sessions all pass the guard,
and of the session it ends in. -/
theorem interview_induction (P R : Session α → Prop) {replies : Nat → Reply α}
    (step : ∀ i s c, P s → s.currentQuestion = some c → R (s.apply ((replies i).op c.name)) →
      P (s.apply ((replies i).op c.name)))
    {s : Session α} (holds : P s) (guard : ∀ q ∈ (s.interview replies).1, R q.2) :
    (∀ q ∈ (s.interview replies).1, P q.2) ∧ P (s.interview replies).2 := by
  induction s, replies using interview.induct with
  | case1 s replies done =>
    rw [interview_of_none done]
    exact ⟨fun _ none => (by cases none), holds⟩
  | case2 s replies c next ih =>
    rw [interview_of_some next] at guard ⊢
    have first := step 0 s c holds next (guard _ List.mem_cons_self)
    -- the rest of the loop answers with the rest of the replies
    obtain ⟨along, last⟩ := ih (fun i => step (i + 1)) first
      fun q member => guard q (List.mem_cons_of_mem _ member)
    refine ⟨fun q member => ?_, last⟩
    rcases List.mem_cons.1 member with rfl | later
    · exact first
    · exact along q later

/-- **An interview that always asks the first course of a list not yet asked asks them in
order.** Suppose a property, kept by every answer whose session passes a guard, makes the current
question the first course of `order` not yet asked, and none when there is none. Then an interview
whose sessions all pass the guard asks exactly the courses of `order` not asked at its start, in
the order of `order`. -/
theorem questions_eq_of_first (order : List Course) (nodup : order.Nodup)
    (P R : Session α → Prop) {replies : Nat → Reply α}
    (step : ∀ i s c, P s → s.currentQuestion = some c → R (s.apply ((replies i).op c.name)) →
      P (s.apply ((replies i).op c.name)))
    (first : ∀ s, P s → s.currentQuestion = (order.filter fun c => !s.agenda.isAsked c).head?)
    {s : Session α} (holds : P s) (guard : ∀ q ∈ (s.interview replies).1, R q.2) :
    s.questions replies = order.filter fun c => !s.agenda.isAsked c := by
  induction s, replies using interview.induct with
  | case1 s replies done =>
    rw [questions_of_none done]
    exact (List.head?_eq_none_iff.1 ((first s holds).symm.trans done)).symm
  | case2 s replies c next ih =>
    rw [interview_of_some next] at guard
    obtain ⟨later, waiting⟩ := List.head?_eq_some_iff.1 ((first s holds).symm.trans next)
    -- `c` is the first course of `order` not asked, and answering it leaves the others
    have fresh : c ∉ later :=
      (List.nodup_cons.1 (waiting ▸ nodup.filter _)).1
    have rest : ((order.filter fun d => !(s.apply ((replies 0).op c.name)).agenda.isAsked d)) =
        later := by
      rw [apply_op, filter_unasked_answer_current next, waiting, List.filter_cons_of_neg (by simp),
        List.filter_eq_self.2 fun d member => by simpa using ne_of_mem_of_not_mem member fresh]
    rw [questions_of_some next, ih (fun i => step (i + 1))
      (step 0 s c holds next (guard _ List.mem_cons_self))
      (fun q member => guard q (List.mem_cons_of_mem _ member)), rest, waiting]

/-- Every question of an interview from a session that keeps `Tracked` is referenced by the
rules. -/
theorem interview_references {s : Session α} (inv : s.Tracked) (replies : Nat → Reply α) :
    ∀ c ∈ s.questions replies, s.rules.references c = true := by
  induction s, replies using interview.induct with
  | case1 s replies done =>
    rw [questions_of_none done]
    intro c none
    cases none
  | case2 s replies c next ih =>
    have answered : (s.apply ((replies 0).op c.name)).Tracked := by
      rw [apply_op]
      exact inv.answer _ _
    rw [questions_of_some next]
    intro d member
    rcases List.mem_cons.1 member with rfl | later
    · obtain ⟨e, waiting, rfl⟩ := Agenda.mem_open_of_peekNext next
      exact inv.referenced e (List.mem_filter.1 waiting).1
    · have sameRules : (s.apply ((replies 0).op c.name)).rules = s.rules := by
        rw [apply_op]
        rfl
      exact sameRules ▸ ih answered d later

/-- A course the agenda has met is asked by the end of an interview. -/
theorem asked_of_seen (s : Session α) (replies : Nat → Reply α) {c : Course}
    (seen : s.agenda.Seen c) : c ∈ (s.interview replies).2.agenda.asked := by
  have kept : ∀ (i : Nat) (t : Session α) (d : Course), t.agenda.Seen c →
      t.currentQuestion = some d → True →
      (t.apply ((replies i).op d.name)).agenda.Seen c := by
    intro i t d met _ _
    rw [apply_op]
    obtain ⟨_, grows⟩ := answer_grows t d.name (replies i).certainty
    exact grows.seen met
  obtain ⟨-, last⟩ := interview_induction (fun t => t.agenda.Seen c) (fun _ => True) kept seen
    fun _ _ => trivial
  have done : (s.interview replies).2.agenda.peekNext = none :=
    Option.isNone_iff_eq_none.1 (interview_isDone s replies)
  exact last.asked_of_open_eq_nil ((Agenda.peekNext_eq_none_iff_open _).1 done)

theorem reset_eq_create (s : Session α) : s.reset = create s.rules s.options := rfl

/-- An interview from a tracked session asks referenced courses not yet asked, each once. -/
theorem questions_length_le {s : Session α} (inv : s.Tracked) (replies : Nat → Reply α) :
    (s.questions replies).length ≤
      (s.rules.referencedCourses.filter fun c => !s.agenda.isAsked c).length := by
  obtain ⟨-, nodup, disjoint⟩ := interview_asked s replies
  refine nodup.length_le_of_subset fun c member => List.mem_filter.2 ⟨?_, ?_⟩
  · exact List.mem_filter.2 ⟨Course.mem_all c, interview_references inv replies c member⟩
  · simpa [Agenda.isAsked] using disjoint member

/-- An interview from a fresh session asks every course the agenda starts with. -/
theorem initialCourses_length_le_questions (rb : RuleBase α) (options : SessionOptions)
    (replies : Nat → Reply α) :
    (Agenda.initialCourses rb options.seedCount options.mode).length ≤
      ((create rb options).questions replies).length := by
  refine (RuleBase.initialCourses_nodup rb options.seedCount options.mode).length_le_of_subset
    fun c initial => ?_
  have last := asked_of_seen (create rb options) replies
    (Agenda.seen_create rb options.seedCount options.mode c initial)
  rw [(interview_asked _ replies).1, Session.create, Agenda.create_asked, List.append_nil,
    List.mem_reverse] at last
  exact last

/-- **Every interview ends, after distinct questions about referenced courses.** From any
session a caller reaches (any answers, Likert answers and resets from a fresh session), the loop
that answers the current question with the replies in turn ends with the interview over. Its
questions are distinct, none of them asked before, and there are at most as many as referenced
courses remain unasked. A reset gives the fresh session back, and from it the loop asks between
`min k r` and `r` of the `r` referenced courses in adaptive mode (`k` the seed count), and all
`r` in exhaustive mode. -/
theorem interview_ends (rb : RuleBase α) (options : SessionOptions) (ops : List (Op α))
    (replies : Nat → Reply α) :
    let s := (create rb options).applyAll ops
    let n := ((create rb options).questions replies).length
    let r := rb.referencedCourses.length
    (s.interview replies).2.isDone = true ∧ (s.questions replies).Nodup ∧
      (s.questions replies).Disjoint s.agenda.asked ∧
      (s.questions replies).length ≤
        (rb.referencedCourses.filter fun c => !s.agenda.isAsked c).length ∧
      s.reset = create rb options ∧
      (options.mode = .adaptive ∧ min options.seedCount r ≤ n ∧ n ≤ r ∨
        options.mode = .exhaustive ∧ n = r) := by
  intro s n r
  have rules := applyAll_rules rb options ops
  obtain ⟨-, nodup, disjoint⟩ := interview_asked s replies
  have bound := questions_length_le (applyAll_tracked rb options ops) replies
  rw [rules] at bound
  refine ⟨interview_isDone s replies, nodup, disjoint, bound,
    by rw [reset_eq_create, rules, applyAll_options], ?_⟩
  -- from a fresh session: at most every referenced course, and at least every initial course
  have atMost : n ≤ r := by
    have unasked : (rb.referencedCourses.filter fun c =>
        !(create rb options).agenda.isAsked c) = rb.referencedCourses := by
      simp [Session.create, Agenda.create_asked, Agenda.isAsked]
    have atMostUnasked : n ≤ (rb.referencedCourses.filter fun c =>
        !(create rb options).agenda.isAsked c).length :=
      questions_length_le (Tracked.create rb options) replies
    rw [unasked] at atMostUnasked
    exact atMostUnasked
  have atLeast := initialCourses_length_le_questions rb options replies
  cases mode : options.mode with
  | adaptive =>
    rw [mode, Agenda.initialCourses, RuleBase.seedCourses_length] at atLeast
    exact Or.inl ⟨rfl, atLeast, atMost⟩
  | exhaustive =>
    rw [mode] at atLeast
    exact Or.inr ⟨rfl, Nat.le_antisymm atMost atLeast⟩

end Session

end CareerCompass
