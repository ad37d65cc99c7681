import CareerCompass.Proofs.Session.Interview
import CareerCompass.Proofs.RuleBase.Validation
/-!
# The order of questions

A fresh agenda queues its initial courses first, in order, at seed priority: the seeds in
adaptive mode, every referenced course in exhaustive mode. Later entries only ever join behind
them, and asking a course removes its entry, so the initial courses not yet asked always wait at
the front of the frontier, in their order (`SeedsFirst`, kept by every history).

The scan of `peekNext` keeps its first entry against later ones whose priority is `≤` its own.
Whatever an expansion adds has the weight of a rule, which a validated table keeps in `(0, 1]`,
below seed priority. So:

* `seeds_asked_first`: in an adaptive session over a validated table, while a seed is not asked,
  the current question is the first such seed. An interview in which no job ever reaches the gate
  asks exactly the seeds, in order; if every reply is at most zero, no job is ranked at the end.
* `exhaustive_session_order`: in an exhaustive session, after any operations, the frontier lists
  the referenced courses not yet asked, in catalogue order and at seed priority; expansion adds
  nothing; the current question is the first of them. An interview asks them all, in order,
  whatever the replies.

Both need the order of the scalar to put seed priority `≤` itself, and the adaptive one also every
weight in `(0, 1]` `≤` seed priority. The two hold in doubles and in rationals; the core's float
comparisons are opaque, so they are hypotheses here.
-/

set_option linter.unusedSectionVars false

namespace CareerCompass

namespace RuleBase

variable {α : Type} [Scalar α]

/-- Every job of an accepted table passes its rule checks. -/
theorem firstViolation_of_ofTable {table : List (Job × List (Course × α))} {rb : RuleBase α}
    (validated : ofTable table = .ok rb) :
    ∀ entry ∈ rb.table, firstViolation entry.1 entry.2 = none := by
  rw [ofTable_table validated]
  dsimp only [ofTable] at validated
  split at validated
  · cases validated
  · split at validated
    · cases validated
    · next clean => exact List.findSome?_eq_none_iff.1 clean

/-- An accepted table weighs every rule in `(0, 1]`. -/
theorem weightInRange_of_ofTable {table : List (Job × List (Course × α))} {rb : RuleBase α}
    (validated : ofTable table = .ok rb) {job : Job} {rule : Course × α}
    (member : rule ∈ rb.rulesFor job) : weightInRange rule.2 = true := by
  unfold rulesFor at member
  split at member
  · next j rules found =>
    have checked := firstViolation_of_ofTable validated _ (List.mem_of_find?_eq_some found)
    exact ((firstViolation_eq_none_iff _ _).1 checked).1 rule member
  · cases member

end RuleBase

namespace Agenda

variable {α : Type} [Scalar α]

/-! ### What single steps add -/

theorem push_entries_cases (a : Agenda α) (course : Course) (priority : α) :
    (a.push course priority).2.entries = a.entries ∨
      (a.push course priority).2.entries = a.entries ++ [⟨priority, course, a.nextSeq⟩] := by
  by_cases met : a.Seen course
  · rw [push_of_seen priority met]
    exact Or.inl rfl
  · obtain ⟨asked, queued⟩ := not_or.1 met
    rw [push_of_unseen priority asked queued]
    exact Or.inr rfl

/-- A push adds at most its own course, at its own priority. -/
theorem entry_of_mem_push {a : Agenda α} {course : Course} {priority : α} {e : FrontierEntry α}
    (member : e ∈ (a.push course priority).2.entries) :
    e ∈ a.entries ∨ e.course = course ∧ e.priority = priority := by
  rcases push_entries_cases a course priority with same | grown
  · exact Or.inl (same ▸ member)
  · rw [grown] at member
    rcases List.mem_append.1 member with old | new
    · exact Or.inl old
    · rw [List.mem_singleton.1 new]
      exact Or.inr ⟨rfl, rfl⟩

/-- A loop of offers adds only offered courses, each at its offered priority. -/
theorem entry_of_mem_foldl_offer {acc : Nat × Agenda α} {offers : List (Course × α)}
    {e : FrontierEntry α} (member : e ∈ (offers.foldl offer acc).2.entries) :
    e ∈ acc.2.entries ∨ (e.course, e.priority) ∈ offers := by
  induction offers generalizing acc with
  | nil => exact Or.inl member
  | cons rule rest ih =>
    rcases ih member with old | later
    · rcases entry_of_mem_push old with older | ⟨course, priority⟩
      · exact Or.inl older
      · exact Or.inr (by rw [course, priority]; exact List.mem_cons_self)
    · exact Or.inr (List.mem_cons_of_mem _ later)

theorem entry_of_mem_expand {a : Agenda α} {rb : RuleBase α} {inf : Inference α}
    {e : FrontierEntry α} (member : e ∈ (a.expand rb inf).2.entries) :
    e ∈ a.entries ∨ (e.course, e.priority) ∈ expansionOffers rb inf := by
  cases mode : a.mode with
  | exhaustive =>
    rw [expand_exhaustive mode] at member
    exact Or.inl member
  | adaptive =>
    rw [expand_adaptive mode] at member
    exact entry_of_mem_foldl_offer member

/-- An expansion offers the rules of some jobs, at their weights. -/
theorem mem_rulesFor_of_mem_expansionOffers {rb : RuleBase α} {inf : Inference α}
    {rule : Course × α} (offered : rule ∈ expansionOffers rb inf) :
    ∃ job, rule ∈ rb.rulesFor job := by
  obtain ⟨⟨job, cf⟩, _, rules⟩ := List.mem_flatMap.1 offered
  dsimp only at rules
  split at rules
  · cases rules
  · exact ⟨job, rules⟩

/-- Scores all below the gate offer nothing. -/
theorem expansionOffers_eq_nil {rb : RuleBase α} {inf : Inference α}
    (below : ∀ p ∈ inf.scores, p.2 < expansionGate) : expansionOffers rb inf = [] := by
  refine List.flatMap_eq_nil_iff.2 fun p member => ?_
  simp only [below p member, if_true]

/-- An expansion that offers nothing changes nothing. -/
theorem expand_of_expansionOffers_eq_nil (a : Agenda α) {rb : RuleBase α} {inf : Inference α}
    (nothing : expansionOffers rb inf = []) : a.expand rb inf = (0, a) := by
  cases mode : a.mode with
  | exhaustive => exact expand_exhaustive mode rb inf
  | adaptive => rw [expand_adaptive mode, nothing]; rfl

/-! ### The initial courses wait in front -/

/-- Pushing distinct courses that the agenda has not met queues them all, in order. -/
theorem foldl_push_entries (priority : α) (courses : List Course) (a : Agenda α)
    (nodup : courses.Nodup) (unmet : ∀ c ∈ courses, ¬ a.Seen c) :
    (courses.foldl (fun b c => (b.push c priority).2) a).entries.map (·.course) =
        a.entries.map (·.course) ++ courses ∧
      ∀ e ∈ (courses.foldl (fun b c => (b.push c priority).2) a).entries,
        e ∈ a.entries ∨ e.priority = priority := by
  induction courses generalizing a with
  | nil => exact ⟨(List.append_nil _).symm, fun e member => Or.inl member⟩
  | cons c rest ih =>
    obtain ⟨asked, queued⟩ := not_or.1 (unmet c List.mem_cons_self)
    obtain ⟨fresh, restNodup⟩ := List.nodup_cons.1 nodup
    have pushed := push_of_unseen priority asked queued
    -- the later courses are still unmet: none is `c`, and `c` is all the push adds
    have stillUnmet : ∀ d ∈ rest, ¬ (a.push c priority).2.Seen d := by
      intro d member met
      rw [pushed] at met
      rcases met with wasAsked | wasQueued
      · exact unmet d (List.mem_cons_of_mem c member) (Or.inl wasAsked)
      · simp only [List.map_append, List.map_cons, List.map_nil, List.mem_append,
          List.mem_singleton] at wasQueued
        rcases wasQueued with old | same
        · exact unmet d (List.mem_cons_of_mem c member) (Or.inr old)
        · exact fresh (same ▸ member)
    obtain ⟨courses, priorities⟩ := ih (a.push c priority).2 restNodup stillUnmet
    rw [List.foldl_cons]
    refine ⟨by rw [courses, pushed]; simp, fun e member => ?_⟩
    rcases priorities e member with old | atPriority
    · rw [pushed] at old
      rcases List.mem_append.1 old with older | new
      · exact Or.inl older
      · rw [List.mem_singleton.1 new]
        exact Or.inr rfl
    · exact Or.inr atPriority

/-- A fresh agenda queues its initial courses, in order, at seed priority. -/
theorem create_entries (rb : RuleBase α) (seedCount : Nat) (mode : AgendaMode) :
    (create rb seedCount mode).entries.map (·.course) = initialCourses rb seedCount mode ∧
      ∀ e ∈ (create rb seedCount mode).entries, e.priority = seedPriority := by
  obtain ⟨courses, priorities⟩ := foldl_push_entries seedPriority _ (empty mode : Agenda α)
    (RuleBase.initialCourses_nodup rb seedCount mode) fun c _ met => by
      simp [Seen, empty] at met
  rw [create_eq]
  refine ⟨by simpa [empty] using courses, fun e member => ?_⟩
  rcases priorities e member with none | atSeed
  · cases none
  · exact atSeed

/-- The courses of `seeds` not yet asked wait at the front of the frontier, in the order of
`seeds`, at seed priority. -/
def SeedsFirst (seeds : List Course) (a : Agenda α) : Prop :=
  ∃ front rest, a.entries = front ++ rest ∧
    front.map (·.course) = seeds.filter (fun c => !a.isAsked c) ∧
    ∀ e ∈ front, e.priority = seedPriority

theorem isAsked_markAsked (a : Agenda α) (course other : Course) :
    (a.markAsked course).2.isAsked other = (other == course || a.isAsked other) := by
  rw [Bool.eq_iff_iff, isAsked_iff, mem_markAsked_asked, Bool.or_eq_true, beq_iff_eq, isAsked_iff]

theorem SeedsFirst.push {seeds : List Course} {a : Agenda α} (first : SeedsFirst seeds a)
    (course : Course) (priority : α) : SeedsFirst seeds (a.push course priority).2 := by
  obtain ⟨front, rest, entries, courses, priorities⟩ := first
  have sameAsked : (a.push course priority).2.isAsked = a.isAsked := by
    funext c
    simp only [isAsked, push_asked]
  unfold SeedsFirst
  rw [sameAsked]
  rcases push_entries_cases a course priority with same | grown
  · exact ⟨front, rest, by rw [same, entries], courses, priorities⟩
  · exact ⟨front, rest ++ _, by rw [grown, entries, List.append_assoc], courses, priorities⟩

theorem SeedsFirst.markAsked {seeds : List Course} {a : Agenda α} (first : SeedsFirst seeds a)
    (course : Course) : SeedsFirst seeds (a.markAsked course).2 := by
  obtain ⟨front, rest, entries, courses, priorities⟩ := first
  refine ⟨front.filter (·.course != course), rest.filter (·.course != course), ?_, ?_,
    fun e member => priorities e (List.mem_filter.1 member).1⟩
  · rw [markAsked_entries, entries, List.filter_append]
  · have kept : (front.filter (·.course != course)).map (·.course) =
        (front.map (·.course)).filter (· != course) := by
      rw [List.filter_map]
      rfl
    rw [kept, courses, List.filter_filter]
    apply List.filter_congr
    intro c _
    rw [isAsked_markAsked, Bool.not_or, bne, Bool.and_comm]

/-- **Every history keeps the initial courses in front.** -/
theorem Grows.seedsFirst {seeds : List Course} {start a : Agenda α} {log : List Course}
    (grows : start.Grows log a) (first : SeedsFirst seeds start) : SeedsFirst seeds a := by
  induction grows with
  | refl => exact first
  | push course priority _ ih => exact ih.push course priority
  | ask course _ ih => exact ih.markAsked course

theorem seedsFirst_create (rb : RuleBase α) (seedCount : Nat) (mode : AgendaMode) :
    SeedsFirst (initialCourses rb seedCount mode) (create rb seedCount mode) := by
  obtain ⟨courses, priorities⟩ := create_entries rb seedCount mode
  refine ⟨(create rb seedCount mode).entries, [], (List.append_nil _).symm, ?_, priorities⟩
  rw [courses]
  exact (List.filter_eq_self.2 fun c _ => by simp [isAsked, create_asked]).symm

/-! ### The next question -/

/-- The scan keeps its best entry against later entries of priority `≤` its own. -/
theorem foldl_keepBest_of_le (b : FrontierEntry α) (rest : List (FrontierEntry α))
    (below : ∀ e ∈ rest, e.priority ≤ b.priority) : rest.foldl keepBest (some b) = some b := by
  induction rest with
  | nil => rfl
  | cons e rest ih =>
    rw [List.foldl_cons, keepBest, if_pos (below e List.mem_cons_self)]
    exact ih fun x member => below x (List.mem_cons_of_mem e member)

/-- While a course of `seeds` waits, the first of them is the next question, if no entry is above
seed priority. -/
theorem SeedsFirst.peekNext_eq_some {seeds : List Course} {a : Agenda α} (first : SeedsFirst seeds a)
    (wf : a.Wf) (below : ∀ e ∈ a.entries, e.priority ≤ seedPriority) {c : Course}
    {later : List Course} (waiting : seeds.filter (fun d => !a.isAsked d) = c :: later) :
    a.peekNext = some c := by
  obtain ⟨front, rest, entries, courses, priorities⟩ := first
  rw [waiting] at courses
  obtain ⟨e, others, rfl, named, -⟩ := List.map_eq_cons_iff.1 courses
  have atSeed : e.priority = seedPriority := priorities e List.mem_cons_self
  rw [Agenda.peekNext, best?_eq, wf.open_eq, entries, List.cons_append, List.foldl_cons, keepBest,
    foldl_keepBest_of_le e _ fun x member => atSeed ▸ below x (by
      rw [entries]
      exact List.mem_cons_of_mem e member)]
  exact congrArg some named

/-- With only courses of `seeds` queued, the frontier is exactly their courses not yet asked, at
seed priority. -/
theorem SeedsFirst.entries_eq {seeds : List Course} {a : Agenda α} (first : SeedsFirst seeds a)
    (wf : a.Wf) (onlySeeds : ∀ e ∈ a.entries, e.course ∈ seeds) :
    a.entries.map (·.course) = seeds.filter (fun c => !a.isAsked c) ∧
      ∀ e ∈ a.entries, e.priority = seedPriority := by
  obtain ⟨front, rest, entries, courses, priorities⟩ := first
  -- an entry behind the front would be a waiting seed, which the front lists already
  have noRest : rest = [] := List.eq_nil_iff_forall_not_mem.2 fun x member => by
    have queued : x ∈ a.entries := by rw [entries]; exact List.mem_append_right front member
    have waitingSeed : x.course ∈ seeds.filter (fun c => !a.isAsked c) :=
      List.mem_filter.2 ⟨onlySeeds x queued, by simpa [isAsked] using wf.fresh x queued⟩
    rw [← courses] at waitingSeed
    obtain ⟨y, inFront, same⟩ := List.mem_map.1 waitingSeed
    have nodup := wf.nodup
    rw [entries, List.map_append] at nodup
    exact (List.nodup_append.1 nodup).2.2 _ (List.mem_map_of_mem inFront) _
      (List.mem_map_of_mem member) same
  rw [entries, noRest, List.append_nil]
  exact ⟨courses, priorities⟩

/-- With only courses of `seeds` queued, the next question is the first of them not yet asked. -/
theorem SeedsFirst.peekNext_eq_head? {seeds : List Course} {a : Agenda α}
    (first : SeedsFirst seeds a) (wf : a.Wf) (onlySeeds : ∀ e ∈ a.entries, e.course ∈ seeds)
    (seedRefl : (seedPriority : α) ≤ seedPriority) :
    a.peekNext = (seeds.filter fun c => !a.isAsked c).head? := by
  obtain ⟨courses, priorities⟩ := first.entries_eq wf onlySeeds
  cases waiting : seeds.filter (fun c => !a.isAsked c) with
  | nil =>
    rw [waiting, List.map_eq_nil_iff] at courses
    rw [List.head?_nil, peekNext_eq_none_iff_open, wf.open_eq, courses]
  | cons c later =>
    exact first.peekNext_eq_some wf (fun e member => (priorities e member).symm ▸ seedRefl) waiting

/-- Every waiting entry is at seed priority or at the weight a rule gives its course. -/
def Weighted (rb : RuleBase α) (a : Agenda α) : Prop :=
  ∀ e ∈ a.entries, e.priority = seedPriority ∨ ∃ job, (e.course, e.priority) ∈ rb.rulesFor job

/-- Over a validated table, no waiting entry is above seed priority. -/
theorem Weighted.le_seedPriority {rb : RuleBase α} {a : Agenda α} (weighted : Weighted rb a)
    {table : List (Job × List (Course × α))} (validated : RuleBase.ofTable table = .ok rb)
    (seedRefl : (seedPriority : α) ≤ seedPriority)
    (weightsBelow : ∀ w : α, RuleBase.weightInRange w = true → w ≤ seedPriority) :
    ∀ e ∈ a.entries, e.priority ≤ seedPriority := by
  intro e member
  rcases weighted e member with atSeed | ⟨job, rule⟩
  · exact atSeed ▸ seedRefl
  · exact weightsBelow _ (RuleBase.weightInRange_of_ofTable validated rule)

end Agenda

namespace Facts

variable {α : Type} [Scalar α]

theorem cf_record (facts : Facts α) (name : String) (value : α) (c : Course) :
    (facts.record name value).2.cf c = if c.name = name then value else facts.cf c := by
  rw [cf, get?_record]
  split <;> rfl

end Facts

namespace Session

variable {α : Type} [Scalar α]

/-! ### Sessions a caller reaches -/

/-- The sessions that operations lead to from a fresh one. -/
def Reachable (rb : RuleBase α) (options : SessionOptions) (s : Session α) : Prop :=
  ∃ ops, s = (create rb options).applyAll ops

theorem Reachable.apply {rb : RuleBase α} {options : SessionOptions} {s : Session α}
    (reached : Reachable rb options s) (op : Op α) : Reachable rb options (s.apply op) := by
  obtain ⟨ops, rfl⟩ := reached
  exact ⟨ops ++ [op], by simp only [applyAll, List.foldl_append, List.foldl_cons, List.foldl_nil]⟩

theorem applyAll_wf (rb : RuleBase α) (options : SessionOptions) (ops : List (Op α)) :
    ((create rb options).applyAll ops).agenda.Wf := by
  obtain ⟨_, grows⟩ := (applyAll_tracked rb options ops).history
  exact grows.logged.wf

theorem applyAll_agenda_mode (rb : RuleBase α) (options : SessionOptions) (ops : List (Op α)) :
    ((create rb options).applyAll ops).agenda.mode = options.mode := by
  obtain ⟨_, grows⟩ := (applyAll_tracked rb options ops).history
  rw [grows.mode_eq, applyAll_options]
  rfl

/-- The initial courses not yet asked wait in front of every agenda a caller reaches. -/
theorem applyAll_seedsFirst (rb : RuleBase α) (options : SessionOptions) (ops : List (Op α)) :
    Agenda.SeedsFirst (Agenda.initialCourses rb options.seedCount options.mode)
      ((create rb options).applyAll ops).agenda := by
  refine applyAll_induction (fun s => Agenda.SeedsFirst _ s.agenda)
    (Agenda.seedsFirst_create rb options.seedCount options.mode) ?_ ops
  intro s name cf _ _ first
  obtain ⟨_, grows⟩ := answer_grows s name cf
  exact grows.seedsFirst first

/-- Every entry a caller's operations queue is a seed or sits at a rule's weight. -/
theorem applyAll_weighted (rb : RuleBase α) (options : SessionOptions) (ops : List (Op α)) :
    Agenda.Weighted rb ((create rb options).applyAll ops).agenda := by
  refine applyAll_induction (fun s => Agenda.Weighted rb s.agenda)
    (fun e member => Or.inl ((Agenda.create_entries _ _ _).2 e member)) ?_ ops
  intro s name cf rules _ weighted e member
  rw [answer_agenda] at member
  rcases Agenda.entry_of_mem_expand member with old | offered
  · exact weighted e (mem_markAnswered_entries old)
  · rw [rules] at offered
    exact Or.inr (Agenda.mem_rulesFor_of_mem_expansionOffers offered)

/-- With only initial courses queued, the current question is the first of them not yet asked. -/
theorem currentQuestion_eq_head? {rb : RuleBase α} {options : SessionOptions} {s : Session α}
    (reached : Reachable rb options s)
    (onlySeeds : ∀ e ∈ s.agenda.entries,
      e.course ∈ Agenda.initialCourses rb options.seedCount options.mode)
    (seedRefl : (seedPriority : α) ≤ seedPriority) :
    s.currentQuestion =
      (Agenda.initialCourses rb options.seedCount options.mode |>.filter
        fun c => !s.agenda.isAsked c).head? := by
  obtain ⟨ops, rfl⟩ := reached
  exact (applyAll_seedsFirst rb options ops).peekNext_eq_head? (applyAll_wf rb options ops)
    onlySeeds seedRefl

/-- An answer after which no job reaches the gate only asks. -/
theorem answer_agenda_of_below_gate (s : Session α) (name : String) (cf : α)
    (below : ∀ p ∈ (s.answer name cf).1.inference.scores, p.2 < expansionGate) :
    (s.answer name cf).1.agenda = markAnswered s.agenda name := by
  have rescored : ∀ p ∈ (infer s.rules (s.facts.record name cf).2).scores,
      p.2 < expansionGate := below
  rw [answer_agenda,
    Agenda.expand_of_expansionOffers_eq_nil _ (Agenda.expansionOffers_eq_nil rescored)]

theorem rankedResults_of_scores_eq_nil {s : Session α} (unscored : s.inference.scores = []) :
    s.rankedResults = [] := by
  rw [rankedResults, Inference.ranked, unscored, List.map_nil, sortDescBy, List.mergeSort_nil]

/-! ### Adaptive sessions: seeds first -/

/-- An adaptive fresh session waits on its seeds. -/
theorem initialCourses_adaptive (rb : RuleBase α) {options : SessionOptions}
    (adaptive : options.mode = .adaptive) :
    Agenda.initialCourses rb options.seedCount options.mode = rb.seedCourses options.seedCount := by
  rw [adaptive]
  rfl

/-- An adaptive interview from a fresh session in which no job reaches the gate asks the seeds,
in order, and nothing else: the agenda never holds more than the seeds. -/
theorem questions_of_below_gate (rb : RuleBase α) (options : SessionOptions)
    (adaptive : options.mode = .adaptive) (seedRefl : (seedPriority : α) ≤ seedPriority)
    {replies : Nat → Reply α}
    (below : ∀ q ∈ ((create rb options).interview replies).1, ∀ p ∈ q.2.inference.scores,
      p.2 < expansionGate) :
    (create rb options).questions replies = rb.seedCourses options.seedCount := by
  have initial := initialCourses_adaptive rb adaptive
  have onlySeeds : ∀ e ∈ (create rb options).agenda.entries,
      e.course ∈ rb.seedCourses options.seedCount := by
    intro e member
    rw [← initial, ← (Agenda.create_entries rb options.seedCount options.mode).1]
    exact List.mem_map_of_mem member
  have fresh : Reachable rb options (create rb options) := ⟨[], rfl⟩
  have asked := questions_eq_of_first _ (rb.seedCourses_nodup _)
    (fun t => Reachable rb options t ∧
      ∀ e ∈ t.agenda.entries, e.course ∈ rb.seedCourses options.seedCount)
    (fun t => ∀ p ∈ t.inference.scores, p.2 < expansionGate)
    (fun i t c ⟨reached, only⟩ _ below => by
      refine ⟨reached.apply _, fun e member => ?_⟩
      rw [apply_op] at below member
      rw [answer_agenda_of_below_gate t _ _ below] at member
      exact only e (mem_markAnswered_entries member))
    (fun t ⟨reached, only⟩ => by
      rw [← initial] at only ⊢
      exact currentQuestion_eq_head? reached only seedRefl)
    ⟨fresh, onlySeeds⟩ below
  rw [asked]
  exact List.filter_eq_self.2 fun c _ => by
    simp [Agenda.isAsked, Session.create, Agenda.create_asked]

/-- Replies of certainty at most zero keep every answer at most zero along an interview. -/
theorem interview_cf_nonpos {replies : Nat → Reply α} (nonpos : ∀ i, (replies i).certainty ≤ 0)
    {s : Session α} (answered : ∀ d, s.facts.cf d ≤ 0) :
    (∀ q ∈ (s.interview replies).1, ∀ d, q.2.facts.cf d ≤ 0) ∧
      ∀ d, (s.interview replies).2.facts.cf d ≤ 0 := by
  have kept : ∀ (i : Nat) (t : Session α) (c : Course), (∀ d, t.facts.cf d ≤ 0) →
      t.currentQuestion = some c → True →
      ∀ d, (t.apply ((replies i).op c.name)).facts.cf d ≤ 0 := by
    intro i t c answered _ _ d
    rw [apply_op, answer_facts, Facts.cf_record]
    split
    · exact nonpos i
    · exact answered d
  exact interview_induction (fun t => ∀ d, t.facts.cf d ≤ 0) (fun _ => True) kept answered
    fun _ _ => trivial

/-- **While a seed is not asked, the first such seed is the current question.** In an adaptive
session over a validated table, after any operations, the current question is the first seed not
yet asked, if one is left: seeds wait in front at seed priority, and every other entry sits at a
rule weight in `(0, 1]`. An interview from a fresh session in which no job ever reaches the gate
asks exactly the seeds, in order, and ends. If every reply is at most zero, no job is scored, so
this holds and nothing is ranked at the end. -/
theorem seeds_asked_first (rb : RuleBase α) (table : List (Job × List (Course × α)))
    (validated : RuleBase.ofTable table = .ok rb) (options : SessionOptions)
    (adaptive : options.mode = .adaptive) (seedRefl : (seedPriority : α) ≤ seedPriority)
    (weightsBelow : ∀ w : α, RuleBase.weightInRange w = true → w ≤ seedPriority)
    (zeroLeZero : (0 : α) ≤ 0) (ops : List (Op α)) (replies : Nat → Reply α) :
    let s := (create rb options).applyAll ops
    let seeds := rb.seedCourses options.seedCount
    let run := (create rb options).interview replies
    (∀ c later, seeds.filter (fun d => !s.agenda.isAsked d) = c :: later →
        s.currentQuestion = some c) ∧
      ((∀ q ∈ run.1, ∀ p ∈ q.2.inference.scores, p.2 < expansionGate) →
        (create rb options).questions replies = seeds ∧ run.2.isDone = true) ∧
      ((∀ i, (replies i).certainty ≤ 0) →
        (create rb options).questions replies = seeds ∧ run.2.isDone = true ∧
          run.2.rankedResults = []) := by
  intro s seeds run
  refine ⟨fun c later waiting => ?_,
    fun below =>
      ⟨questions_of_below_gate rb options adaptive seedRefl below, interview_isDone _ _⟩,
    fun nonpos => ?_⟩
  · have first := applyAll_seedsFirst rb options ops
    rw [initialCourses_adaptive rb adaptive] at first
    exact first.peekNext_eq_some (applyAll_wf rb options ops)
      ((applyAll_weighted rb options ops).le_seedPriority validated seedRefl weightsBelow) waiting
  · -- with every reply at most zero, no session of the interview scores a job
    have fresh : ∀ d, (create rb options).facts.cf d ≤ 0 := fun d => by
      rw [Session.create, Facts.cf_empty]
      exact zeroLeZero
    obtain ⟨along, last⟩ := interview_cf_nonpos nonpos fresh
    have unscored : ∀ t : Session α, (∀ d, t.facts.cf d ≤ 0) → t.inference.scores = [] :=
      fun t answered => infer_scores_of_nonpos t.rules answered
    refine ⟨questions_of_below_gate rb options adaptive seedRefl fun q member p scored => ?_,
      interview_isDone _ _, rankedResults_of_scores_eq_nil (unscored _ last)⟩
    rw [unscored q.2 (along q member)] at scored
    cases scored

/-- Over the standard table with eight seeds: once Software Development is answered with `1`, five
jobs pass the gate and their courses join the frontier, yet the next question is Database, the
next heaviest course. An interview answered throughout with the lowest Likert level asks the eight
seeds, heaviest first and the three of equal weight in catalogue order, ends and ranks nothing. -/
theorem seeds_asked_first_standard :
    let rb : RuleBase Rat := RuleBase.standard
    let options : SessionOptions := {}
    let s := (create rb options).applyAll [.answer "Software Development" 1]
    let replies : Nat → Reply Rat := fun _ => .likert .stronglyDislike
    s.currentQuestion = some .database ∧
      (create rb options).questions replies =
        [.softwareDevelopment, .database, .dataVisualization, .operatingSystem, .computerNetwork,
          .algorithmsAndProgramming, .businessDataAnalytics, .descriptiveStatistics] ∧
      ((create rb options).interview replies).2.isDone = true ∧
      ((create rb options).interview replies).2.rankedResults = [] := by
  intro rb options s replies
  have ranked : rb.courseWeights.Pairwise fun a b => a.1.index < b.1.index := by decide +kernel
  have heaviestFirst : sortDescBy (·.2) rb.courseWeights = [
      (.softwareDevelopment, 18 / 5), (.database, 3), (.dataVisualization, 43 / 20),
      (.operatingSystem, 41 / 20), (.computerNetwork, 17 / 10),
      (.algorithmsAndProgramming, 33 / 20), (.businessDataAnalytics, 33 / 20),
      (.descriptiveStatistics, 33 / 20), (.objectOrientedProgramming, 31 / 20),
      (.systemSecurity, 31 / 20), (.serviceManagement, 5 / 4), (.webProgramming, 19 / 20),
      (.mobileProgramming, 19 / 20), (.projectManagement, 19 / 20), (.machineLearning, 9 / 10),
      (.systemAnalysisDesign, 9 / 10), (.dataMining, 17 / 20), (.businessProcess, 17 / 20),
      (.leadership, 17 / 20), (.inferentialStatistics, 4 / 5), (.riskManagement, 4 / 5),
      (.enterpriseApplications, 3 / 4), (.softwareTesting, 7 / 10),
      (.quantitativeMethods, 7 / 10), (.enterpriseSystem, 7 / 10),
      (.discreteMathematics, 13 / 20), (.governance, 13 / 20)] :=
    sortDescBy_eq_of_sortsBefore (fun p : Course × Rat => p.2) (fun p => p.1.index) ranked
      (by decide +kernel) (by decide +kernel)
  have seeds : rb.seedCourses options.seedCount =
      [.softwareDevelopment, .database, .dataVisualization, .operatingSystem, .computerNetwork,
        .algorithmsAndProgramming, .businessDataAnalytics, .descriptiveStatistics] := by
    rw [RuleBase.seedCourses, heaviestFirst]
    rfl
  have weightsBelow : ∀ w : Rat, RuleBase.weightInRange w = true → w ≤ seedPriority := by
    intro w inRange
    have atMostOne : w ≤ 1 := by
      simp only [RuleBase.weightInRange, Bool.and_eq_true, decide_eq_true_eq] at inRange
      exact inRange.2
    have oneBelow : (1 : Rat) ≤ seedPriority := by decide +kernel
    exact le_trans atMostOne oneBelow
  obtain ⟨first, -, lowest⟩ := seeds_asked_first rb _ RuleBase.ofTable_standard options rfl
    (le_refl _) weightsBelow (le_refl 0) [.answer "Software Development" 1] replies
  -- a course is asked exactly when its name has an answer, here Software Development alone
  have asked : ∀ d, s.agenda.isAsked d = (s.facts.get? d.name).isSome := fun d =>
    Bool.eq_iff_iff.2 ((Agenda.isAsked_iff _ _).trans ((applyAll_tracked rb options _).asked_iff d))
  have unasked : (rb.seedCourses options.seedCount).filter (fun d => !s.agenda.isAsked d) =
      [.database, .dataVisualization, .operatingSystem, .computerNetwork,
        .algorithmsAndProgramming, .businessDataAnalytics, .descriptiveStatistics] := by
    simp only [asked, seeds]
    decide +kernel
  obtain ⟨questions, done, nothing⟩ := lowest fun _ => by decide +kernel
  exact ⟨first _ _ unasked, questions.trans seeds, done, nothing⟩

/-! ### Exhaustive sessions: every referenced course, in catalogue order -/

/-- **An exhaustive session asks the referenced courses in catalogue order.** After any
operations (answers to any names with any values, Likert answers, resets) the frontier lists the
referenced courses not yet asked, in catalogue order and all at seed priority; expansion adds
nothing; the current question is the first referenced course not yet asked. So an interview asks
exactly those courses, in catalogue order, whatever the replies, and from a fresh session every
referenced course. -/
theorem exhaustive_session_order (rb : RuleBase α) (options : SessionOptions)
    (exhaustive : options.mode = .exhaustive) [Std.ReflCmp (Scalar.totalCompare (α := α))]
    (seedRefl : (seedPriority : α) ≤ seedPriority) (ops : List (Op α))
    (replies : Nat → Reply α) :
    let s := (create rb options).applyAll ops
    let waiting := rb.referencedCourses.filter fun c => !s.agenda.isAsked c
    s.agenda.frontier.map (·.course) = waiting ∧
      (∀ e ∈ s.agenda.frontier, e.priority = seedPriority) ∧
      (∀ (rules : RuleBase α) (inf : Inference α), s.agenda.expand rules inf = (0, s.agenda)) ∧
      s.currentQuestion = waiting.head? ∧
      s.questions replies = waiting ∧
      (create rb options).questions replies = rb.referencedCourses := by
  intro s waiting
  have initial : Agenda.initialCourses rb options.seedCount options.mode = rb.referencedCourses := by
    rw [exhaustive]
    rfl
  -- every queued course is referenced, so only initial courses are queued
  have onlySeeds : ∀ t : Session α, Reachable rb options t → ∀ e ∈ t.agenda.entries,
      e.course ∈ Agenda.initialCourses rb options.seedCount options.mode := by
    rintro t ⟨ops, rfl⟩ e member
    rw [initial]
    have referenced := applyAll_rules rb options ops ▸
      (applyAll_tracked rb options ops).referenced e member
    exact List.mem_filter.2 ⟨Course.mem_all _, referenced⟩
  have next : ∀ t : Session α, Reachable rb options t →
      t.currentQuestion = (rb.referencedCourses.filter fun c => !t.agenda.isAsked c).head? := by
    intro t reached
    rw [← initial]
    exact currentQuestion_eq_head? reached (onlySeeds t reached) seedRefl
  have wf := applyAll_wf rb options ops
  obtain ⟨courses, priorities⟩ := (applyAll_seedsFirst rb options ops).entries_eq wf
    (onlySeeds s ⟨ops, rfl⟩)
  rw [initial] at courses
  -- all at seed priority and in arrival order, the waiting entries are already sorted
  have sorted : s.agenda.frontier = s.agenda.entries := by
    rw [Agenda.frontier_eq, wf.open_eq]
    refine List.mergeSort_of_pairwise (wf.seq_sorted.imp_of_mem fun xMember yMember early => ?_)
    rw [Agenda.servesBefore_iff, priorities _ xMember, priorities _ yMember]
    exact Or.inr ⟨Std.ReflCmp.compare_self, Nat.le_of_lt early⟩
  have inOrder : ∀ t : Session α, Reachable rb options t →
      t.questions replies = rb.referencedCourses.filter fun c => !t.agenda.isAsked c :=
    fun t reached => questions_eq_of_first rb.referencedCourses rb.referencedCourses_nodup
      (Reachable rb options) (fun _ => True) (fun _ t _ reached _ _ => reached.apply _) next
      reached fun _ _ => trivial
  refine ⟨by rw [sorted]; exact courses, fun e member => priorities e (sorted ▸ member),
    fun rules inf => Agenda.expand_exhaustive ((applyAll_agenda_mode rb options ops).trans
      exhaustive) rules inf, next s ⟨ops, rfl⟩, inOrder s ⟨ops, rfl⟩, ?_⟩
  rw [inOrder (create rb options) ⟨[], rfl⟩]
  exact List.filter_eq_self.2 fun c _ => by
    simp [Agenda.isAsked, Session.create, Agenda.create_asked]

/-- Over the standard table in exhaustive mode: after Database is answered out of turn with `1`,
the frontier holds the other twenty-six referenced courses, all at seed priority and in catalogue
order whatever their weights (Algorithms and Programming, of weight `1.65`, waits before Operating
System, of weight `2.05`), and an interview asks exactly them in that order, whatever the replies;
from the fresh session Database comes fifth. -/
theorem exhaustive_session_order_standard :
    let rb : RuleBase Rat := RuleBase.standard
    let options : SessionOptions := { mode := .exhaustive }
    let s := (create rb options).applyAll [.answer "Database" 1]
    let replies : Nat → Reply Rat := fun i => .cf i
    let rest : List Course := [.softwareDevelopment, .algorithmsAndProgramming,
      .objectOrientedProgramming, .softwareTesting, .webProgramming, .mobileProgramming,
      .businessDataAnalytics, .descriptiveStatistics, .dataVisualization, .quantitativeMethods,
      .machineLearning, .dataMining, .inferentialStatistics, .discreteMathematics, .systemSecurity,
      .computerNetwork, .riskManagement, .operatingSystem, .serviceManagement,
      .enterpriseApplications, .systemAnalysisDesign, .businessProcess, .enterpriseSystem,
      .projectManagement, .leadership, .governance]
    s.agenda.frontier.map (·.course) = rest ∧
      (∀ e ∈ s.agenda.frontier, e.priority = seedPriority) ∧
      s.currentQuestion = some .softwareDevelopment ∧
      s.questions replies = rest ∧
      (create rb options).questions replies = rest.take 4 ++ .database :: rest.drop 4 := by
  intro rb options s replies rest
  obtain ⟨frontier, atSeed, -, current, questions, fresh⟩ :=
    exhaustive_session_order rb options rfl (le_refl _) [.answer "Database" 1] replies
  -- a course is asked exactly when its name has an answer, here Database alone
  have asked : ∀ d, s.agenda.isAsked d = (s.facts.get? d.name).isSome := fun d =>
    Bool.eq_iff_iff.2 ((Agenda.isAsked_iff _ _).trans ((applyAll_tracked rb options _).asked_iff d))
  have waiting : rb.referencedCourses.filter (fun c => !s.agenda.isAsked c) = rest := by
    simp only [asked]
    decide +kernel
  rw [waiting] at frontier questions current
  refine ⟨frontier, atSeed, current, questions, ?_⟩
  rw [fresh]
  decide +kernel

end Session

end CareerCompass
