import CareerCompass.Proofs.Agenda.Runs
/-!
# What an expansion appends

In adaptive mode `expand` offers the rule courses of every scored job that is not below the gate
(`expansionOffers`: job by job in the order of the scores, rule by rule in table order) and pushes
each offer. A push refuses a course the agenda has met, and a course that an earlier offer of the
same expansion queued has been met. So the expansion appends the first offer of each course
(`firstOffers`) that the agenda had not met, in order, at the weight of that offer, numbered from
`nextSeq` on (`appended`).

* `foldl_offer_eq`: the loop of offers, as one equation for any agenda.
* `expand_appends_first_offers`: on every agenda a caller reaches, in adaptive mode, `expand`
  appends exactly those entries and reports how many; each course once, at the weight of its first
  offer, in the order of the offers, numbered above every queued entry; a second expansion by the
  same scores changes nothing. In exhaustive mode `expand` changes nothing.

The gate is "not below 0.3": over rationals that is `0.3 ≤ score`, while over doubles a NaN score
is not below the gate, so the courses of its job are offered too.
-/

set_option linter.unusedSectionVars false

namespace CareerCompass

namespace Agenda

variable {α : Type} [Scalar α]

/-! ### First offers -/

/-- The first offer of each course, in the order of the offers. -/
def firstOffers : List (Course × α) → List (Course × α)
  | [] => []
  | r :: rest => r :: (firstOffers rest).filter (·.1 != r.1)

theorem firstOffers_sublist (offers : List (Course × α)) : (firstOffers offers).Sublist offers := by
  induction offers with
  | nil => exact .slnil
  | cons r rest ih => exact (List.filter_sublist.trans ih).cons_cons r

theorem mem_firstOffers_courses (offers : List (Course × α)) (c : Course) :
    c ∈ (firstOffers offers).map (·.1) ↔ c ∈ offers.map (·.1) := by
  induction offers with
  | nil => rfl
  | cons r rest ih =>
    simp only [firstOffers, List.map_cons, List.mem_cons, ← ih, List.mem_map, List.mem_filter,
      bne_iff_ne, ne_eq]
    constructor
    · rintro (same | ⟨s, ⟨kept, -⟩, rfl⟩)
      · exact .inl same
      · exact .inr ⟨s, kept, rfl⟩
    · rintro (same | ⟨s, kept, rfl⟩)
      · exact .inl same
      · by_cases other : s.1 = r.1
        · exact .inl other
        · exact .inr ⟨s, ⟨kept, other⟩, rfl⟩

theorem firstOffers_nodup (offers : List (Course × α)) : ((firstOffers offers).map (·.1)).Nodup := by
  induction offers with
  | nil => exact .nil
  | cons r rest ih =>
    refine List.nodup_cons.2 ⟨fun member => ?_, (ih.sublist (List.filter_sublist.map _))⟩
    obtain ⟨s, kept, same⟩ := List.mem_map.1 member
    simp [same] at kept

/-- Each first offer is the first offer of its course. -/
theorem find?_of_mem_firstOffers {offers : List (Course × α)} {r : Course × α}
    (member : r ∈ firstOffers offers) : offers.find? (·.1 == r.1) = some r := by
  induction offers with
  | nil => cases member
  | cons s rest ih =>
    rcases List.mem_cons.1 member with rfl | later
    · simp only [List.find?_cons, beq_self_eq_true]
    · obtain ⟨kept, other⟩ := List.mem_filter.1 later
      have skipped : (s.1 == r.1) = false := beq_false_of_ne (Ne.symm (bne_iff_ne.1 other))
      rw [List.find?_cons, skipped]
      exact ih kept

/-! ### Numbered entries -/

/-- Frontier entries for some offers, numbered in order from `start`. -/
def numbered (start : Nat) : List (Course × α) → List (FrontierEntry α)
  | [] => []
  | r :: rest => ⟨r.2, r.1, start⟩ :: numbered (start + 1) rest

@[simp] theorem length_numbered (start : Nat) (offers : List (Course × α)) :
    (numbered start offers).length = offers.length := by
  induction offers generalizing start with
  | nil => rfl
  | cons r rest ih => simp [numbered, ih]

theorem numbered_offers (start : Nat) (offers : List (Course × α)) :
    (numbered start offers).map (fun e => (e.course, e.priority)) = offers := by
  induction offers generalizing start with
  | nil => rfl
  | cons r rest ih => simp [numbered, ih]

theorem numbered_seqs (start : Nat) (offers : List (Course × α)) :
    (numbered start offers).map (·.seq) = List.range' start offers.length := by
  induction offers generalizing start with
  | nil => rfl
  | cons r rest ih => simp [numbered, ih, List.range'_succ]

/-! ### The loop of offers -/

/-- Whether the agenda has not met a course: neither asked nor queued. -/
def unmet (a : Agenda α) (c : Course) : Bool := !(a.isAsked c || a.isQueued c)

theorem unmet_eq_false_iff (a : Agenda α) (c : Course) : a.unmet c = false ↔ a.Seen c := by
  rw [Seen, ← isAsked_iff, ← isQueued_iff, unmet]
  cases a.isAsked c <;> cases a.isQueued c <;> decide

theorem unmet_iff (a : Agenda α) (c : Course) :
    a.unmet c = true ↔ c ∉ a.asked ∧ c ∉ a.entries.map (·.course) := by
  rw [← not_or, ← Seen, ← unmet_eq_false_iff, Bool.not_eq_false]

theorem mem_filter_unmet_courses (a : Agenda α) (offers : List (Course × α)) (c : Course) :
    c ∈ (offers.filter fun r => a.unmet r.1).map (·.1) ↔ a.unmet c = true ∧ c ∈ offers.map (·.1) := by
  simp only [List.mem_map, List.mem_filter]
  constructor
  · rintro ⟨r, ⟨offered, fresh⟩, rfl⟩
    exact ⟨fresh, r, offered, rfl⟩
  · rintro ⟨fresh, r, offered, rfl⟩
    exact ⟨r, ⟨offered, fresh⟩, rfl⟩

/-- The entries an expansion by some offers appends: the first offer of each course the agenda
has not met, in order, numbered from `nextSeq`. -/
def appended (a : Agenda α) (offers : List (Course × α)) : List (FrontierEntry α) :=
  numbered a.nextSeq ((firstOffers offers).filter fun r => a.unmet r.1)

/-- After a push, a course is unmet when it was unmet and is not the pushed one. -/
theorem unmet_push (a : Agenda α) (r : Course × α) (other : Course) :
    (a.push r.1 r.2).2.unmet other = (a.unmet other && other != r.1) := by
  by_cases met : a.Seen r.1
  · rw [push_of_seen r.2 met]
    -- a met course is filtered out either way
    by_cases same : other = r.1
    · rw [same, (unmet_eq_false_iff a r.1).2 met, Bool.false_and]
    · simp [same]
  · obtain ⟨asked, queued⟩ := not_or.1 met
    rw [push_of_unseen r.2 asked queued]
    by_cases same : other = r.1
    · subst same
      simp [unmet, isAsked, isQueued, List.any_append]
    · have pushedOther : (r.1 == other) = false := beq_false_of_ne (Ne.symm same)
      have notPushed : (other != r.1) = true := bne_iff_ne.2 same
      simp [unmet, isAsked, isQueued, List.any_append, pushedOther, notPushed]

/-- The offers left after one offer: those of other courses that the agenda has not met. -/
theorem filter_unmet_push (a : Agenda α) (r : Course × α) (rest : List (Course × α)) :
    ((firstOffers rest).filter fun s => (a.push r.1 r.2).2.unmet s.1) =
      (((firstOffers rest).filter (·.1 != r.1)).filter fun s => a.unmet s.1) := by
  rw [List.filter_filter]
  refine List.filter_congr fun s _ => ?_
  rw [unmet_push, Bool.and_comm]

theorem foldl_offer_eq (n : Nat) (a : Agenda α) (offers : List (Course × α)) :
    offers.foldl offer (n, a) =
      (n + (appended a offers).length,
        { a with entries := a.entries ++ appended a offers,
                 nextSeq := a.nextSeq + (appended a offers).length }) := by
  induction offers generalizing n a with
  | nil => simp [appended, firstOffers, numbered]
  | cons r rest ih =>
    rw [List.foldl_cons]
    by_cases met : a.Seen r.1
    · -- the offer is refused and every later offer of its course too
      have refused : offer (n, a) r = (n, a) := by simp [offer, push_of_seen r.2 met]
      have unchanged : (a.push r.1 r.2).2 = a := by rw [push_of_seen r.2 met]
      have same : appended a (r :: rest) = appended a rest := by
        have skip : a.unmet r.1 = false := (unmet_eq_false_iff a r.1).2 met
        rw [appended, appended, firstOffers, List.filter_cons_of_neg (by simp [skip]),
          ← filter_unmet_push a r rest, unchanged]
      rw [refused, ih, same]
    · -- the offer joins with the next number, and later offers of its course are refused
      obtain ⟨asked, queued⟩ := not_or.1 met
      have fresh : a.unmet r.1 = true := by
        cases h : a.unmet r.1
        · exact absurd ((unmet_eq_false_iff a r.1).1 h) met
        · rfl
      have accepted : offer (n, a) r = (n + 1, (a.push r.1 r.2).2) := by
        simp [offer, push_of_unseen r.2 asked queued]
      have split : appended a (r :: rest) =
          ⟨r.2, r.1, a.nextSeq⟩ :: appended (a.push r.1 r.2).2 rest := by
        rw [appended, appended, firstOffers, List.filter_cons_of_pos (by simp [fresh]),
          filter_unmet_push, numbered, push_of_unseen r.2 asked queued]
      rw [accepted, ih, split, push_of_unseen r.2 asked queued]
      simp only [List.length_cons, Prod.mk.injEq, List.append_assoc, List.singleton_append]
      exact ⟨by omega, by congr 1; omega⟩

/-! ### Expansion -/

theorem mem_expansionOffers_iff (rb : RuleBase α) (inf : Inference α) (c : Course) :
    c ∈ (expansionOffers rb inf).map (·.1) ↔
      ∃ job score, (job, score) ∈ inf.scores ∧ ¬ score < expansionGate ∧
        c ∈ (rb.rulesFor job).map (·.1) := by
  simp only [expansionOffers, List.mem_map, List.mem_flatMap]
  constructor
  · rintro ⟨r, ⟨⟨job, score⟩, scored, offered⟩, rfl⟩
    dsimp only at offered
    split at offered
    · cases offered
    · next passes => exact ⟨job, score, scored, passes, r, offered, rfl⟩
  · rintro ⟨job, score, scored, passes, r, rule, rfl⟩
    refine ⟨r, ⟨(job, score), scored, ?_⟩, rfl⟩
    simp only [passes, if_false]
    exact rule

theorem expand_mode (a : Agenda α) (rb : RuleBase α) (inf : Inference α) :
    (a.expand rb inf).2.mode = a.mode := by
  obtain ⟨_, grows, _⟩ := expand_grows (a := a) rb inf
  exact grows.mode_eq

/-- A second expansion by the same scores offers only courses the first one met. -/
theorem expand_expand (a : Agenda α) (rb : RuleBase α) (inf : Inference α) :
    (a.expand rb inf).2.expand rb inf = (0, (a.expand rb inf).2) := by
  cases mode : a.mode with
  | exhaustive =>
    rw [expand_exhaustive mode, expand_exhaustive mode]
  | adaptive =>
    have again : (a.expand rb inf).2.mode = .adaptive := (expand_mode a rb inf).trans mode
    rw [expand_adaptive again]
    apply foldl_offer_of_seen
    rw [expand_adaptive mode]
    exact seen_foldl_offer _ _

/-- **An expansion appends the first offer of each unmet course.** On every agenda that a caller
reaches by pushes, askings and expansions from a fresh one, in adaptive mode, `expand` appends the
first offer of each course that is neither asked nor queued and is a rule course of a scored job
not below the gate, and nothing else: each such course once, at the weight of its first offer, in
the order of the offers (the scores in order, then each job's rules in table order), numbered from
`nextSeq` up and so above every queued entry. It changes no queued entry or asked course, reports
how many it appended, and a second expansion by the same scores reports 0 and changes nothing. In
exhaustive mode `expand` reports 0 and changes nothing. -/
theorem expand_appends_first_offers (rb₀ : RuleBase α) (seedCount : Nat) (mode : AgendaMode)
    (ops : List (Op α)) (rb : RuleBase α) (inf : Inference α) :
    let a := (create rb₀ seedCount mode).applyAll ops
    let added := appended a (expansionOffers rb inf)
    (a.mode = .adaptive →
      a.expand rb inf =
          (added.length, { a with entries := a.entries ++ added,
                                  nextSeq := a.nextSeq + added.length }) ∧
        (∀ c, c ∈ added.map (·.course) ↔ c ∉ a.asked ∧ c ∉ a.entries.map (·.course) ∧
          ∃ job score, (job, score) ∈ inf.scores ∧ ¬ score < expansionGate ∧
            c ∈ (rb.rulesFor job).map (·.1)) ∧
        (added.map (·.course)).Nodup ∧
        (∀ e ∈ added,
          (expansionOffers rb inf).find? (·.1 == e.course) = some (e.course, e.priority)) ∧
        (added.map fun e => (e.course, e.priority)).Sublist (expansionOffers rb inf) ∧
        added.map (·.seq) = List.range' a.nextSeq added.length ∧
        (∀ e ∈ a.entries, ∀ e' ∈ added, e.seq < e'.seq) ∧
        (a.expand rb inf).2.expand rb inf = (0, (a.expand rb inf).2)) ∧
      (a.mode = .exhaustive → a.expand rb inf = (0, a)) := by
  intro a added
  -- the first offers of unmet courses, before they are numbered
  have offers : added.map (fun e => (e.course, e.priority)) =
      (firstOffers (expansionOffers rb inf)).filter fun r => a.unmet r.1 :=
    numbered_offers _ _
  have courses : added.map (·.course) =
      ((firstOffers (expansionOffers rb inf)).filter fun r => a.unmet r.1).map (·.1) := by
    rw [← offers, List.map_map]
    rfl
  have seqs : added.map (·.seq) = List.range' a.nextSeq added.length := by
    simp only [added, appended, numbered_seqs, length_numbered]
  refine ⟨fun adaptive => ⟨?_, fun c => ?_, ?_, fun e member => ?_, ?_, ?_, ?_,
    expand_expand a rb inf⟩, fun exhaustive => expand_exhaustive exhaustive rb inf⟩
  · rw [expand_adaptive adaptive, foldl_offer_eq, Nat.zero_add]
  · rw [courses, mem_filter_unmet_courses, unmet_iff, mem_firstOffers_courses,
      mem_expansionOffers_iff, and_assoc]
  · rw [courses]
    exact (firstOffers_nodup _).sublist (List.filter_sublist.map _)
  · have kept : (e.course, e.priority) ∈ (firstOffers (expansionOffers rb inf)).filter
        fun r => a.unmet r.1 := offers ▸ List.mem_map.2 ⟨e, member, rfl⟩
    exact find?_of_mem_firstOffers (List.mem_filter.1 kept).1
  · rw [offers]
    exact List.filter_sublist.trans (firstOffers_sublist _)
  · exact seqs
  · -- queued entries are numbered below `nextSeq`, appended ones from it
    intro e queued e' new
    obtain ⟨log, grows⟩ := reachable_grows rb₀ seedCount mode ops
    have below : e.seq < a.nextSeq := grows.logged.seq_lt queued
    have numberedSeq : e'.seq ∈ List.range' a.nextSeq added.length :=
      seqs ▸ List.mem_map.2 ⟨e', new, rfl⟩
    have above : a.nextSeq ≤ e'.seq := (List.mem_range'_1.1 numberedSeq).1
    omega

/-- With the standard table and Software Development asked, Software Engineer at 0.45 appends its
four other courses, and a second expansion appends none. -/
theorem expand_appends_first_offers_softwareEngineer :
    let a := (create (RuleBase.standard : RuleBase Rat) 0 .adaptive).applyAll
      [.markAsked .softwareDevelopment]
    let inf : Inference Rat := ⟨[(.softwareEngineer, 9 / 20)], []⟩
    (a.expand RuleBase.standard inf).1 = 4 ∧
      ((a.expand RuleBase.standard inf).2.expand RuleBase.standard inf).1 = 0 := by
  intro a inf
  obtain ⟨adaptive, -⟩ := expand_appends_first_offers (RuleBase.standard : RuleBase Rat) 0
    .adaptive [.markAsked .softwareDevelopment] RuleBase.standard inf
  obtain ⟨grows, -, -, -, -, -, -, again⟩ := adaptive (by decide +kernel)
  rw [again, grows]
  exact ⟨by decide +kernel, rfl⟩

end Agenda

end CareerCompass
