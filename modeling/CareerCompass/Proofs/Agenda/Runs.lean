import CareerCompass.Interview.Agenda
import CareerCompass.RuleBase.Standard
/-!
# Runs of an agenda

A caller changes an agenda by three operations: `push`, `markAsked` and `expand`. An expansion
is a loop of pushes and a fresh agenda is the empty one after a loop of pushes, so every agenda a
caller can reach is the empty agenda after single pushes and askings. `Grows` is such a history,
and it logs the courses whose push succeeded, in order.

* `Grows.logged`: along every history from the empty agenda, the log has no repeated course and
  its length is `nextSeq`; the entry of arrival number `i` is the `i`-th course of the log; arrival
  numbers increase along the frontier; no queued course is asked; every logged course is asked or
  queued.
* `applyAll_grows`: every run of operations from a fresh agenda is such a history.
* `reachable_wf`: hence, after any operations, the frontier has each course once and none asked,
  arrival numbers increase and stay below `nextSeq`, `nextSeq` counts the successful pushes and is
  at most 28, a course is accepted by `push` at most once, and an asked course never comes back.

The key fact is the last field of `Logged`: a logged course is asked or queued, and `push`
refuses exactly those, so no course is logged twice.
-/

set_option linter.unusedSectionVars false

namespace CareerCompass

namespace Agenda

variable {α : Type} [Scalar α]

/-! ### Operations -/

/-- What a caller can do to an agenda. -/
inductive Op (α : Type) where
  /-- Offer a course at a priority. -/
  | push (course : Course) (priority : α)
  /-- Ask a course. -/
  | markAsked (course : Course)
  /-- Grow the frontier from the scores of an inference. -/
  | expand (rb : RuleBase α) (inf : Inference α)

/-- Performs an operation, dropping what it tells. -/
def apply (a : Agenda α) : Op α → Agenda α
  | .push course priority => (a.push course priority).2
  | .markAsked course => (a.markAsked course).2
  | .expand rb inf => (a.expand rb inf).2

/-- Performs operations in order. -/
def applyAll (a : Agenda α) (ops : List (Op α)) : Agenda α := ops.foldl apply a

@[simp] theorem applyAll_nil (a : Agenda α) : a.applyAll [] = a := rfl

@[simp] theorem applyAll_cons (a : Agenda α) (op : Op α) (ops : List (Op α)) :
    a.applyAll (op :: ops) = (a.apply op).applyAll ops := rfl

/-! ### Pushing and asking -/

@[simp] theorem isAsked_iff (a : Agenda α) (course : Course) :
    a.isAsked course = true ↔ course ∈ a.asked := by
  simp [isAsked]

@[simp] theorem isQueued_iff (a : Agenda α) (course : Course) :
    a.isQueued course = true ↔ course ∈ a.entries.map (·.course) := by
  simp [isQueued]

/-- A course the agenda has met: asked, or waiting in the frontier. `push` refuses exactly these. -/
def Seen (a : Agenda α) (course : Course) : Prop :=
  course ∈ a.asked ∨ course ∈ a.entries.map (·.course)

theorem push_of_seen {a : Agenda α} {course : Course} (priority : α) (seen : a.Seen course) :
    a.push course priority = (false, a) := by
  have refused : (a.isAsked course || a.isQueued course) = true := by simpa [Seen] using seen
  simp only [push, refused, if_true]

/-- Any other course joins the frontier with the next arrival number. -/
theorem push_of_unseen {a : Agenda α} {course : Course} (priority : α)
    (asked : course ∉ a.asked) (queued : course ∉ a.entries.map (·.course)) :
    a.push course priority =
      (true, { a with entries := a.entries ++ [⟨priority, course, a.nextSeq⟩],
                      nextSeq := a.nextSeq + 1 }) := by
  have accepted : (a.isAsked course || a.isQueued course) = false := by
    simpa [isAsked, isQueued] using And.intro asked queued
  simp only [push, accepted, Bool.false_eq_true, if_false]

@[simp] theorem push_mode (a : Agenda α) (course : Course) (priority : α) :
    (a.push course priority).2.mode = a.mode := by
  unfold push; split <;> rfl

@[simp] theorem push_asked (a : Agenda α) (course : Course) (priority : α) :
    (a.push course priority).2.asked = a.asked := by
  unfold push; split <;> rfl

@[simp] theorem markAsked_entries (a : Agenda α) (course : Course) :
    (a.markAsked course).2.entries = a.entries.filter (·.course != course) := by
  unfold markAsked; split <;> rfl

@[simp] theorem markAsked_nextSeq (a : Agenda α) (course : Course) :
    (a.markAsked course).2.nextSeq = a.nextSeq := by
  unfold markAsked; split <;> rfl

@[simp] theorem markAsked_mode (a : Agenda α) (course : Course) :
    (a.markAsked course).2.mode = a.mode := by
  unfold markAsked; split <;> rfl

theorem mem_markAsked_asked (a : Agenda α) (course other : Course) :
    other ∈ (a.markAsked course).2.asked ↔ other = course ∨ other ∈ a.asked := by
  unfold markAsked
  split
  · next asked =>
    have : course ∈ a.asked := by simpa using asked
    constructor
    · exact Or.inr
    · rintro (rfl | member)
      · exact this
      · exact member
  · simp

theorem markAsked_asked_nodup {a : Agenda α} (nodup : a.asked.Nodup) (course : Course) :
    (a.markAsked course).2.asked.Nodup := by
  unfold markAsked
  split
  · exact nodup
  · next fresh => exact List.nodup_cons.2 ⟨by simpa using fresh, nodup⟩

theorem create_asked (rb : RuleBase α) (seedCount : Nat) (mode : AgendaMode) :
    (create rb seedCount mode).asked = [] := by
  unfold create
  apply List.foldlRecOn (motive := fun b : Agenda α => b.asked = [])
  · rfl
  · intro b none c _
    rw [push_asked]
    exact none

theorem mem_push_entries {a : Agenda α} {course : Course} {priority : α} {e : FrontierEntry α}
    (member : e ∈ (a.push course priority).2.entries) :
    e ∈ a.entries ∨ e.course = course := by
  by_cases met : a.Seen course
  · rw [push_of_seen priority met] at member
    exact Or.inl member
  · obtain ⟨asked, queued⟩ := not_or.1 met
    rw [push_of_unseen priority asked queued] at member
    rcases List.mem_append.1 member with old | new
    · exact Or.inl old
    · rw [List.mem_singleton.1 new]
      exact Or.inr rfl

theorem seen_push (a : Agenda α) (course : Course) (priority : α) :
    (a.push course priority).2.Seen course := by
  by_cases met : a.Seen course
  · rw [push_of_seen priority met]
    exact met
  · obtain ⟨asked, queued⟩ := not_or.1 met
    rw [push_of_unseen priority asked queued]
    exact Or.inr (by simp)

theorem Seen.push {a : Agenda α} {course : Course} (seen : a.Seen course) (other : Course)
    (priority : α) : (a.push other priority).2.Seen course := by
  by_cases met : a.Seen other
  · rw [push_of_seen priority met]
    exact seen
  · obtain ⟨asked, queued⟩ := not_or.1 met
    rw [push_of_unseen priority asked queued]
    rcases seen with wasAsked | wasQueued
    · exact Or.inl wasAsked
    · exact Or.inr (by simp only [List.map_append]; exact List.mem_append_left _ wasQueued)

/-- Asking keeps every course met: the asked one moves from the frontier to the asked ones. -/
theorem Seen.markAsked {a : Agenda α} {course : Course} (seen : a.Seen course) (other : Course) :
    (a.markAsked other).2.Seen course := by
  rw [Seen, mem_markAsked_asked]
  by_cases same : course = other
  · exact Or.inl (Or.inl same)
  · rcases seen with wasAsked | wasQueued
    · exact Or.inl (Or.inr wasAsked)
    · obtain ⟨e, kept, rfl⟩ := List.mem_map.1 wasQueued
      exact Or.inr (List.mem_map.2 ⟨e, by simpa using And.intro kept same, rfl⟩)

/-! ### Histories of single steps -/

/-- `start.Grows log a`: single pushes and askings lead from `start` to `a`, and `log` lists the
courses whose push succeeded, in order. -/
inductive Grows (start : Agenda α) : List Course → Agenda α → Prop
  | refl : Grows start [] start
  | push {log : List Course} {a : Agenda α} (course : Course) (priority : α) :
      Grows start log a →
        Grows start (log ++ if (a.push course priority).1 then [course] else [])
          (a.push course priority).2
  | ask {log : List Course} {a : Agenda α} (course : Course) :
      Grows start log a → Grows start log (a.markAsked course).2

namespace Grows

variable {start a b : Agenda α} {log new : List Course}

theorem trans (first : start.Grows log a) (second : a.Grows new b) :
    start.Grows (log ++ new) b := by
  induction second with
  | refl => simpa using first
  | push course priority _ ih =>
    rw [← List.append_assoc]
    exact .push course priority ih
  | ask course _ ih => exact .ask course ih

theorem mode_eq (grows : start.Grows log a) : a.mode = start.mode := by
  induction grows with
  | refl => rfl
  | push course priority _ ih => simpa using ih
  | ask course _ ih => simpa using ih

theorem asked_mono (grows : start.Grows log a) {course : Course} (asked : course ∈ start.asked) :
    course ∈ a.asked := by
  induction grows with
  | refl => exact asked
  | push _ _ _ ih => simpa using ih
  | ask _ _ ih => exact (mem_markAsked_asked _ _ _).2 (Or.inr ih)

end Grows

/-! ### What a history from the empty agenda keeps -/

/-- What the log of a history from the empty agenda says about the agenda it reaches. -/
structure Logged (log : List Course) (a : Agenda α) : Prop where
  /-- No course joined twice. -/
  nodup : log.Nodup
  /-- The next arrival number counts the arrivals. -/
  length_eq : log.length = a.nextSeq
  /-- A queued entry's arrival number points at its course in the log. -/
  entry_seq : ∀ e ∈ a.entries, log[e.seq]? = some e.course
  /-- Arrival numbers increase along the frontier. -/
  seq_sorted : a.entries.Pairwise fun x y => x.seq < y.seq
  /-- No queued course is asked. -/
  fresh : ∀ e ∈ a.entries, e.course ∉ a.asked
  /-- Every course that joined is still asked or queued. -/
  seen : ∀ c ∈ log, a.Seen c

namespace Logged

variable {log : List Course} {a : Agenda α}

theorem empty (mode : AgendaMode) : Logged [] (empty mode : Agenda α) :=
  ⟨.nil, rfl, by simp [Agenda.empty], .nil, by simp [Agenda.empty], by simp⟩

theorem seq_lt (inv : Logged log a) {e : FrontierEntry α} (member : e ∈ a.entries) :
    e.seq < a.nextSeq := by
  obtain ⟨bound, _⟩ := List.getElem?_eq_some_iff.1 (inv.entry_seq e member)
  exact inv.length_eq ▸ bound

/-- A push keeps the invariant, the log growing by the course when it is accepted. -/
theorem push (inv : Logged log a) (course : Course) (priority : α) :
    Logged (log ++ if (a.push course priority).1 then [course] else [])
      (a.push course priority).2 := by
  by_cases seen : a.Seen course
  · rw [push_of_seen priority seen]
    simpa using inv
  · obtain ⟨asked, queued⟩ := not_or.1 seen
    -- every logged course is still met, so one that is not met was never logged
    have unlogged : course ∉ log := fun member => seen (inv.seen course member)
    have stillSeen : ∀ c ∈ log ++ [course], (a.push course priority).2.Seen c := by
      intro c member
      rcases List.mem_append.1 member with old | new
      · exact (inv.seen c old).push course priority
      · rw [List.mem_singleton.1 new]
        exact seen_push a course priority
    rw [push_of_unseen priority asked queued] at stillSeen ⊢
    simp only [if_true]
    refine ⟨?_, ?_, ?_, ?_, ?_, stillSeen⟩
    · refine List.nodup_append.2 ⟨inv.nodup, by simp, fun c member d single => ?_⟩
      rw [List.mem_singleton.1 single]
      rintro rfl
      exact unlogged member
    · simp [inv.length_eq]
    · intro e member
      rcases List.mem_append.1 member with old | new
      · have bound : e.seq < log.length := inv.length_eq ▸ inv.seq_lt old
        rw [List.getElem?_append_left bound]
        exact inv.entry_seq e old
      · rw [List.mem_singleton.1 new, ← inv.length_eq]
        exact List.getElem?_concat_length
    · refine List.pairwise_append.2 ⟨inv.seq_sorted, List.pairwise_singleton _ _, ?_⟩
      intro x old y new
      rw [List.mem_singleton.1 new]
      exact inv.seq_lt old
    · intro e member
      rcases List.mem_append.1 member with old | new
      · exact inv.fresh e old
      · rw [List.mem_singleton.1 new]; exact asked

/-- Asking a course keeps the invariant: the course leaves the frontier and is asked. -/
theorem markAsked (inv : Logged log a) (course : Course) : Logged log (a.markAsked course).2 := by
  refine ⟨inv.nodup, by simpa using inv.length_eq, ?_, ?_, ?_, ?_⟩
  · intro e member
    have kept : e ∈ a.entries ∧ e.course ≠ course := by simpa using member
    exact inv.entry_seq e kept.1
  · simpa using inv.seq_sorted.filter _
  · intro e member
    have kept : e ∈ a.entries ∧ e.course ≠ course := by simpa using member
    rw [mem_markAsked_asked]
    rintro (same | wasAsked)
    · exact kept.2 same
    · exact inv.fresh e kept.1 wasAsked
  · exact fun c member => (inv.seen c member).markAsked course

end Logged

/-- **Every history from the empty agenda keeps `Logged`.** -/
theorem Grows.logged {mode : AgendaMode} {log : List Course} {a : Agenda α}
    (grows : (empty mode).Grows log a) : Logged log a := by
  induction grows with
  | refl => exact .empty mode
  | push course priority _ ih => exact ih.push course priority
  | ask course _ ih => exact ih.markAsked course

/-! ### An expansion is one loop of offers -/

/-- One push of an expansion: offer a course at its rule weight, counting it if it joins. -/
def offer (acc : Nat × Agenda α) (rule : Course × α) : Nat × Agenda α :=
  (if (acc.2.push rule.1 rule.2).1 then acc.1 + 1 else acc.1, (acc.2.push rule.1 rule.2).2)

/-- What an expansion offers, in order: the rules of each scored job that reaches the gate. -/
def expansionOffers (rb : RuleBase α) (inf : Inference α) : List (Course × α) :=
  inf.scores.flatMap fun (job, cf) => if cf < expansionGate then [] else rb.rulesFor job

theorem expand_exhaustive {a : Agenda α} (exhaustive : a.mode = .exhaustive) (rb : RuleBase α)
    (inf : Inference α) : a.expand rb inf = (0, a) := by
  rw [expand, exhaustive]

/-- In adaptive mode the two nested loops of `expand` are one loop over `expansionOffers`. -/
theorem expand_adaptive {a : Agenda α} (adaptive : a.mode = .adaptive) (rb : RuleBase α)
    (inf : Inference α) : a.expand rb inf = (expansionOffers rb inf).foldl offer (0, a) := by
  rw [expand, adaptive, expansionOffers]
  dsimp only
  generalize ((0, a) : Nat × Agenda α) = acc
  generalize inf.scores = scores
  induction scores generalizing acc with
  | nil => rfl
  | cons score rest ih =>
    rw [List.foldl_cons, List.flatMap_cons, List.foldl_append, ← ih]
    congr 1
    split <;> rfl

theorem foldl_offer_asked (acc : Nat × Agenda α) (offers : List (Course × α)) :
    (offers.foldl offer acc).2.asked = acc.2.asked := by
  induction offers generalizing acc with
  | nil => rfl
  | cons rule rest ih => exact (ih (offer acc rule)).trans (push_asked acc.2 rule.1 rule.2)

theorem mem_foldl_offer_entries {acc : Nat × Agenda α} {offers : List (Course × α)}
    {e : FrontierEntry α} (member : e ∈ (offers.foldl offer acc).2.entries) :
    e ∈ acc.2.entries ∨ e.course ∈ offers.map (·.1) := by
  induction offers generalizing acc with
  | nil => exact Or.inl member
  | cons rule rest ih =>
    rcases ih member with old | later
    · rcases mem_push_entries old with older | new
      · exact Or.inl older
      · exact Or.inr (by rw [new]; exact List.mem_cons_self)
    · exact Or.inr (List.mem_cons_of_mem _ later)

theorem Seen.foldl_offer {acc : Nat × Agenda α} {course : Course} (seen : acc.2.Seen course)
    (offers : List (Course × α)) : (offers.foldl offer acc).2.Seen course := by
  induction offers generalizing acc with
  | nil => exact seen
  | cons rule rest ih => exact ih (seen.push rule.1 rule.2)

theorem seen_foldl_offer (acc : Nat × Agenda α) (offers : List (Course × α)) :
    ∀ c ∈ offers.map (·.1), (offers.foldl offer acc).2.Seen c := by
  induction offers generalizing acc with
  | nil => simp
  | cons rule rest ih =>
    intro c member
    rcases List.mem_cons.1 member with rfl | later
    · exact Seen.foldl_offer (seen_push acc.2 rule.1 rule.2) rest
    · exact ih (offer acc rule) c later

/-- A loop that offers only courses already met changes nothing. -/
theorem foldl_offer_of_seen (acc : Nat × Agenda α) (offers : List (Course × α))
    (seen : ∀ c ∈ offers.map (·.1), acc.2.Seen c) : offers.foldl offer acc = acc := by
  induction offers with
  | nil => rfl
  | cons rule rest ih =>
    have unchanged : offer acc rule = acc := by
      simp [offer, push_of_seen rule.2 (seen rule.1 List.mem_cons_self)]
    rw [List.foldl_cons, unchanged]
    exact ih fun c member => seen c (List.mem_cons_of_mem _ member)

theorem expand_asked (a : Agenda α) (rb : RuleBase α) (inf : Inference α) :
    (a.expand rb inf).2.asked = a.asked := by
  cases mode : a.mode with
  | exhaustive => rw [expand_exhaustive mode]
  | adaptive => rw [expand_adaptive mode, foldl_offer_asked]

theorem mem_expand_entries {a : Agenda α} {rb : RuleBase α} {inf : Inference α}
    {e : FrontierEntry α} (member : e ∈ (a.expand rb inf).2.entries) :
    e ∈ a.entries ∨ e.course ∈ (expansionOffers rb inf).map (·.1) := by
  cases mode : a.mode with
  | exhaustive =>
    rw [expand_exhaustive mode] at member
    exact Or.inl member
  | adaptive =>
    rw [expand_adaptive mode] at member
    exact mem_foldl_offer_entries member

/-! ### Every run is a history -/

section Runs

variable {a : Agenda α}

/-- An expansion is a history of pushes, and what it reports counts its arrivals. -/
theorem expand_grows (rb : RuleBase α) (inf : Inference α) :
    ∃ new, a.Grows new (a.expand rb inf).2 ∧ new.length = (a.expand rb inf).1 := by
  cases mode : a.mode with
  | exhaustive =>
    rw [expand_exhaustive mode]
    exact ⟨[], .refl, rfl⟩
  | adaptive =>
    rw [expand_adaptive mode]
    -- the agenda so far grew from `a` by as many arrivals as the count says
    apply List.foldlRecOn
      (motive := fun acc : Nat × Agenda α => ∃ new, a.Grows new acc.2 ∧ new.length = acc.1)
    · exact ⟨[], .refl, rfl⟩
    · rintro ⟨n, b⟩ ⟨new, grows, length⟩ ⟨c, w⟩ _
      refine ⟨_, grows.push c w, ?_⟩
      cases accepted : (b.push c w).1 <;> simp [offer, accepted, length]

theorem create_grows (rb : RuleBase α) (seedCount : Nat) (mode : AgendaMode) :
    ∃ log, (empty mode).Grows log (create rb seedCount mode) := by
  unfold create
  apply List.foldlRecOn (motive := fun b : Agenda α => ∃ log, (empty mode).Grows log b)
  · exact ⟨[], .refl⟩
  · rintro b ⟨log, grows⟩ c _
    exact ⟨_, grows.push c seedPriority⟩

theorem apply_grows (op : Op α) : ∃ new, a.Grows new (a.apply op) := by
  cases op with
  | push course priority => exact ⟨_, Grows.refl.push course priority⟩
  | markAsked course => exact ⟨_, Grows.refl.ask course⟩
  | expand rb inf =>
    obtain ⟨new, grows, _⟩ := expand_grows (a := a) rb inf
    exact ⟨new, grows⟩

theorem applyAll_grows (ops : List (Op α)) : ∃ new, a.Grows new (a.applyAll ops) := by
  induction ops generalizing a with
  | nil => exact ⟨[], .refl⟩
  | cons op ops ih =>
    obtain ⟨first, step⟩ := apply_grows (a := a) op
    obtain ⟨rest, run⟩ := ih (a := a.apply op)
    exact ⟨first ++ rest, step.trans run⟩

/-- Every run from a fresh agenda is a history from the empty agenda. -/
theorem reachable_grows (rb : RuleBase α) (seedCount : Nat) (mode : AgendaMode)
    (ops : List (Op α)) :
    ∃ log, (empty mode).Grows log ((create rb seedCount mode).applyAll ops) := by
  obtain ⟨seeds, created⟩ := create_grows rb seedCount mode
  obtain ⟨rest, run⟩ := applyAll_grows (a := create rb seedCount mode) ops
  exact ⟨seeds ++ rest, created.trans run⟩

end Runs

/-! ### The shape of every reachable agenda -/

/-- The shape of an agenda that a caller reaches. -/
structure Wf (a : Agenda α) : Prop where
  /-- No course is queued twice. -/
  nodup : (a.entries.map (·.course)).Nodup
  /-- No queued course is asked. -/
  fresh : ∀ e ∈ a.entries, e.course ∉ a.asked
  /-- Arrival numbers increase along the frontier. -/
  seq_sorted : a.entries.Pairwise fun x y => x.seq < y.seq
  /-- Arrival numbers stay below the next one. -/
  seq_lt : ∀ e ∈ a.entries, e.seq < a.nextSeq

section Shape

variable {log : List Course} {a : Agenda α}

/-- Distinct arrival numbers point at distinct courses of a duplicate-free log. -/
theorem Logged.wf (inv : Logged log a) : a.Wf where
  nodup := by
    refine List.pairwise_map.2 (inv.seq_sorted.imp_of_mem ?_)
    intro x y xMember yMember before same
    -- two entries of one course point at one place of the log, so they arrived together
    have bound : x.seq < log.length := inv.length_eq ▸ inv.seq_lt xMember
    have pointsAlike : log[x.seq]? = log[y.seq]? := by
      rw [inv.entry_seq x xMember, inv.entry_seq y yMember, same]
    have : x.seq = y.seq := (List.getElem?_inj bound inv.nodup).1 pointsAlike
    omega
  fresh := inv.fresh
  seq_sorted := inv.seq_sorted
  seq_lt _ member := inv.seq_lt member

/-- No more courses join than the catalogue has. -/
theorem Logged.nextSeq_le (inv : Logged log a) : a.nextSeq ≤ 28 :=
  calc a.nextSeq = log.length := inv.length_eq.symm
    _ ≤ Course.all.length := inv.nodup.length_le_of_subset fun c _ => Course.mem_all c
    _ = 28 := rfl

/-- With no queued course asked, every entry waits. -/
theorem Wf.open_eq (wf : a.Wf) : a.open_ = a.entries :=
  List.filter_eq_self.2 fun e member => by simpa [isAsked] using wf.fresh e member

theorem Wf.pending_eq (wf : a.Wf) : a.pending = a.entries.length := by
  rw [pending, wf.open_eq]

theorem frontier_length (a : Agenda α) : a.frontier.length = a.pending :=
  List.length_mergeSort _

/-- After a history from the empty agenda, a course that joined at some point is refused. -/
theorem Grows.push_eq_of_mem {mode : AgendaMode} (grows : (empty mode).Grows log a)
    {course : Course} (logged : course ∈ log) (priority : α) :
    a.push course priority = (false, a) :=
  push_of_seen priority (grows.logged.seen course logged)

end Shape

/-- **Every agenda a caller reaches is well formed.** After any pushes (at any priorities),
askings and expansions (by any rule base and inference) from a fresh agenda, the frontier holds
each course once and none asked, and arrival numbers increase along it and stay below `nextSeq`.
`nextSeq` counts the successful pushes of a history of single steps that leads there, these are
of distinct courses, so `nextSeq` is at most 28. `pending` is the length of the frontier. A course
is accepted by `push` at most once, and an asked course never joins the frontier again. -/
theorem reachable_wf (rb : RuleBase α) (seedCount : Nat) (mode : AgendaMode)
    (ops : List (Op α)) :
    let a := (create rb seedCount mode).applyAll ops
    a.Wf ∧ (∃ log, (empty mode).Grows log a ∧ log.Nodup ∧ log.length = a.nextSeq) ∧
      a.nextSeq ≤ 28 ∧ a.pending = a.entries.length ∧ a.frontier.length = a.pending ∧
      (∀ course priority, (a.push course priority).1 = true →
        ∀ (later : List (Op α)) (again : α),
          (((a.push course priority).2.applyAll later).push course again).1 = false) ∧
      (∀ course ∈ a.asked, ∀ later : List (Op α),
        course ∈ (a.applyAll later).asked ∧
          course ∉ (a.applyAll later).entries.map (·.course)) := by
  intro a
  obtain ⟨log, grows⟩ := reachable_grows rb seedCount mode ops
  have inv := grows.logged
  refine ⟨inv.wf, ⟨log, grows, inv.nodup, inv.length_eq⟩, inv.nextSeq_le, inv.wf.pending_eq,
    frontier_length a, ?_, ?_⟩
  · intro course priority accepted later again
    obtain ⟨rest, run⟩ := applyAll_grows (a := (a.push course priority).2) later
    have whole := (grows.push course priority).trans run
    have logged :
        course ∈ (log ++ if (a.push course priority).1 then [course] else []) ++ rest := by
      simp [accepted]
    rw [whole.push_eq_of_mem logged again]
  · intro course asked later
    obtain ⟨rest, run⟩ := applyAll_grows (a := a) later
    have stays := run.asked_mono asked
    refine ⟨stays, fun queued => ?_⟩
    obtain ⟨e, member, rfl⟩ := List.mem_map.1 queued
    exact (grows.trans run).logged.fresh e member stays

/-- With the standard table and no seeds: once `Database` is asked, `Web Programming` is accepted,
asked, and then refused; `Database` stays asked and out of the frontier. -/
theorem reachable_wf_database :
    let a := (create (RuleBase.standard : RuleBase Rat) 0 .adaptive).applyAll [.markAsked .database]
    (((a.push .webProgramming 1).2.applyAll [.markAsked .webProgramming]).push
        .webProgramming (1 / 2)).1 = false ∧
      Course.database ∈ (a.applyAll [.push .database 1]).asked ∧
      Course.database ∉ (a.applyAll [.push .database 1]).entries.map (·.course) := by
  intro a
  obtain ⟨-, -, -, -, -, once, stays⟩ :=
    reachable_wf (RuleBase.standard : RuleBase Rat) 0 .adaptive [.markAsked .database]
  exact ⟨once .webProgramming 1 (by decide) _ _, stays .database (by decide) _⟩

end Agenda

end CareerCompass
