import CareerCompass.Proofs.Session.QuestionOrder
/-!
# The seeds of a fresh agenda

The weight of a course sums its rule weights; the seeds are the `k` heaviest referenced courses.
`seedCourses` sorts the referenced courses, taken in catalogue order, by weight with a stable
sort in the total order, and keeps the first `k`. So the ranking it cuts is ordered by weight,
heaviest first, and among equal weights by catalogue order (`SortsBefore`), and a course is a seed
exactly when fewer than `k` referenced courses sort before it.

A fresh agenda pushes its initial courses one after the other at seed priority. All priorities
being level, the frontier serves them in arrival order (`create_frontier`).

* `courseRanking_sorted`: the ranking is ordered by weight, then by catalogue order.
* `mem_seedCourses_iff`: the seeds are the referenced courses with fewer than `k` before them.
* `create_frontier_seeds`: all of it for doubles, the program's numbers, and the frontiers of
  fresh adaptive and exhaustive agendas.
-/

set_option linter.unusedSectionVars false

namespace CareerCompass

/-- In a list sorted by an asymmetric relation, an item is among the first `k` exactly when it
is in the list and fewer than `k` items of the list come before it. -/
theorem mem_take_iff_countP_lt {β : Type} {R : β → β → Prop} [DecidableRel R]
    (asymm : ∀ {a b}, R a b → ¬ R b a) {xs : List β} (sorted : xs.Pairwise R) (c : β)
    (k : Nat) : c ∈ xs.take k ↔ c ∈ xs ∧ xs.countP (fun a => decide (R a c)) < k := by
  induction xs generalizing k with
  | nil => simp
  | cons x rest ih =>
    obtain ⟨first, restSorted⟩ := List.pairwise_cons.1 sorted
    cases k with
    | zero => simp
    | succ k =>
      by_cases head : c = x
      · subst head
        -- nothing comes before the head: it comes before all the rest
        have none : rest.countP (fun a => decide (R a c)) = 0 :=
          List.countP_eq_zero.2 fun a later before => asymm (first a later) (by simpa using before)
        have notSelf : ¬ R c c := fun self => asymm self self
        simp [none, notSelf]
      · rw [List.take_succ_cons, List.mem_cons, List.mem_cons, List.countP_cons, ih restSorted k]
        -- a later item has the head before it, which the count then includes
        by_cases later : c ∈ rest
        · simp [head, later, first c later]
        · simp [head, later]

namespace RuleBase

variable {α : Type} [Scalar α]

/-- Every referenced course, heaviest first; equal weights in catalogue order. -/
def courseRanking (rb : RuleBase α) : List Course :=
  (sortDescBy (·.2) rb.courseWeights).map (·.1)

theorem seedCourses_eq_take (rb : RuleBase α) (k : Nat) :
    rb.seedCourses k = rb.courseRanking.take k := by
  rw [seedCourses, courseRanking, List.map_take]

theorem courseRanking_perm (rb : RuleBase α) : rb.courseRanking.Perm rb.referencedCourses := by
  have sorted := (sortDescBy_perm (·.2) rb.courseWeights).map (·.1)
  simpa [courseRanking, courseWeights, List.map_map, Function.comp_def] using sorted

omit [Scalar α] in
theorem referencedCourses_sorted (rb : RuleBase α) :
    rb.referencedCourses.Pairwise fun a b => a.index < b.index :=
  Course.all_sorted.filter _

section TotalOrder

variable [Std.TransCmp (Scalar.totalCompare (α := α))]

/-- The ranking is ordered by weight, heaviest first, then by catalogue order. -/
theorem courseRanking_sorted (rb : RuleBase α) :
    rb.courseRanking.Pairwise (SortsBefore rb.courseWeight Course.index) := by
  have ranked : rb.courseWeights.Pairwise fun p q => p.1.index < q.1.index :=
    List.pairwise_map.2 rb.referencedCourses_sorted
  have sorted := sortDescBy_sortsBefore (fun p : Course × α => p.2) (·.1.index) ranked
  -- each weighed course carries its own weight
  have weighed : ∀ p ∈ sortDescBy (fun p : Course × α => p.2) rb.courseWeights,
      p.2 = rb.courseWeight p.1 := by
    intro p member
    obtain ⟨c, -, rfl⟩ := List.mem_map.1 ((sortDescBy_perm _ _).subset member)
    rfl
  refine List.pairwise_map.2 (sorted.imp_of_mem fun {p q} pMember qMember before => ?_)
  rw [SortsBefore, weighed p pMember, weighed q qMember] at before
  exact before

/-- **A course is a seed exactly when it is referenced and fewer than `k` referenced courses sort
before it**: heavier, or as heavy and earlier in the catalogue. -/
theorem mem_seedCourses_iff (rb : RuleBase α) (k : Nat) (c : Course) :
    c ∈ rb.seedCourses k ↔ c ∈ rb.referencedCourses ∧
      rb.referencedCourses.countP
        (fun d => decide (SortsBefore rb.courseWeight Course.index d c)) < k := by
  rw [seedCourses_eq_take, mem_take_iff_countP_lt SortsBefore.asymm rb.courseRanking_sorted,
    rb.courseRanking_perm.mem_iff, rb.courseRanking_perm.countP_eq]

end TotalOrder

end RuleBase

namespace Agenda

variable {α : Type} [Scalar α] [Std.TransCmp (Scalar.totalCompare (α := α))]

/-- A fresh agenda serves its entries in arrival order: they are all at seed priority. -/
theorem create_frontier (rb : RuleBase α) (k : Nat) (mode : AgendaMode) :
    (create rb k mode).frontier = (create rb k mode).entries := by
  obtain ⟨log, grows⟩ := create_grows rb k mode
  have wf := grows.logged.wf
  have atSeed := (create_entries rb k mode).2
  rw [frontier_eq, wf.open_eq]
  refine List.mergeSort_of_pairwise (wf.seq_sorted.imp_of_mem fun {x y} xMember yMember early => ?_)
  rw [servesBefore_iff, atSeed x xMember, atSeed y yMember]
  exact Or.inr ⟨Std.ReflCmp.compare_self, Nat.le_of_lt early⟩

/-- **The seeds and the frontier of a fresh agenda.** Over doubles, for every rule table and
every `k`, the seeds are `min k n` distinct referenced courses, for `n` referenced courses. They
are listed heaviest first in the total order of doubles, equal weights in catalogue order, and a
course is a seed exactly when fewer than `k` referenced courses sort before it. A fresh adaptive
agenda lists exactly the seeds, in that order and at seed priority, with `min k n` pending; a
fresh exhaustive agenda lists exactly the referenced courses, in catalogue order. -/
theorem create_frontier_seeds (rb : RuleBase Double) (k : Nat) :
    (rb.seedCourses k).length = min k rb.referencedCourses.length ∧
      (rb.seedCourses k).Nodup ∧ (∀ c ∈ rb.seedCourses k, c ∈ rb.referencedCourses) ∧
      (rb.seedCourses k).Pairwise (SortsBefore rb.courseWeight Course.index) ∧
      (∀ c, c ∈ rb.seedCourses k ↔ c ∈ rb.referencedCourses ∧
        rb.referencedCourses.countP
          (fun d => decide (SortsBefore rb.courseWeight Course.index d c)) < k) ∧
      (create rb k .adaptive).frontier.map (·.course) = rb.seedCourses k ∧
      (∀ e ∈ (create rb k .adaptive).frontier, e.priority = seedPriority) ∧
      (create rb k .adaptive).pending = min k rb.referencedCourses.length ∧
      (create rb k .exhaustive).frontier.map (·.course) = rb.referencedCourses := by
  have adaptive := create_entries rb k .adaptive
  have exhaustive := create_entries rb k .exhaustive
  have seeded : (create rb k .adaptive).frontier.map (·.course) = rb.seedCourses k := by
    rw [create_frontier]
    exact adaptive.1
  have counted : ((create rb k .adaptive).frontier.map (·.course)).length =
      (create rb k .adaptive).pending := by
    rw [List.length_map, frontier_length]
  refine ⟨rb.seedCourses_length k, rb.seedCourses_nodup k,
    fun c seed => RuleBase.mem_referencedCourses_of_mem_seedCourses seed, ?_,
    rb.mem_seedCourses_iff k, seeded, ?_, ?_, ?_⟩
  · rw [RuleBase.seedCourses_eq_take]
    exact rb.courseRanking_sorted.sublist (List.take_sublist k _)
  · rw [create_frontier]
    exact adaptive.2
  · rw [← counted, seeded, rb.seedCourses_length k]
  · rw [create_frontier]
    exact exhaustive.1

end Agenda

end CareerCompass
