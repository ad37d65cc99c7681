import CareerCompass.Proofs.Agenda.Runs
import CareerCompass.Proofs.TotalOrder
/-!
# The next question and the frontier

`peekNext` scans the waiting entries in arrival order and keeps the running best until an entry
is not `≤` it; `frontier` sorts the same entries by the total order, highest first, earlier
arrivals first among equals.

* `peekNext_eq_none_iff`: there is no next question exactly when nothing waits, for every agenda.
* `peekNext_eq_frontier_head`: on every agenda a caller reaches, the next question is the head of
  the frontier whenever `≤` agrees with the total order on the waiting priorities. Over rationals
  it always does (`Rat.le_iff_totalCompare_ne_gt`).

Over doubles the agreement fails at the zeros and at NaNs. `-0 ≤ +0` and `+0 ≤ -0` both hold
while the total order puts `-0` below `+0`, so entries `-0, +0` in arrival order make the scan
serve `-0` and the frontier list `+0` first. No NaN is `≤` anything, so a NaN entry takes over
the scan wherever the total order puts it.

Both procedures break ties by arrival, the scan because a later entry must beat the best and the
sort by comparing arrival numbers. That they agree needs the arrival numbers to increase along the
frontier (`Wf.seq_sorted`).
-/

set_option linter.unusedSectionVars false

namespace CareerCompass

namespace Agenda

variable {α : Type} [Scalar α]

/-- The order of `frontier`: higher priority in the total order first, then earlier arrival. -/
def servesBefore (x y : FrontierEntry α) : Bool :=
  match Scalar.totalCompare x.priority y.priority with
  | .gt => true
  | .lt => false
  | .eq => decide (x.seq ≤ y.seq)

/-- One step of the scan of `best?`: the new entry takes over unless it is `≤` the best. -/
def keepBest (best : Option (FrontierEntry α)) (e : FrontierEntry α) :
    Option (FrontierEntry α) :=
  match best with
  | some b => if e.priority ≤ b.priority then some b else some e
  | none => some e

theorem frontier_eq (a : Agenda α) : a.frontier = a.open_.mergeSort servesBefore := rfl

theorem best?_eq (a : Agenda α) : a.best? = a.open_.foldl keepBest none := rfl

theorem servesBefore_iff {x y : FrontierEntry α} :
    servesBefore x y = true ↔ Scalar.totalCompare x.priority y.priority = .gt ∨
      (Scalar.totalCompare x.priority y.priority = .eq ∧ x.seq ≤ y.seq) := by
  unfold servesBefore
  split <;> simp_all

/-! ### No next question exactly when nothing waits -/

theorem isSome_foldl_keepBest (b : FrontierEntry α) (rest : List (FrontierEntry α)) :
    (rest.foldl keepBest (some b)).isSome := by
  induction rest generalizing b with
  | nil => rfl
  | cons e rest ih =>
    simp only [List.foldl_cons, keepBest]
    split
    · exact ih b
    · exact ih e

theorem best?_eq_none_iff (a : Agenda α) : a.best? = none ↔ a.open_ = [] := by
  rw [best?_eq]
  rcases a.open_ with _ | ⟨e, rest⟩
  · simp
  · simp only [List.foldl_cons, keepBest, reduceCtorEq, iff_false]
    exact Option.isSome_iff_ne_none.1 (isSome_foldl_keepBest e rest)

/-- The scan ends at the entry it started from or at one of the entries it saw. -/
theorem foldl_keepBest_mem {best : Option (FrontierEntry α)} {m : FrontierEntry α}
    {rest : List (FrontierEntry α)} (scan : rest.foldl keepBest best = some m) :
    best = some m ∨ m ∈ rest := by
  induction rest generalizing best with
  | nil => exact Or.inl scan
  | cons e rest ih =>
    rcases ih scan with started | later
    · cases best with
      | none => exact Or.inr (by cases started; exact List.mem_cons_self)
      | some b =>
        by_cases kept : e.priority ≤ b.priority
        · simp only [keepBest, kept, if_true] at started
          exact Or.inl started
        · simp only [keepBest, kept, if_false, Option.some.injEq] at started
          rw [← started]
          exact Or.inr List.mem_cons_self
    · exact Or.inr (List.mem_cons_of_mem e later)

/-- The next question is the course of a waiting entry. -/
theorem mem_open_of_peekNext {a : Agenda α} {course : Course} (next : a.peekNext = some course) :
    ∃ e ∈ a.open_, e.course = course := by
  obtain ⟨e, best, rfl⟩ := Option.map_eq_some_iff.1 next
  rw [best?_eq] at best
  rcases foldl_keepBest_mem best with started | seen
  · cases started
  · exact ⟨e, seen, rfl⟩

theorem peekNext_eq_none_iff_open (a : Agenda α) : a.peekNext = none ↔ a.open_ = [] := by
  rw [peekNext, Option.map_eq_none_iff, best?_eq_none_iff]

/-- The frontier holds the waiting entries, reordered. -/
theorem mem_frontier_iff {a : Agenda α} {e : FrontierEntry α} :
    e ∈ a.frontier ↔ e ∈ a.open_ := by
  rw [frontier_eq, List.mem_mergeSort]

theorem frontier_eq_nil_iff (a : Agenda α) : a.frontier = [] ↔ a.open_ = [] := by
  simp only [List.eq_nil_iff_forall_not_mem, mem_frontier_iff]

/-- **No next question exactly when nothing waits**, on every agenda. -/
theorem peekNext_eq_none_iff (a : Agenda α) :
    (a.peekNext = none ↔ a.pending = 0) ∧ (a.peekNext = none ↔ a.frontier = []) := by
  rw [peekNext_eq_none_iff_open, frontier_eq_nil_iff, pending, List.length_eq_zero_iff]
  exact ⟨Iff.rfl, Iff.rfl⟩

/-! ### The order of the frontier -/

section TotalOrder

variable [Std.TransCmp (Scalar.totalCompare (α := α))]

theorem servesBefore_refl (x : FrontierEntry α) : servesBefore x x = true :=
  servesBefore_iff.2 (Or.inr ⟨Std.ReflCmp.compare_self, Nat.le_refl _⟩)

theorem servesBefore_trans {x y z : FrontierEntry α} (first : servesBefore x y = true)
    (second : servesBefore y z = true) : servesBefore x z = true := by
  rw [servesBefore_iff] at first second ⊢
  rcases first with above | ⟨even, early⟩ <;> rcases second with above' | ⟨even', early'⟩
  · exact Or.inl (Std.TransCmp.gt_trans above above')
  · exact Or.inl (Std.TransCmp.gt_of_gt_of_eq above even')
  · exact Or.inl (Std.TransCmp.gt_of_eq_of_gt even above')
  · exact Or.inr ⟨Std.TransCmp.eq_trans even even', Nat.le_trans early early'⟩

theorem servesBefore_total (x y : FrontierEntry α) :
    (servesBefore x y || servesBefore y x) = true := by
  rw [Bool.or_eq_true, servesBefore_iff, servesBefore_iff]
  cases order : Scalar.totalCompare x.priority y.priority with
  | gt => exact Or.inl (Or.inl rfl)
  | lt => exact Or.inr (Or.inl (Std.OrientedCmp.gt_of_lt order))
  | eq =>
    rcases Nat.le_total x.seq y.seq with early | late
    · exact Or.inl (Or.inr ⟨rfl, early⟩)
    · exact Or.inr (Or.inr ⟨Std.OrientedCmp.eq_symm order, late⟩)

theorem seq_eq_of_servesBefore {x y : FrontierEntry α} (first : servesBefore x y = true)
    (second : servesBefore y x = true) : x.seq = y.seq := by
  rw [servesBefore_iff] at first second
  rcases first with above | ⟨even, early⟩ <;> rcases second with above' | ⟨even', late⟩
  · have below := Std.OrientedCmp.lt_of_gt above
    rw [above'] at below
    cases below
  · rw [Std.OrientedCmp.eq_symm even'] at above
    cases above
  · rw [Std.OrientedCmp.eq_symm even] at above'
    cases above'
  · exact Nat.le_antisymm early late

/-- Along increasing arrival numbers, an arrival number names one entry. -/
theorem eq_of_seq_eq {entries : List (FrontierEntry α)}
    (sorted : entries.Pairwise fun x y => x.seq < y.seq) {x y : FrontierEntry α}
    (xMember : x ∈ entries) (yMember : y ∈ entries) (same : x.seq = y.seq) : x = y := by
  induction entries with
  | nil => cases xMember
  | cons e rest ih =>
    rw [List.pairwise_cons] at sorted
    rcases List.mem_cons.1 xMember with rfl | xTail <;>
      rcases List.mem_cons.1 yMember with rfl | yTail
    · rfl
    · exact absurd same (Nat.ne_of_lt (sorted.1 y yTail))
    · exact absurd same.symm (Nat.ne_of_lt (sorted.1 x xTail))
    · exact ih sorted.2 xTail yTail

/-- `≤` agrees with the total order on the priorities of some entries. -/
def LeAgrees (entries : List (FrontierEntry α)) : Prop :=
  ∀ x ∈ entries, ∀ y ∈ entries,
    x.priority ≤ y.priority ↔ Scalar.totalCompare x.priority y.priority ≠ .gt

theorem LeAgrees.sublist {small large : List (FrontierEntry α)} (agree : LeAgrees large)
    (sub : small.Sublist large) : LeAgrees small :=
  fun x xMember y yMember => agree x (sub.subset xMember) y (sub.subset yMember)

/-- **The scan keeps an entry served before all it has seen.** From the best `b`, scanning
`rest` ends at an entry of `b :: rest` that the frontier's order puts before every one of them. -/
theorem foldl_keepBest_spec (b : FrontierEntry α) (rest : List (FrontierEntry α))
    (agree : LeAgrees (b :: rest)) (sorted : (b :: rest).Pairwise fun x y => x.seq < y.seq) :
    ∃ m ∈ b :: rest, rest.foldl keepBest (some b) = some m ∧
      ∀ y ∈ b :: rest, servesBefore m y = true := by
  induction rest generalizing b with
  | nil => exact ⟨b, List.mem_singleton_self b, rfl, by simpa using servesBefore_refl b⟩
  | cons e rest ih =>
    have early : b.seq < e.seq := List.rel_of_pairwise_cons sorted List.mem_cons_self
    have compared := agree e (by simp) b (by simp)
    by_cases kept : e.priority ≤ b.priority
    · -- `b` stays the best: it is served before `e` (after it in the order, or equal and earlier).
      have bFirst : servesBefore b e = true := by
        have notBelow := compared.1 kept
        rw [servesBefore_iff]
        cases order : Scalar.totalCompare b.priority e.priority with
        | gt => exact Or.inl rfl
        | eq => exact Or.inr ⟨rfl, Nat.le_of_lt early⟩
        | lt => exact absurd (Std.OrientedCmp.gt_of_lt order) notBelow
      have drop : (b :: rest).Sublist (b :: e :: rest) :=
        (List.sublist_cons_self e rest).cons_cons b
      obtain ⟨m, member, scan, first⟩ := ih b (agree.sublist drop) (sorted.sublist drop)
      refine ⟨m, drop.subset member, by simp [keepBest, kept, scan], fun y yMember => ?_⟩
      rcases List.mem_cons.1 yMember with rfl | yMember
      · exact first y List.mem_cons_self
      rcases List.mem_cons.1 yMember with rfl | yMember
      · exact servesBefore_trans (first b List.mem_cons_self) bFirst
      · exact first y (List.mem_cons_of_mem b yMember)
    · -- `e` takes over: it is above `b` in the total order.
      have eFirst : servesBefore e b = true := by
        rw [servesBefore_iff]
        exact Or.inl (Decidable.of_not_not (mt compared.2 kept))
      have drop : (e :: rest).Sublist (b :: e :: rest) := List.sublist_cons_self b (e :: rest)
      obtain ⟨m, member, scan, first⟩ := ih e (agree.sublist drop) (sorted.sublist drop)
      refine ⟨m, drop.subset member, by simp [keepBest, kept, scan], fun y yMember => ?_⟩
      rcases List.mem_cons.1 yMember with rfl | yMember
      · exact servesBefore_trans (first e List.mem_cons_self) eFirst
      · exact first y yMember

/-- The head of the frontier's sort is served before every entry. -/
theorem head?_mergeSort_spec (b : FrontierEntry α) (rest : List (FrontierEntry α)) :
    ∃ h ∈ b :: rest, ((b :: rest).mergeSort servesBefore).head? = some h ∧
      ∀ y ∈ b :: rest, servesBefore h y = true := by
  have trans : ∀ x y z : FrontierEntry α, servesBefore x y = true → servesBefore y z = true →
      servesBefore x z = true := fun _ _ _ => servesBefore_trans
  have sorted := List.pairwise_mergeSort trans servesBefore_total (b :: rest)
  have perm := List.mergeSort_perm (b :: rest) servesBefore
  rcases sortedEntries : (b :: rest).mergeSort servesBefore with _ | ⟨h, tail⟩
  · rw [sortedEntries] at perm
    cases perm.nil_eq
  · rw [sortedEntries] at sorted perm
    refine ⟨h, perm.subset List.mem_cons_self, rfl, fun y yMember => ?_⟩
    rcases List.mem_cons.1 (perm.symm.subset yMember) with rfl | tailMember
    · exact servesBefore_refl y
    · exact List.rel_of_pairwise_cons sorted tailMember

/-- Over entries with increasing arrival numbers on whose priorities `≤` agrees with the total
order, the scan ends at the head of the sort. -/
theorem foldl_keepBest_eq_head? {entries : List (FrontierEntry α)} (agree : LeAgrees entries)
    (sorted : entries.Pairwise fun x y => x.seq < y.seq) :
    entries.foldl keepBest none = (entries.mergeSort servesBefore).head? := by
  rcases entries with _ | ⟨b, rest⟩
  · rw [List.mergeSort_nil]
    rfl
  · obtain ⟨m, mMember, scan, mFirst⟩ := foldl_keepBest_spec b rest agree sorted
    obtain ⟨h, hMember, head, hFirst⟩ := head?_mergeSort_spec b rest
    have same : m = h := eq_of_seq_eq sorted mMember hMember
      (seq_eq_of_servesBefore (mFirst h hMember) (hFirst m mMember))
    rw [List.foldl_cons, keepBest, scan, head, same]

/-- **The next question is the head of the frontier** on every agenda a caller reaches, whenever
`≤` agrees with the total order on the waiting priorities; there is none exactly when nothing
waits. -/
theorem peekNext_eq_frontier_head (rb : RuleBase α) (seedCount : Nat) (mode : AgendaMode)
    (ops : List (Op α)) :
    let a := (create rb seedCount mode).applyAll ops
    (a.peekNext = none ↔ a.pending = 0) ∧ (a.peekNext = none ↔ a.frontier = []) ∧
      (LeAgrees a.open_ → a.peekNext = a.frontier.head?.map (·.course)) := by
  intro a
  refine ⟨(peekNext_eq_none_iff a).1, (peekNext_eq_none_iff a).2, fun agree => ?_⟩
  obtain ⟨log, grows⟩ := reachable_grows rb seedCount mode ops
  have sorted : a.open_.Pairwise fun x y => x.seq < y.seq :=
    grows.logged.wf.seq_sorted.filter _
  rw [peekNext, best?_eq, frontier_eq, foldl_keepBest_eq_head? agree sorted]

/-- Over rationals `≤` always agrees with the total order: with no seeds, after `Database` at
`0.7` and `Web Programming` and `Data Mining` at `0.95`, the scan and the frontier both start
with `Web Programming`, the first of the two highest. -/
theorem peekNext_eq_frontier_head_ties :
    let a := (create (RuleBase.standard : RuleBase Rat) 0 .adaptive).applyAll
      [.push .database (7 / 10), .push .webProgramming (19 / 20), .push .dataMining (19 / 20)]
    a.peekNext = a.frontier.head?.map (·.course) :=
  (peekNext_eq_frontier_head _ 0 .adaptive _).2.2
    fun x _ y _ => Rat.le_iff_totalCompare_ne_gt x.priority y.priority

end TotalOrder

end Agenda

end CareerCompass
