import CareerCompass.Double
import Mathlib.Algebra.Order.Ring.Rat
/-!
# The total order of scalars

Everything that is sorted (frontiers, evidence rows, seeds, rankings) is sorted by
`Scalar.totalCompare`. For both scalars of the library it is a lawful total order, stated as
the standard library's `Std.TransCmp`:

* doubles compare their sign-and-magnitude keys (`totalKey`) as integers;
* rationals compare as rationals, and there `≤` is exactly "not above in the total order"
  (`Rat.le_iff_totalCompare_ne_gt`).

For doubles the last fact fails at the zeros and at NaNs, which `≤` leaves unordered or equal.
-/

namespace CareerCompass

instance : Std.TransCmp (Scalar.totalCompare (α := Double)) where
  eq_swap {a b} := Std.OrientedOrd.eq_swap (a := a.totalKey) (b := b.totalKey)
  isLE_trans {a b c} :=
    Std.TransOrd.isLE_trans (a := a.totalKey) (b := b.totalKey) (c := c.totalKey)

namespace Rat

theorem totalCompare_eq (a b : Rat) :
    Scalar.totalCompare a b = if a < b then .lt else if a = b then .eq else .gt := rfl

theorem isLE_totalCompare_iff (a b : Rat) : (Scalar.totalCompare a b).isLE = true ↔ a ≤ b := by
  rw [totalCompare_eq]
  split_ifs with below same
  · exact ⟨fun _ => below.le, fun _ => rfl⟩
  · exact ⟨fun _ => same.le, fun _ => rfl⟩
  · have above : b < a := lt_of_le_of_ne (not_lt.1 below) (Ne.symm same)
    exact ⟨fun never => absurd never (by decide), fun le => absurd le (not_le.2 above)⟩

/-- Over rationals, `≤` is "not above in the total order". -/
theorem le_iff_totalCompare_ne_gt (a b : Rat) : a ≤ b ↔ Scalar.totalCompare a b ≠ .gt := by
  rw [← isLE_totalCompare_iff, Ordering.isLE_iff_ne_gt]

end Rat

instance : Std.TransCmp (Scalar.totalCompare (α := Rat)) where
  eq_swap {a b} := by
    rw [Rat.totalCompare_eq, Rat.totalCompare_eq]
    rcases lt_trichotomy a b with below | rfl | above
    · simp [below, not_lt.2 below.le, ne_of_gt below]
    · simp
    · simp [above, not_lt.2 above.le, ne_of_gt above]
  isLE_trans {a b c} first second := by
    rw [Rat.isLE_totalCompare_iff] at first second ⊢
    exact le_trans first second

/-! ### Sorting by the total order

`sortDescBy` is a merge sort by "not below in the total order". Over a lawful total order its
output descends, and two items keep their input order unless the first is below the second; in
particular items of equal keys keep their input order. When the input is ordered by a rank, the
output is ordered by key and then by rank (`sortDescBy_sortsBefore`), and is the only arrangement
of the items that is (`sortDescBy_eq_of_sortsBefore`).
-/

/-- `a` sorts before `b`: its key is above `b`'s in the total order, or level with it and `a` has
the smaller rank. -/
def SortsBefore {α β : Type} [Scalar α] (key : β → α) (rank : β → Nat) (a b : β) : Prop :=
  Scalar.totalCompare (key a) (key b) = .gt ∨
    Scalar.totalCompare (key a) (key b) = .eq ∧ rank a < rank b

instance instDecidableSortsBefore {α β : Type} [Scalar α] (key : β → α) (rank : β → Nat) (a b : β) :
    Decidable (SortsBefore key rank a b) :=
  inferInstanceAs (Decidable (_ ∨ _ ∧ _))

section Pairs

variable {β : Type}

/-- Two distinct members of a list stand in it in one order or the other. -/
theorem pair_sublist_or_swap {xs : List β} {a b : β} (distinct : a ≠ b) (aMember : a ∈ xs)
    (bMember : b ∈ xs) : [a, b].Sublist xs ∨ [b, a].Sublist xs := by
  induction xs with
  | nil => cases aMember
  | cons x rest ih =>
    rcases List.mem_cons.1 aMember with rfl | aRest <;>
      rcases List.mem_cons.1 bMember with rfl | bRest
    · exact absurd rfl distinct
    · exact Or.inl ((List.singleton_sublist.2 bRest).cons_cons a)
    · exact Or.inr ((List.singleton_sublist.2 aRest).cons_cons b)
    · exact (ih aRest bRest).imp (·.cons x) (·.cons x)

/-- In a list without repeats, two items do not stand in both orders. -/
theorem eq_of_pair_sublist_swap {xs : List β} (nodup : xs.Nodup) {a b : β}
    (forward : [a, b].Sublist xs) (backward : [b, a].Sublist xs) : a = b := by
  induction xs with
  | nil => cases List.sublist_nil.1 forward
  | cons x rest ih =>
    obtain ⟨fresh, restNodup⟩ := List.nodup_cons.1 nodup
    rcases List.sublist_cons_iff.1 forward with forward' | ⟨r, same, -⟩ <;>
      rcases List.sublist_cons_iff.1 backward with backward' | ⟨r', same', -⟩
    · exact ih restNodup forward' backward'
    · -- `b` heads the list, yet stands after `a` in the rest
      obtain ⟨rfl, -⟩ := List.cons.inj same'
      exact absurd (forward'.subset (List.mem_cons_of_mem a List.mem_cons_self)) fresh
    · obtain ⟨rfl, -⟩ := List.cons.inj same
      exact absurd (backward'.subset (List.mem_cons_of_mem b List.mem_cons_self)) fresh
    · obtain ⟨rfl, -⟩ := List.cons.inj same
      obtain ⟨rfl, -⟩ := List.cons.inj same'
      rfl

end Pairs

section Sorting

variable {α β : Type} [Scalar α] [Std.TransCmp (Scalar.totalCompare (α := α))]

theorem notBelow_trans (key : β → α) (a b c : β)
    (first : (Scalar.totalCompare (key a) (key b) != .lt) = true)
    (second : (Scalar.totalCompare (key b) (key c) != .lt) = true) :
    (Scalar.totalCompare (key a) (key c) != .lt) = true := by
  rw [bne_iff_ne, ne_eq, ← Ordering.isGE_iff_ne_lt] at first second ⊢
  exact Std.TransCmp.isGE_trans first second

theorem notBelow_total (key : β → α) (a b : β) :
    ((Scalar.totalCompare (key a) (key b) != .lt) ||
      (Scalar.totalCompare (key b) (key a) != .lt)) = true := by
  cases order : Scalar.totalCompare (key a) (key b) with
  | lt => simp [Std.OrientedCmp.gt_of_lt order]
  | eq => rfl
  | gt => rfl

/-- A sort by a key descends in the total order. -/
theorem sortDescBy_sorted (key : β → α) (xs : List β) :
    (sortDescBy key xs).Pairwise fun a b => Scalar.totalCompare (key a) (key b) ≠ .lt := by
  have sorted : (sortDescBy key xs).Pairwise
      fun a b => (Scalar.totalCompare (key a) (key b) != .lt) = true :=
    List.pairwise_mergeSort (notBelow_trans key) (notBelow_total key) xs
  simpa using sorted

/-- A sort by a key keeps two items in their input order unless the first is below the second. -/
theorem sortDescBy_keeps_order (key : β → α) {xs : List β} {a b : β}
    (notBelow : Scalar.totalCompare (key a) (key b) ≠ .lt) (ordered : [a, b].Sublist xs) :
    [a, b].Sublist (sortDescBy key xs) :=
  List.pair_sublist_mergeSort (notBelow_trans key) (notBelow_total key)
    (by simpa using notBelow) ordered

theorem SortsBefore.asymm {key : β → α} {rank : β → Nat} {a b : β}
    (before : SortsBefore key rank a b) : ¬ SortsBefore key rank b a := by
  rintro (above | ⟨level, ranked⟩)
  · have below : Scalar.totalCompare (key a) (key b) = .lt := Std.OrientedCmp.lt_of_gt above
    rcases before with above' | ⟨level', -⟩
    · rw [above'] at below
      cases below
    · rw [level'] at below
      cases below
  · have level' : Scalar.totalCompare (key a) (key b) = .eq := Std.OrientedCmp.eq_symm level
    rcases before with above' | ⟨-, ranked'⟩
    · rw [above'] at level'
      cases level'
    · exact Nat.lt_asymm ranked ranked'

/-- **A stable sort by key orders by key, then by rank.** Sorting items whose ranks increase puts
each item before the later ones: above them in the total order, or level and of smaller rank. -/
theorem sortDescBy_sortsBefore (key : β → α) (rank : β → Nat) {xs : List β}
    (ranked : xs.Pairwise fun a b => rank a < rank b) :
    (sortDescBy key xs).Pairwise (SortsBefore key rank) := by
  have nodup : xs.Nodup := ranked.imp fun lt same => by subst same; exact Nat.lt_irrefl _ lt
  have perm := sortDescBy_perm key xs
  have sortedNodup : (sortDescBy key xs).Nodup := perm.nodup_iff.2 nodup
  refine List.pairwise_iff_forall_sublist.2 fun {a b} pair => ?_
  have notBelow : Scalar.totalCompare (key a) (key b) ≠ .lt :=
    List.pairwise_iff_forall_sublist.1 (sortDescBy_sorted key xs) pair
  cases order : Scalar.totalCompare (key a) (key b) with
  | lt => exact absurd order notBelow
  | gt => exact Or.inl order
  | eq =>
    refine Or.inr ⟨order, ?_⟩
    -- level keys: the sort keeps the input order, along which ranks increase
    have distinct : a ≠ b := by simpa using sortedNodup.sublist pair
    have aMember : a ∈ xs := perm.subset (pair.subset List.mem_cons_self)
    have bMember : b ∈ xs := perm.subset (pair.subset (List.mem_cons_of_mem a List.mem_cons_self))
    rcases pair_sublist_or_swap distinct aMember bMember with ordered | swapped
    · simpa using ranked.sublist ordered
    · have level : Scalar.totalCompare (key b) (key a) ≠ .lt := by
        rw [Std.OrientedCmp.eq_symm order]
        decide
      have kept := sortDescBy_keeps_order key level swapped
      exact absurd (eq_of_pair_sublist_swap sortedNodup pair kept) distinct

/-- **The sort is determined by key and rank.** Sorting items whose ranks increase gives the one
arrangement of them ordered by key, then by rank; so a sort is computed by exhibiting that
arrangement. -/
theorem sortDescBy_eq_of_sortsBefore (key : β → α) (rank : β → Nat) {xs ys : List β}
    (ranked : xs.Pairwise fun a b => rank a < rank b) (perm : ys.Perm xs)
    (sorted : ys.Pairwise (SortsBefore key rank)) : sortDescBy key xs = ys :=
  ((sortDescBy_perm key xs).trans perm.symm).eq_of_pairwise
    (fun _ _ _ _ before after => absurd after before.asymm)
    (sortDescBy_sortsBefore key rank ranked) sorted

end Sorting

end CareerCompass
