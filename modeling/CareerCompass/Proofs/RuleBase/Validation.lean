import CareerCompass.RuleBase.Basic
import CareerCompass.RuleBase.Standard
import Mathlib.Data.List.Nodup
/-!
# Validating a rule table

`RuleBase.ofTable` sorts a table by job, keeping the given order of equal jobs, and then looks
for the first thing wrong with it. What it answers does not depend on the order of the entries.

* `ofTable_ok_iff`: a table is accepted exactly when it lists each job once, weighs every rule in
  `(0, 1]` and lists no course twice for a job (`Valid`).
* `ofTable_error`: a refused table with a repeated job reports the least repeated job in
  catalogue order (`LeastRepeated`); otherwise it reports the least job that has a bad rule, at its
  first bad rule, a weight out of range before a repeated course (`ReportsFirstBadRule`).
* `ofTable_eq_of_perm`: tables that list the same entries in two orders get the same answer.
  With distinct jobs a sort by job has one possible outcome; with a repeated job, the least
  repeated job is the same for both.
* `ofTable_spec`: all of it together, with the jobs of an accepted table in increasing catalogue
  order and the rules of each job as its entry lists them.
* `ofTable_standard`: the standard table passes as it stands.

The sort enters through one fact: in a table sorted by job, a job that differs from the next entry's
job does not come again (`not_mem_of_sorted`). So the scan of neighbours finds a repeated job
exactly when there is one, and the first it finds is the least.
-/

set_option linter.unusedSectionVars false

namespace CareerCompass

namespace RuleBase

variable {α : Type} [Scalar α]

/-! ### What the checks look for -/

/-- A job's rules pass when every weight is in `(0, 1]` and no course is listed twice. -/
def RulesPass (rules : List (Course × α)) : Prop :=
  (∀ r ∈ rules, 0 < r.2 ∧ r.2 ≤ 1) ∧ (rules.map (·.1)).Nodup

/-- A table is valid when it lists each job once and the rules of each job pass. -/
def Valid (table : List (Job × List (Course × α))) : Prop :=
  (table.map (·.1)).Nodup ∧ ∀ entry ∈ table, RulesPass entry.2

/-- `e` reports the first bad rule of a job: the rules before it pass, and its weight is out of
range, or else its course was listed before it. -/
def ReportsFirstBadRule (job : Job) (rules : List (Course × α)) (e : Error α) : Prop :=
  ∃ before c w after, rules = before ++ (c, w) :: after ∧ RulesPass before ∧
    (¬ (0 < w ∧ w ≤ 1) ∧ e = .weightOutOfRange job c w ∨
      (0 < w ∧ w ≤ 1) ∧ c ∈ before.map (·.1) ∧ e = .duplicateRule job c)

/-- The job occurs at least twice, and no job before it in the catalogue does. -/
def LeastRepeated (jobs : List Job) (job : Job) : Prop :=
  2 ≤ jobs.count job ∧ ∀ other, 2 ≤ jobs.count other → job.index ≤ other.index

theorem LeastRepeated.unique {jobs : List Job} {job other : Job} (least : LeastRepeated jobs job)
    (least' : LeastRepeated jobs other) : job = other :=
  Job.index_injective (Nat.le_antisymm (least.2 other least'.1) (least'.2 job least.1))

theorem LeastRepeated.of_perm {jobs jobs' : List Job} (perm : jobs.Perm jobs') {job : Job}
    (least : LeastRepeated jobs job) : LeastRepeated jobs' job := by
  refine ⟨perm.count_eq job ▸ least.1, fun other twice => least.2 other ?_⟩
  rwa [perm.count_eq other]

theorem weightInRange_iff (w : α) : weightInRange w = true ↔ 0 < w ∧ w ≤ 1 := by
  simp [weightInRange]

theorem firstViolation_eq_none_iff_rulesPass (job : Job) (rules : List (Course × α)) :
    firstViolation job rules = none ↔ RulesPass rules := by
  simp only [firstViolation_eq_none_iff, RulesPass, weightInRange_iff]

/-! ### The scan of one job's rules -/

/-- What the scan reports, with `seen` the courses listed before the rules it is given: the first
rule whose weight is out of range or whose course was met before. -/
theorem firstViolation_go_eq_some {job : Job} {seen : List Course} {rules : List (Course × α)}
    {e : Error α} (found : firstViolation.go job seen rules = some e) :
    ∃ before c w after, rules = before ++ (c, w) :: after ∧ RulesPass before ∧
      (∀ r ∈ before, r.1 ∉ seen) ∧
      (¬ (0 < w ∧ w ≤ 1) ∧ e = .weightOutOfRange job c w ∨
        (0 < w ∧ w ≤ 1) ∧ (c ∈ seen ∨ c ∈ before.map (·.1)) ∧ e = .duplicateRule job c) := by
  induction rules generalizing seen with
  | nil => cases found
  | cons rule rest ih =>
    obtain ⟨c, w⟩ := rule
    have first : ∀ r ∈ ([] : List (Course × α)), r.1 ∉ seen := by simp
    by_cases inRange : weightInRange w = true
    · have range := (weightInRange_iff w).1 inRange
      by_cases met : c ∈ seen
      · have reported : e = .duplicateRule job c := by
          simpa [firstViolation.go, inRange, met] using found.symm
        exact ⟨[], c, w, rest, rfl, ⟨by simp, .nil⟩, first, .inr ⟨range, .inl met, reported⟩⟩
      · -- the rule passes, and the scan goes on with its course met
        have later : firstViolation.go job (c :: seen) rest = some e := by
          simpa [firstViolation.go, inRange, met] using found
        obtain ⟨before, d, v, after, split, ⟨weights, nodup⟩, unseen, bad⟩ := ih later
        have fresh : ∀ r ∈ before, r.1 ∉ seen ∧ r.1 ≠ c := fun r member => by
          have := unseen r member
          simp only [List.mem_cons, not_or] at this
          exact ⟨this.2, this.1⟩
        refine ⟨(c, w) :: before, d, v, after, by rw [split]; rfl, ⟨?_, ?_⟩, ?_, ?_⟩
        · simpa [range] using weights
        · refine List.nodup_cons.2 ⟨fun member => ?_, nodup⟩
          obtain ⟨r, kept, same⟩ := List.mem_map.1 member
          exact (fresh r kept).2 same
        · simpa [met] using fun r member => (fresh r member).1
        · rcases bad with out | ⟨range', earlier, reported⟩
          · exact .inl out
          · refine .inr ⟨range', ?_, reported⟩
            simp only [List.mem_cons] at earlier
            simp only [List.map_cons, List.mem_cons]
            rcases earlier with (rfl | old) | old
            · exact .inr (.inl rfl)
            · exact .inl old
            · exact .inr (.inr old)
    · have reported : e = .weightOutOfRange job c w := by
        simpa [firstViolation.go, inRange] using found.symm
      have out : ¬ (0 < w ∧ w ≤ 1) := fun range => inRange ((weightInRange_iff w).2 range)
      exact ⟨[], c, w, rest, rfl, ⟨by simp, .nil⟩, first, .inl ⟨out, reported⟩⟩

/-- What the check of a job's rules reports is its first bad rule. -/
theorem firstViolation_eq_some {job : Job} {rules : List (Course × α)} {e : Error α}
    (found : firstViolation job rules = some e) : ReportsFirstBadRule job rules e := by
  obtain ⟨before, c, w, after, split, pass, -, bad⟩ := firstViolation_go_eq_some found
  refine ⟨before, c, w, after, split, pass, ?_⟩
  simpa using bad

/-! ### Tables sorted by job -/

theorem sortByJob_perm (table : List (Job × List (Course × α))) : (sortByJob table).Perm table :=
  List.mergeSort_perm _ _

theorem sortByJob_sorted (table : List (Job × List (Course × α))) :
    (sortByJob table).Pairwise fun a b => a.1.index ≤ b.1.index := by
  have sorted : (sortByJob table).Pairwise fun a b => decide (a.1.index ≤ b.1.index) = true :=
    List.pairwise_mergeSort (fun a b c hab hbc => by simp at *; omega)
      (fun a b => by simp; omega) table
  simpa using sorted

section Sorted

variable {sorted : List (Job × List (Course × α))}

/-- In a table sorted by job, a job that differs from the next entry's job does not come again. -/
theorem not_mem_of_sorted {a b : Job × List (Course × α)}
    (ordered : (a :: b :: sorted).Pairwise fun x y => x.1.index ≤ y.1.index) (differ : a.1 ≠ b.1) :
    a.1 ∉ (b :: sorted).map (·.1) := by
  intro member
  obtain ⟨x, later, same⟩ := List.mem_map.1 member
  have aFirst : a.1.index ≤ b.1.index := List.rel_of_pairwise_cons ordered List.mem_cons_self
  -- every later entry is at least `b`, so an entry of `a`'s job would put `b` at `a`'s place
  have bNext : b.1.index ≤ x.1.index := by
    rcases List.mem_cons.1 later with rfl | rest
    · exact Nat.le_refl _
    · exact List.rel_of_pairwise_cons ordered.of_cons rest
  rw [same] at bNext
  exact differ (Job.index_injective (Nat.le_antisymm aFirst bNext))

theorem firstRepeatedJob_eq_none_iff
    (ordered : sorted.Pairwise fun x y => x.1.index ≤ y.1.index) :
    firstRepeatedJob sorted = none ↔ (sorted.map (·.1)).Nodup := by
  induction sorted with
  | nil => simp [firstRepeatedJob]
  | cons a rest ih =>
    cases rest with
    | nil => simp [firstRepeatedJob]
    | cons b rest =>
      by_cases same : a.1 = b.1
      · simp [firstRepeatedJob, same]
      · have consNodup : ((a :: b :: rest).map (·.1)).Nodup ↔
            a.1 ∉ (b :: rest).map (·.1) ∧ ((b :: rest).map (·.1)).Nodup := List.nodup_cons
        rw [firstRepeatedJob, if_neg same, ih ordered.of_cons, consNodup]
        exact ⟨fun nodup => ⟨not_mem_of_sorted ordered same, nodup⟩, fun both => both.2⟩

/-- The first job that the scan of neighbours finds twice is the least repeated job. -/
theorem firstRepeatedJob_least (ordered : sorted.Pairwise fun x y => x.1.index ≤ y.1.index)
    {job : Job} (found : firstRepeatedJob sorted = some job) :
    LeastRepeated (sorted.map (·.1)) job := by
  induction sorted with
  | nil => cases found
  | cons a rest ih =>
    cases rest with
    | nil => cases found
    | cons b rest =>
      by_cases same : a.1 = b.1
      · rw [firstRepeatedJob, if_pos same] at found
        cases found
        refine ⟨by simp [same], fun other twice => ?_⟩
        -- the head of a sorted table is at most every job in it
        have listed : other ∈ (a :: b :: rest).map (·.1) := List.count_pos_iff.1 (by omega)
        obtain ⟨x, member, rfl⟩ := List.mem_map.1 listed
        rcases List.mem_cons.1 member with rfl | later
        · exact Nat.le_refl _
        · exact List.rel_of_pairwise_cons ordered later
      · rw [firstRepeatedJob, if_neg same] at found
        obtain ⟨twice, least⟩ := ih ordered.of_cons found
        have absent : a.1 ∉ (b :: rest).map (·.1) := not_mem_of_sorted ordered same
        have countCons : ∀ j, ((a :: b :: rest).map (·.1)).count j =
            ((b :: rest).map (·.1)).count j + if a.1 == j then 1 else 0 := fun j => List.count_cons
        refine ⟨by rw [countCons]; omega, fun other again => ?_⟩
        -- `a`'s job occurs once, so a repeated job is repeated in the rest
        have other_ne : a.1 ≠ other := by
          rintro rfl
          rw [countCons, List.count_eq_zero.2 absent] at again
          simp at again
        apply least other
        rwa [countCons, beq_false_of_ne other_ne, if_neg Bool.false_ne_true, Nat.add_zero] at again

/-- With distinct jobs, a table sorted by job is in strictly increasing catalogue order. -/
theorem strict_of_sorted (ordered : sorted.Pairwise fun x y => x.1.index ≤ y.1.index)
    (nodup : (sorted.map (·.1)).Nodup) : sorted.Pairwise fun x y => x.1.index < y.1.index :=
  (ordered.and (List.pairwise_map.1 nodup)).imp fun both =>
    Nat.lt_of_le_of_ne both.1 fun same => both.2 (Job.index_injective same)

/-- The first job with a bad rule in a sorted table is the least job with one. -/
theorem findSome?_firstViolation (ordered : sorted.Pairwise fun x y => x.1.index ≤ y.1.index)
    {e : Error α}
    (found : sorted.findSome? (fun entry => firstViolation entry.1 entry.2) = some e) :
    ∃ entry ∈ sorted, firstViolation entry.1 entry.2 = some e ∧
      ∀ other ∈ sorted, other.1.index < entry.1.index → firstViolation other.1 other.2 = none := by
  obtain ⟨before, entry, after, split, bad, clean⟩ := List.findSome?_eq_some_iff.1 found
  subst split
  refine ⟨entry, by simp, bad, fun other member smaller => ?_⟩
  rcases List.mem_append.1 member with earlier | later
  · exact clean other earlier
  · -- an entry from `entry` on is at least `entry`
    have atLeast : entry.1.index ≤ other.1.index := by
      rcases List.mem_cons.1 later with rfl | rest
      · exact Nat.le_refl _
      · exact List.rel_of_pairwise_cons (List.pairwise_append.1 ordered).2.1 rest
    omega

end Sorted

/-! ### The answers of `ofTable` -/

/-- What validation can do: report the first job found twice in the sorted table, report the
first bad rule of the sorted table, or accept the sorted table. -/
theorem ofTable_cases (table : List (Job × List (Course × α))) :
    (∃ job, firstRepeatedJob (sortByJob table) = some job ∧
        ofTable table = .error (.duplicateJob job)) ∨
      (firstRepeatedJob (sortByJob table) = none ∧ ∃ e,
        (sortByJob table).findSome? (fun entry => firstViolation entry.1 entry.2) = some e ∧
          ofTable table = .error e) ∨
      (firstRepeatedJob (sortByJob table) = none ∧
        (∀ entry ∈ sortByJob table, firstViolation entry.1 entry.2 = none) ∧
          ofTable table = .ok ⟨sortByJob table⟩) := by
  dsimp only [ofTable]
  split
  · next job found => exact .inl ⟨job, found, rfl⟩
  · next unrepeated =>
    split
    · next e found => exact .inr (.inl ⟨unrepeated, e, found, rfl⟩)
    · next clean => exact .inr (.inr ⟨unrepeated, List.findSome?_eq_none_iff.1 clean, rfl⟩)

theorem ofTable_ok_iff (table : List (Job × List (Course × α))) :
    (∃ rb, ofTable table = .ok rb) ↔ Valid table := by
  have perm := sortByJob_perm table
  have ordered := sortByJob_sorted table
  rcases ofTable_cases table with ⟨job, found, refused⟩ | ⟨_, e, found, refused⟩ |
    ⟨unrepeated, clean, accepted⟩
  · -- a job found twice: the table lists it twice
    rw [refused]
    have twice := (firstRepeatedJob_least ordered found).1
    have repeated : ¬ (table.map (·.1)).Nodup := fun nodup => by
      have := List.nodup_iff_count.1 ((perm.map _).nodup_iff.2 nodup) job
      omega
    exact ⟨(fun ⟨_, never⟩ => nomatch never), fun valid => absurd valid.1 repeated⟩
  · -- a bad rule: its job's rules do not pass
    rw [refused]
    obtain ⟨entry, member, bad, -⟩ := findSome?_firstViolation ordered found
    refine ⟨(fun ⟨_, never⟩ => nomatch never), fun valid => ?_⟩
    have pass := valid.2 entry (perm.subset member)
    rw [← firstViolation_eq_none_iff_rulesPass entry.1] at pass
    rw [pass] at bad
    cases bad
  · rw [accepted]
    refine ⟨fun _ => ⟨?_, fun entry member => ?_⟩, fun _ => ⟨_, rfl⟩⟩
    · exact (perm.map _).nodup_iff.1 ((firstRepeatedJob_eq_none_iff ordered).1 unrepeated)
    · exact (firstViolation_eq_none_iff_rulesPass _ _).1 (clean entry (perm.symm.subset member))

/-- A refused table reports the least repeated job, or else the first bad rule of the least job
that has one. -/
theorem ofTable_error {table : List (Job × List (Course × α))} {e : Error α}
    (refused : ofTable table = .error e) :
    (¬ (table.map (·.1)).Nodup → ∃ job, e = .duplicateJob job ∧
        LeastRepeated (table.map (·.1)) job) ∧
      ((table.map (·.1)).Nodup → ∃ job rules, (job, rules) ∈ table ∧
        ReportsFirstBadRule job rules e ∧
        ∀ entry ∈ table, entry.1.index < job.index → RulesPass entry.2) := by
  have perm := sortByJob_perm table
  have ordered := sortByJob_sorted table
  rcases ofTable_cases table with ⟨job, found, refused'⟩ | ⟨unrepeated, e', found, refused'⟩ |
    ⟨_, _, accepted⟩
  · rw [refused'] at refused
    cases refused
    have least := (firstRepeatedJob_least ordered found).of_perm (perm.map _)
    refine ⟨fun _ => ⟨job, rfl, least⟩, fun nodup => absurd nodup fun nodup => ?_⟩
    have := List.nodup_iff_count.1 nodup job
    have := least.1
    omega
  · rw [refused'] at refused
    cases refused
    have sortedNodup := (firstRepeatedJob_eq_none_iff ordered).1 unrepeated
    refine ⟨fun repeated => absurd ((perm.map _).nodup_iff.1 sortedNodup) repeated, fun _ => ?_⟩
    obtain ⟨⟨job, rules⟩, member, bad, clean⟩ := findSome?_firstViolation ordered found
    refine ⟨job, rules, perm.subset member, firstViolation_eq_some bad, fun entry listed smaller => ?_⟩
    exact (firstViolation_eq_none_iff_rulesPass _ _).1
      (clean entry (perm.symm.subset listed) smaller)
  · rw [accepted] at refused
    cases refused

/-- An accepted table lists its jobs once each, in increasing catalogue order, and gives each job
the rules of its entry, in their order; a job without an entry has no rules. -/
theorem ofTable_ok {table : List (Job × List (Course × α))} {rb : RuleBase α}
    (accepted : ofTable table = .ok rb) :
    rb.jobs.Pairwise (fun a b => a.index < b.index) ∧ rb.jobs.Perm (table.map (·.1)) ∧
      (∀ entry ∈ table, rb.rulesFor entry.1 = entry.2) ∧
      ∀ job, job ∉ table.map (·.1) → rb.rulesFor job = [] := by
  have perm := sortByJob_perm table
  have ordered := sortByJob_sorted table
  have nodup : (table.map (·.1)).Nodup := ((ofTable_ok_iff table).1 ⟨rb, accepted⟩).1
  have stored : rb.table = sortByJob table := ofTable_table accepted
  have sortedNodup : ((sortByJob table).map (·.1)).Nodup := (perm.map _).nodup_iff.2 nodup
  refine ⟨?_, ?_, fun entry member => ?_, fun job absent => ?_⟩
  · rw [jobs, stored, List.pairwise_map]
    exact strict_of_sorted ordered sortedNodup
  · rw [jobs, stored]
    exact perm.map _
  · -- the lookup finds an entry of the same job, which is this one, as jobs are distinct
    obtain ⟨found, hit⟩ : ∃ found, (sortByJob table).find? (·.1 == entry.1) = some found :=
      Option.isSome_iff_exists.1 (List.find?_isSome.2 ⟨entry, perm.symm.subset member, by simp⟩)
    have sameJob : found.1 = entry.1 := by simpa using List.find?_some hit
    have same : found = entry := List.inj_on_of_nodup_map sortedNodup
      (List.mem_of_find?_eq_some hit) (perm.symm.subset member) sameJob
    rw [rulesFor, stored, hit, same]
  · have missing : (sortByJob table).find? (·.1 == job) = none := by
      refine List.find?_eq_none.2 fun x member named => absent ?_
      rw [← (beq_iff_eq.1 named)]
      exact List.mem_map.2 ⟨x, perm.subset member, rfl⟩
    rw [rulesFor, stored, missing]

/-- Tables listing the same entries in any two orders get the same answer. -/
theorem ofTable_eq_of_perm {table other : List (Job × List (Course × α))}
    (perm : other.Perm table) : ofTable other = ofTable table := by
  by_cases nodup : (table.map (·.1)).Nodup
  · -- distinct jobs: both sorts are strictly increasing permutations of each other
    have nodup' : (other.map (·.1)).Nodup := (perm.map _).nodup_iff.2 nodup
    have strict := strict_of_sorted (sortByJob_sorted table)
      (((sortByJob_perm table).map _).nodup_iff.2 nodup)
    have strict' := strict_of_sorted (sortByJob_sorted other)
      (((sortByJob_perm other).map _).nodup_iff.2 nodup')
    have same : sortByJob other = sortByJob table :=
      List.Perm.eq_of_pairwise (fun _ _ _ _ before after => absurd (Nat.lt_trans before after)
        (Nat.lt_irrefl _)) strict' strict
        ((sortByJob_perm other).trans (perm.trans (sortByJob_perm table).symm))
    simp only [ofTable, same]
  · -- a repeated job: both report the least one
    have refusedBy : ∀ t : List (Job × List (Course × α)), ¬ (t.map (·.1)).Nodup →
        ∃ job, ofTable t = .error (.duplicateJob job) ∧ LeastRepeated (t.map (·.1)) job := by
      intro t repeated
      cases answer : ofTable t with
      | ok rb => exact absurd ((ofTable_ok_iff t).1 ⟨rb, answer⟩).1 repeated
      | error e =>
        obtain ⟨job, rfl, least⟩ := (ofTable_error answer).1 repeated
        exact ⟨job, rfl, least⟩
    obtain ⟨job, refused, least⟩ := refusedBy table nodup
    obtain ⟨job', refused', least'⟩ :=
      refusedBy other fun nodup' => nodup ((perm.map _).nodup_iff.1 nodup')
    rw [refused, refused', (least'.of_perm (perm.map _)).unique least]

/-- Over rationals the standard table passes validation as it stands: its jobs are in catalogue
order, once each, and every rule of a job is good. -/
theorem ofTable_standard : ofTable (standard : RuleBase Rat).table = .ok standard := by
  have sorted : sortByJob (standard : RuleBase Rat).table = standard.table :=
    List.mergeSort_of_pairwise (by decide +kernel)
  have unrepeated : firstRepeatedJob (standard : RuleBase Rat).table = none := by decide +kernel
  have clean : ∀ entry ∈ (standard : RuleBase Rat).table,
      firstViolation entry.1 entry.2 = none := by
    simp only [firstViolation_eq_none_iff]
    decide +kernel
  rw [ofTable, sorted, unrepeated, List.findSome?_eq_none_iff.2 clean]

/-- **Validation does not depend on the order of the table.** A table is accepted exactly when it
is valid. An accepted table lists its jobs in strictly increasing catalogue order, each job with
the rules of its entry in their order, and a job without an entry has none. A refused table
reports the least repeated job; with no job repeated, it reports the first bad rule of the least
job that has one, a weight out of range before a repeated course. Every reordering of the entries
gets the same answer. -/
theorem ofTable_spec (table : List (Job × List (Course × α))) :
    ((∃ rb, ofTable table = .ok rb) ↔ Valid table) ∧
      (∀ rb, ofTable table = .ok rb →
        rb.jobs.Pairwise (fun a b => a.index < b.index) ∧ rb.jobs.Perm (table.map (·.1)) ∧
          (∀ entry ∈ table, rb.rulesFor entry.1 = entry.2) ∧
          ∀ job, job ∉ table.map (·.1) → rb.rulesFor job = []) ∧
      (∀ e, ofTable table = .error e →
        (¬ (table.map (·.1)).Nodup → ∃ job, e = .duplicateJob job ∧
            LeastRepeated (table.map (·.1)) job) ∧
          ((table.map (·.1)).Nodup → ∃ job rules, (job, rules) ∈ table ∧
            ReportsFirstBadRule job rules e ∧
            ∀ entry ∈ table, entry.1.index < job.index → RulesPass entry.2)) ∧
      ∀ other, other.Perm table → ofTable other = ofTable table :=
  ⟨ofTable_ok_iff table, fun _ accepted => ofTable_ok accepted,
    fun _ refused => ofTable_error refused, fun _ perm => ofTable_eq_of_perm perm⟩

/-- Web Developer listed twice is reported as the repeated job, in either order of the entries. -/
theorem ofTable_spec_duplicateJob :
    let table : List (Job × List (Course × Rat)) :=
      [(.webDeveloper, [(.webProgramming, 9 / 10)]), (.webDeveloper, [(.database, 1 / 2)])]
    ofTable table = .error (.duplicateJob .webDeveloper) ∧ ofTable table.reverse = ofTable table := by
  intro table
  obtain ⟨accepts, -, reports, reorder⟩ := ofTable_spec table
  have repeated : ¬ (table.map (·.1)).Nodup := by decide
  refine ⟨?_, reorder _ (List.reverse_perm table)⟩
  cases answer : ofTable table with
  | ok rb => exact absurd (accepts.1 ⟨rb, answer⟩).1 repeated
  | error e =>
    obtain ⟨job, rfl, twice, -⟩ := (reports e answer).1 repeated
    have listed : job ∈ table.map (·.1) := List.count_pos_iff.1 (by omega)
    have named : job = .webDeveloper := by simpa [table] using listed
    rw [named]

end RuleBase

end CareerCompass
