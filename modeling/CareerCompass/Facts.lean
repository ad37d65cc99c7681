import CareerCompass.Catalog
import CareerCompass.Scalar
/-!
# Facts: the answers given so far

Facts map a course name (any text, known to the catalogue or not) to the certainty factor the
user gave it. They are kept sorted by name, so listing them gives names in increasing order of
their characters, which is the order of their UTF-8 bytes. Recording a name again replaces its
value and gives back the old one.

Main statements: `get?_record` (a lookup after recording) and `record_fst` (what recording gives
back is the value before).
-/

namespace CareerCompass

/-- Inserts or replaces a name in a list sorted by name; gives back the replaced value. -/
def insertSorted {α : Type} (name : String) (value : α) :
    List (String × α) → Option α × List (String × α)
  | [] => (none, [(name, value)])
  | (k, v) :: rest =>
    if name < k then (none, (name, value) :: (k, v) :: rest)
    else if name = k then (some v, (name, value) :: rest)
    else
      let (old, rest') := insertSorted name value rest
      (old, (k, v) :: rest')

/-- Every name after inserting is the inserted one or was there before. -/
theorem mem_insertSorted {α : Type} {name : String} {value : α} {xs : List (String × α)}
    {p : String × α} (h : p ∈ (insertSorted name value xs).2) : p.1 = name ∨ p ∈ xs := by
  induction xs with
  | nil => simp [insertSorted] at h; simp [h]
  | cons q rest ih =>
    obtain ⟨k, v⟩ := q
    unfold insertSorted at h
    by_cases h1 : name < k
    · simp only [h1, if_true, List.mem_cons] at h
      rcases h with h | h | h
      · simp [h]
      · simp [h]
      · simp [h]
    · by_cases h2 : name = k
      · rw [if_neg h1, if_pos h2] at h
        rcases List.mem_cons.1 h with h | h
        · simp [h]
        · simp [h]
      · simp only [h1, h2, if_false, List.mem_cons] at h
        rcases h with h | h
        · simp [h]
        · rcases ih h with h' | h'
          · exact Or.inl h'
          · simp [h']

/-- Inserting keeps a list sorted by name. -/
theorem insertSorted_sorted {α : Type} (name : String) (value : α) {xs : List (String × α)}
    (h : xs.Pairwise fun a b => a.1 < b.1) :
    (insertSorted name value xs).2.Pairwise fun a b => a.1 < b.1 := by
  induction xs with
  | nil => simp [insertSorted]
  | cons q rest ih =>
    obtain ⟨k, v⟩ := q
    rw [List.pairwise_cons] at h
    unfold insertSorted
    by_cases h1 : name < k
    · simp only [h1, if_true]
      refine List.Pairwise.cons ?_ (List.Pairwise.cons h.1 h.2)
      intro p hp
      rcases List.mem_cons.1 hp with hp | hp
      · subst hp; exact h1
      · exact String.lt_trans h1 (h.1 p hp)
    · by_cases h2 : name = k
      · subst h2
        simp only [h1, if_false, if_true]
        exact List.Pairwise.cons h.1 h.2
      · simp only [h1, h2, if_false]
        have hk : k < name := by
          have hle : k ≤ name := String.not_lt.1 h1
          rcases String.le_total name k with h3 | h3
          · exact absurd (String.le_antisymm h3 hle) h2
          · exact (String.not_le.1 fun h4 => h2 (String.le_antisymm h4 hle))
        refine List.Pairwise.cons ?_ (ih h.2)
        intro p hp
        rcases mem_insertSorted hp with hp | hp
        · rw [hp]; exact hk
        · exact h.1 p hp

/-- The answers given so far, sorted by course name. -/
structure Facts (α : Type) where
  /-- The names with their values, in increasing order of name. -/
  entries : List (String × α)
  /-- Names increase along the list. -/
  sorted : entries.Pairwise fun a b => a.1 < b.1

namespace Facts

variable {α : Type}

/-- No answers. -/
def empty : Facts α := ⟨[], .nil⟩

/-- Records a value for a name; gives back the value it had, if any. -/
def record (facts : Facts α) (name : String) (value : α) : Option α × Facts α :=
  ((insertSorted name value facts.entries).1,
    ⟨(insertSorted name value facts.entries).2, insertSorted_sorted name value facts.sorted⟩)

/-- The value recorded for a name. -/
def get? (facts : Facts α) (name : String) : Option α :=
  (facts.entries.find? (·.1 == name)).map (·.2)

/-- The value recorded for a course of the catalogue, zero when there is none. -/
def cf [Scalar α] (facts : Facts α) (course : Course) : α :=
  (facts.get? course.name).getD 0

/-- How many names have a value. -/
def size (facts : Facts α) : Nat := facts.entries.length

/-- Whether no name has a value. -/
def isEmpty (facts : Facts α) : Bool := facts.entries.isEmpty

/-- Builds facts from pairs in order; a later pair of the same name wins. -/
def ofList (pairs : List (String × α)) : Facts α :=
  pairs.foldl (fun f (k, v) => (f.record k v).2) empty

theorem find?_insertSorted (name key : String) (value : α) (xs : List (String × α)) :
    ((insertSorted name value xs).2.find? (·.1 == key)).map (·.2) =
      if key = name then some value else (xs.find? (·.1 == key)).map (·.2) := by
  induction xs with
  | nil =>
    by_cases h : key = name
    · subst h; simp [insertSorted]
    · have h' : ¬ name = key := fun e => h e.symm
      simp [insertSorted, h, h']
  | cons p rest ih =>
    obtain ⟨k, v⟩ := p
    unfold insertSorted
    by_cases h1 : name < k
    · simp only [h1, if_true]
      by_cases h : key = name
      · subst h; simp
      · simp [h, Ne.symm h]
    · by_cases h2 : name = k
      · subst h2
        by_cases h : key = name
        · subst h; simp
        · simp [Ne.symm h, h]
      · simp only [h1, h2, if_false]
        by_cases hk : k = key
        · subst hk
          have : ¬ k = name := fun e => h2 e.symm
          simp [this]
        · have hb : (k == key) = false := by simp [hk]
          simp only [List.find?_cons, hb]
          exact ih

theorem insertSorted_fst (name : String) (value : α) {xs : List (String × α)}
    (hs : xs.Pairwise fun a b => a.1 < b.1) :
    (insertSorted name value xs).1 = (xs.find? (·.1 == name)).map (·.2) := by
  induction xs with
  | nil => rfl
  | cons p rest ih =>
    obtain ⟨k, v⟩ := p
    rw [List.pairwise_cons] at hs
    unfold insertSorted
    by_cases h1 : name < k
    · have hk : ¬ k = name := fun e => by subst e; exact String.lt_irrefl _ h1
      have hnone : rest.find? (·.1 == name) = none := by
        rw [List.find?_eq_none]
        intro q hq heq
        have := String.lt_trans h1 (hs.1 q hq)
        simp at heq
        rw [heq] at this
        exact String.lt_irrefl _ this
      simp [h1, hk, hnone]
    · by_cases h2 : name = k
      · subst h2; simp
      · have : ¬ k = name := fun e => h2 e.symm
        simp [h1, h2, this, ih hs.2]

/-- A lookup after recording sees the new value for that name and the old ones elsewhere. -/
theorem get?_record (facts : Facts α) (name key : String) (value : α) :
    (facts.record name value).2.get? key = if key = name then some value else facts.get? key :=
  find?_insertSorted name key value facts.entries

/-- Recording gives back the value the name had before. -/
theorem record_fst (facts : Facts α) (name : String) (value : α) :
    (facts.record name value).1 = facts.get? name :=
  insertSorted_fst name value facts.sorted

end Facts

end CareerCompass
