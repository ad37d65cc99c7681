import Mathlib.Data.List.Basic
import CareerCompass.Settings
import CareerCompass.Text.Printable
/-!
# What the environment makes of the settings

The settings read the variables named `CAREER_` and a field. This file shows that the reading
does what the variables' documentation says of every environment:

* `readCount?_padded`: a count written in decimal, with blanks around it and an optional `+`,
  reads as its value when it fits in 64 bits, and as nothing when it does not;
* `fieldValue?_filter` and `ofEnvironment_filter_named`: variables whose names do not start with
  `CAREER_` are ignored;
* `fieldValue?_append_of_names`: of the variables that name a field, the later ones count;
* `ofEnvironment_error_field`: an error names a field of the settings that a variable made a
  table or a list;
* `ofEnvironment_bounds`: every count of the settings read fits in 64 bits, and a session's
  lifetime is never zero.
-/

namespace CareerCompass

namespace Settings

/-! ### Counts -/

theorem dropBlanks_append {pre rest : List Char} (blank : ∀ c ∈ pre, isUnicodeBlank c = true)
    (shown : ∀ c ∈ rest.head?, isUnicodeBlank c = false) : dropBlanks (pre ++ rest) = rest := by
  rw [dropBlanks, List.dropWhile_append_of_pos blank]
  cases rest with
  | nil => rfl
  | cons c more => exact List.dropWhile_cons_of_neg (by simp [shown c rfl])

/-- Trimming drops the blanks around a text that neither starts nor ends with one. -/
theorem trimBlanks_padded {pre text post : List Char} (blankPre : ∀ c ∈ pre, isUnicodeBlank c = true)
    (blankPost : ∀ c ∈ post, isUnicodeBlank c = true) (named : text ≠ [])
    (shown : ∀ c ∈ text, isUnicodeBlank c = false) :
    trimBlanks (String.ofList (pre ++ text ++ post)) = String.ofList text := by
  have front : dropBlanks (pre ++ (text ++ post)) = text ++ post := by
    refine dropBlanks_append blankPre fun c first => shown c ?_
    obtain ⟨d, rest, rfl⟩ := List.exists_cons_of_ne_nil named
    have head : d = c := by simpa using first
    exact head ▸ List.mem_cons_self
  have back : dropBlanks (post.reverse ++ text.reverse) = text.reverse := by
    refine dropBlanks_append (by simpa using blankPost) fun c first => shown c ?_
    exact List.mem_reverse.1 (List.mem_of_mem_head? first)
  rw [trimBlanks, String.toList_ofList, List.append_assoc, front, List.reverse_append, back,
    List.reverse_reverse]

theorem dropPlus_of_ne {c : Char} (other : c ≠ '+') (rest : List Char) :
    dropPlus (c :: rest) = c :: rest := by
  unfold dropPlus
  split
  · simp_all
  · rfl

/-- The value the count reader gives a decimal digit. -/
theorem decimal_digitChar : ∀ k, k < 10 → (Nat.digitChar k).toNat - '0'.toNat = k := by
  intro k small
  have zero : '0'.toNat = 48 := rfl
  rw [Nat.toNat_digitChar_of_lt_ten small, zero]
  omega

theorem notBlank_of_mem_toDigits {n : Nat} {c : Char} (listed : c ∈ Nat.toDigits 10 n) :
    isUnicodeBlank c = false := by
  obtain ⟨k, small, rfl⟩ := Printable.mem_toDigits (by decide) listed
  clear listed
  revert k
  decide

/-- **A decimal count reads back**, with blanks around it and an optional `+`, exactly when it
fits in 64 bits. -/
theorem readCount?_padded (pre sign post : List Char)
    (blankPre : ∀ c ∈ pre, isUnicodeBlank c = true) (blankPost : ∀ c ∈ post, isUnicodeBlank c = true)
    (signed : sign = [] ∨ sign = ['+']) (n : Nat) :
    readCount? (String.ofList (pre ++ (sign ++ Nat.toDigits 10 n) ++ post)) =
      if n ≤ countLimit then some n else none := by
  have trimmed : trimBlanks (String.ofList (pre ++ (sign ++ Nat.toDigits 10 n) ++ post)) =
      String.ofList (sign ++ Nat.toDigits 10 n) := by
    refine trimBlanks_padded blankPre blankPost (by simp) fun c listed => ?_
    rcases List.mem_append.1 listed with inSign | inDigits
    · rcases signed with rfl | rfl
      · simp at inSign
      · rw [List.mem_singleton.1 inSign]
        decide
    · exact notBlank_of_mem_toDigits inDigits
  have unsigned : dropPlus (sign ++ Nat.toDigits 10 n) = Nat.toDigits 10 n := by
    rcases signed with rfl | rfl
    · obtain ⟨d, rest, split⟩ := List.exists_cons_of_ne_nil (@Nat.toDigits_ne_nil n 10)
      have notPlus : d ≠ '+' := fun plus => by
        simpa [plus] using
          Printable.isDigit_of_mem_toDigits (by simp [split] : d ∈ Nat.toDigits 10 n)
      rw [List.nil_append, split, dropPlus_of_ne notPlus]
    · rfl
  have value : (Nat.toDigits 10 n).foldl (fun acc c => 10 * acc + (c.toNat - '0'.toNat)) 0 = n :=
    Printable.foldl_toDigits (by decide) _ decimal_digitChar n
  have allDigits : (Nat.toDigits 10 n).all Char.isDigit = true :=
    List.all_eq_true.2 fun c listed => Printable.isDigit_of_mem_toDigits listed
  simp only [readCount?, trimmed, String.toList_ofList, unsigned, value, allDigits,
    List.isEmpty_eq_false_iff.2 Nat.toDigits_ne_nil, Bool.not_true, Bool.or_self,
    Bool.false_eq_true, if_false]

example : readCount? " +42 " = some 42 := by
  decide +kernel

/-! ### Which variables count -/

theorem foldl_or_eq (f : String × String → Option (Except Nested String))
    (vars : List (String × String)) (acc : Option (Except Nested String)) :
    vars.foldl (fun acc var => (f var).or acc) acc = ((vars.filterMap f).getLast?).or acc := by
  induction vars generalizing acc with
  | nil => rfl
  | cons var rest ih =>
    rw [List.foldl_cons, ih]
    cases found : f var with
    | none => simp [found]
    | some value => simp [found, List.filterMap_cons_some, List.getLast?_cons]

/-- **The last variable that names a field decides it.** -/
theorem fieldValue?_eq_getLast? (vars : List (String × String)) (field : String) :
    fieldValue? vars field = (vars.filterMap (varValue? field)).getLast? := by
  rw [fieldValue?, foldl_or_eq, Option.or_none]

/-- Dropping variables that do not name a field leaves what the variables make of it. -/
theorem fieldValue?_filter (vars : List (String × String)) (field : String)
    (keep : String × String → Bool)
    (kept : ∀ var ∈ vars, (varValue? field var).isSome → keep var = true) :
    fieldValue? (vars.filter keep) field = fieldValue? vars field := by
  rw [fieldValue?_eq_getLast?, fieldValue?_eq_getLast?, List.filterMap_filter]
  refine congrArg List.getLast? (List.filterMap_congr fun var listed => ?_)
  cases found : varValue? field var with
  | none => simp
  | some value => simp [kept var listed (by simp [found])]

/-- Of the variables that name a field, the later ones count: earlier variables do not matter
once a later one names the field. -/
theorem fieldValue?_append_of_names (earlier later : List (String × String)) (field : String)
    (named : ∃ var ∈ later, (varValue? field var).isSome) :
    fieldValue? (earlier ++ later) field = fieldValue? later field := by
  obtain ⟨var, listed, some⟩ := named
  obtain ⟨value, found⟩ := Option.isSome_iff_exists.1 some
  have nonempty : later.filterMap (varValue? field) ≠ [] :=
    List.ne_nil_of_mem (List.mem_filterMap.2 ⟨var, listed, found⟩)
  obtain ⟨last, last_eq⟩ := Option.isSome_iff_exists.1 (List.getLast?_isSome.2 nonempty)
  rw [fieldValue?_eq_getLast?, fieldValue?_eq_getLast?, List.filterMap_append,
    List.getLast?_append, last_eq, Option.some_or]

/-- The settings depend on the variables only through what they make of each field. -/
theorem ofEnvironment_congr {vars vars' : List (String × String)}
    (same : ∀ field, fieldValue? vars field = fieldValue? vars' field) :
    ofEnvironment vars = ofEnvironment vars' := by
  simp only [ofEnvironment, same]

/-- A variable whose name does not start with `CAREER_` names no field. -/
theorem varValue?_of_pathOf? {var : String × String} (unnamed : pathOf? var.1 = none)
    (field : String) : varValue? field var = none := by
  simp [varValue?, unnamed]

/-- **Variables whose names do not start with `CAREER_` are ignored.** -/
theorem ofEnvironment_filter_named (vars : List (String × String)) :
    ofEnvironment (vars.filter fun var => (pathOf? var.1).isSome) = ofEnvironment vars := by
  refine ofEnvironment_congr fun field => fieldValue?_filter vars field _ fun var _ some => ?_
  cases path : pathOf? var.1 with
  | none => simp [varValue?_of_pathOf? path] at some
  | some p => rfl

/-- An environment without a variable named `CAREER_` and a field gives the defaults. -/
theorem ofEnvironment_of_unnamed (vars : List (String × String))
    (unnamed : ∀ var ∈ vars, pathOf? var.1 = none) : ofEnvironment vars = .ok {} := by
  rw [← ofEnvironment_filter_named, List.filter_eq_nil_iff.2 fun var listed => by
    simp [unnamed var listed]]
  rfl

/-! ### Errors and bounds -/

/-- **An error names a field of the settings that a variable made a table or a list.** -/
theorem ofEnvironment_error_field {vars : List (String × String)} {e : SettingsError}
    (failed : ofEnvironment vars = .error e) :
    e.field ∈ fields ∧ fieldValue? vars e.field = some (.error e.found) := by
  simp only [ofEnvironment] at failed
  split at failed
  case h_1 first rest nested =>
    cases failed
    obtain ⟨field, listed, found⟩ := List.mem_filterMap.1 (nested ▸ List.mem_cons_self)
    split at found
    case h_1 kind value => cases found; exact ⟨listed, value⟩
    case h_2 => cases found
  case h_2 => cases failed

theorem readCount?_le {text : String} {n : Nat} (read : readCount? text = some n) :
    n ≤ countLimit := by
  simp only [readCount?] at read
  split_ifs at read with malformed fits
  · exact Option.some.inj read ▸ fits

/-- A count read from a variable, or its default, fits in 64 bits when the default does. -/
theorem getD_bind_readCount?_le (raw : Option String) {fallback : Nat}
    (small : fallback ≤ countLimit) : (raw.bind readCount?).getD fallback ≤ countLimit := by
  cases read : raw.bind readCount? with
  | none => exact small
  | some n =>
    obtain ⟨text, -, found⟩ := Option.bind_eq_some_iff.1 read
    exact readCount?_le found

/-- A lifetime of zero seconds stands for the default. -/
theorem lifetime_bounds {ttl : Nat} (fits : ttl ≤ countLimit) :
    0 < (if ttl = 0 then 1800 else ttl) ∧ (if ttl = 0 then 1800 else ttl) ≤ countLimit := by
  split
  · exact ⟨by decide, by decide⟩
  · omega

/-- **Every count of the settings fits in 64 bits**, and a session's lifetime is never zero. -/
theorem ofEnvironment_bounds {vars : List (String × String)} {s : Settings}
    (read : ofEnvironment vars = .ok s) :
    s.session.seedCount ≤ countLimit ∧ s.session.topEvidence ≤ countLimit ∧
      0 < s.sessionTtlSecs ∧ s.sessionTtlSecs ≤ countLimit := by
  simp only [ofEnvironment] at read
  split at read
  case h_1 => cases read
  case h_2 =>
    cases read
    refine ⟨getD_bind_readCount?_le _ (by decide), getD_bind_readCount?_le _ (by decide), ?_⟩
    exact lifetime_bounds (getD_bind_readCount?_le _ (by decide))

end Settings

end CareerCompass
