import CareerCompass.Json.Reader
/-!
# How far the JSON readers read

Every reader of `Json.Cursor` takes a cursor and, when it succeeds, gives one that has read on in
the same text: what is left to read is a suffix of what was left before (`ReadOn`), and for a
reader that must see at least one character, a shorter one (`ReadPast`).

* `skipValue_readPast`: passing over a value reads at least one character and nothing but the
  text, whatever the value and its nesting.
-/

namespace CareerCompass

namespace Json

namespace Cursor

/-- `after` has read on from `before` in the same text. -/
def ReadOn (after before : Cursor) : Prop := after.rest <:+ before.rest

/-- `after` has read at least one character past `before`. -/
def ReadPast (after before : Cursor) : Prop :=
  ReadOn after before ∧ after.rest.length < before.rest.length

theorem ReadOn.refl (c : Cursor) : ReadOn c c := List.suffix_refl _

theorem ReadOn.trans {c₁ c₂ c₃ : Cursor} (later : ReadOn c₃ c₂) (earlier : ReadOn c₂ c₁) :
    ReadOn c₃ c₁ :=
  List.IsSuffix.trans later earlier

theorem ReadPast.readOn {after before : Cursor} (past : ReadPast after before) :
    ReadOn after before := past.1

theorem ReadPast.of_readOn {c₁ c₂ c₃ : Cursor} (later : ReadOn c₃ c₂) (earlier : ReadPast c₂ c₁) :
    ReadPast c₃ c₁ :=
  ⟨later.trans earlier.1, Nat.lt_of_le_of_lt later.length_le earlier.2⟩

theorem ReadPast.of_readPast {c₁ c₂ c₃ : Cursor} (later : ReadPast c₃ c₂) (earlier : ReadOn c₂ c₁) :
    ReadPast c₃ c₁ :=
  ⟨later.1.trans earlier, Nat.lt_of_lt_of_le later.2 earlier.length_le⟩

theorem advance_readOn (c : Cursor) : ReadOn c.advance c := by
  rw [ReadOn, advance_rest]
  exact List.tail_suffix _

theorem advance_readPast {c : Cursor} {ch : Char} {rest : List Char} (split : c.rest = ch :: rest) :
    ReadPast c.advance c :=
  ⟨advance_readOn c, length_advance split⟩

theorem advance_readPast_of_peek? {c : Cursor} {ch : Char} (next : c.peek? = some ch) :
    ReadPast c.advance c := by
  obtain ⟨rest, split⟩ : ∃ rest, c.rest = ch :: rest := by
    cases h : c.rest with
    | nil => simp [peek?, h] at next
    | cons d rest => simp_all [peek?]
  exact advance_readPast split

theorem skipBlanks_readOn (c : Cursor) : ReadOn c.skipBlanks c := by
  rw [ReadOn, skipBlanks_rest]
  exact List.dropWhile_suffix _

theorem skipDigitsFrom_rest (line column : Nat) (text : List Char) :
    (skipDigitsFrom line column text).rest = text.dropWhile Char.isDigit := by
  induction text generalizing column with
  | nil => rfl
  | cons ch rest ih =>
    unfold skipDigitsFrom
    by_cases digit : ch.isDigit
    · simp only [digit, if_true, List.dropWhile_cons]
      exact ih _
    · simp [digit]

theorem skipDigits_readOn (c : Cursor) : ReadOn c.skipDigits c := by
  rw [ReadOn, skipDigits, skipDigitsFrom_rest]
  exact List.dropWhile_suffix _

theorem expectWord_readOn {word : List Char} {c after : Cursor}
    (read : c.expectWord word = .ok after) : ReadOn after c := by
  induction word generalizing c with
  | nil =>
    cases read
    exact ReadOn.refl _
  | cons w ws ih =>
    unfold expectWord at read
    split at read
    · cases read
    · split at read
      · exact (ih read).trans (advance_readOn c)
      · cases read

theorem expectColon_readPast {c after : Cursor} (read : c.expectColon = .ok after) :
    ReadPast after c := by
  simp only [expectColon] at read
  split at read
  case h_1 colon =>
    cases read
    exact (advance_readPast_of_peek? colon).of_readPast (skipBlanks_readOn c)
  all_goals cases read

theorem readHex4_readOn {c after : Cursor} {n : Nat} (read : readHex4 c = .ok (n, after)) :
    ReadOn after c := by
  simp only [readHex4] at read
  split at read
  · cases read
  · split at read
    · split at read
      · cases read
        exact (advance_readOn _).trans <| (advance_readOn _).trans <|
          (advance_readOn _).trans (advance_readOn c)
      · cases read
    · cases read

theorem skipString_go_readPast {fuel : Nat} {c after : Cursor}
    (read : skipString.go c fuel = .ok after) : ReadPast after c := by
  induction fuel generalizing c with
  | zero => cases read
  | succ fuel ih =>
    unfold skipString.go at read
    split at read
    case h_1 => cases read
    case h_2 ch tail split =>
      have first := advance_readPast split
      split at read
      case isTrue => cases read; exact first
      case isFalse =>
        split at read
        case isTrue =>
          simp only at read
          split at read
          case h_1 => cases read
          case h_2 e more escaped =>
            have second := (advance_readPast escaped).of_readPast first.readOn
            split at read
            case isTrue =>
              split at read
              case h_1 hex c₃ hexRead =>
                exact (ih read).of_readPast ((readHex4_readOn hexRead).trans second.readOn)
              case h_2 => cases read
            case isFalse =>
              split at read
              case isTrue => exact (ih read).of_readPast second.readOn
              case isFalse => cases read
        case isFalse =>
          split at read
          case isTrue => cases read
          case isFalse => exact (ih read).of_readPast first.readOn

theorem skipString_readPast {c after : Cursor} (read : c.skipString = .ok after) :
    ReadPast after c :=
  skipString_go_readPast read

theorem skipSign_readOn (c : Cursor) : ReadOn (skipSign c) c := by
  unfold skipSign
  split
  · exact advance_readOn c
  · exact advance_readOn c
  · exact ReadOn.refl c

theorem skipExponent_readOn {c after : Cursor} (read : skipExponent c = .ok after) :
    ReadOn after c := by
  simp only [skipExponent] at read
  split at read
  · split at read
    · cases read
      exact (skipDigits_readOn _).trans <| (advance_readOn _).trans <|
        (skipSign_readOn _).trans (advance_readOn c)
    · cases read
  · cases read

theorem skipIntegerPart_readOn {first : Option Char} {firstAt : Position} {c after : Cursor}
    (read : skipIntegerPart first firstAt c = .ok after) : ReadOn after c := by
  unfold skipIntegerPart at read
  split at read
  · split at read
    · split at read
      · cases read
      · cases read
        exact ReadOn.refl _
    · cases read
      exact ReadOn.refl _
  · split at read
    · cases read
      exact skipDigits_readOn c
    · cases read
  · cases read

theorem skipAfterInteger_readOn {c after : Cursor} (read : skipAfterInteger c = .ok after) :
    ReadOn after c := by
  simp only [skipAfterInteger] at read
  have fraction := (skipDigits_readOn _).trans (advance_readOn c)
  split at read
  case h_1 =>
    split at read
    · split at read
      · split at read
        · exact (skipExponent_readOn read).trans fraction
        · exact (skipExponent_readOn read).trans fraction
        · cases read
          exact fraction
      · cases read
    · cases read
  case h_2 => exact skipExponent_readOn read
  case h_3 => exact skipExponent_readOn read
  case h_4 =>
    cases read
    exact ReadOn.refl c

theorem skipNumber_readPast {c after : Cursor} (read : c.skipNumber = .ok after) :
    ReadPast after c := by
  unfold skipNumber at read
  split at read
  case h_1 => cases read
  case h_2 integerEnd integer =>
    -- an integer part starts with a character
    obtain ⟨ch, first⟩ : ∃ ch, c.peek? = some ch := by
      cases next : c.peek? with
      | none => simp [next, skipIntegerPart] at integer
      | some ch => exact ⟨ch, rfl⟩
    exact ReadPast.of_readOn
      ((skipAfterInteger_readOn read).trans (skipIntegerPart_readOn integer))
      (advance_readPast_of_peek? first)

theorem skipKey_readPast {c after : Cursor} (read : skipKey c = .ok after) :
    ReadPast after c := by
  simp only [skipKey] at read
  split at read
  case h_1 =>
    split at read
    case h_1 => cases read
    case h_2 keyEnd key =>
      exact (expectColon_readPast read).of_readPast <| (skipString_readPast key).readOn.trans <|
        (advance_readOn _).trans (skipBlanks_readOn c)
  all_goals cases read

/-- The cursor a frame closes at. -/
def Resume.cursor : Resume → Cursor
  | .done c => c
  | .next c _ _ => c

theorem closeFrames_readOn {fuel : Nat} {c : Cursor} {acceptComma : Bool} {frame : Char}
    {stack : List Char} {r : Resume} (read : closeFrames fuel c acceptComma frame stack = .ok r) :
    ReadOn r.cursor c := by
  induction fuel generalizing c acceptComma frame stack with
  | zero => cases read
  | succ fuel ih =>
    have blanks := skipBlanks_readOn c
    simp only [closeFrames] at read
    split at read
    case h_1 =>
      split at read
      · cases read
        exact (advance_readOn _).trans blanks
      · cases read
        exact blanks
    case h_2 ch other none =>
      by_cases closes : ch = if frame = '[' then ']' else '}'
      · rw [if_pos closes] at read
        split at read
        · cases read
          exact (advance_readOn _).trans blanks
        · exact (ih read).trans ((advance_readOn _).trans blanks)
      · rw [if_neg closes] at read
        split at read
        · cases read
        · cases read
          exact blanks
    case h_3 => cases read

section Loop

variable {fuel : Nat}
  (loop : ∀ c stack after, skipValueLoop fuel c stack = .ok after → ReadPast after c)
include loop

theorem resume_readPast {c : Cursor} {frame : Char} {stack : List Char} {after : Cursor}
    (read : skipValueLoop.resume fuel c frame stack = .ok after) : ReadPast after c := by
  unfold skipValueLoop.resume at read
  split at read
  · split at read
    · cases read
    case h_2 keyEnd key => exact (loop _ _ _ read).of_readPast (skipKey_readPast key).readOn
  · exact loop _ _ _ read

theorem afterFrames_readOn {r : Except JsonError Resume} {after : Cursor}
    (read : skipValueLoop.afterFrames fuel r = .ok after) :
    ∃ closed, r = .ok closed ∧ ReadOn after closed.cursor := by
  unfold skipValueLoop.afterFrames at read
  split at read
  case h_1 => cases read
  case h_2 c =>
    cases read
    exact ⟨.done _, rfl, ReadOn.refl _⟩
  case h_3 c frame stack =>
    exact ⟨.next c frame stack, rfl, (resume_readPast loop read).readOn⟩

theorem afterScalar_readOn {stack : List Char} {r : Except JsonError Cursor} {after : Cursor}
    (read : skipValueLoop.afterScalar fuel stack r = .ok after) :
    ∃ c, r = .ok c ∧ ReadOn after c := by
  unfold skipValueLoop.afterScalar at read
  split at read
  case h_1 => cases read
  case h_2 c =>
    split at read
    · cases read
      exact ⟨_, rfl, ReadOn.refl _⟩
    · obtain ⟨closed, frames, rest⟩ := afterFrames_readOn loop read
      exact ⟨c, rfl, rest.trans (closeFrames_readOn frames)⟩

end Loop

/-- A value starts at its first character after the blanks. -/
theorem ReadPast.of_token {c c₁ after : Cursor} (rest : ReadOn after c₁)
    (token : ReadPast c₁ c.skipBlanks) : ReadPast after c :=
  ReadPast.of_readOn rest (token.of_readPast (skipBlanks_readOn c))

theorem skipValueLoop_readPast (fuel : Nat) :
    ∀ c stack after, skipValueLoop fuel c stack = .ok after → ReadPast after c := by
  induction fuel with
  | zero =>
    intro c stack after read
    rw [skipValueLoop] at read
    cases read
  | succ fuel ih =>
    intro c stack after read
    rw [skipValueLoop] at read
    split at read
    case h_1 => cases read
    case h_2 first =>
      obtain ⟨c₁, word, rest⟩ := afterScalar_readOn ih read
      exact ReadPast.of_token (rest.trans (expectWord_readOn word))
        (advance_readPast_of_peek? first)
    case h_3 first =>
      obtain ⟨c₁, word, rest⟩ := afterScalar_readOn ih read
      exact ReadPast.of_token (rest.trans (expectWord_readOn word))
        (advance_readPast_of_peek? first)
    case h_4 first =>
      obtain ⟨c₁, word, rest⟩ := afterScalar_readOn ih read
      exact ReadPast.of_token (rest.trans (expectWord_readOn word))
        (advance_readPast_of_peek? first)
    case h_5 =>
      obtain ⟨c₁, number, rest⟩ := afterScalar_readOn ih read
      exact ReadPast.of_token rest ((skipNumber_readPast number).of_readPast (advance_readOn _))
    case h_6 =>
      obtain ⟨c₁, string, rest⟩ := afterScalar_readOn ih read
      exact ReadPast.of_token rest ((skipString_readPast string).of_readPast (advance_readOn _))
    case h_7 first =>
      obtain ⟨closed, frames, rest⟩ := afterFrames_readOn ih read
      exact ReadPast.of_token (rest.trans (closeFrames_readOn frames))
        (advance_readPast_of_peek? first)
    case h_8 first =>
      obtain ⟨closed, frames, rest⟩ := afterFrames_readOn ih read
      exact ReadPast.of_token (rest.trans (closeFrames_readOn frames))
        (advance_readPast_of_peek? first)
    case h_9 =>
      split at read
      · obtain ⟨c₁, number, rest⟩ := afterScalar_readOn ih read
        exact ReadPast.of_token rest (skipNumber_readPast number)
      · cases read

/-- **Passing over a value reads on in the text, by at least one character**, whatever the value
and however deep it nests. -/
theorem skipValue_readPast {c after : Cursor} (read : c.skipValue = .ok after) :
    ReadPast after c :=
  skipValueLoop_readPast _ c [] after read

/-! ### Reading what a writer writes -/

theorem advance_rest_of_cons {c : Cursor} {ch : Char} {rest : List Char}
    (split : c.rest = ch :: rest) : c.advance.rest = rest := by
  rw [advance_rest, split]
  rfl

/-- Where no blank stands, skipping blanks leaves the cursor as it is. -/
theorem skipBlanks_of_head {c : Cursor} {ch : Char} {rest : List Char} (split : c.rest = ch :: rest)
    (shown : isBlank ch = false) : c.skipBlanks = c := by
  obtain ⟨text, line, column⟩ := c
  subst split
  simp [skipBlanks, skipBlanksFrom, shown]

theorem skipBlanks_of_nil {c : Cursor} (empty : c.rest = []) : c.skipBlanks = c := by
  obtain ⟨text, line, column⟩ := c
  subst empty
  rfl

theorem isBlank_of_isDigit {d : Char} (digit : d.isDigit = true) : isBlank d = false := by
  simp only [isBlank, Bool.or_eq_false_iff, decide_eq_false_iff_not]
  refine ⟨⟨⟨?_, ?_⟩, ?_⟩, ?_⟩ <;> rintro rfl <;> simp at digit

theorem expectColon_of_colon {c : Cursor} {rest : List Char} (split : c.rest = ':' :: rest) :
    ∃ after, c.expectColon = .ok after ∧ after.rest = rest := by
  refine ⟨c.advance, ?_, advance_rest_of_cons split⟩
  simp [expectColon, skipBlanks_of_head split (by decide), peek?, split]

/-- A character that stands in a string as it is: no quote, backslash or control character. -/
def Plain (ch : Char) : Prop := ch ≠ '"' ∧ ch ≠ '\\' ∧ 0x20 ≤ ch.toNat

instance instDecidablePredPlain : DecidablePred Plain := fun ch =>
  inferInstanceAs (Decidable (ch ≠ '"' ∧ ch ≠ '\\' ∧ 0x20 ≤ ch.toNat))

theorem readString_go_plain (rest : List Char) (text : List Char) :
    ∀ (acc : List Char) (c : Cursor) (fuel : Nat), (∀ ch ∈ text, Plain ch) →
      c.rest = text ++ '"' :: rest → text.length < fuel →
      ∃ after, readString.go c acc fuel = .ok (String.ofList (acc.reverse ++ text), after) ∧
        after.rest = rest := by
  induction text with
  | nil =>
    intro acc c fuel _ split enough
    obtain ⟨fuel, rfl⟩ : ∃ f, fuel = f + 1 := ⟨fuel - 1, by simp at enough; omega⟩
    refine ⟨c.advance, ?_, advance_rest_of_cons split⟩
    simp [readString.go, split]
  | cons ch text ih =>
    intro acc c fuel plain split enough
    obtain ⟨fuel, rfl⟩ : ∃ f, fuel = f + 1 := ⟨fuel - 1, by simp at enough; omega⟩
    obtain ⟨quote, backslash, visible⟩ := plain ch List.mem_cons_self
    obtain ⟨after, read, ends⟩ := ih (ch :: acc) c.advance fuel
      (fun d listed => plain d (List.mem_cons_of_mem ch listed))
      (advance_rest_of_cons (List.cons_append ▸ split)) (by simp at enough; omega)
    refine ⟨after, ?_, ends⟩
    rw [readString.go, split]
    simp only [List.cons_append, quote, backslash, if_false, show ¬ ch.toNat < 0x20 by omega]
    rw [read]
    simp

/-- A string of plain characters reads back as itself, up to its closing quote. -/
theorem readString_plain {c : Cursor} {text rest : List Char} (plain : ∀ ch ∈ text, Plain ch)
    (split : c.rest = text ++ '"' :: rest) :
    ∃ after, c.readString = .ok (String.ofList text, after) ∧ after.rest = rest := by
  rw [readString]
  simpa using readString_go_plain rest text [] c (c.rest.length + 1) plain split
    (by simp only [split, List.length_append, List.length_cons]; omega)

/-- A character that ends a number: neither a digit nor the start of a fraction or exponent. -/
def EndsNumber (rest : List Char) : Prop :=
  ∀ ch ∈ rest.head?, ch.isDigit = false ∧ ch ≠ '.' ∧ ch ≠ 'e' ∧ ch ≠ 'E'

theorem afterInteger_of_ends {c : Cursor} (ends : EndsNumber c.rest) (sig : Nat) :
    afterInteger true sig c = .ok (.unsigned sig, c) := by
  unfold afterInteger
  cases next : c.peek? with
  | none => rfl
  | some ch =>
    have ⟨_, point, e, E⟩ := ends ch (by simpa [peek?] using next)
    simp [point, e, E]

/-- The digits loop of a number keeps adding digits while the value fits in 64 bits. -/
theorem digits_of_fits (rest : List Char) :
    ∀ (digits : List Char) (sig : Nat) (c : Cursor), c.rest = digits ++ rest →
      (∀ d ∈ digits, d.isDigit = true) → EndsNumber rest →
      digits.foldl (fun n d => 10 * n + (d.toNat - 48)) sig ≤ u64Max →
      ∃ after, readNumber.digits true c sig =
        .ok (.unsigned (digits.foldl (fun n d => 10 * n + (d.toNat - 48)) sig), after) ∧
        after.rest = rest := by
  intro digits
  induction digits with
  | nil =>
    intro sig c split _ ends _
    refine ⟨c, ?_, by simpa using split⟩
    rw [readNumber.digits]
    have ends' : EndsNumber c.rest := by simpa [split] using ends
    split
    case h_1 d tail next =>
      have notDigit := (ends' d (by simp [next])).1
      simp only [notDigit, Bool.false_eq_true, if_false, List.foldl_nil]
      exact afterInteger_of_ends ends' sig
    case h_2 => exact afterInteger_of_ends ends' sig
  | cons d digits ih =>
    intro sig c split allDigits ends fits
    have digit := allDigits d List.mem_cons_self
    -- the value so far never exceeds the whole value
    have grows : ∀ (ds : List Char) (n : Nat), n ≤ ds.foldl (fun n d => 10 * n + (d.toNat - 48)) n := by
      intro ds
      induction ds with
      | nil => intro n; exact Nat.le_refl n
      | cons e ds ih =>
        intro n
        exact Nat.le_trans (show n ≤ 10 * n + (e.toNat - 48) by omega) (ih _)
    have small : 10 * sig + (d.toNat - 48) ≤ u64Max := by
      have := grows digits (10 * sig + (d.toNat - 48))
      simp only [List.foldl_cons] at fits
      omega
    obtain ⟨after, read, ends'⟩ := ih (10 * sig + (d.toNat - 48)) c.advance
      (advance_rest_of_cons split) (fun e listed => allDigits e (List.mem_cons_of_mem d listed))
      ends (by simpa using fits)
    refine ⟨after, ?_, ends'⟩
    rw [readNumber.digits]
    split
    case h_1 e tail next =>
      rw [split] at next
      obtain ⟨rfl, -⟩ := List.cons.inj next
      simp only [digit, if_true, Nat.mul_comm sig 10, show ¬ 10 * sig + (d.toNat - 48) > u64Max by omega,
        if_false, read, List.foldl_cons]
    case h_2 next => simp [split] at next

/-- A decimal numeral of a positive value does not start with `0`. -/
theorem toDigits_head (value : Nat) (positive : 0 < value) :
    ∃ d digits, Nat.toDigits 10 value = d :: digits ∧ d ≠ '0' := by
  induction value using Nat.strongRecOn with
  | ind value ih =>
    rw [Nat.toDigits_eq_if (by decide)]
    split
    case isTrue small =>
      exact ⟨_, [], rfl, fun zero => by simp at zero; omega⟩
    case isFalse large =>
      obtain ⟨d, digits, split, nonzero⟩ := ih (value / 10) (by omega) (by omega)
      exact ⟨d, digits ++ _, by rw [split, List.cons_append], nonzero⟩

/-- A decimal numeral reads as its value when it fits in 64 bits. -/
theorem readNumber_toDigits (value : Nat) (fits : value ≤ u64Max) {c : Cursor} {rest : List Char}
    (split : c.rest = Nat.toDigits 10 value ++ rest) (ends : EndsNumber rest) :
    ∃ after, c.readNumber true = .ok (.unsigned value, after) ∧ after.rest = rest := by
  have read : (Nat.toDigits 10 value).foldl (fun n d => 10 * n + (d.toNat - 48)) 0 = value :=
    Printable.foldl_toDigits (by decide) _
      (fun k small => by rw [Nat.toNat_digitChar_of_lt_ten small]; omega) value
  rcases Nat.eq_zero_or_pos value with zero | positive
  · subst zero
    rw [Nat.toDigits_zero] at split
    have next : EndsNumber c.advance.rest := by rwa [advance_rest_of_cons split]
    refine ⟨c.advance, ?_, advance_rest_of_cons split⟩
    have zeroDigit : '0'.isDigit = true := by decide
    unfold readNumber
    rw [split]
    simp only [List.singleton_append, zeroDigit, Bool.not_true, Bool.false_eq_true, if_false,
      if_true]
    cases peek : c.advance.peek? with
    | none => exact afterInteger_of_ends next 0
    | some d =>
      have notDigit := (next d (by simpa [peek?] using peek)).1
      simp only [notDigit, Bool.false_eq_true, if_false]
      exact afterInteger_of_ends next 0
  · obtain ⟨d, digits, numeral, nonzero⟩ := toDigits_head value positive
    rw [numeral] at split read
    have digit :=
      Printable.isDigit_of_mem_toDigits (numeral ▸ List.mem_cons_self : d ∈ Nat.toDigits 10 value)
    have start : digits.foldl (fun n d => 10 * n + (d.toNat - 48)) (d.toNat - 48) = value := by
      simpa using read
    obtain ⟨after, loop, ends'⟩ := digits_of_fits rest digits (d.toNat - 48) c.advance
      (advance_rest_of_cons split)
      (fun e listed =>
        Printable.isDigit_of_mem_toDigits (numeral ▸ List.mem_cons_of_mem d listed))
      ends (start ▸ fits)
    refine ⟨after, ?_, ends'⟩
    unfold readNumber
    rw [split]
    simp only [List.cons_append, digit, Bool.not_true, Bool.false_eq_true, if_false, nonzero]
    rw [loop, start]

end Cursor

end Json

end CareerCompass
