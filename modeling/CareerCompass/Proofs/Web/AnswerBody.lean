import CareerCompass.Web.AnswerBody
import CareerCompass.Proofs.Json.Tokens
/-!
# Reading back the bodies a client writes

A client writes an answer as `{"course":…,"value":…}` or as `["…",…]`, without blanks, the
course in quotes as it is when it holds no quote, backslash or control character
(`AnswerRequest.objectText`, `AnswerRequest.arrayText`).

* `decode_objectText` and `decode_arrayText`: both read back as the answer, for every course of
  plain characters and every value from 0 to 255.
-/

namespace CareerCompass

namespace Web

open Json Cursor

/-- The object a client writes for an answer. -/
def AnswerRequest.objectText (r : AnswerRequest) : String :=
  "\x7b\"course\":\"" ++ r.course ++ "\",\"value\":" ++ Nat.repr r.value ++ "\x7d"

/-- The array a client writes for an answer. -/
def AnswerRequest.arrayText (r : AnswerRequest) : String :=
  "[\"" ++ r.course ++ "\"," ++ Nat.repr r.value ++ "]"

namespace AnswerBody

theorem readText_plain {c : Cursor} {text rest : List Char} (plain : ∀ ch ∈ text, Plain ch)
    (split : c.rest = '"' :: text ++ '"' :: rest) :
    ∃ after, readText c = .ok (String.ofList text, after) ∧ after.rest = rest := by
  obtain ⟨after, read, ends⟩ := readString_plain plain (advance_rest_of_cons split)
  refine ⟨after, ?_, ends⟩
  simp [readText, skipBlanks_of_head split (by decide), peek?, split, read]

theorem readByte_toDigits {c : Cursor} {value : Nat} {rest : List Char} (byte : value ≤ 255)
    (split : c.rest = Nat.toDigits 10 value ++ rest) (ends : EndsNumber rest) :
    ∃ after, readByte c = .ok (value, after) ∧ after.rest = rest := by
  obtain ⟨d, digits, numeral⟩ := List.exists_cons_of_ne_nil (@Nat.toDigits_ne_nil value 10)
  have digit :=
    Printable.isDigit_of_mem_toDigits (numeral ▸ List.mem_cons_self : d ∈ Nat.toDigits 10 value)
  obtain ⟨after, read, ends'⟩ := readNumber_toDigits value (Nat.le_trans byte (by decide)) split ends
  rw [numeral, List.cons_append] at split
  have notBlank := isBlank_of_isDigit digit
  have notMinus : d ≠ '-' := fun minus => by subst minus; simp at digit
  refine ⟨after, ?_, ends'⟩
  simp [readByte, skipBlanks_of_head split notBlank, peek?, split, notMinus, digit, read,
    byteOfNumber, byte, Except.map]

/-- A field read by its own reader: the key, the colon and the value. -/
theorem readFields_course (fuel : Nat) {c : Cursor} {course rest : List Char} {value : Option Nat}
    (plain : ∀ ch ∈ course, Plain ch)
    (split : c.rest = '"' :: ("course".toList ++ '"' :: ':' :: '"' :: (course ++ '"' :: rest))) :
    ∃ after, after.rest = rest ∧
      readFields (fuel + 1) c true none value =
        readFields fuel after false (some (String.ofList course)) value := by
  obtain ⟨keyEnd, key, afterKey⟩ := readString_plain (by simp [Plain])
    (advance_rest_of_cons split)
  obtain ⟨colonEnd, colon, afterColon⟩ := expectColon_of_colon afterKey
  obtain ⟨after, text, ends⟩ := readText_plain plain afterColon
  refine ⟨after, ends, ?_⟩
  rw [readFields]
  simp [skipBlanks_of_head split (by decide), peek?, split, key, fieldValue, colon, text]

theorem readFields_value (fuel : Nat) {c : Cursor} {course : Option String} {value : Nat}
    {rest : List Char} (byte : value ≤ 255)
    (split : c.rest = ',' :: '"' :: ("value".toList ++ '"' :: ':' :: (Nat.toDigits 10 value ++ rest)))
    (ends : EndsNumber rest) :
    ∃ after, after.rest = rest ∧
      readFields (fuel + 1) c false course none = readFields fuel after false course (some value) := by
  have keyStart := advance_rest_of_cons split
  obtain ⟨keyEnd, key, afterKey⟩ := readString_plain (by simp [Plain]) (advance_rest_of_cons keyStart)
  obtain ⟨colonEnd, colon, afterColon⟩ := expectColon_of_colon afterKey
  obtain ⟨after, number, ends'⟩ := readByte_toDigits byte afterColon ends
  refine ⟨after, ends', ?_⟩
  rw [readFields]
  simp [skipBlanks_of_head split (by decide), skipBlanks_of_head keyStart (by decide), peek?, split,
    keyStart, key, fieldValue, colon, number]

theorem readFields_close (fuel : Nat) {c : Cursor} {first : Bool} {course : Option String}
    {value : Option Nat} {rest : List Char} (split : c.rest = '}' :: rest) :
    readFields (fuel + 1) c first course value = .ok (course, value, c) := by
  rw [readFields]
  simp [skipBlanks_of_head split (by decide), peek?, split]

/-- The fields of an answer object, course first, read back through the closing brace. -/
theorem readObject_fields {c : Cursor} {course rest : List Char} {value : Nat}
    (plain : ∀ ch ∈ course, Plain ch) (byte : value ≤ 255)
    (split : c.rest = '"' :: ("course".toList ++ '"' :: ':' :: '"' :: (course ++ '"' ::
      ',' :: '"' :: ("value".toList ++ '"' :: ':' :: (Nat.toDigits 10 value ++ '}' :: rest))))) :
    ∃ after, readObject c = .ok (⟨String.ofList course, value⟩, after) ∧ after.rest = rest := by
  obtain ⟨n, enough⟩ : ∃ n, c.rest.length + 1 = n + 3 := ⟨c.rest.length - 2, by simp [split]⟩
  obtain ⟨middle, afterCourse, first⟩ := readFields_course (n + 2) plain split
  obtain ⟨closing, afterValue, second⟩ := readFields_value (n + 1) byte afterCourse
    (fun ch next => by simp at next; subst next; decide)
  refine ⟨closing.advance, ?_, advance_rest_of_cons afterValue⟩
  rw [readObject, enough, first, second, readFields_close n afterValue]

/-- The items of an answer array read back through the closing bracket. -/
theorem readArray_items {c : Cursor} {course rest : List Char} {value : Nat}
    (plain : ∀ ch ∈ course, Plain ch) (byte : value ≤ 255)
    (split : c.rest = '"' :: (course ++ '"' :: ',' :: (Nat.toDigits 10 value ++ ']' :: rest))) :
    ∃ after, readArray c = .ok (⟨String.ofList course, value⟩, after) ∧ after.rest = rest := by
  obtain ⟨textEnd, text, afterText⟩ := readText_plain plain split
  have second := advance_rest_of_cons afterText
  obtain ⟨d, digits, numeral⟩ := List.exists_cons_of_ne_nil (@Nat.toDigits_ne_nil value 10)
  have digit :=
    Printable.isDigit_of_mem_toDigits (numeral ▸ List.mem_cons_self : d ∈ Nat.toDigits 10 value)
  have secondHead : textEnd.advance.rest = d :: (digits ++ ']' :: rest) := by
    rw [second, numeral, List.cons_append]
  obtain ⟨byteEnd, number, afterByte⟩ := readByte_toDigits byte second
    (fun ch next => by simp at next; subst next; decide)
  refine ⟨byteEnd.advance, ?_, advance_rest_of_cons afterByte⟩
  simp [readArray, skipBlanks_of_head split (by decide), peek?, split, text,
    skipBlanks_of_head afterText (by decide), afterText,
    skipBlanks_of_head secondHead (isBlank_of_isDigit digit), secondHead, number,
    closeArray, skipBlanks_of_head afterByte (by decide), afterByte]
  -- the value starts with a digit, not with the closing bracket
  split
  next close =>
    cases close
    simp at digit
  next empty => cases empty
  next => rfl

end AnswerBody

namespace AnswerRequest

open AnswerBody

/-- **An answer object as a client writes it reads back as the answer.** -/
theorem decode_objectText (r : AnswerRequest) (plain : ∀ ch ∈ r.course.toList, Plain ch)
    (byte : r.value ≤ 255) : decode r.objectText = .ok r := by
  have text : (Cursor.ofString r.objectText).rest = '{' :: ('"' :: ("course".toList ++ '"' ::
      ':' :: '"' :: (r.course.toList ++ '"' :: ',' :: '"' :: ("value".toList ++ '"' :: ':' ::
        (Nat.toDigits 10 r.value ++ '}' :: []))))) := by
    simp [Cursor.ofString, objectText, Nat.repr]
  obtain ⟨after, read, ends⟩ := readObject_fields plain byte (advance_rest_of_cons text)
  simp [decode, skipBlanks_of_head text (by decide), peek?, text, read, skipBlanks_of_nil ends,
    ends]

example : (decode "\x7b\"course\":\"Database\",\"value\":3\x7d").toOption = some ⟨"Database", 3⟩ := by
  decide +kernel

/-- **An answer array as a client writes it reads back as the answer.** -/
theorem decode_arrayText (r : AnswerRequest) (plain : ∀ ch ∈ r.course.toList, Plain ch)
    (byte : r.value ≤ 255) : decode r.arrayText = .ok r := by
  have text : (Cursor.ofString r.arrayText).rest = '[' :: ('"' :: (r.course.toList ++ '"' ::
      ',' :: (Nat.toDigits 10 r.value ++ ']' :: []))) := by
    simp [Cursor.ofString, arrayText, Nat.repr]
  obtain ⟨after, read, ends⟩ := readArray_items plain byte (advance_rest_of_cons text)
  simp [decode, skipBlanks_of_head text (by decide), peek?, text, read, skipBlanks_of_nil ends,
    ends]

end AnswerRequest

end Web

end CareerCompass
