/-!
# Unicode blanks, trimming and ASCII case

`isUnicodeBlank` is the Unicode White_Space property: the ASCII controls tab to carriage return,
space, next line, no-break space, ogham space mark, the spaces from en quad to hair space, the
line and paragraph separators, the narrow no-break space, the medium mathematical space and the
ideographic space. A zero width space is not blank.

`trimBlanks` drops blanks at both ends of a text. `asciiLower` lowers `A`–`Z` only.

Main statements: `isUnicodeBlank_of_isWhitespace` (core's ASCII blanks are among them) and
`trimBlanks_idem`-style facts on the character lists (`dropBlanks_head`).
-/

namespace CareerCompass

/-- The Unicode White_Space property. -/
def isUnicodeBlank (c : Char) : Bool :=
  let n := c.toNat
  decide (9 ≤ n ∧ n ≤ 13) || n == 32 || n == 0x85 || n == 0xA0 || n == 0x1680 ||
    decide (0x2000 ≤ n ∧ n ≤ 0x200A) || n == 0x2028 || n == 0x2029 || n == 0x202F ||
    n == 0x205F || n == 0x3000

/-- Core's blanks (space, tab, line feed, carriage return) are Unicode blanks. -/
theorem isUnicodeBlank_of_isWhitespace (c : Char) (h : c.isWhitespace = true) :
    isUnicodeBlank c = true := by
  simp only [Char.isWhitespace, Bool.or_eq_true, decide_eq_true_eq] at h
  rcases h with ((h | h) | h) | h <;> subst h <;> decide

/-- Drops the leading Unicode blanks of a character list. -/
def dropBlanks (cs : List Char) : List Char := cs.dropWhile isUnicodeBlank

/-- After dropping, the first character (if any) is not blank. -/
theorem dropBlanks_head (cs : List Char) (c : Char) (rest : List Char)
    (h : dropBlanks cs = c :: rest) : isUnicodeBlank c = false := by
  unfold dropBlanks at h
  induction cs with
  | nil => simp at h
  | cons d ds ih =>
    by_cases hd : isUnicodeBlank d
    · rw [List.dropWhile_cons, if_pos hd] at h; exact ih h
    · rw [List.dropWhile_cons, if_neg hd] at h
      cases h
      simpa using hd

/-- A text without its blanks at both ends. -/
def trimBlanks (s : String) : String :=
  String.ofList (dropBlanks (dropBlanks s.toList).reverse).reverse

/-- Lowers the letters `A`–`Z`; every other character stays. -/
def asciiLower (s : String) : String :=
  String.ofList (s.toList.map fun c => if 'A' ≤ c ∧ c ≤ 'Z' then Char.ofNat (c.toNat + 32) else c)

end CareerCompass
