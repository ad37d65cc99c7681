/-!
# Session ids

A session id is a 128-bit UUID. It is written as 32 lowercase hexadecimal digits in groups of
8-4-4-4-12 joined by hyphens. It is read in four forms, hexadecimal digits of either case:

* the 32 digits alone;
* hyphenated, hyphens at places 8, 13, 18 and 23;
* hyphenated inside braces;
* hyphenated after `urn:uuid:`, its letters in either case.

Which form is meant is decided by the byte length of the text alone (32, 36, 38 or 45).

New ids are version 4 ids: 122 bits from a SplitMix64 sequence, then the version nibble `4` and
the variant bits `10`.

Main statements: `parse?_forms` (an id below `2^128` reads back from each of its printed forms)
and `ofWords_version` (a new id is below `2^128`, of version 4 and variant `10`).
-/

namespace CareerCompass

/-- A 128-bit session id, as a number below `2^128`. -/
structure Uuid where
  value : Nat
deriving DecidableEq, Repr

namespace Uuid

/-- The hexadecimal digit of a number below 16, lowercase. -/
def hexDigit (d : Nat) : Char :=
  if d < 10 then Char.ofNat (0x30 + d) else Char.ofNat (0x61 + d - 10)

/-- The value of a hexadecimal digit of either case. -/
def hexValue? (c : Char) : Option Nat :=
  let n := c.toNat
  if 0x30 ≤ n ∧ n ≤ 0x39 then some (n - 0x30)
  else if 0x41 ≤ n ∧ n ≤ 0x46 then some (n - 0x41 + 10)
  else if 0x61 ≤ n ∧ n ≤ 0x66 then some (n - 0x61 + 10)
  else none

/-- The 32 hexadecimal digits of the id, most significant first. -/
def hexDigits (u : Uuid) : List Char :=
  (List.range 32).reverse.map fun i => hexDigit (u.value / Nat.pow 16 i % 16)

theorem hexDigits_length (u : Uuid) : u.hexDigits.length = 32 := by
  simp [hexDigits]

/-- The 32 digits alone. -/
def simpleText (u : Uuid) : String := String.ofList u.hexDigits

/-- Digits in groups of 8-4-4-4-12 joined by hyphens. -/
def hyphenate (d : List Char) : List Char :=
  d.take 8 ++ '-' :: (d.drop 8).take 4 ++ '-' :: (d.drop 12).take 4 ++
    '-' :: (d.drop 16).take 4 ++ '-' :: d.drop 20

/-- The hyphenated lowercase text, the one ids are shown in. -/
def text (u : Uuid) : String := String.ofList (hyphenate u.hexDigits)

/-- The hyphenated text in capitals. -/
def upperText (u : Uuid) : String := String.ofList (u.text.toList.map Char.toUpper)

/-- The hyphenated text in braces. -/
def bracedText (u : Uuid) : String := "\x7b" ++ u.text ++ "\x7d"

/-- The hyphenated text as a URN. -/
def urnText (u : Uuid) : String := "urn:uuid:" ++ u.text

/-- Reads hexadecimal digits as a number, most significant first. -/
def ofHexDigits? (digits : List Char) : Option Nat :=
  digits.foldlM (fun acc c => (hexValue? c).map fun d => acc * 16 + d) 0

/-- Reads the hyphenated form: 36 characters, hyphens at 8, 13, 18 and 23, digits elsewhere. -/
def ofHyphenated? (cs : List Char) : Option Uuid :=
  if cs.length = 36 ∧ cs[8]? = some '-' ∧ cs[13]? = some '-' ∧ cs[18]? = some '-' ∧
      cs[23]? = some '-' then
    let digits := cs.take 8 ++ (cs.drop 9).take 4 ++ (cs.drop 14).take 4 ++
      (cs.drop 19).take 4 ++ cs.drop 24
    (ofHexDigits? digits).map Uuid.mk
  else none

/-- Reads an id in any of its four forms. -/
def parse? (text : String) : Option Uuid :=
  let cs := text.toList
  match text.utf8ByteSize with
  | 32 => if cs.length = 32 then (ofHexDigits? cs).map Uuid.mk else none
  | 36 => ofHyphenated? cs
  | 38 =>
    if cs.head? = some '\x7b' ∧ cs.getLast? = some '\x7d' then ofHyphenated? ((cs.drop 1).dropLast)
    else none
  | 45 =>
    if (cs.take 9).map Char.toLower = "urn:uuid:".toList then ofHyphenated? (cs.drop 9) else none
  | _ => none

/-- A version 4 id from two random words: the version nibble and the variant bits are set. -/
def ofWords (hi lo : UInt64) : Uuid :=
  let hi := (hi &&& 0xFFFFFFFFFFFF0FFF) ||| 0x0000000000004000
  let lo := (lo &&& 0x3FFFFFFFFFFFFFFF) ||| 0x8000000000000000
  ⟨hi.toNat * Nat.pow 2 64 + lo.toNat⟩

/-! ### Reading back the printed forms -/

theorem hexValue?_hexDigit {d : Nat} (small : d < 16) : hexValue? (hexDigit d) = some d := by
  revert d
  decide

/-- Reading a hexadecimal digit does not depend on its case. -/
theorem hexValue?_toUpper (c : Char) : hexValue? c.toUpper = hexValue? c := by
  by_cases lower : 'a'.val ≤ c.val ∧ c.val ≤ 'z'.val
  · -- one of the 26 lowercase letters: check each of them
    have letters : ∀ n, n < 123 → 97 ≤ n →
        hexValue? (Char.ofNat n).toUpper = hexValue? (Char.ofNat n) := by decide
    have range : 97 ≤ c.toNat ∧ c.toNat < 123 := by
      simp only [UInt32.le_iff_toNat_le] at lower
      exact ⟨lower.1, Nat.lt_succ_of_le lower.2⟩
    rw [← Char.ofNat_toNat c]
    exact letters _ range.2 range.1
  · delta Char.toUpper
    rw [dif_neg lower]

/-- Capitals of ASCII characters are ASCII. -/
theorem toNat_toUpper_lt {c : Char} (ascii : c.toNat < 128) : c.toUpper.toNat < 128 := by
  by_cases lower : 'a'.val ≤ c.val ∧ c.val ≤ 'z'.val
  · have letters : ∀ n, n < 128 → (Char.ofNat n).toUpper.toNat < 128 := by decide
    rw [← Char.ofNat_toNat c]
    exact letters _ ascii
  · delta Char.toUpper
    rw [dif_neg lower]
    exact ascii

theorem toNat_hexDigit_lt {d : Nat} (small : d < 16) : (hexDigit d).toNat < 128 := by
  revert d
  decide

/-- Reading digits does not depend on their case. -/
theorem ofHexDigits?_map_toUpper (digits : List Char) :
    ofHexDigits? (digits.map Char.toUpper) = ofHexDigits? digits := by
  simp only [ofHexDigits?, List.foldlM_map, hexValue?_toUpper]

/-- Reading the last `k` digits of `n` after the number `acc` already read. -/
theorem foldlM_digits (n k acc : Nat) :
    ((List.range k).reverse.map fun i => hexDigit (n / Nat.pow 16 i % 16)).foldlM
        (fun acc c => (hexValue? c).map fun d => acc * 16 + d) acc =
      some (acc * Nat.pow 16 k + n % Nat.pow 16 k) := by
  induction k generalizing acc with
  | zero =>
    have one : Nat.pow 16 0 = 1 := rfl
    simp only [List.range_zero, List.reverse_nil, List.map_nil, List.foldlM_nil, one, Nat.mul_one,
      Nat.mod_one, Nat.add_zero]
    rfl
  | succ k ih =>
    have digit : hexValue? (hexDigit (n / Nat.pow 16 k % 16)) = some (n / Nat.pow 16 k % 16) :=
      hexValue?_hexDigit (Nat.mod_lt _ (by decide))
    simp only [List.range_succ, List.reverse_append, List.reverse_singleton, List.singleton_append,
      List.map_cons, List.foldlM_cons, digit, Option.map_some, Option.bind_eq_bind,
      Option.bind_some, ih]
    -- the new digit is the top one of the last `k + 1`
    have top : n % Nat.pow 16 (k + 1) = n % Nat.pow 16 k + Nat.pow 16 k * (n / Nat.pow 16 k % 16) := by
      simp only [Nat.pow_eq]
      exact Nat.mod_pow_succ
    have grow : Nat.pow 16 (k + 1) = Nat.pow 16 k * 16 := rfl
    rw [top, grow]
    generalize Nat.pow 16 k = P
    generalize n / P % 16 = D
    generalize n % P = R
    rw [Nat.add_mul, Nat.mul_assoc, Nat.mul_comm 16 P, Nat.mul_comm D P, Nat.add_assoc,
      Nat.add_comm (P * D) R]

/-- The digits of an id read back as its value. -/
theorem ofHexDigits?_hexDigits (u : Uuid) (small : u.value < Nat.pow 16 32) :
    ofHexDigits? u.hexDigits = some u.value := by
  have read := foldlM_digits u.value 32 0
  rw [Nat.zero_mul, Nat.zero_add, Nat.mod_eq_of_lt small] at read
  exact read

theorem ascii_of_mem_hexDigits {u : Uuid} {c : Char} (member : c ∈ u.hexDigits) : c.toNat < 128 := by
  simp only [hexDigits, List.mem_map] at member
  obtain ⟨i, -, rfl⟩ := member
  exact toNat_hexDigit_lt (Nat.mod_lt _ (by decide))

/-- Hyphenated digits read back as the digits. -/
theorem ofHyphenated?_hyphenate {d : List Char} (length : d.length = 32) :
    ofHyphenated? (hyphenate d) = (ofHexDigits? d).map Uuid.mk := by
  have size : (hyphenate d).length = 36 := by simp [hyphenate, length]
  have at8 : (hyphenate d)[8]? = some '-' := by simp [hyphenate, length]
  have at13 : (hyphenate d)[13]? = some '-' := by simp [hyphenate, length]
  have at18 : (hyphenate d)[18]? = some '-' := by simp [hyphenate, length]
  have at23 : (hyphenate d)[23]? = some '-' := by simp [hyphenate, length]
  have digits : (hyphenate d).take 8 ++ ((hyphenate d).drop 9).take 4 ++
      ((hyphenate d).drop 14).take 4 ++ ((hyphenate d).drop 19).take 4 ++ (hyphenate d).drop 24 = d := by
    simp [hyphenate, length, List.drop_append, List.drop_take, List.drop_drop]
    -- each group is followed by the rest of the digits
    rw [show d.drop 20 = (d.drop 16).drop 4 by rw [List.drop_drop], List.take_append_drop,
      show d.drop 16 = (d.drop 12).drop 4 by rw [List.drop_drop], List.take_append_drop,
      show d.drop 12 = (d.drop 8).drop 4 by rw [List.drop_drop], List.take_append_drop,
      List.take_append_drop]
  unfold ofHyphenated?
  rw [if_pos ⟨size, at8, at13, at18, at23⟩, digits]

/-- A text of ASCII characters takes one byte a character. -/
theorem utf8ByteSize_ofList_ascii {cs : List Char} (ascii : ∀ c ∈ cs, c.toNat < 128) :
    (String.ofList cs).utf8ByteSize = cs.length := by
  induction cs with
  | nil => rfl
  | cons c rest ih =>
    have byte : c.utf8Size = 1 := by
      have below := ascii c List.mem_cons_self
      rw [Char.utf8Size_eq_one_iff, UInt32.le_iff_toNat_le]
      exact Nat.le_of_lt_succ below
    rw [String.ofList_cons, String.utf8ByteSize_append, String.utf8ByteSize_singleton, byte,
      ih fun d member => ascii d (List.mem_cons_of_mem c member), List.length_cons, Nat.add_comm]

theorem ascii_of_mem_hyphenate {d : List Char} (ascii : ∀ c ∈ d, c.toNat < 128) {c : Char}
    (member : c ∈ hyphenate d) : c.toNat < 128 := by
  simp only [hyphenate, List.mem_append, List.mem_cons, or_assoc] at member
  rcases member with taken | rfl | taken | rfl | taken | rfl | taken | rfl | dropped
  · exact ascii c (List.mem_of_mem_take taken)
  · decide
  · exact ascii c (List.mem_of_mem_drop (List.mem_of_mem_take taken))
  · decide
  · exact ascii c (List.mem_of_mem_drop (List.mem_of_mem_take taken))
  · decide
  · exact ascii c (List.mem_of_mem_drop (List.mem_of_mem_take taken))
  · decide
  · exact ascii c (List.mem_of_mem_drop dropped)

/-- Capitalising hyphenated digits capitalises the digits. -/
theorem map_toUpper_hyphenate (d : List Char) :
    (hyphenate d).map Char.toUpper = hyphenate (d.map Char.toUpper) := by
  have hyphen : Char.toUpper '-' = '-' := by decide
  simp [hyphenate, List.map_take, List.map_drop, hyphen]

/-- **Every id reads back from each of its printed forms**: the 32 digits alone, and the
hyphenated text in lowercase, in capitals, in braces and as a URN. -/
theorem parse?_forms (u : Uuid) (small : u.value < Nat.pow 2 128) :
    ∀ text ∈ [u.simpleText, u.text, u.upperText, u.bracedText, u.urnText], parse? text = some u := by
  have digits : ofHexDigits? u.hexDigits = some u.value := ofHexDigits?_hexDigits u small
  have length := hexDigits_length u
  have asciiDigits : ∀ c ∈ u.hexDigits, c.toNat < 128 := fun _ member =>
    ascii_of_mem_hexDigits member
  have asciiText : ∀ c ∈ hyphenate u.hexDigits, c.toNat < 128 := fun _ member =>
    ascii_of_mem_hyphenate asciiDigits member
  have hyphenated : ofHyphenated? (hyphenate u.hexDigits) = some u := by
    rw [ofHyphenated?_hyphenate length, digits]
    rfl
  have textSize : (String.ofList (hyphenate u.hexDigits)).utf8ByteSize = 36 := by
    rw [utf8ByteSize_ofList_ascii asciiText]
    simp [hyphenate, length]
  simp only [List.mem_cons, List.not_mem_nil, or_false]
  rintro text (rfl | rfl | rfl | rfl | rfl)
  · -- the 32 digits alone
    have size : u.simpleText.utf8ByteSize = 32 := by
      rw [simpleText, utf8ByteSize_ofList_ascii asciiDigits, length]
    unfold parse?
    rw [size]
    simp [simpleText, length, digits]
  · -- the hyphenated text
    unfold parse? text
    rw [textSize]
    simp [hyphenated]
  · -- in capitals, read as the digits in capitals
    have capitals : u.upperText.toList = hyphenate (u.hexDigits.map Char.toUpper) := by
      rw [upperText, text, String.toList_ofList, String.toList_ofList, map_toUpper_hyphenate]
    have size : u.upperText.utf8ByteSize = 36 := by
      rw [upperText, utf8ByteSize_ofList_ascii]
      · simp [text, hyphenate, length]
      · intro c member
        simp only [text, String.toList_ofList, List.mem_map] at member
        obtain ⟨d, member, rfl⟩ := member
        exact toNat_toUpper_lt (asciiText d member)
    unfold parse?
    rw [size]
    simp only [capitals]
    rw [ofHyphenated?_hyphenate (by rw [List.length_map, length]), ofHexDigits?_map_toUpper,
      digits]
    rfl
  · -- in braces
    have chars : u.bracedText.toList = '\x7b' :: hyphenate u.hexDigits ++ ['\x7d'] := by
      simp [bracedText, text]
    have size : u.bracedText.utf8ByteSize = 38 := by
      rw [bracedText, String.utf8ByteSize_append, String.utf8ByteSize_append, text, textSize]
      rfl
    have last : ('\x7b' :: (hyphenate u.hexDigits ++ ['\x7d'])).getLast? = some '\x7d' := by
      rw [← List.cons_append, List.getLast?_concat]
    unfold parse?
    rw [size]
    simp [chars, last, hyphenated]
  · -- after the URN prefix, whose letters may be in either case
    have chars : u.urnText.toList = "urn:uuid:".toList ++ hyphenate u.hexDigits := by
      simp [urnText, text]
    have size : u.urnText.utf8ByteSize = 45 := by
      rw [urnText, String.utf8ByteSize_append, text, textSize]
      rfl
    have prefixLength : "urn:uuid:".toList.length = 9 := by decide
    have lowered : "urn:uuid:".toList.map Char.toLower = "urn:uuid:".toList := by decide
    unfold parse?
    rw [size]
    simp only [chars, List.take_left' prefixLength, List.drop_left' prefixLength, lowered,
      if_true, hyphenated]

/-- Capitals read as the lowercase digits do. -/
example : parse? "550E8400-E29B-41D4-A716-446655440000" =
    some ⟨0x550e8400e29b41d4a716446655440000⟩ := by
  decide

/-- The `width` bits from bit `k` of a masked word: the mask clears them and the set word
supplies them. -/
theorem bits_of_mask (w mask set k width : Nat)
    (cleared : mask / Nat.pow 2 k % Nat.pow 2 width = 0) :
    ((w &&& mask) ||| set) / Nat.pow 2 k % Nat.pow 2 width = set / Nat.pow 2 k % Nat.pow 2 width := by
  simp only [Nat.pow_eq] at cleared ⊢
  rw [Nat.or_div_two_pow, Nat.or_mod_two_pow, Nat.and_div_two_pow, Nat.and_mod_two_pow, cleared,
    Nat.and_zero, Nat.zero_or]

/-- **A new id is a version 4 id**, whatever the two words: it is below `2^128`, its version
nibble (bits 76 to 79) is `4` and its variant bits (63 and 62) are `10`. -/
theorem ofWords_version (hi lo : UInt64) :
    (ofWords hi lo).value < Nat.pow 2 128 ∧ (ofWords hi lo).value / Nat.pow 2 76 % 16 = 4 ∧
      (ofWords hi lo).value / Nat.pow 2 62 % 4 = 2 := by
  have version : ((hi &&& 0xFFFFFFFFFFFF0FFF) ||| 0x0000000000004000).toNat / Nat.pow 2 12 %
      Nat.pow 2 4 = 4 := by
    rw [UInt64.toNat_or, UInt64.toNat_and, bits_of_mask _ _ _ 12 4 (by decide)]
    decide
  have variant : ((lo &&& 0x3FFFFFFFFFFFFFFF) ||| 0x8000000000000000).toNat / Nat.pow 2 62 %
      Nat.pow 2 2 = 2 := by
    rw [UInt64.toNat_or, UInt64.toNat_and, bits_of_mask _ _ _ 62 2 (by decide)]
    decide
  have hiBelow := ((hi &&& 0xFFFFFFFFFFFF0FFF) ||| 0x0000000000004000).toNat_lt
  have loBelow := ((lo &&& 0x3FFFFFFFFFFFFFFF) ||| 0x8000000000000000).toNat_lt
  unfold ofWords
  simp only [Nat.pow_eq] at version variant hiBelow loBelow ⊢
  omega

end Uuid

/-- A SplitMix64 sequence of words, from which new ids are drawn. -/
structure IdSource where
  state : UInt64
deriving DecidableEq, Repr

namespace IdSource

/-- The fixed start of the sequence. -/
def initial : IdSource := ⟨0x2545F4914F6CDD1D⟩

/-- The next word of the sequence. -/
def nextWord (s : IdSource) : UInt64 × IdSource :=
  let state := s.state + 0x9E3779B97F4A7C15
  let z := (state ^^^ (state >>> 30)) * 0xBF58476D1CE4E5B9
  let z := (z ^^^ (z >>> 27)) * 0x94D049BB133111EB
  (z ^^^ (z >>> 31), ⟨state⟩)

/-- The next id. -/
def nextId (s : IdSource) : Uuid × IdSource :=
  let (hi, s) := s.nextWord
  let (lo, s) := s.nextWord
  (Uuid.ofWords hi lo, s)

end IdSource

end CareerCompass
