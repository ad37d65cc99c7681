/-!
# Decoding UTF-8 bytes

Bytes are read as UTF-8 one character at a time. A first byte announces how many continuation
bytes follow and which range the first of them may take (RFC 3629: after `E0` only `A0–BF`,
after `ED` only `80–9F`, after `F0` only `90–BF`, after `F4` only `80–8F`). A sequence that
breaks off is one broken piece: the first byte and the continuation bytes that were still
acceptable, the longest start of a character that the bytes allow. `decodeLossy` writes a broken
piece as U+FFFD; `decode?` refuses the bytes.

Main statements: `decode?_encode` and `decodeLossy_encode` (the UTF-8 bytes of every text are
read back as that text) and `decodeLossy_of_decode?` (the two decodings agree where the strict one
succeeds).
-/

namespace CareerCompass

namespace Utf8

/-- For a first byte: the number of continuation bytes and the range of the first of them; none
for a byte that cannot start a character. -/
def leadByte (b : Nat) : Option (Nat × Nat × Nat) :=
  if b ≤ 0x7F then some (0, 0x80, 0xBF)
  else if 0xC2 ≤ b ∧ b ≤ 0xDF then some (1, 0x80, 0xBF)
  else if b = 0xE0 then some (2, 0xA0, 0xBF)
  else if 0xE1 ≤ b ∧ b ≤ 0xEC then some (2, 0x80, 0xBF)
  else if b = 0xED then some (2, 0x80, 0x9F)
  else if 0xEE ≤ b ∧ b ≤ 0xEF then some (2, 0x80, 0xBF)
  else if b = 0xF0 then some (3, 0x90, 0xBF)
  else if 0xF1 ≤ b ∧ b ≤ 0xF3 then some (3, 0x80, 0xBF)
  else if b = 0xF4 then some (3, 0x80, 0x8F)
  else none

/-- The value bits a first byte carries when `n` continuation bytes follow. -/
def leadBits (b n : Nat) : Nat :=
  match n with
  | 0 => b
  | 1 => b % 0x20
  | 2 => b % 0x10
  | _ => b % 0x08

/-- Takes up to `n` continuation bytes, the first in `lo..hi` and the others in `80..BF`: how
many were taken, the value with their bits added, and the bytes after them. -/
def takeTails (lo hi : Nat) : Nat → List UInt8 → Nat → Nat × Nat × List UInt8
  | 0, rest, v => (0, v, rest)
  | _ + 1, [], v => (0, v, [])
  | n + 1, b :: rest, v =>
    if lo ≤ b.toNat ∧ b.toNat ≤ hi then
      let (k, v, rest) := takeTails 0x80 0xBF n rest (v * 64 + (b.toNat - 0x80))
      (k + 1, v, rest)
    else (0, v, b :: rest)

/-- What the bytes start with: a character, or a broken piece. -/
inductive Piece where
  | char (c : Char)
  | broken

/-- A piece as a character, U+FFFD for a broken one. -/
def Piece.lossy : Piece → Char
  | .char c => c
  | .broken => '�'

/-- A piece as a character, none for a broken one. -/
def Piece.char? : Piece → Option Char
  | .char c => some c
  | .broken => none

/-- The first piece of the bytes and the bytes after it; none when there are no bytes. -/
def nextPiece : List UInt8 → Option (Piece × List UInt8)
  | [] => none
  | b :: rest =>
    match leadByte b.toNat with
    | none => some (.broken, rest)
    | some (0, _, _) => some (.char (Char.ofNat b.toNat), rest)
    | some (n, lo, hi) =>
      let (k, v, after) := takeTails lo hi n rest (leadBits b.toNat n)
      if k = n then some (.char (Char.ofNat v), after) else some (.broken, after)

/-- The pieces of the bytes; `fuel` is their number at most, and every piece takes a byte. -/
def pieces : Nat → List UInt8 → List Piece
  | 0, _ => []
  | fuel + 1, bytes =>
    match nextPiece bytes with
    | none => []
    | some (p, rest) => p :: pieces fuel rest

/-- Decodes bytes, writing each broken piece as U+FFFD. -/
def decodeLossy (bytes : List UInt8) : String :=
  String.ofList ((pieces bytes.length bytes).map Piece.lossy)

/-- Decodes bytes that are all whole characters; none if some piece is broken. -/
def decode? (bytes : List UInt8) : Option String :=
  ((pieces bytes.length bytes).mapM Piece.char?).map String.ofList

/-- The UTF-8 bytes of a text. -/
def encode (text : String) : List UInt8 := text.toUTF8.toList

/-! ### Reading back encoded text -/

theorem toList_loop_eq (bs : ByteArray) (i : Nat) (r : List UInt8) :
    ByteArray.toList.loop bs i r = r.reverse ++ bs.data.toList.drop i := by
  fun_induction ByteArray.toList.loop bs i r with
  | case1 i r inside ih =>
    have bound : i < bs.data.toList.length := by simpa using inside
    have at_i : bs.get! i = bs.data.toList[i] := by
      simp [ByteArray.get!, inside]
    rw [ih, at_i, List.reverse_cons, List.append_assoc, List.singleton_append,
      ← List.drop_eq_getElem_cons]
  | case2 i r outside =>
    rw [List.drop_eq_nil_of_le (by simpa using outside), List.append_nil]

theorem toList_byteArray (bs : ByteArray) : bs.toList = bs.data.toList := by
  rw [ByteArray.toList, toList_loop_eq]
  simp

/-- The UTF-8 bytes of a text are the bytes of its characters, in order. -/
theorem encode_eq (text : String) : encode text = text.toList.flatMap String.utf8EncodeChar := by
  rw [encode, toList_byteArray, String.toUTF8_eq_toByteArray, ← String.utf8Encode_toList,
    List.utf8Encode, List.toList_data_toByteArray]

/-- The bytes the encoder writes for a character are read back as that character: each range of
code points meets the first byte and continuation ranges that `leadByte` gives it. -/
theorem nextPiece_utf8EncodeChar (c : Char) (rest : List UInt8) :
    nextPiece (String.utf8EncodeChar c ++ rest) = some (.char c, rest) := by
  have valid : c.val.toNat < 0xD800 ∨ (0xDFFF < c.val.toNat ∧ c.val.toNat < 0x110000) := by
    simpa [UInt32.isValidChar, Nat.isValidChar] using c.valid
  have back : Char.ofNat c.val.toNat = c := Char.ofNat_toNat c
  unfold String.utf8EncodeChar
  generalize c.val.toNat = v at valid back ⊢
  subst back
  -- every byte the encoder writes is below 256
  have byte : ∀ n, n < 256 → (UInt8.ofNat n).toNat = n := fun n small =>
    UInt8.toNat_ofNat_of_lt' small
  have tail : ∀ k, (UInt8.ofNat (k % 64 + 128)).toNat = k % 64 + 128 := fun k => byte _ (by omega)
  have lead2 : (UInt8.ofNat (v / 64 % 32 + 192)).toNat = v / 64 % 32 + 192 := byte _ (by omega)
  have lead3 : (UInt8.ofNat (v / 4096 % 16 + 224)).toNat = v / 4096 % 16 + 224 := byte _ (by omega)
  have lead4 : (UInt8.ofNat (v / 262144 % 8 + 240)).toNat = v / 262144 % 8 + 240 :=
    byte _ (by omega)
  by_cases one : v ≤ 0x7f
  · simp [one, nextPiece, leadByte, byte v (by omega)]
  by_cases two : v ≤ 0x7ff
  · simp only [one, two, if_false, if_true, List.cons_append, List.nil_append]
    simp (disch := omega) only [nextPiece, leadByte, tail, lead2, if_pos, if_neg, takeTails, leadBits]
    simp only [if_true, Option.some.injEq, Prod.mk.injEq, Piece.char.injEq, and_true]
    exact congrArg Char.ofNat (by omega)
  by_cases three : v ≤ 0xffff
  · simp only [one, two, three, if_false, if_true, List.cons_append, List.nil_append]
    -- the lead byte decides the range of the next one: E0, E1 to EC, ED (no surrogates), EE and EF
    rcases (by omega : v < 0x1000 ∨ (0x1000 ≤ v ∧ v < 0xD000) ∨ (0xD000 ≤ v ∧ v < 0xD800) ∨
        0xE000 ≤ v) with lead | lead | lead | lead <;>
    · simp (disch := omega) only [nextPiece, leadByte, tail, lead3, if_pos, if_neg, takeTails, leadBits]
      simp only [if_true, Option.some.injEq, Prod.mk.injEq, Piece.char.injEq, and_true]
      exact congrArg Char.ofNat (by omega)
  · simp only [one, two, three, if_false, List.cons_append, List.nil_append]
    -- F0, F1 to F3, F4 (nothing beyond U+10FFFF)
    rcases (by omega : v < 0x40000 ∨ (0x40000 ≤ v ∧ v < 0x100000) ∨ 0x100000 ≤ v) with
      lead | lead | lead <;>
    · simp (disch := omega) only [nextPiece, leadByte, tail, lead4, if_pos, if_neg, takeTails, leadBits]
      simp only [if_true, Option.some.injEq, Prod.mk.injEq, Piece.char.injEq, and_true]
      exact congrArg Char.ofNat (by omega)

theorem length_le_flatMap (cs : List Char) :
    cs.length ≤ (cs.flatMap String.utf8EncodeChar).length := by
  induction cs with
  | nil => simp
  | cons c rest ih =>
    have wide := Char.utf8Size_pos c
    simp only [List.flatMap_cons, List.length_append, String.length_utf8EncodeChar,
      List.length_cons]
    omega

/-- The bytes of characters break into those characters, given a piece of fuel for each. -/
theorem pieces_flatMap (cs : List Char) {fuel : Nat} (enough : cs.length ≤ fuel) :
    pieces fuel (cs.flatMap String.utf8EncodeChar) = cs.map .char := by
  induction cs generalizing fuel with
  | nil =>
    cases fuel <;> rfl
  | cons c rest ih =>
    obtain ⟨fuel, rfl⟩ : ∃ f, fuel = f + 1 := ⟨fuel - 1, by simp at enough; omega⟩
    rw [List.flatMap_cons, pieces, nextPiece_utf8EncodeChar]
    dsimp only
    rw [List.map_cons, ih (by simp at enough; omega)]

/-- **Decoding reads back every encoded text**, whole and with nothing replaced. -/
theorem decode?_encode (text : String) : decode? (encode text) = some text := by
  have whole : (Piece.char? ∘ Piece.char) = fun c => pure (id c) := rfl
  rw [decode?, encode_eq, pieces_flatMap _ (length_le_flatMap _), List.mapM_map, whole,
    List.mapM_pure, List.map_id]
  exact congrArg some (String.ofList_toList)

theorem decodeLossy_encode (text : String) : decodeLossy (encode text) = text := by
  have whole : (Piece.lossy ∘ Piece.char) = id := rfl
  rw [decodeLossy, encode_eq, pieces_flatMap _ (length_le_flatMap _), List.map_map, whole,
    List.map_id, String.ofList_toList]

example : decodeLossy [0x61, 0x62] = "ab" := by
  decide

theorem map_lossy_of_mapM_char? {ps : List Piece} {cs : List Char}
    (whole : ps.mapM Piece.char? = some cs) : ps.map Piece.lossy = cs := by
  induction ps generalizing cs with
  | nil => simpa using whole
  | cons p ps ih =>
    cases p with
    | broken => simp [Piece.char?] at whole
    | char c =>
      obtain ⟨rest, found, rfl⟩ : ∃ rest, ps.mapM Piece.char? = some rest ∧ c :: rest = cs := by
        simpa [Piece.char?, Option.bind_eq_some_iff] using whole
      rw [List.map_cons, ih found, Piece.lossy]

/-- Where the strict decoding succeeds, the lossy one gives the same text. -/
theorem decodeLossy_of_decode? {bytes : List UInt8} {text : String}
    (decoded : decode? bytes = some text) : decodeLossy bytes = text := by
  obtain ⟨cs, whole, rfl⟩ := Option.map_eq_some_iff.1 decoded
  rw [decodeLossy, map_lossy_of_mapM_char? whole]

end Utf8

end CareerCompass
