/-!
# Media types of request bodies

A `Content-Type` value is read as a media type `type/subtype` with optional parameters:

* the value holds visible ASCII characters and tabs only;
* the type is one or more token characters before `/`;
* the subtype is token characters up to the end or to `;`; a `+` after its first character
  starts a suffix (the last `+` counts);
* each parameter after `;` may start with blanks, has a token name, `=`, and a token value or a
  quoted one (a quote right after the opening one is part of the value, and a tab may not stand
  inside the quotes); a parameter without `=` spoils the value.

A body is JSON when the type is `application` and the subtype is `json` or the suffix is `json`,
letters of any case.

Main statements: `parse?_plain` and `parse?_suffix` (the parts of every media type made of
tokens), `parse?_append_params` (well-formed parameters leave the parts as they are) and
`isJson_suffix` (every `application/…+json` announces JSON).
-/

namespace CareerCompass

namespace MediaType

/-- The token characters of HTTP: letters, digits and ``!#$%&'*+-.^_`|~``. -/
def isToken (c : Char) : Bool :=
  c.isAlphanum || "!#$%&\x27*+-.^_\x60|~".toList.contains c

/-- A media type's parts: type, subtype and suffix. -/
structure Parts where
  type : List Char
  subtype : List Char
  suffix : Option (List Char)

/-- Reads the parameters after a `;`: each may start with blanks, then `name=value`. -/
def paramsValid : Nat → List Char → Bool
  | 0, _ => true
  | _ + 1, [] => true
  | fuel + 1, ' ' :: rest => paramsValid fuel rest
  | fuel + 1, cs =>
    let name := cs.takeWhile isToken
    match cs.drop name.length with
    | '=' :: rest =>
      if name.isEmpty then false
      else
        match rest with
        | '"' :: quoted =>
          -- a quote right after the opening one belongs to the value
          let body := match quoted with
            | '"' :: more => '"' :: more.takeWhile (· != '"')
            | more => more.takeWhile (· != '"')
          match quoted.drop body.length with
          | '"' :: after =>
            if body.contains '\t' then false
            else
              match after.dropWhile (· == ' ') with
              | [] => true
              | ';' :: next => paramsValid fuel next
              | _ => false
          | _ => false
        | _ =>
          let value := rest.takeWhile isToken
          match rest.drop value.length with
          | [] => true
          | ';' :: next => !value.isEmpty && paramsValid fuel next
          | _ => false
    | _ => false

/-- Reads a media type; none when the text is not one. -/
def parse? (text : String) : Option Parts :=
  let cs := text.toList
  if !cs.all (fun c => c = '\t' ∨ (0x20 ≤ c.toNat ∧ c.toNat ≤ 0x7E)) then none
  else
    let type := cs.takeWhile isToken
    match cs.drop type.length with
    | '/' :: rest =>
      if type.isEmpty then none
      else
        let sub := rest.takeWhile isToken
        let tail := rest.drop sub.length
        let ok := match tail with
          | [] => true
          | ';' :: params => !sub.isEmpty && paramsValid (params.length + 1) params
          | _ => false
        if !ok then none
        else
          -- the last `+` after the first character of the subtype starts the suffix
          let plusAt := ((List.range sub.length).filter fun i => 0 < i ∧ sub[i]? = some '+').getLast?
          match plusAt with
          | some i => some ⟨type, sub.take i, some (sub.drop (i + 1))⟩
          | none => some ⟨type, sub, none⟩
    | _ => none

/-- Whether two names are equal without regard to ASCII case. -/
def sameName (a : List Char) (b : String) : Bool :=
  a.map Char.toLower == b.toList

/-- Whether a `Content-Type` value announces JSON. -/
def isJson (text : String) : Bool :=
  match parse? text with
  | some p => sameName p.type "application" &&
      (sameName p.subtype "json" || p.suffix.any (sameName · "json"))
  | none => false

/-! ### Media types made of tokens -/

/-- Token characters are visible ASCII. -/
theorem visible_of_isToken {c : Char} (token : isToken c = true) :
    0x20 ≤ c.toNat ∧ c.toNat ≤ 0x7E := by
  -- the character classes are unfolded by delta: their equation lemmas belong to the library
  delta isToken Char.isAlphanum Char.isAlpha Char.isUpper Char.isLower Char.isDigit at token
  simp only [Bool.or_eq_true, Bool.and_eq_true, decide_eq_true_eq, List.contains_iff_mem] at token
  rcases token with letterOrDigit | punctuation
  · have code : c.toNat = c.val.toNat := rfl
    simp only [ge_iff_le, UInt32.le_iff_toNat_le] at letterOrDigit
    have A : 'A'.val.toNat = 65 := rfl
    have Z : 'Z'.val.toNat = 90 := rfl
    have a : 'a'.val.toNat = 97 := rfl
    have z : 'z'.val.toNat = 122 := rfl
    have zero : '0'.val.toNat = 48 := rfl
    have nine : '9'.val.toNat = 57 := rfl
    omega
  · have marks : ∀ d ∈ "!#$%&\x27*+-.^_\x60|~".toList, 0x20 ≤ d.toNat ∧ d.toNat ≤ 0x7E := by
      simp
    exact marks c punctuation

theorem takeWhile_isToken_of_tokens {xs : List Char} (tokens : ∀ c ∈ xs, isToken c = true) :
    xs.takeWhile isToken = xs := by
  have whole : (xs ++ []).takeWhile isToken = xs ++ [].takeWhile isToken :=
    List.takeWhile_append_of_pos tokens
  simpa using whole

/-- A run of token characters ends at the first character that is not one. -/
theorem takeWhile_isToken_append {xs ys : List Char} {c : Char}
    (tokens : ∀ c ∈ xs, isToken c = true) (stop : isToken c = false) :
    (xs ++ c :: ys).takeWhile isToken = xs := by
  rw [List.takeWhile_append_of_pos tokens, List.takeWhile_cons_of_neg (by simp [stop]),
    List.append_nil]

/-- The characters of a media type made of tokens pass the check for visible ASCII. -/
theorem all_visible {type sub : List Char} (typeTokens : ∀ c ∈ type, isToken c = true)
    (subTokens : ∀ c ∈ sub, isToken c = true) :
    (type ++ '/' :: sub).all
      (fun c => decide (c = '\t' ∨ (0x20 ≤ c.toNat ∧ c.toNat ≤ 0x7E))) = true := by
  refine List.all_eq_true.2 fun c listed => decide_eq_true ?_
  simp only [List.mem_append, List.mem_cons] at listed
  rcases listed with inType | rfl | inSub
  · exact .inr (visible_of_isToken (typeTokens c inType))
  · decide
  · exact .inr (visible_of_isToken (subTokens c inSub))

theorem parse?_append_params (type sub params : List Char)
    (typeTokens : ∀ c ∈ type, isToken c = true) (named : type ≠ [])
    (subTokens : ∀ c ∈ sub, isToken c = true) (subNamed : sub ≠ [])
    (visible : ∀ c ∈ params, c = '\t' ∨ (0x20 ≤ c.toNat ∧ c.toNat ≤ 0x7E))
    (valid : paramsValid (params.length + 1) params = true) :
    parse? (String.ofList (type ++ '/' :: sub ++ ';' :: params)) =
      parse? (String.ofList (type ++ '/' :: sub)) := by
  have typeRun : ∀ tail, (type ++ '/' :: tail).takeWhile isToken = type := fun _ =>
    takeWhile_isToken_append typeTokens (by decide)
  have subRun : (sub ++ ';' :: params).takeWhile isToken = sub :=
    takeWhile_isToken_append subTokens (by decide)
  have checked := all_visible typeTokens subTokens
  have checkedParams : (type ++ '/' :: (sub ++ ';' :: params)).all
      (fun c => decide (c = '\t' ∨ (0x20 ≤ c.toNat ∧ c.toNat ≤ 0x7E))) = true := by
    rw [← List.cons_append, ← List.append_assoc, List.all_append, checked, List.all_cons,
      List.all_eq_true.2 fun c listed => decide_eq_true (visible c listed)]
    rfl
  simp only [parse?, String.toList_ofList, typeRun, subRun, takeWhile_isToken_of_tokens subTokens,
    List.drop_left, List.drop_length, List.append_assoc, List.cons_append, checked, checkedParams,
    List.isEmpty_eq_false_iff.2 named, List.isEmpty_eq_false_iff.2 subNamed, valid]
  rfl

/-- The last `+` after the first character of a subtype with a suffix is the one before the
suffix. -/
theorem lastPlus_suffix (sub suffix : List Char) (named : sub ≠ []) (plain : '+' ∉ suffix) :
    ((List.range (sub ++ '+' :: suffix).length).filter
      fun i => decide (0 < i ∧ (sub ++ '+' :: suffix)[i]? = some '+')).getLast? =
      some sub.length := by
  have positions : List.range (sub ++ '+' :: suffix).length =
      List.range sub.length ++ sub.length :: (List.range suffix.length).map (sub.length + 1 + ·) := by
    rw [List.length_append, List.length_cons, Nat.add_comm suffix.length, ← Nat.add_assoc,
      List.range_add, List.range_succ]
    simp
  have after : ∀ j ∈ (List.range suffix.length).map (sub.length + 1 + ·),
      ¬ decide (0 < j ∧ (sub ++ '+' :: suffix)[j]? = some '+') = true := by
    intro j listed
    obtain ⟨k, -, rfl⟩ := List.mem_map.1 listed
    have index : sub.length + 1 + k - sub.length = k + 1 := by omega
    rw [List.getElem?_append_right (by omega), index, List.getElem?_cons_succ]
    simp only [decide_eq_true_eq, not_and]
    exact fun _ found => plain (List.mem_of_getElem? found)
  have at_plus : decide (0 < sub.length ∧ (sub ++ '+' :: suffix)[sub.length]? = some '+') = true := by
    simp [List.length_pos_iff.2 named]
  simp only [positions, List.filter_append, List.filter_cons, at_plus, if_true,
    List.filter_eq_nil_iff.2 after, List.getLast?_append, List.getLast?_singleton]
  rfl

theorem lastPlus_none (sub : List Char) (plain : '+' ∉ sub.drop 1) :
    (List.range sub.length).filter (fun i => decide (0 < i ∧ sub[i]? = some '+')) = [] := by
  refine List.filter_eq_nil_iff.2 fun i _ => ?_
  simp only [decide_eq_true_eq, not_and]
  intro inner found
  have shifted : (sub.drop 1)[i - 1]? = some '+' := by
    rw [List.getElem?_drop, Nat.add_sub_cancel' inner]
    exact found
  exact plain (List.mem_of_getElem? shifted)

/-- A media type of tokens without a `+` after the first character of its subtype has no
suffix. -/
theorem parse?_plain (type sub : List Char) (typeTokens : ∀ c ∈ type, isToken c = true)
    (named : type ≠ []) (subTokens : ∀ c ∈ sub, isToken c = true) (plain : '+' ∉ sub.drop 1) :
    parse? (String.ofList (type ++ '/' :: sub)) = some ⟨type, sub, none⟩ := by
  have typeRun : (type ++ '/' :: sub).takeWhile isToken = type :=
    takeWhile_isToken_append typeTokens (by decide)
  simp only [parse?, String.toList_ofList, typeRun, takeWhile_isToken_of_tokens subTokens,
    List.drop_left, List.drop_length, all_visible typeTokens subTokens,
    List.isEmpty_eq_false_iff.2 named, lastPlus_none sub plain]
  rfl

/-- A media type of tokens whose subtype has a `+` after its first character: the last one
starts the suffix. -/
theorem parse?_suffix (type sub suffix : List Char) (typeTokens : ∀ c ∈ type, isToken c = true)
    (named : type ≠ []) (subTokens : ∀ c ∈ sub, isToken c = true) (subNamed : sub ≠ [])
    (suffixTokens : ∀ c ∈ suffix, isToken c = true) (plain : '+' ∉ suffix) :
    parse? (String.ofList (type ++ '/' :: sub ++ '+' :: suffix)) = some ⟨type, sub, some suffix⟩ := by
  have wholeTokens : ∀ c ∈ sub ++ '+' :: suffix, isToken c = true := by
    intro c listed
    simp only [List.mem_append, List.mem_cons] at listed
    rcases listed with inSub | rfl | inSuffix
    · exact subTokens c inSub
    · decide
    · exact suffixTokens c inSuffix
  have typeRun : (type ++ '/' :: (sub ++ '+' :: suffix)).takeWhile isToken = type :=
    takeWhile_isToken_append typeTokens (by decide)
  simp only [parse?, String.toList_ofList, List.append_assoc, List.cons_append,
    typeRun, takeWhile_isToken_of_tokens wholeTokens,
    List.drop_left, List.drop_length, all_visible typeTokens wholeTokens,
    List.isEmpty_eq_false_iff.2 named, lastPlus_suffix sub suffix subNamed plain]
  simp

/-- Every subtype with the suffix `+json` under `application` announces JSON. -/
theorem isJson_suffix (sub : List Char) (named : sub ≠ []) (tokens : ∀ c ∈ sub, isToken c = true) :
    isJson (String.ofList ("application".toList ++ '/' :: sub ++ '+' :: "json".toList)) = true := by
  have application : sameName "application".toList "application" = true := by simp [sameName]
  have json : sameName "json".toList "json" = true := by simp [sameName]
  rw [isJson, parse?_suffix _ _ _ (by simp [isToken]) (by simp) tokens named (by simp [isToken])
    (by simp)]
  simp only [Option.any_some, application, json, Bool.or_true, Bool.and_self]

example : isJson "application/vnd.api+json; charset=utf-8" = true := by
  decide

end MediaType

end CareerCompass
