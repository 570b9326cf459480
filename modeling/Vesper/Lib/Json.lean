import Vesper.Lib.Unicode

/-!
# JSON texts

`JSON.stringify` and `JSON.parse` on UTF-16 strings. A value may have leaves of a type `β` for objects
without fields of their own, such as buffers, which are printed as `{}`. `parse_stringify`: a value
without such leaves and without numbers comes back unchanged.
-/

namespace Json
open Unicode

/-- A value. A number is known by its literal. -/
inductive Value (β : Type) where
  | leaf (b : β)
  | null
  | bool (b : Bool)
  | num (literal : Utf16)
  | str (s : Utf16)
  | arr (xs : List (Value β))
  | obj (fields : List (Utf16 × Value β))

/-- The code units of an ASCII text. -/
def units (s : String) : Utf16 := s.toList.map fun c => .ofNat c.toNat

/-! ## Printing -/

def hexDigit (n : Nat) : UInt16 := if n < 10 then .ofNat (0x30 + n) else .ofNat (0x57 + n)

/-- `\uXXXX` -/
def unicodeEscape (u : UInt16) : Utf16 :=
  [0x5C, 0x75, hexDigit (u.toNat / 0x1000), hexDigit (u.toNat / 0x100 % 0x10),
    hexDigit (u.toNat / 0x10 % 0x10), hexDigit (u.toNat % 0x10)]

/-- The letter of a short escape. -/
def shortEscape (u : UInt16) : Option UInt16 :=
  if u = 0x08 then some 0x62
  else if u = 0x09 then some 0x74
  else if u = 0x0A then some 0x6E
  else if u = 0x0C then some 0x66
  else if u = 0x0D then some 0x72
  else if u = 0x22 then some 0x22
  else if u = 0x5C then some 0x5C
  else none

/-- A unit that is no part of a pair. -/
def quoteUnit (u : UInt16) : Utf16 :=
  match shortEscape u with
  | some letter => [0x5C, letter]
  | none => if u < 0x20 ∨ isHigh u ∨ isLow u then unicodeEscape u else [u]

def quoteBody : Utf16 → Utf16
  | [] => []
  | [u] => quoteUnit u
  | u :: v :: rest =>
    if isHigh u ∧ isLow v then u :: v :: quoteBody rest else quoteUnit u ++ quoteBody (v :: rest)

def quote (s : Utf16) : Utf16 := 0x22 :: quoteBody s ++ [0x22]

section
variable {β : Type}

mutual
/-- `JSON.stringify` -/
def stringify : Value β → Utf16
  | .leaf _ => [0x7B, 0x7D]
  | .null => [0x6E, 0x75, 0x6C, 0x6C]
  | .bool true => [0x74, 0x72, 0x75, 0x65]
  | .bool false => [0x66, 0x61, 0x6C, 0x73, 0x65]
  | .num literal => literal
  | .str s => quote s
  | .arr [] => [0x5B, 0x5D]
  | .arr (x :: xs) => 0x5B :: stringify x ++ elements xs
  | .obj [] => [0x7B, 0x7D]
  | .obj ((k, v) :: fields) => 0x7B :: quote k ++ 0x3A :: stringify v ++ members fields

/-- The elements after the first one, and the closing bracket. -/
def elements : List (Value β) → Utf16
  | [] => [0x5D]
  | x :: xs => 0x2C :: stringify x ++ elements xs

/-- The members after the first one, and the closing brace. -/
def members : List (Utf16 × Value β) → Utf16
  | [] => [0x7D]
  | (k, v) :: fields => 0x2C :: quote k ++ 0x3A :: stringify v ++ members fields
end

/-! ## Parsing -/

def isSpace (u : UInt16) : Bool := u = 0x20 ∨ u = 0x09 ∨ u = 0x0A ∨ u = 0x0D

def skipSpace (s : Utf16) : Utf16 := s.dropWhile isSpace

def hexValue (u : UInt16) : Option Nat :=
  if 0x30 ≤ u.toNat ∧ u.toNat ≤ 0x39 then some (u.toNat - 0x30)
  else if 0x41 ≤ u.toNat ∧ u.toNat ≤ 0x46 then some (u.toNat - 0x37)
  else if 0x61 ≤ u.toNat ∧ u.toNat ≤ 0x66 then some (u.toNat - 0x57)
  else none

def hexUnit (a b c d : UInt16) : Option UInt16 := do
  return .ofNat ((((← hexValue a) * 0x10 + (← hexValue b)) * 0x10 + (← hexValue c)) * 0x10 + (← hexValue d))

/-- What the letter of a short escape stands for. -/
def unescape (letter : UInt16) : Option UInt16 :=
  if letter = 0x62 then some 0x08
  else if letter = 0x74 then some 0x09
  else if letter = 0x6E then some 0x0A
  else if letter = 0x66 then some 0x0C
  else if letter = 0x72 then some 0x0D
  else if letter = 0x22 ∨ letter = 0x5C ∨ letter = 0x2F then some letter
  else none

/-- A string after its opening quote, and what follows it. -/
def parseString : Utf16 → Option (Utf16 × Utf16)
  | [] => none
  | u :: rest =>
    if u = 0x22 then some ([], rest)
    else if u = 0x5C then
      match rest with
      | [] => none
      | letter :: rest =>
        if letter = 0x75 then
          match rest with
          | a :: b :: c :: d :: rest => do
            let unit ← hexUnit a b c d
            let (s, rest) ← parseString rest
            return (unit :: s, rest)
          | _ => none
        else do
          let unit ← unescape letter
          let (s, rest) ← parseString rest
          return (unit :: s, rest)
    else if u < 0x20 then none
    else do
      let (s, rest) ← parseString rest
      return (u :: s, rest)

def isDigit (u : UInt16) : Bool := 0x30 ≤ u.toNat ∧ u.toNat ≤ 0x39

/-- At least one digit. -/
def parseDigits (s : Utf16) : Option (Utf16 × Utf16) :=
  match s.span isDigit with
  | ([], _) => none
  | (digits, rest) => some (digits, rest)

def parseFraction : Utf16 → Option (Utf16 × Utf16)
  | 0x2E :: rest => do
    let (digits, rest) ← parseDigits rest
    return (0x2E :: digits, rest)
  | s => some ([], s)

def parseExponent : Utf16 → Option (Utf16 × Utf16)
  | e :: rest =>
    if e = 0x45 ∨ e = 0x65 then do
      let (sign, rest) : Utf16 × Utf16 := match rest with
        | 0x2B :: rest => ([0x2B], rest)
        | 0x2D :: rest => ([0x2D], rest)
        | rest => ([], rest)
      let (digits, rest) ← parseDigits rest
      return (e :: sign ++ digits, rest)
    else some ([], e :: rest)
  | [] => some ([], [])

/-- A zero stands alone before the point. -/
def parseInteger : Utf16 → Option (Utf16 × Utf16)
  | 0x30 :: rest => some ([0x30], rest)
  | s => parseDigits s

def parseNumber (s : Utf16) : Option (Utf16 × Utf16) := do
  let (sign, s) : Utf16 × Utf16 := match s with
    | 0x2D :: s => ([0x2D], s)
    | s => ([], s)
  let (integer, s) ← parseInteger s
  let (fraction, s) ← parseFraction s
  let (exponent, s) ← parseExponent s
  return (sign ++ integer ++ fraction ++ exponent, s)

/-- A later member of the same name takes the place of the earlier one. -/
def setField (fields : List (Utf16 × Value β)) (k : Utf16) (v : Value β) : List (Utf16 × Value β) :=
  if fields.any (·.1 = k) then fields.map fun field => if field.1 = k then (k, v) else field
  else fields ++ [(k, v)]

mutual
/-- A value, and what follows it. -/
def parseValue : Nat → Utf16 → Option (Value β × Utf16)
  | 0, _ => none
  | n + 1, s =>
    match skipSpace s with
    | 0x22 :: rest => (parseString rest).map fun (s, rest) => (.str s, rest)
    | 0x5B :: rest =>
      match skipSpace rest with
      | 0x5D :: rest => some (.arr [], rest)
      | rest => (parseElements n [] rest).map fun (xs, rest) => (.arr xs, rest)
    | 0x7B :: rest =>
      match skipSpace rest with
      | 0x7D :: rest => some (.obj [], rest)
      | rest => (parseMembers n [] rest).map fun (fields, rest) => (.obj fields, rest)
    | 0x6E :: 0x75 :: 0x6C :: 0x6C :: rest => some (.null, rest)
    | 0x74 :: 0x72 :: 0x75 :: 0x65 :: rest => some (.bool true, rest)
    | 0x66 :: 0x61 :: 0x6C :: 0x73 :: 0x65 :: rest => some (.bool false, rest)
    | s => (parseNumber s).map fun (literal, rest) => (.num literal, rest)

/-- Elements up to the closing bracket, after those read. -/
def parseElements : Nat → List (Value β) → Utf16 → Option (List (Value β) × Utf16)
  | 0, _, _ => none
  | n + 1, xs, s => do
    let (x, s) ← parseValue n s
    match skipSpace s with
    | 0x2C :: rest => parseElements n (xs ++ [x]) rest
    | 0x5D :: rest => return (xs ++ [x], rest)
    | _ => none

/-- Members up to the closing brace, after those read. -/
def parseMembers : Nat → List (Utf16 × Value β) → Utf16 → Option (List (Utf16 × Value β) × Utf16)
  | 0, _, _ => none
  | n + 1, fields, s =>
    match skipSpace s with
    | 0x22 :: rest => do
      let (k, rest) ← parseString rest
      match skipSpace rest with
      | 0x3A :: rest => do
        let (v, rest) ← parseValue n rest
        match skipSpace rest with
        | 0x2C :: rest => parseMembers n (setField fields k v) rest
        | 0x7D :: rest => return (setField fields k v, rest)
        | _ => none
      | _ => none
    | _ => none
end

/-- `JSON.parse`, where `none` is a `SyntaxError`. Each step of the recursion takes a unit of the text. -/
def parse (s : Utf16) : Option (Value β) :=
  match parseValue (s.length + 1) s with
  | some (v, rest) => if skipSpace rest = [] then some v else none
  | none => none

/-! ## What is printed is well formed -/

theorem ascii_hexDigit : ∀ n < 0x10, isHigh (hexDigit n) = false ∧ isLow (hexDigit n) = false := by decide

theorem wellFormed_unicodeEscape (u : UInt16) : WellFormed (unicodeEscape u) := by
  have := toNat_lt u
  have h₃ := ascii_hexDigit (u.toNat / 0x1000) (by omega)
  have h₂ := ascii_hexDigit (u.toNat / 0x100 % 0x10) (by omega)
  have h₁ := ascii_hexDigit (u.toNat / 0x10 % 0x10) (by omega)
  have h₀ := ascii_hexDigit (u.toNat % 0x10) (by omega)
  exact wellFormed_cons (by decide) (by decide) <| wellFormed_cons (by decide) (by decide) <|
    wellFormed_cons h₃.1 h₃.2 <| wellFormed_cons h₂.1 h₂.2 <| wellFormed_cons h₁.1 h₁.2 h₀

theorem ascii_shortEscape {u letter : UInt16} (h : shortEscape u = some letter) :
    isHigh letter = false ∧ isLow letter = false := by
  have hletter : letter ∈ [0x62, 0x74, 0x6E, 0x66, 0x72, 0x22, 0x5C] := by
    simp only [shortEscape] at h
    grind
  have hall : ∀ l ∈ ([0x62, 0x74, 0x6E, 0x66, 0x72, 0x22, 0x5C] : List UInt16),
      isHigh l = false ∧ isLow l = false := by simp [isHigh, isLow]
  exact hall letter hletter

theorem wellFormed_quoteUnit (u : UInt16) : WellFormed (quoteUnit u) := by
  unfold quoteUnit
  split
  · next letter h => exact wellFormed_cons (by decide) (by decide) (ascii_shortEscape h)
  split
  · exact wellFormed_unicodeEscape u
  · next h =>
    simp only [not_or, Bool.not_eq_true] at h
    exact h.2

/-- A surrogate without a partner is escaped. -/
theorem wellFormed_quoteBody (s : Utf16) : WellFormed (quoteBody s) := by
  induction s using quoteBody.induct with
  | case1 => trivial
  | case2 u => exact wellFormed_quoteUnit u
  | case3 u v s hpair ih =>
    rw [quoteBody, if_pos hpair, WellFormed, if_pos hpair]
    exact ih
  | case4 u v s hpair ih =>
    rw [quoteBody, if_neg hpair]
    exact wellFormed_append (wellFormed_quoteUnit u) ih

theorem wellFormed_quote (s : Utf16) : WellFormed (quote s) :=
  wellFormed_cons (by decide) (by decide) (wellFormed_append (wellFormed_quoteBody s) (by decide))

/-! ## What is printed is read back -/

theorem hexValue_hexDigit : ∀ n < 0x10, hexValue (hexDigit n) = some n := by decide

theorem hexUnit_unicodeEscape (u : UInt16) :
    hexUnit (hexDigit (u.toNat / 0x1000)) (hexDigit (u.toNat / 0x100 % 0x10))
      (hexDigit (u.toNat / 0x10 % 0x10)) (hexDigit (u.toNat % 0x10)) = some u := by
  have hu := toNat_lt u
  have hvalue : (((u.toNat / 0x1000) * 0x10 + u.toNat / 0x100 % 0x10) * 0x10 + u.toNat / 0x10 % 0x10) * 0x10 +
      u.toNat % 0x10 = u.toNat := by omega
  rw [hexUnit, hexValue_hexDigit _ (by omega), hexValue_hexDigit _ (by omega),
    hexValue_hexDigit _ (by omega), hexValue_hexDigit _ (by omega)]
  show some (UInt16.ofNat _) = some u
  rw [hvalue, UInt16.ofNat_toNat]

theorem unescape_shortEscape {u letter : UInt16} (h : shortEscape u = some letter) :
    letter ≠ 0x75 ∧ unescape letter = some u := by
  unfold shortEscape at h
  split at h
  · next hu => cases h; subst hu; decide
  split at h
  · next hu => cases h; subst hu; decide
  split at h
  · next hu => cases h; subst hu; decide
  split at h
  · next hu => cases h; subst hu; decide
  split at h
  · next hu => cases h; subst hu; decide
  split at h
  · next hu => cases h; subst hu; decide
  split at h
  · next hu => cases h; subst hu; decide
  · cases h

section
variable {u letter a b c d : UInt16} {rest : Utf16}

theorem parseString_short (h75 : letter ≠ 0x75) (h : unescape letter = some u) :
    parseString (0x5C :: letter :: rest) = (parseString rest).map fun (s, r) => (u :: s, r) := by
  rw [parseString.eq_def]
  dsimp only
  rw [if_neg (by decide), if_pos rfl, if_neg h75, h]
  cases parseString rest <;> rfl

theorem parseString_unicode (h : hexUnit a b c d = some u) :
    parseString (0x5C :: 0x75 :: a :: b :: c :: d :: rest) =
      (parseString rest).map fun (s, r) => (u :: s, r) := by
  rw [parseString.eq_def]
  dsimp only
  rw [if_neg (by decide), if_pos rfl, if_pos rfl, h]
  cases parseString rest <;> rfl

theorem parseString_plain (h22 : u ≠ 0x22) (h5C : u ≠ 0x5C) (h20 : ¬ u < 0x20) :
    parseString (u :: rest) = (parseString rest).map fun (s, r) => (u :: s, r) := by
  rw [parseString.eq_def]
  dsimp only
  rw [if_neg h22, if_neg h5C, if_neg h20]
  cases parseString rest <;> rfl

theorem parseString_end : parseString (0x22 :: rest) = some ([], rest) := by
  rw [parseString.eq_def]
  dsimp only
  rw [if_pos rfl]

end

theorem plain_of_shortEscape {u : UInt16} (h : shortEscape u = none) : u ≠ 0x22 ∧ u ≠ 0x5C := by
  constructor <;> rintro rfl <;> cases h

/-- A unit is read back from however it is printed. -/
theorem parseString_quoteUnit (u : UInt16) (rest : Utf16) :
    parseString (quoteUnit u ++ rest) = (parseString rest).map fun (s, r) => (u :: s, r) := by
  unfold quoteUnit
  cases hshort : shortEscape u with
  | some letter =>
    obtain ⟨h75, hunescape⟩ := unescape_shortEscape hshort
    exact parseString_short h75 hunescape
  | none =>
    obtain ⟨h22, h5C⟩ := plain_of_shortEscape hshort
    dsimp only
    split
    · exact parseString_unicode (hexUnit_unicodeEscape u)
    · next h => exact parseString_plain h22 h5C fun h20 => h (.inl h20)

theorem parseString_surrogate {u : UInt16} (h : isHigh u ∨ isLow u) (rest : Utf16) :
    parseString (u :: rest) = (parseString rest).map fun (s, r) => (u :: s, r) := by
  have hge : 0xD800 ≤ u.toNat := by
    rcases h with h | h <;> simp only [isHigh, isLow, decide_eq_true_eq] at h <;> omega
  refine parseString_plain ?_ ?_ ?_
  · rintro rfl
    exact absurd hge (by decide)
  · rintro rfl
    exact absurd hge (by decide)
  · intro h20
    rw [UInt16.lt_iff_toNat_lt] at h20
    exact absurd (Nat.lt_of_le_of_lt hge h20) (by decide)

/-- **Strings**: what is quoted is read back. -/
theorem parseString_quoteBody (s rest : Utf16) : parseString (quoteBody s ++ 0x22 :: rest) = some (s, rest) := by
  induction s using quoteBody.induct with
  | case1 => exact parseString_end
  | case2 u =>
    rw [quoteBody, parseString_quoteUnit, parseString_end]
    rfl
  | case3 u v s hpair ih =>
    rw [quoteBody, if_pos hpair, List.cons_append, List.cons_append, parseString_surrogate (.inl hpair.1),
      parseString_surrogate (.inr hpair.2), ih]
    rfl
  | case4 u v s hpair ih =>
    rw [quoteBody, if_neg hpair, List.append_assoc, parseString_quoteUnit, ih]
    rfl

mutual
/-- No leaf, no number, and no two members of one name. -/
def Plain : Value β → Prop
  | .leaf _ | .num _ => False
  | .null | .bool _ | .str _ => True
  | .arr xs => PlainElements xs
  | .obj fields => PlainMembers fields ∧ (fields.map Prod.fst).Nodup

def PlainElements : List (Value β) → Prop
  | [] => True
  | x :: xs => Plain x ∧ PlainElements xs

def PlainMembers : List (Utf16 × Value β) → Prop
  | [] => True
  | (_, v) :: fields => Plain v ∧ PlainMembers fields
end

/-- A text that begins with none of the units that are skipped. -/
theorem skipSpace_cons {u : UInt16} (h : isSpace u = false) (rest : Utf16) :
    skipSpace (u :: rest) = u :: rest := by
  rw [skipSpace, List.dropWhile_cons_of_neg (by simp [h])]

/-- A text begins with a unit of its own. -/
theorem stringify_cons {v : Value β} (h : Plain v) :
    ∃ u rest, stringify v = u :: rest ∧ isSpace u = false ∧ u ≠ 0x5D ∧ u ≠ bom := by
  cases v with
  | leaf | num => cases h
  | null => exact ⟨_, _, rfl, by decide, by decide, by decide⟩
  | bool b => cases b <;> exact ⟨_, _, rfl, by decide, by decide, by decide⟩
  | str s => exact ⟨_, _, rfl, by decide, by decide, by decide⟩
  | arr xs =>
    cases xs <;> rw [stringify] <;> exact ⟨_, _, rfl, by decide, by decide, by decide⟩
  | obj fields =>
    rcases fields with _ | ⟨⟨k, v⟩, fields⟩ <;> rw [stringify] <;> exact ⟨_, _, rfl, by decide, by decide, by decide⟩

section
variable {n : Nat} {r s : Utf16} {x : Value β} {xs acc : List (Value β)} {k : Utf16}
  {fields past : List (Utf16 × Value β)}

theorem parseValue_str : parseValue (n + 1) (quote k ++ r) = some (Value.str (β := β) k, r) := by
  rw [parseValue.eq_def]
  simp [quote, skipSpace_cons (u := 0x22) (by decide), parseString_quoteBody]

theorem parseValue_arr {u : UInt16} (hspace : isSpace u = false) (hu : u ≠ 0x5D)
    (h : parseElements n [] (u :: s) = some (xs, r)) :
    parseValue (n + 1) (0x5B :: u :: s) = some (.arr xs, r) := by
  rw [parseValue.eq_def]
  simp [skipSpace_cons (u := 0x5B) (by decide), skipSpace_cons hspace, hu, h]

theorem parseValue_obj (h : parseMembers n [] (0x22 :: s) = some (fields, r)) :
    parseValue (n + 1) (0x7B :: 0x22 :: s) = some (.obj fields, r) := by
  rw [parseValue.eq_def]
  simp [skipSpace_cons (u := 0x7B) (by decide), skipSpace_cons (u := 0x22) (by decide), h]

theorem parseElements_last (h : parseValue n s = some (x, 0x5D :: r)) :
    parseElements (n + 1) acc s = some (acc ++ [x], r) := by
  rw [parseElements.eq_def]
  simp [h, skipSpace_cons (u := 0x5D) (by decide)]

theorem parseElements_more {s' : Utf16} (h : parseValue n s = some (x, 0x2C :: s')) :
    parseElements (n + 1) acc s = parseElements n (acc ++ [x]) s' := by
  rw [parseElements.eq_def]
  simp [h, skipSpace_cons (u := 0x2C) (by decide)]

theorem parseMembers_last (h : parseValue n s = some (x, 0x7D :: r)) :
    parseMembers (n + 1) past (quote k ++ 0x3A :: s) = some (setField past k x, r) := by
  rw [parseMembers.eq_def]
  simp [quote, skipSpace_cons (u := 0x22) (by decide), parseString_quoteBody,
    skipSpace_cons (u := 0x3A) (by decide), h, skipSpace_cons (u := 0x7D) (by decide)]

theorem parseMembers_more {s' : Utf16} (h : parseValue n s = some (x, 0x2C :: s')) :
    parseMembers (n + 1) past (quote k ++ 0x3A :: s) = parseMembers n (setField past k x) s' := by
  rw [parseMembers.eq_def]
  simp [quote, skipSpace_cons (u := 0x22) (by decide), parseString_quoteBody,
    skipSpace_cons (u := 0x3A) (by decide), h, skipSpace_cons (u := 0x2C) (by decide)]

theorem setField_new (h : k ∉ past.map Prod.fst) : setField past k x = past ++ [(k, x)] := by
  rw [setField, if_neg]
  simpa using h

end

mutual
theorem wellFormed_stringify : ∀ v : Value β, Plain v → WellFormed (stringify v)
  | .null, _ => by
    rw [stringify]
    decide
  | .bool true, _ => by
    rw [stringify]
    decide
  | .bool false, _ => by
    rw [stringify]
    decide
  | .str s, _ => by
    rw [stringify]
    exact wellFormed_quote s
  | .arr [], _ => by
    rw [stringify]
    decide
  | .arr (x :: xs), h => by
    rw [stringify]
    exact wellFormed_cons (by decide) (by decide)
      (wellFormed_append (wellFormed_stringify x h.1) (wellFormed_elements xs h.2))
  | .obj [], _ => by
    rw [stringify]
    decide
  | .obj ((k, v) :: fields), h => by
    rw [stringify]
    exact wellFormed_append
      (wellFormed_cons (by decide) (by decide) (wellFormed_append (wellFormed_quote k)
        (wellFormed_cons (by decide) (by decide) (wellFormed_stringify v h.1.1))))
      (wellFormed_members fields h.1.2)

theorem wellFormed_elements : ∀ xs : List (Value β), PlainElements xs → WellFormed (elements xs)
  | [], _ => by
    rw [elements]
    decide
  | x :: xs, h => by
    rw [elements]
    exact wellFormed_cons (by decide) (by decide)
      (wellFormed_append (wellFormed_stringify x h.1) (wellFormed_elements xs h.2))

theorem wellFormed_members : ∀ fields : List (Utf16 × Value β), PlainMembers fields → WellFormed (members fields)
  | [], _ => by
    rw [members]
    decide
  | (k, v) :: fields, h => by
    rw [members]
    exact wellFormed_append
      (wellFormed_cons (by decide) (by decide) (wellFormed_append (wellFormed_quote k)
        (wellFormed_cons (by decide) (by decide) (wellFormed_stringify v h.1))))
      (wellFormed_members fields h.2)
end

theorem length_pos {v : Value β} (h : Plain v) : 0 < (stringify v).length := by
  obtain ⟨u, rest, hv, -⟩ := stringify_cons h
  rw [hv]
  exact Nat.succ_pos _

mutual
theorem parseValue_stringify : ∀ (v : Value β), Plain v → ∀ (n : Nat) (r : Utf16),
    (stringify v).length ≤ n → parseValue n (stringify v ++ r) = some (v, r)
  | .null, _, n + 1, r, _ => by
    rw [parseValue.eq_def]
    simp [stringify, skipSpace_cons (u := 0x6E) (by decide)]
  | .bool true, _, n + 1, r, _ => by
    rw [parseValue.eq_def]
    simp [stringify, skipSpace_cons (u := 0x74) (by decide)]
  | .bool false, _, n + 1, r, _ => by
    rw [parseValue.eq_def]
    simp [stringify, skipSpace_cons (u := 0x66) (by decide)]
  | .str s, _, n + 1, r, _ => by
    rw [stringify]
    exact parseValue_str
  | .arr [], _, n + 1, r, _ => by
    rw [parseValue.eq_def]
    simp [stringify, skipSpace_cons (u := 0x5B) (by decide), skipSpace_cons (u := 0x5D) (by decide)]
  | .arr (x :: xs), h, n + 1, r, hn => by
    have helements := parseElements_stringify x xs h.1 h.2 n [] r
      (by rw [stringify] at hn; simpa using hn)
    obtain ⟨u, rest, hx, hspace, hu, -⟩ := stringify_cons h.1
    rw [hx] at helements
    rw [stringify, hx]
    exact parseValue_arr hspace hu helements
  | .obj [], _, n + 1, r, _ => by
    rw [parseValue.eq_def]
    simp [stringify, skipSpace_cons (u := 0x7B) (by decide), skipSpace_cons (u := 0x7D) (by decide)]
  | .obj ((k, v) :: fields), h, n + 1, r, hn => by
    have hmembers := parseMembers_stringify k v fields h.1.1 h.1.2 n [] r h.2
      (by rw [stringify] at hn; simpa using hn)
    rw [stringify]
    exact parseValue_obj hmembers
  | v, h, 0, r, hn => absurd hn (Nat.not_le_of_gt (length_pos h))

theorem parseElements_stringify : ∀ (x : Value β) (xs : List (Value β)), Plain x → PlainElements xs →
    ∀ (n : Nat) (acc : List (Value β)) (r : Utf16), (stringify x ++ elements xs).length ≤ n →
    parseElements n acc (stringify x ++ elements xs ++ r) = some (acc ++ x :: xs, r)
  | x, [], hx, _, n + 1, acc, r, hn => by
    rw [elements, List.length_append] at hn
    have hvalue := parseValue_stringify x hx n (0x5D :: r) (Nat.le_of_succ_le_succ hn)
    rw [elements, List.append_assoc]
    exact parseElements_last hvalue
  | x, y :: ys, hx, hxs, n + 1, acc, r, hn => by
    have hpos := length_pos hxs.1
    simp only [elements, List.length_append, List.length_cons] at hn
    have hvalue := parseValue_stringify x hx n (0x2C :: (stringify y ++ elements ys ++ r)) (by omega)
    have hmore := parseElements_stringify y ys hxs.1 hxs.2 n (acc ++ [x]) r
      (by have := length_pos hx; simp only [List.length_append]; omega)
    rw [elements, List.append_assoc, List.cons_append, List.cons_append]
    rw [parseElements_more hvalue, hmore, List.append_assoc]
    rfl
  | x, xs, hx, _, 0, acc, r, hn => by
    have hpos := length_pos hx
    rw [List.length_append] at hn
    omega

theorem parseMembers_stringify : ∀ (k : Utf16) (v : Value β) (fields : List (Utf16 × Value β)), Plain v →
    PlainMembers fields → ∀ (n : Nat) (past : List (Utf16 × Value β)) (r : Utf16),
    (past.map Prod.fst ++ k :: fields.map Prod.fst).Nodup →
    (quote k ++ 0x3A :: stringify v ++ members fields).length ≤ n →
    parseMembers n past (quote k ++ 0x3A :: stringify v ++ members fields ++ r) =
      some (past ++ (k, v) :: fields, r)
  | k, v, [], hv, _, n + 1, past, r, hnodup, hn => by
    have hnew : k ∉ past.map Prod.fst := fun hk =>
      (List.nodup_append.1 hnodup).2.2 k hk k List.mem_cons_self rfl
    simp only [members, List.length_append, List.length_cons] at hn
    have hvalue := parseValue_stringify v hv n (0x7D :: r) (by omega)
    rw [members, List.append_assoc, List.append_assoc, List.cons_append]
    rw [← setField_new (x := v) hnew]
    exact parseMembers_last hvalue
  | k, v, (k', v') :: fields, hv, hfields, n + 1, past, r, hnodup, hn => by
    have hnew : k ∉ past.map Prod.fst := fun hk =>
      (List.nodup_append.1 hnodup).2.2 k hk k List.mem_cons_self rfl
    have hnodup' : ((past ++ [(k, v)]).map Prod.fst ++ k' :: fields.map Prod.fst).Nodup := by
      rw [List.map_append, List.append_assoc]
      exact hnodup
    simp only [members, List.length_append, List.length_cons] at hn
    have hvalue := parseValue_stringify v hv n (0x2C :: (quote k' ++ 0x3A :: stringify v' ++ members fields ++ r))
      (by omega)
    have hmore := parseMembers_stringify k' v' fields hfields.1 hfields.2 n (past ++ [(k, v)]) r hnodup'
      (by simp only [List.length_append, List.length_cons]; omega)
    rw [← setField_new (x := v) hnew, ← parseMembers_more hvalue, List.append_assoc, List.append_assoc] at hmore
    simpa [members, setField_new hnew] using hmore
  | k, v, fields, hv, _, 0, past, r, _, hn => by
    simp at hn
end

/-- **Values**: what is printed is read back. -/
theorem parse_stringify {v : Value β} (h : Plain v) : parse (stringify v) = some v := by
  have hvalue := parseValue_stringify v h ((stringify v).length + 1) [] (Nat.le_succ _)
  rw [List.append_nil] at hvalue
  rw [parse, hvalue]
  exact if_pos rfl

/-- **Encoded texts**: a value comes back from the UTF-8 bytes of its text. -/
theorem parse_decode {v : Value β} (h : Plain v) : parse (decode (encode (stringify v))) = some v := by
  have hbom : (stringify v).head? ≠ some bom := by
    obtain ⟨u, rest, hv, -, -, hu⟩ := stringify_cons h
    rw [hv, List.head?_cons]
    exact fun heq => hu (Option.some.inj heq)
  rw [decode_encode (wellFormed_stringify v h) hbom, parse_stringify h]

end

end Json
