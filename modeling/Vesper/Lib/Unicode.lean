import Mathlib.Data.List.Basic

/-!
# UTF-16 strings and UTF-8

Strings of 16-bit code units, as JavaScript has them, with `TextEncoder` and `TextDecoder`. The encoder
replaces a surrogate that has no partner; the decoder is the byte machine of the Encoding Standard. What
is well formed comes back unchanged.
-/

namespace Unicode

/-! ## Code units and code points -/

/-- A string: its 16-bit code units. -/
abbrev Utf16 := List UInt16

def replacement : Nat := 0xFFFD

def isHigh (u : UInt16) : Bool := 0xD800 ≤ u.toNat ∧ u.toNat < 0xDC00

def isLow (u : UInt16) : Bool := 0xDC00 ≤ u.toNat ∧ u.toNat < 0xE000

/-- A code point that is no surrogate. -/
def IsScalar (c : Nat) : Prop := c < 0xD800 ∨ 0xE000 ≤ c ∧ c < 0x110000

/-- The code point of a surrogate pair. -/
def pairPoint (u v : UInt16) : Nat := 0x10000 + (u.toNat - 0xD800) * 0x400 + (v.toNat - 0xDC00)

/-- A unit that is no part of a pair. -/
def unitPoint (u : UInt16) : Nat := if isHigh u ∨ isLow u then replacement else u.toNat

/-- The code points of a string; a lone surrogate is replaced. -/
def codePoints : Utf16 → List Nat
  | [] => []
  | [u] => [unitPoint u]
  | u :: v :: rest =>
    if isHigh u ∧ isLow v then pairPoint u v :: codePoints rest
    else unitPoint u :: codePoints (v :: rest)

/-- Every surrogate has its partner. -/
def WellFormed : Utf16 → Prop
  | [] => True
  | [u] => isHigh u = false ∧ isLow u = false
  | u :: v :: rest =>
    if isHigh u ∧ isLow v then WellFormed rest
    else isHigh u = false ∧ isLow u = false ∧ WellFormed (v :: rest)

instance decidableWellFormed : ∀ s, Decidable (WellFormed s)
  | [] => .isTrue trivial
  | [u] => inferInstanceAs (Decidable (isHigh u = false ∧ isLow u = false))
  | u :: v :: rest =>
    have := decidableWellFormed rest
    have := decidableWellFormed (v :: rest)
    inferInstanceAs (Decidable (if isHigh u ∧ isLow v then WellFormed rest
      else isHigh u = false ∧ isLow u = false ∧ WellFormed (v :: rest)))

/-- The code units of a code point. -/
def utf16 (c : Nat) : Utf16 :=
  if c < 0x10000 then [.ofNat c]
  else [.ofNat (0xD800 + (c - 0x10000) / 0x400), .ofNat (0xDC00 + (c - 0x10000) % 0x400)]

/-- A literal. -/
def ofString (s : String) : Utf16 := s.toList.flatMap fun c => utf16 c.toNat

theorem codePoints_pair {u v : UInt16} (h : isHigh u ∧ isLow v) (rest : Utf16) :
    codePoints (u :: v :: rest) = pairPoint u v :: codePoints rest := by
  rw [codePoints, if_pos h]

theorem codePoints_unit {u v : UInt16} (h : ¬(isHigh u ∧ isLow v)) (rest : Utf16) :
    codePoints (u :: v :: rest) = unitPoint u :: codePoints (v :: rest) := by
  rw [codePoints, if_neg h]

theorem toNat_lt (u : UInt16) : u.toNat < 0x10000 := u.toNat_lt

theorem isScalar_unitPoint (u : UInt16) : IsScalar (unitPoint u) := by
  have := toNat_lt u
  unfold unitPoint isHigh isLow
  split
  · unfold IsScalar replacement
    omega
  · next h =>
    simp only [decide_eq_true_eq, not_or, not_and, Nat.not_lt] at h
    unfold IsScalar
    omega

theorem isScalar_pairPoint {u v : UInt16} (hu : isHigh u) (hv : isLow v) : IsScalar (pairPoint u v) := by
  simp only [isHigh, isLow, decide_eq_true_eq] at hu hv
  unfold IsScalar pairPoint
  omega

theorem isScalar_of_mem_codePoints {s : Utf16} {c : Nat} (h : c ∈ codePoints s) : IsScalar c := by
  induction s using codePoints.induct with
  | case1 => cases h
  | case2 u =>
    rw [List.mem_singleton.mp h]
    exact isScalar_unitPoint u
  | case3 u v rest hpair ih =>
    rw [codePoints_pair hpair] at h
    rcases List.mem_cons.mp h with hc | h
    · rw [hc]
      exact isScalar_pairPoint hpair.1 hpair.2
    · exact ih h
  | case4 u v rest hpair ih =>
    rw [codePoints_unit hpair] at h
    rcases List.mem_cons.mp h with rfl | h
    · exact isScalar_unitPoint u
    · exact ih h

theorem utf16_unitPoint {u : UInt16} (hhigh : isHigh u = false) (hlow : isLow u = false) :
    utf16 (unitPoint u) = [u] := by
  have hpoint : unitPoint u = u.toNat := by simp [unitPoint, hhigh, hlow]
  rw [hpoint, utf16, if_pos (toNat_lt u), UInt16.ofNat_toNat]

theorem utf16_pairPoint {u v : UInt16} (hu : isHigh u) (hv : isLow v) :
    utf16 (pairPoint u v) = [u, v] := by
  simp only [isHigh, isLow, decide_eq_true_eq] at hu hv
  have hhigh : 0xD800 + (pairPoint u v - 0x10000) / 0x400 = u.toNat := by
    unfold pairPoint
    omega
  have hlow : 0xDC00 + (pairPoint u v - 0x10000) % 0x400 = v.toNat := by
    unfold pairPoint
    omega
  have hge : ¬ pairPoint u v < 0x10000 := by
    unfold pairPoint
    omega
  rw [utf16, if_neg hge, hhigh, hlow, UInt16.ofNat_toNat, UInt16.ofNat_toNat]

/-- A well-formed string is spelled by its code points. -/
theorem flatMap_utf16_codePoints {s : Utf16} (h : WellFormed s) : (codePoints s).flatMap utf16 = s := by
  induction s using codePoints.induct with
  | case1 => rfl
  | case2 u => simp [codePoints, utf16_unitPoint h.1 h.2]
  | case3 u v rest hpair ih =>
    rw [WellFormed, if_pos hpair] at h
    rw [codePoints_pair hpair, List.flatMap_cons, ih h, utf16_pairPoint hpair.1 hpair.2]
    rfl
  | case4 u v rest hpair ih =>
    rw [WellFormed, if_neg hpair] at h
    rw [codePoints_unit hpair, List.flatMap_cons, ih h.2.2, utf16_unitPoint h.1 h.2.1]
    rfl

theorem wellFormed_append {s t : Utf16} (hs : WellFormed s) (ht : WellFormed t) : WellFormed (s ++ t) := by
  induction s using WellFormed.induct with
  | case1 => exact ht
  | case2 u =>
    cases t with
    | nil => exact hs
    | cons v t =>
      rw [List.singleton_append, WellFormed, if_neg (by simp [hs.1])]
      exact ⟨hs.1, hs.2, ht⟩
  | case3 u v rest hpair ih =>
    rw [WellFormed, if_pos hpair] at hs
    rw [List.cons_append, List.cons_append, WellFormed, if_pos hpair]
    exact ih hs
  | case4 u v rest hpair ih =>
    rw [WellFormed, if_neg hpair] at hs
    rw [List.cons_append, List.cons_append, WellFormed, if_neg hpair]
    exact ⟨hs.1, hs.2.1, ih hs.2.2⟩

theorem wellFormed_cons {u : UInt16} {s : Utf16} (hhigh : isHigh u = false) (hlow : isLow u = false)
    (h : WellFormed s) : WellFormed (u :: s) :=
  wellFormed_append (s := [u]) ⟨hhigh, hlow⟩ h

theorem wellFormed_utf16 {c : Nat} (h : IsScalar c) : WellFormed (utf16 c) := by
  unfold IsScalar at h
  unfold utf16
  split
  · next hc =>
    have hu : (UInt16.ofNat c).toNat = c := by
      rw [UInt16.toNat_ofNat']
      exact Nat.mod_eq_of_lt hc
    simp only [WellFormed, isHigh, isLow, hu, decide_eq_false_iff_not, not_and]
    omega
  · next hc =>
    have hu : (UInt16.ofNat (0xD800 + (c - 0x10000) / 0x400)).toNat = 0xD800 + (c - 0x10000) / 0x400 := by
      rw [UInt16.toNat_ofNat']
      omega
    have hv : (UInt16.ofNat (0xDC00 + (c - 0x10000) % 0x400)).toNat = 0xDC00 + (c - 0x10000) % 0x400 := by
      rw [UInt16.toNat_ofNat']
      omega
    rw [WellFormed, if_pos]
    · trivial
    · simp only [isHigh, isLow, hu, hv, decide_eq_true_eq]
      omega

theorem wellFormed_flatMap_utf16 {cs : List Nat} (h : ∀ c ∈ cs, IsScalar c) :
    WellFormed (cs.flatMap utf16) := by
  induction cs with
  | nil => trivial
  | cons c cs ih =>
    rw [List.flatMap_cons]
    exact wellFormed_append (wellFormed_utf16 (h c List.mem_cons_self))
      (ih fun c' hc => h c' (List.mem_cons_of_mem _ hc))

/-- A character is read back from its code units, whatever follows it. -/
theorem codePoints_utf16 {c : Nat} (h : IsScalar c) (rest : Utf16) :
    codePoints (utf16 c ++ rest) = c :: codePoints rest := by
  unfold IsScalar at h
  unfold utf16
  split
  · next hc =>
    have hu : (UInt16.ofNat c).toNat = c := by
      rw [UInt16.toNat_ofNat']
      exact Nat.mod_eq_of_lt hc
    have hhigh : isHigh (.ofNat c) = false := by
      simp only [isHigh, hu, decide_eq_false_iff_not]
      omega
    have hlow : isLow (.ofNat c) = false := by
      simp only [isLow, hu, decide_eq_false_iff_not]
      omega
    have hpoint : unitPoint (.ofNat c) = c := by simp [unitPoint, hhigh, hlow, hu]
    cases rest with
    | nil => exact congrArg (· :: []) hpoint
    | cons v rest =>
      have hpair : ¬(isHigh (.ofNat c) ∧ isLow v) := by simp [hhigh]
      exact (codePoints_unit hpair rest).trans (congrArg (· :: codePoints (v :: rest)) hpoint)
  · next hc =>
    have hsum : 0x10000 + (0xD800 + (c - 0x10000) / 0x400 - 0xD800) * 0x400 +
        (0xDC00 + (c - 0x10000) % 0x400 - 0xDC00) = c := by omega
    have hu : (UInt16.ofNat (0xD800 + (c - 0x10000) / 0x400)).toNat = 0xD800 + (c - 0x10000) / 0x400 := by
      rw [UInt16.toNat_ofNat']
      omega
    have hv : (UInt16.ofNat (0xDC00 + (c - 0x10000) % 0x400)).toNat = 0xDC00 + (c - 0x10000) % 0x400 := by
      rw [UInt16.toNat_ofNat']
      omega
    have hpair : isHigh (.ofNat (0xD800 + (c - 0x10000) / 0x400)) ∧
        isLow (.ofNat (0xDC00 + (c - 0x10000) % 0x400)) := by
      simp only [isHigh, isLow, hu, hv, decide_eq_true_eq]
      omega
    have hpoint : pairPoint (.ofNat (0xD800 + (c - 0x10000) / 0x400))
        (.ofNat (0xDC00 + (c - 0x10000) % 0x400)) = c := by
      unfold pairPoint
      rw [hu, hv]
      exact hsum
    rw [List.cons_append, List.singleton_append, codePoints_pair hpair, hpoint]

theorem codePoints_flatMap_utf16 {cs : List Nat} (h : ∀ c ∈ cs, IsScalar c) :
    codePoints (cs.flatMap utf16) = cs := by
  induction cs with
  | nil => rfl
  | cons c cs ih =>
    rw [List.flatMap_cons, codePoints_utf16 (h c List.mem_cons_self),
      ih fun c' hc => h c' (List.mem_cons_of_mem _ hc)]

theorem length_utf16_unitPoint (u : UInt16) : (utf16 (unitPoint u)).length = 1 := by
  have hlt : unitPoint u < 0x10000 := by
    unfold unitPoint
    split
    · decide
    · exact toNat_lt u
  rw [utf16, if_pos hlt, List.length_singleton]

/-- A replacement takes the place of one unit. -/
theorem length_flatMap_utf16_codePoints (s : Utf16) : ((codePoints s).flatMap utf16).length = s.length := by
  induction s using codePoints.induct with
  | case1 => rfl
  | case2 u => rw [codePoints, List.flatMap_singleton, length_utf16_unitPoint, List.length_singleton]
  | case3 u v rest hpair ih =>
    rw [codePoints_pair hpair, List.flatMap_cons, utf16_pairPoint hpair.1 hpair.2, List.length_append, ih]
    simp only [List.length_cons, List.length_nil]
    omega
  | case4 u v rest hpair ih =>
    rw [codePoints_unit hpair, List.flatMap_cons, List.length_append, length_utf16_unitPoint, ih]
    exact Nat.add_comm ..

/-! ## UTF-8 -/

/-- The bytes of a code point. -/
def utf8 (c : Nat) : List UInt8 :=
  if c < 0x80 then [.ofNat c]
  else if c < 0x800 then [.ofNat (0xC0 + c / 0x40), .ofNat (0x80 + c % 0x40)]
  else if c < 0x10000 then
    [.ofNat (0xE0 + c / 0x1000), .ofNat (0x80 + c / 0x40 % 0x40), .ofNat (0x80 + c % 0x40)]
  else
    [.ofNat (0xF0 + c / 0x40000), .ofNat (0x80 + c / 0x1000 % 0x40), .ofNat (0x80 + c / 0x40 % 0x40),
      .ofNat (0x80 + c % 0x40)]

/-- `TextEncoder.encode` -/
def encode (s : Utf16) : List UInt8 := (codePoints s).flatMap utf8

theorem length_utf16_le_utf8 (c : Nat) : (utf16 c).length ≤ (utf8 c).length := by
  unfold utf16 utf8
  split <;> split_ifs <;> simp only [List.length_cons, List.length_nil] <;> omega

/-- A text has no more units than bytes. -/
theorem length_le_encode (s : Utf16) : s.length ≤ (encode s).length := by
  rw [← length_flatMap_utf16_codePoints s, encode]
  induction codePoints s with
  | nil => exact Nat.le_refl 0
  | cons c cs ih =>
    rw [List.flatMap_cons, List.flatMap_cons, List.length_append, List.length_append]
    exact Nat.add_le_add (length_utf16_le_utf8 c) ih

/-- The decoder between two bytes: how many bytes it still needs, the code point so far, and the range
of the next byte. -/
structure Decoder where
  needed : Nat
  point : Nat
  lower : Nat
  upper : Nat

namespace Decoder

def idle : Decoder := ⟨0, 0, 0x80, 0xBF⟩

/-- The first byte of a character. -/
def lead (b : Nat) : List Nat × Decoder :=
  if b < 0x80 then ([b], idle)
  else if b < 0xC2 then ([replacement], idle)
  else if b < 0xE0 then ([], ⟨1, b - 0xC0, 0x80, 0xBF⟩)
  else if b < 0xF0 then
    ([], ⟨2, b - 0xE0, if b = 0xE0 then 0xA0 else 0x80, if b = 0xED then 0x9F else 0xBF⟩)
  else if b < 0xF5 then
    ([], ⟨3, b - 0xF0, if b = 0xF0 then 0x90 else 0x80, if b = 0xF4 then 0x8F else 0xBF⟩)
  else ([replacement], idle)

/-- A byte out of range ends the character and is read once more. -/
def step (d : Decoder) (b : Nat) : List Nat × Decoder :=
  if d.needed = 0 then lead b
  else if d.lower ≤ b ∧ b ≤ d.upper then
    let point := d.point * 0x40 + (b - 0x80)
    if d.needed = 1 then ([point], idle) else ([], ⟨d.needed - 1, point, 0x80, 0xBF⟩)
  else
    let (out, d') := lead b
    (replacement :: out, d')

def run (d : Decoder) : List UInt8 → List Nat
  | [] => if d.needed = 0 then [] else [replacement]
  | b :: rest =>
    let (out, d') := d.step b.toNat
    out ++ run d' rest

/-- The byte is no part of a character here. -/
def Rejects (d : Decoder) (b : Nat) : Prop :=
  if d.needed = 0 then 0x80 ≤ b ∧ b < 0xC2 ∨ 0xF5 ≤ b else b < d.lower ∨ d.upper < b

instance (d : Decoder) (b : Nat) : Decidable (d.Rejects b) := by
  unfold Rejects
  infer_instance

/-- The first error ends it. -/
def runFatal (d : Decoder) : List UInt8 → Option (List Nat)
  | [] => if d.needed = 0 then some [] else none
  | b :: rest =>
    if d.Rejects b.toNat then none
    else
      let (out, d') := d.step b.toNat
      (runFatal d' rest).map (out ++ ·)

end Decoder

/-- A byte order mark at the start is dropped. -/
def dropBom : List UInt8 → List UInt8
  | 0xEF :: 0xBB :: 0xBF :: rest => rest
  | bytes => bytes

/-- `TextDecoder.decode` -/
def decode (bytes : List UInt8) : Utf16 := (Decoder.run .idle (dropBom bytes)).flatMap utf16

/-- `TextDecoder.decode` with the option `fatal`, or nothing when it throws. -/
def decodeFatal (bytes : List UInt8) : Option Utf16 :=
  (Decoder.runFatal .idle (dropBom bytes)).map (·.flatMap utf16)

theorem toNat_ofNat_of_lt {n : Nat} (h : n < 0x100) : (UInt8.ofNat n).toNat = n := by
  rw [UInt8.toNat_ofNat']
  exact Nat.mod_eq_of_lt h

namespace Decoder

theorem run_cons (d : Decoder) {n : Nat} (h : n < 0x100) (rest : List UInt8) :
    run d (.ofNat n :: rest) = (d.step n).1 ++ run (d.step n).2 rest := by
  rw [run, toNat_ofNat_of_lt h]

theorem step_idle_one {b : Nat} (h : b < 0x80) : idle.step b = ([b], idle) := by
  simp [step, idle, lead, h]

theorem step_idle_two {b : Nat} (h : 0xC2 ≤ b) (h' : b < 0xE0) :
    idle.step b = ([], ⟨1, b - 0xC0, 0x80, 0xBF⟩) := by
  have h₁ : ¬ b < 0x80 := by omega
  have h₂ : ¬ b < 0xC2 := by omega
  simp [step, idle, lead, h₁, h₂, h']

theorem step_idle_three {b : Nat} (h : 0xE0 ≤ b) (h' : b < 0xF0) :
    idle.step b =
      ([], ⟨2, b - 0xE0, if b = 0xE0 then 0xA0 else 0x80, if b = 0xED then 0x9F else 0xBF⟩) := by
  have h₁ : ¬ b < 0x80 := by omega
  have h₂ : ¬ b < 0xC2 := by omega
  have h₃ : ¬ b < 0xE0 := by omega
  simp [step, idle, lead, h₁, h₂, h₃, h']

theorem step_idle_four {b : Nat} (h : 0xF0 ≤ b) (h' : b < 0xF5) :
    idle.step b =
      ([], ⟨3, b - 0xF0, if b = 0xF0 then 0x90 else 0x80, if b = 0xF4 then 0x8F else 0xBF⟩) := by
  have h₁ : ¬ b < 0x80 := by omega
  have h₂ : ¬ b < 0xC2 := by omega
  have h₃ : ¬ b < 0xE0 := by omega
  have h₄ : ¬ b < 0xF0 := by omega
  simp [step, idle, lead, h₁, h₂, h₃, h₄, h']

theorem step_last {point lower upper b : Nat} (h : lower ≤ b) (h' : b ≤ upper) :
    step ⟨1, point, lower, upper⟩ b = ([point * 0x40 + (b - 0x80)], idle) := by
  simp [step, h, h']

theorem step_more {n point lower upper b : Nat} (h : lower ≤ b) (h' : b ≤ upper) :
    step ⟨n + 2, point, lower, upper⟩ b =
      ([], ⟨n + 1, point * 0x40 + (b - 0x80), 0x80, 0xBF⟩) := by
  simp [step, h, h']

/-- A character is decoded, whatever follows it. -/
theorem run_utf8 {c : Nat} (h : IsScalar c) (rest : List UInt8) :
    run idle (utf8 c ++ rest) = c :: run idle rest := by
  unfold IsScalar at h
  unfold utf8
  split
  · next h₁ =>
    rw [List.singleton_append, run_cons _ (by omega), step_idle_one h₁]
    rfl
  split
  · next h₁ h₂ =>
    rw [List.cons_append, List.singleton_append, run_cons _ (by omega),
      step_idle_two (by omega) (by omega), run_cons _ (by omega), step_last (by omega) (by omega)]
    simp only [List.nil_append, List.singleton_append, List.cons.injEq, and_true]
    omega
  split
  · next h₁ h₂ h₃ =>
    have hlower : (if 0xE0 + c / 0x1000 = 0xE0 then 0xA0 else 0x80) ≤ 0x80 + c / 0x40 % 0x40 := by
      split <;> omega
    have hupper : 0x80 + c / 0x40 % 0x40 ≤ if 0xE0 + c / 0x1000 = 0xED then 0x9F else 0xBF := by
      split <;> omega
    rw [List.cons_append, List.cons_append, List.singleton_append, run_cons _ (by omega),
      step_idle_three (by omega) (by omega), run_cons _ (by omega), step_more hlower hupper,
      run_cons _ (by omega), step_last (by omega) (by omega)]
    simp only [List.nil_append, List.singleton_append, List.cons.injEq, and_true]
    omega
  · next h₁ h₂ h₃ =>
    have hlower : (if 0xF0 + c / 0x40000 = 0xF0 then 0x90 else 0x80) ≤ 0x80 + c / 0x1000 % 0x40 := by
      split <;> omega
    have hupper : 0x80 + c / 0x1000 % 0x40 ≤ if 0xF0 + c / 0x40000 = 0xF4 then 0x8F else 0xBF := by
      split <;> omega
    rw [List.cons_append, List.cons_append, List.cons_append, List.singleton_append,
      run_cons _ (by omega), step_idle_four (by omega) (by omega), run_cons _ (by omega),
      step_more hlower hupper, run_cons _ (by omega), step_more (by omega) (by omega),
      run_cons _ (by omega), step_last (by omega) (by omega)]
    simp only [List.nil_append, List.singleton_append, List.cons.injEq, and_true]
    omega

theorem run_flatMap_utf8 {cs : List Nat} (h : ∀ c ∈ cs, IsScalar c) :
    run idle (cs.flatMap utf8) = cs := by
  induction cs with
  | nil => rfl
  | cons c cs ih =>
    rw [List.flatMap_cons, run_utf8 (h c List.mem_cons_self), ih fun c' hc => h c' (List.mem_cons_of_mem _ hc)]

theorem step_of_rejects {d : Decoder} {b : Nat} (h : d.Rejects b) : replacement ∈ (d.step b).1 := by
  unfold Rejects at h
  unfold step
  split at h
  · rename_i hneeded
    rw [if_pos hneeded]
    unfold lead
    rcases h with h | h
    · rw [if_neg (by omega), if_pos h.2]
      exact List.mem_singleton_self _
    · rw [if_neg (by omega), if_neg (by omega), if_neg (by omega), if_neg (by omega), if_neg (by omega)]
      exact List.mem_singleton_self _
  · rename_i hneeded
    rw [if_neg hneeded, if_neg (by omega)]
    exact List.mem_cons_self

/-- What is decoded without a replacement has no errors. -/
theorem runFatal_of_run {d : Decoder} {bytes : List UInt8} (h : replacement ∉ run d bytes) :
    runFatal d bytes = some (run d bytes) := by
  induction bytes generalizing d with
  | nil =>
    rw [run] at h ⊢
    rw [runFatal]
    split at h
    · rename_i hneeded
      rw [if_pos hneeded, if_pos hneeded]
    · exact absurd (List.mem_singleton_self _) h
  | cons b bytes ih =>
    have hout : replacement ∉ (d.step b.toNat).1 := fun hmem => h (List.mem_append_left _ hmem)
    have hrest : replacement ∉ run (d.step b.toNat).2 bytes := fun hmem => h (List.mem_append_right _ hmem)
    rw [runFatal, if_neg (mt step_of_rejects hout)]
    dsimp only
    rw [ih hrest]
    rfl

/-- The first bytes of a character alone are replaced. -/
theorem run_take_utf8 {c n : Nat} (h : IsScalar c) (hn : n < (utf8 c).length) :
    run idle ((utf8 c).take n) = if n = 0 then [] else [replacement] := by
  cases n with
  | zero => rfl
  | succ n =>
    rw [if_neg (Nat.succ_ne_zero n)]
    unfold IsScalar at h
    unfold utf8 at hn ⊢
    split at hn
    · simp at hn
    split at hn
    · next h₁ h₂ =>
      have hn : n = 0 := by
        simp only [List.length_cons, List.length_nil] at hn
        omega
      subst hn
      rw [if_neg h₁, if_pos h₂, List.take_succ_cons, List.take_zero, run_cons _ (by omega),
        step_idle_two (by omega) (by omega)]
      rfl
    split at hn
    · next h₁ h₂ h₃ =>
      have hlower : (if 0xE0 + c / 0x1000 = 0xE0 then 0xA0 else 0x80) ≤ 0x80 + c / 0x40 % 0x40 := by
        split <;> omega
      have hupper : 0x80 + c / 0x40 % 0x40 ≤ if 0xE0 + c / 0x1000 = 0xED then 0x9F else 0xBF := by
        split <;> omega
      have hn : n = 0 ∨ n = 1 := by
        simp only [List.length_cons, List.length_nil] at hn
        omega
      rw [if_neg h₁, if_neg h₂, if_pos h₃, List.take_succ_cons, run_cons _ (by omega),
        step_idle_three (by omega) (by omega)]
      rcases hn with rfl | rfl
      · rfl
      · rw [List.take_succ_cons, run_cons _ (by omega), step_more hlower hupper]
        rfl
    · next h₁ h₂ h₃ =>
      have hlower : (if 0xF0 + c / 0x40000 = 0xF0 then 0x90 else 0x80) ≤ 0x80 + c / 0x1000 % 0x40 := by
        split <;> omega
      have hupper : 0x80 + c / 0x1000 % 0x40 ≤ if 0xF0 + c / 0x40000 = 0xF4 then 0x8F else 0xBF := by
        split <;> omega
      have hn : n = 0 ∨ n = 1 ∨ n = 2 := by
        simp only [List.length_cons, List.length_nil] at hn
        omega
      rw [if_neg h₁, if_neg h₂, if_neg h₃, List.take_succ_cons, run_cons _ (by omega),
        step_idle_four (by omega) (by omega)]
      rcases hn with rfl | rfl | rfl
      · rfl
      · rw [List.take_succ_cons, run_cons _ (by omega), step_more hlower hupper]
        rfl
      · rw [List.take_succ_cons, run_cons _ (by omega), step_more hlower hupper, List.take_succ_cons,
          run_cons _ (by omega), step_more (by omega) (by omega)]
        rfl

theorem length_utf8_le (c : Nat) : (utf8 c).length ≤ 4 := by
  unfold utf8
  split
  · exact Nat.le_add_left 1 3
  split
  · exact Nat.le_add_left 2 2
  split
  · exact Nat.le_succ 3
  · exact Nat.le_refl 4

theorem length_utf16_pos (c : Nat) : 0 < (utf16 c).length := by
  unfold utf16
  split <;> exact Nat.succ_pos _

/-- What a text that is cut off becomes: none of its units is split in two, and a whole character is
lost with four bytes. -/
theorem run_take {cs : List Nat} (h : ∀ c ∈ cs, IsScalar c) (n : Nat) :
    (∀ c ∈ run idle ((cs.flatMap utf8).take n), IsScalar c) ∧
    ((run idle ((cs.flatMap utf8).take n)).flatMap utf16).length ≤ (cs.flatMap utf16).length ∧
    (n + 4 ≤ (cs.flatMap utf8).length →
      ((run idle ((cs.flatMap utf8).take n)).flatMap utf16).length < (cs.flatMap utf16).length) := by
  induction cs generalizing n with
  | nil => simp [run, idle]
  | cons c cs ih =>
    have hc := h c List.mem_cons_self
    have hpos := length_utf16_pos c
    rw [List.flatMap_cons, List.flatMap_cons, List.length_append, List.length_append]
    rcases Nat.lt_or_ge n (utf8 c).length with hn | hn
    · rw [List.take_append_of_le_length (Nat.le_of_lt hn), run_take_utf8 hc hn]
      split
      · next h0 =>
        refine ⟨nofun, Nat.zero_le _, fun _ => ?_⟩
        exact Nat.lt_of_lt_of_le hpos (Nat.le_add_right ..)
      · next h0 =>
        have hone : ([replacement].flatMap utf16).length = 1 := rfl
        rw [hone]
        refine ⟨fun c' hc' => ?_, by omega, fun hcut => ?_⟩
        · rw [List.mem_singleton.mp hc']
          exact .inr ⟨by decide, by decide⟩
        · have h4 := length_utf8_le c
          cases cs with
          | nil =>
            simp only [List.flatMap_nil, List.length_nil] at hcut
            omega
          | cons c' cs =>
            have := length_utf16_pos c'
            rw [List.flatMap_cons, List.length_append]
            omega
    · obtain ⟨k, rfl⟩ := Nat.exists_eq_add_of_le hn
      obtain ⟨hscalar, hle, hlt⟩ := ih (fun c' hc' => h c' (List.mem_cons_of_mem _ hc')) k
      rw [List.take_length_add_append, run_utf8 hc, List.flatMap_cons, List.length_append]
      refine ⟨fun c' hc' => ?_, by omega, fun hcut => ?_⟩
      · rcases List.mem_cons.mp hc' with rfl | hc'
        · exact hc
        · exact hscalar c' hc'
      · have := hlt (by omega)
        omega

end Decoder

/-- The code unit of the byte order mark. -/
def bom : UInt16 := 0xFEFF

/-- Only the byte order mark is spelled like one. -/
theorem dropBom_utf8 {c : Nat} (h : IsScalar c) (hne : c ≠ 0xFEFF) (rest : List UInt8) :
    dropBom (utf8 c ++ rest) = utf8 c ++ rest := by
  unfold IsScalar at h
  unfold dropBom
  split
  · next rest' heq =>
    exfalso
    unfold utf8 at heq
    split at heq
    · simp only [List.cons_append, List.cons.injEq, ← UInt8.toNat_inj, UInt8.toNat_ofNat',
        UInt8.reduceToNat] at heq
      omega
    split at heq
    · simp only [List.cons_append, List.cons.injEq, ← UInt8.toNat_inj, UInt8.toNat_ofNat',
        UInt8.reduceToNat] at heq
      omega
    split at heq
    · simp only [List.cons_append, List.cons.injEq, ← UInt8.toNat_inj, UInt8.toNat_ofNat',
        UInt8.reduceToNat] at heq
      omega
    · simp only [List.cons_append, List.cons.injEq, ← UInt8.toNat_inj, UInt8.toNat_ofNat',
        UInt8.reduceToNat] at heq
      omega
  · rfl

theorem unitPoint_eq_bom {u : UInt16} (h : unitPoint u = 0xFEFF) : u = bom := by
  unfold unitPoint at h
  split at h
  · cases h
  · exact UInt16.toNat_inj.mp h

/-- A string whose first code point is the byte order mark begins with it. -/
theorem head?_of_codePoints {s : Utf16} {cs : List Nat} (h : codePoints s = 0xFEFF :: cs) :
    s.head? = some bom := by
  cases s using codePoints.induct with
  | case1 => cases h
  | case2 u => rw [unitPoint_eq_bom (List.cons.inj h).1, List.head?_cons]
  | case3 u v rest hpair =>
    rw [codePoints_pair hpair] at h
    have hge : 0x10000 ≤ pairPoint u v := Nat.le_trans (Nat.le_add_right ..) (Nat.le_add_right ..)
    rw [(List.cons.inj h).1] at hge
    exact absurd hge (by decide)
  | case4 u v rest hpair =>
    rw [codePoints_unit hpair] at h
    rw [unitPoint_eq_bom (List.cons.inj h).1, List.head?_cons]

theorem dropBom_take {bytes : List UInt8} (h : dropBom bytes = bytes) (n : Nat) :
    dropBom (bytes.take n) = bytes.take n := by
  generalize htake : bytes.take n = front
  unfold dropBom
  split
  · next rest =>
    rw [← List.take_append_drop n bytes, htake, List.cons_append, List.cons_append, List.cons_append] at h
    have hlength := congrArg List.length h
    rw [dropBom] at hlength
    simp only [List.length_cons] at hlength
    omega
  · rfl

theorem dropBom_encode {s : Utf16} (hbom : s.head? ≠ some bom) : dropBom (encode s) = encode s := by
  unfold encode
  cases hs : codePoints s with
  | nil => rfl
  | cons c cs =>
    have hscalar : IsScalar c := isScalar_of_mem_codePoints (hs ▸ List.mem_cons_self)
    rw [List.flatMap_cons, dropBom_utf8 hscalar]
    rintro rfl
    exact hbom (head?_of_codePoints hs)

/-- The byte order mark, and the text after it. -/
theorem encode_bom {s : Utf16} (hbom : s.head? = some bom) :
    ∃ rest, encode s = 0xEF :: 0xBB :: 0xBF :: encode rest ∧ s = bom :: rest := by
  obtain ⟨rest, rfl⟩ := List.head?_eq_some_iff.mp hbom
  refine ⟨rest, ?_, rfl⟩
  cases rest with
  | nil => decide
  | cons v rest =>
    rw [encode, codePoints_unit (fun hpair => absurd hpair.1 (by decide)), List.flatMap_cons]
    rfl

/-- **Texts cut off**: they are decoded to a well-formed string that is no longer, and shorter once four
bytes are missing. -/
theorem decode_take (s : Utf16) (n : Nat) :
    WellFormed (decode ((encode s).take n)) ∧ (decode ((encode s).take n)).length ≤ s.length ∧
    (n + 4 ≤ (encode s).length → (decode ((encode s).take n)).length < s.length) := by
  have hrun (t : Utf16) (k : Nat) := @Decoder.run_take (codePoints t) (fun c => isScalar_of_mem_codePoints) k
  simp only [length_flatMap_utf16_codePoints] at hrun
  by_cases hbom : s.head? = some bom ∧ 3 ≤ n
  · obtain ⟨rest, hencode, rfl⟩ := encode_bom hbom.1
    obtain ⟨k, rfl⟩ := Nat.exists_eq_add_of_le' hbom.2
    obtain ⟨hscalar, hle, -⟩ := hrun rest k
    have hdecode : decode ((encode (bom :: rest)).take (k + 3)) =
        (Decoder.run .idle ((encode rest).take k)).flatMap utf16 := by
      rw [hencode]
      rfl
    rw [hdecode]
    exact ⟨wellFormed_flatMap_utf16 hscalar, Nat.le_succ_of_le hle, fun _ => Nat.lt_succ_of_le hle⟩
  · have hdrop : dropBom ((encode s).take n) = (encode s).take n := by
      by_cases hhead : s.head? = some bom
      · obtain ⟨rest, hencode, -⟩ := encode_bom hhead
        have hlt : ¬ 3 ≤ n := fun h3 => hbom ⟨hhead, h3⟩
        have hn : n = 0 ∨ n = 1 ∨ n = 2 := by omega
        rw [hencode]
        rcases hn with rfl | rfl | rfl <;> rfl
      · exact dropBom_take (dropBom_encode hhead) n
    obtain ⟨hscalar, hle, hlt⟩ := hrun s n
    rw [decode, hdrop]
    exact ⟨wellFormed_flatMap_utf16 hscalar, hle, hlt⟩

/-- A byte order mark is lost. -/
theorem decode_encode_bom {s : Utf16} (hbom : s.head? = some bom) :
    (decode (encode s)).length < s.length := by
  obtain ⟨rest, hencode, rfl⟩ := encode_bom hbom
  have hdecode : decode (encode (bom :: rest)) = (codePoints rest).flatMap utf16 := by
    rw [hencode]
    show (Decoder.run .idle (encode rest)).flatMap utf16 = _
    rw [encode, Decoder.run_flatMap_utf8 fun c => isScalar_of_mem_codePoints]
  rw [hdecode, length_flatMap_utf16_codePoints]
  exact Nat.lt_succ_self _

/-- A well-formed string that does not begin with a byte order mark comes back unchanged. -/
theorem decode_encode {s : Utf16} (h : WellFormed s) (hbom : s.head? ≠ some bom) :
    decode (encode s) = s := by
  rw [decode, dropBom_encode hbom, encode, Decoder.run_flatMap_utf8 fun c => isScalar_of_mem_codePoints,
    flatMap_utf16_codePoints h]

/-- The bytes are a text in UTF-8 that does not begin with a byte order mark. -/
def IsText (bytes : List UInt8) : Prop :=
  ∃ cs : List Nat, (∀ c ∈ cs, IsScalar c) ∧ cs.head? ≠ some 0xFEFF ∧ bytes = cs.flatMap utf8

/-- **Bytes that are decoded and encoded again** are unchanged exactly if they are such a text. -/
theorem encode_decode_iff {bytes : List UInt8} : encode (decode bytes) = bytes ↔ IsText bytes := by
  constructor
  · intro h
    refine ⟨codePoints (decode bytes), fun c => isScalar_of_mem_codePoints, fun hhead => ?_, h.symm⟩
    obtain ⟨cs, hcs⟩ := List.head?_eq_some_iff.mp hhead
    have hshorter := decode_encode_bom (head?_of_codePoints hcs)
    rw [h] at hshorter
    exact absurd hshorter (Nat.lt_irrefl _)
  · rintro ⟨cs, hscalar, hhead, rfl⟩
    have hdrop : dropBom (cs.flatMap utf8) = cs.flatMap utf8 := by
      cases cs with
      | nil => rfl
      | cons c cs =>
        rw [List.flatMap_cons]
        exact dropBom_utf8 (hscalar c List.mem_cons_self) (fun hc => hhead (congrArg some hc)) _
    rw [decode, hdrop, Decoder.run_flatMap_utf8 hscalar, encode, codePoints_flatMap_utf16 hscalar]

/-- Without an error, the fatal decoder does what the other does. -/
theorem decodeFatal_encode {s : Utf16} (h : WellFormed s) (hbom : s.head? ≠ some bom)
    (hclean : replacement ∉ codePoints s) : decodeFatal (encode s) = some s := by
  have hrun : Decoder.run .idle (encode s) = codePoints s :=
    Decoder.run_flatMap_utf8 fun c => isScalar_of_mem_codePoints
  rw [decodeFatal, dropBom_encode hbom, Decoder.runFatal_of_run (by rwa [hrun]), hrun, Option.map_some,
    flatMap_utf16_codePoints h]

theorem encode_eq_nil {s : Utf16} : encode s = [] ↔ s = [] := by
  refine ⟨fun h => ?_, fun h => by rw [h]; rfl⟩
  have hcode : codePoints s = [] := by
    rw [encode, List.flatMap_eq_nil_iff] at h
    refine List.eq_nil_iff_forall_not_mem.mpr fun c hc => ?_
    have hnil := h c hc
    unfold utf8 at hnil
    split at hnil
    · cases hnil
    split at hnil
    · cases hnil
    split at hnil <;> cases hnil
  rw [← List.length_eq_zero_iff, ← length_flatMap_utf16_codePoints, hcode]
  rfl

theorem codePoints_ascii {s : Utf16} (h : ∀ u ∈ s, u.toNat < 0x80) : codePoints s = s.map UInt16.toNat := by
  have hscalar : ∀ c ∈ s.map UInt16.toNat, IsScalar c := by
    intro c hc
    obtain ⟨u, hu, rfl⟩ := List.mem_map.mp hc
    exact .inl (Nat.lt_trans (h u hu) (by decide))
  have hunits : (s.map UInt16.toNat).flatMap utf16 = s := by
    rw [List.flatMap_map]
    have hone : s.flatMap (fun u => utf16 u.toNat) = s.flatMap fun u => [u] := by
      refine List.flatMap_congr fun u _ => ?_
      rw [utf16, if_pos (toNat_lt u), UInt16.ofNat_toNat]
    rw [hone, List.flatMap_singleton']
  calc codePoints s = codePoints ((s.map UInt16.toNat).flatMap utf16) := by rw [hunits]
    _ = s.map UInt16.toNat := codePoints_flatMap_utf16 hscalar

/-- An ASCII string has one byte for each unit. -/
theorem encode_ascii {s : Utf16} (h : ∀ u ∈ s, u.toNat < 0x80) :
    WellFormed s ∧ s.head? ≠ some bom ∧ (encode s).length = s.length := by
  induction s with
  | nil => exact ⟨trivial, nofun, rfl⟩
  | cons u s ih =>
    have hu := h u List.mem_cons_self
    obtain ⟨hwell, -, hlength⟩ := ih fun v hv => h v (List.mem_cons_of_mem _ hv)
    have hhigh : isHigh u = false := decide_eq_false fun hge => by omega
    have hlow : isLow u = false := decide_eq_false fun hge => by omega
    have hpoint : unitPoint u = u.toNat := by simp [unitPoint, hhigh, hlow]
    have hcode : codePoints (u :: s) = u.toNat :: codePoints s := by
      cases s with
      | nil => exact congrArg (· :: []) hpoint
      | cons v s => rw [codePoints_unit (by simp [hhigh]), hpoint]
    refine ⟨wellFormed_cons hhigh hlow hwell, ?_, ?_⟩
    · rw [List.head?_cons]
      rintro hbom
      cases hbom
      exact absurd hu (by decide)
    · rw [encode, hcode, List.flatMap_cons, List.length_append, utf8, if_pos hu]
      exact (Nat.add_comm ..).trans (congrArg (· + 1) hlength)

/-- An ASCII string is decoded without an error. -/
theorem decodeFatal_ascii {s : Utf16} (h : ∀ u ∈ s, u.toNat < 0x80) : decodeFatal (encode s) = some s := by
  obtain ⟨hwell, hbom, -⟩ := encode_ascii h
  refine decodeFatal_encode hwell hbom fun hmem => ?_
  rw [codePoints_ascii h] at hmem
  obtain ⟨u, hu, heq⟩ := List.mem_map.mp hmem
  have hlt := h u hu
  rw [heq] at hlt
  exact absurd hlt (by decide)

end Unicode
