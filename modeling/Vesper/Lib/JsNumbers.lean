import Mathlib.Algebra.Group.Int.Defs
import Mathlib.Algebra.Group.Nat.Defs
import Mathlib.Data.List.TakeWhile
import Mathlib.Tactic.Common

/-!
# Integers in JavaScript

The bitwise operators, which work on 32 bits and return a signed number, except for `>>>`; and `parseInt`
on texts of digits.
-/

namespace Js

/-! ## Bitwise operators -/

/-- `ToInt32`, as bits. -/
abbrev bits (n : Int) : BitVec 32 := BitVec.ofInt 32 n

def not (a : Int) : Int := (~~~ bits a).toInt

def and (a b : Int) : Int := (bits a &&& bits b).toInt

def or (a b : Int) : Int := (bits a ||| bits b).toInt

/-- `a << n`, which uses the low five bits of `n`. -/
def shl (a n : Int) : Int := (bits a <<< ((bits n).toNat % 32)).toInt

/-- `a >> n` -/
def shr (a n : Int) : Int := ((bits a).sshiftRight ((bits n).toNat % 32)).toInt

/-- `a >>> n` -/
def ushr (a n : Int) : Int := (bits a >>> ((bits n).toNat % 32)).toNat

@[simp] theorem bits_toInt (v : BitVec 32) : bits v.toInt = v := BitVec.ofInt_toInt

@[simp] theorem bits_natCast (n : Nat) : bits n = BitVec.ofNat 32 n := BitVec.ofInt_natCast 32 n

theorem bits_toNat (v : BitVec 32) : bits v.toNat = v := by
  rw [bits_natCast, BitVec.ofNat_toNat, BitVec.setWidth_eq]

theorem shift_count {n : Nat} (h : n < 32) : (bits n).toNat % 32 = n := by
  rw [bits_natCast, BitVec.toNat_ofNat]
  omega

theorem and_low {n k : Nat} (hn : n < 2 ^ 31) (hk : k < 32) : and n (2 ^ k - 1 : Nat) = (n % 2 ^ k : Nat) := by
  have hpow : 2 ^ k ≤ 2 ^ 31 := Nat.pow_le_pow_right (by decide) (by omega)
  have hmod : n % 2 ^ k < 2 ^ k := Nat.mod_lt _ (Nat.two_pow_pos k)
  have htoNat : (bits n &&& bits (2 ^ k - 1 : Nat)).toNat = n % 2 ^ k := by
    rw [bits_natCast, bits_natCast, BitVec.toNat_and, BitVec.toNat_ofNat, BitVec.toNat_ofNat,
      Nat.mod_eq_of_lt (by omega), Nat.mod_eq_of_lt (by omega), Nat.and_two_pow_sub_one_eq_mod]
  rw [and, BitVec.toInt_eq_toNat_of_lt (by omega), htoNat]

theorem shr_natCast {n k : Nat} (hn : n < 2 ^ 31) (hk : k < 32) : shr n k = (n / 2 ^ k : Nat) := by
  have hmsb : (bits n).msb = false := by
    rw [bits_natCast, BitVec.msb_eq_false_iff_two_mul_lt, BitVec.toNat_ofNat]
    omega
  have htoNat : ((bits n).sshiftRight k).toNat = n / 2 ^ k := by
    rw [BitVec.sshiftRight_eq_of_msb_false hmsb, BitVec.toNat_ushiftRight, bits_natCast, BitVec.toNat_ofNat,
      Nat.mod_eq_of_lt (by omega), Nat.shiftRight_eq_div_pow]
  have hle : n / 2 ^ k ≤ n := Nat.div_le_self ..
  rw [shr, shift_count hk, BitVec.toInt_eq_toNat_of_lt (by omega), htoNat]

/-! ## Leading bits -/

section
variable {w : Nat}

/-- A mask of ones from bit `k` on keeps what a shift by `k` keeps. -/
theorem and_mask_inj {x y : BitVec w} {k : Nat} :
    x &&& (BitVec.allOnes w <<< k) = y &&& (BitVec.allOnes w <<< k) ↔ x >>> k = y >>> k := by
  constructor
  · intro h
    ext i hi
    rw [BitVec.getElem_ushiftRight, BitVec.getElem_ushiftRight]
    by_cases hw : k + i < w
    · have hbit := congrArg (BitVec.getLsbD · (k + i)) h
      have hle : ¬ k + i < k := by omega
      simpa [hw, hle] using hbit
    · rw [BitVec.getLsbD_of_ge x _ (by omega), BitVec.getLsbD_of_ge y _ (by omega)]
  · intro h
    ext i hi
    by_cases hk : i < k
    · simp [hk]
    · have hbit := congrArg (BitVec.getLsbD · (i - k)) h
      simp only [BitVec.getLsbD_ushiftRight, Nat.add_sub_cancel' (Nat.le_of_not_lt hk)] at hbit
      simpa [hk, hi] using hbit

theorem ushiftRight_inj {x y : BitVec w} {k : Nat} :
    x >>> k = y >>> k ↔ x.toNat / 2 ^ k = y.toNat / 2 ^ k := by
  rw [← BitVec.toNat_inj, BitVec.toNat_ushiftRight, BitVec.toNat_ushiftRight, Nat.shiftRight_eq_div_pow,
    Nat.shiftRight_eq_div_pow]

end

/-! ## `parseInt` -/

/-- The value of a digit in any radix up to 36, and 36 for everything else. -/
def digitValue (c : Char) : Nat :=
  if 48 ≤ c.toNat ∧ c.toNat ≤ 57 then c.toNat - 48
  else if 97 ≤ c.toNat ∧ c.toNat ≤ 122 then c.toNat - 87
  else if 65 ≤ c.toNat ∧ c.toNat ≤ 90 then c.toNat - 55
  else 36

/-- The digits at the front of a text without white space, sign or `0x`; `none` is `NaN`. -/
def parseInt (s : List Char) (radix : Nat) : Option Nat :=
  match s.takeWhile (digitValue · < radix) with
  | [] => none
  | digits => some (digits.foldl (fun n c => radix * n + digitValue c) 0)

theorem digitValue_digitChar {d : Nat} (h : d < 16) : digitValue (Nat.digitChar d) = d := by
  have hall : ∀ d : Fin 16, digitValue (Nat.digitChar d) = d := by decide
  exact hall ⟨d, h⟩

variable {radix n : Nat}

theorem digitValue_lt (hradix : 1 < radix) (h16 : radix ≤ 16) {c : Char}
    (hc : c ∈ Nat.toDigits radix n) : digitValue c < radix := by
  induction n using Nat.strongRecOn with
  | _ n ih =>
    rw [Nat.toDigits_eq_if hradix] at hc
    split at hc
    · rw [List.mem_singleton.mp hc, digitValue_digitChar (by omega)]
      assumption
    · rcases List.mem_append.mp hc with hc | hc
      · exact ih (n / radix) (Nat.div_lt_self (by omega) hradix) hc
      · have hmod := Nat.mod_lt n (Nat.lt_trans Nat.zero_lt_one hradix)
        rw [List.mem_singleton.mp hc, digitValue_digitChar (by omega)]
        exact hmod

theorem foldl_toDigits (hradix : 1 < radix) (h16 : radix ≤ 16) :
    (Nat.toDigits radix n).foldl (fun n c => radix * n + digitValue c) 0 = n := by
  induction n using Nat.strongRecOn with
  | _ n ih =>
    rw [Nat.toDigits_eq_if hradix]
    split
    · rw [List.foldl_cons, List.foldl_nil, digitValue_digitChar (by omega), Nat.mul_zero, Nat.zero_add]
    · have hmod := Nat.mod_lt n (Nat.lt_trans Nat.zero_lt_one hradix)
      rw [List.foldl_append, ih _ (Nat.div_lt_self (by omega) hradix), List.foldl_cons, List.foldl_nil,
        digitValue_digitChar (by omega), Nat.div_add_mod]

/-- **What is printed is read back.** -/
theorem parseInt_of_digits {s : List Char} (hne : s ≠ []) (h : ∀ c ∈ s, digitValue c < radix) :
    parseInt s radix = some (s.foldl (fun n c => radix * n + digitValue c) 0) := by
  have hall : s.takeWhile (digitValue · < radix) = s :=
    List.takeWhile_eq_self_iff.mpr fun c hc => decide_eq_true (h c hc)
  rw [parseInt, hall]
  cases s with
  | nil => exact absurd rfl hne
  | cons => rfl

theorem parseInt_toDigits (hradix : 1 < radix) (h16 : radix ≤ 16) :
    parseInt (Nat.toDigits radix n) radix = some n := by
  rw [parseInt_of_digits Nat.toDigits_ne_nil fun c => digitValue_lt hradix h16, foldl_toDigits hradix h16]

end Js
