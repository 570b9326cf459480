import Mathlib.Algebra.Group.Nat.Defs
import Mathlib.Data.List.Basic
import Vesper.Lib.Fallible

/-!
# Slices

Slices of bytes as a compiled program has them: no longer than half of the address space, and read at
positions, by ranges and into arrays, where each of these stops the program with a panic unless the bounds
are kept. Within the bounds they are what they are on lists.
-/

namespace Slices

/-- A `usize` has `bits` bits, and a `u32` fits into it. -/
structure Target where
  bits : Nat
  le_bits : 32 ≤ bits

/-- A slice has at most `isize::MAX` bytes. -/
structure Slice (t : Target) where
  bytes : List UInt8
  length_lt : bytes.length < 2 ^ (t.bits - 1)

def Slice.len {t : Target} (s : Slice t) : Nat := s.bytes.length

/-- The `n` bytes from a position on, as far as there are so many. -/
def Slice.part {t : Target} (s : Slice t) (start n : Nat) : Slice t :=
  ⟨(s.bytes.drop start).take n, by
    have := s.length_lt
    rw [List.length_take, List.length_drop]
    omega⟩

/-- All bytes from a position on. -/
theorem Slice.bytes_part {t : Target} (s : Slice t) (start : Nat) :
    (s.part start (s.len - start)).bytes = s.bytes.drop start := by
  refine List.take_of_length_le ?_
  rw [List.length_drop]
  exact Nat.le_refl _

theorem two_pow_add (t : Target) : 2 ^ (t.bits - 1) + 2 ^ (t.bits - 1) = 2 ^ t.bits := by
  have := t.le_bits
  obtain ⟨n, hn⟩ : ∃ n, t.bits = n + 1 := ⟨t.bits - 1, by omega⟩
  rw [hn, Nat.add_sub_cancel, Nat.pow_succ, Nat.mul_two]

theorem le_two_pow (t : Target) : 2 ^ 31 ≤ 2 ^ (t.bits - 1) :=
  Nat.pow_le_pow_right (by decide) (Nat.sub_le_sub_right t.le_bits 1)

section
variable {ε : Type} (panic : String → ε) {t : Target}

/-- `a + b` -/
def add (t : Target) (a b : Nat) : Except ε Nat :=
  if a + b < 2 ^ t.bits then .ok (a + b) else .error (panic "attempt to add with overflow")

/-- `n as usize` -/
def asUsize (t : Target) (n : Nat) : Nat := n % 2 ^ t.bits

/-- `s[i]` -/
def index (s : Slice t) (i : Nat) : Except ε UInt8 :=
  if h : i < s.bytes.length then .ok s.bytes[i] else .error (panic "index out of bounds")

/-- `&s[start..stop]` -/
def range (s : Slice t) (start stop : Nat) : Except ε (Slice t) :=
  if start ≤ stop ∧ stop ≤ s.bytes.length then .ok (s.part start (stop - start))
  else .error (panic "range out of bounds")

/-- `&s[..stop]` -/
def rangeTo (s : Slice t) (stop : Nat) : Except ε (Slice t) := range panic s 0 stop

/-- `&s[start..]` -/
def rangeFrom (s : Slice t) (start : Nat) : Except ε (Slice t) := range panic s start s.len

/-- `s.try_into()`, of an array -/
def tryInto (n : Nat) (s : Slice t) : Option (Vector UInt8 n) :=
  if h : s.bytes.length = n then some ⟨s.bytes.toArray, by simpa⟩ else none

/-- `unwrap()` -/
def unwrap {α : Type} : Option α → Except ε α
  | some a => .ok a
  | none => .error (panic "called unwrap() on an Err value")

/-- `s[start..stop].try_into().unwrap()` -/
def array (n : Nat) (s : Slice t) (start stop : Nat) : Except ε (Vector UInt8 n) := do
  unwrap panic (tryInto n (← range panic s start stop))

/-- What `copy_from_slice` makes of an array of `n` bytes. -/
def copyFromSlice (n : Nat) (s : Slice t) : Except ε (Vector UInt8 n) :=
  if h : s.bytes.length = n then .ok ⟨s.bytes.toArray, by simpa⟩
  else .error (panic "source slice length does not match destination slice length")

end

section
variable {ε : Type} {panic : String → ε} {t : Target} {s : Slice t} {a b i n start stop : Nat}

theorem add_eq (h : a + b < 2 ^ t.bits) : add panic t a b = .ok (a + b) := if_pos h

theorem asUsize_eq (h : n < 2 ^ 32) : asUsize t n = n :=
  Nat.mod_eq_of_lt (Nat.lt_of_lt_of_le h (Nat.pow_le_pow_right (by decide) t.le_bits))

theorem index_eq (h : i < s.bytes.length) : index panic s i = .ok s.bytes[i] := dif_pos h

theorem range_eq (h : start + n = stop) (h' : stop ≤ s.bytes.length) :
    range panic s start stop = .ok (s.part start n) := by
  rw [range, if_pos ⟨by omega, h'⟩, ← h, Nat.add_sub_cancel_left]

theorem rangeFrom_eq (h : start ≤ s.bytes.length) :
    rangeFrom panic s start = .ok (s.part start (s.len - start)) :=
  if_pos ⟨h, Nat.le_refl _⟩

theorem length_part (h : start + n ≤ s.bytes.length) : (s.part start n).bytes.length = n := by
  rw [Slice.part, List.length_take, List.length_drop]
  omega

theorem size_part (h : start + n ≤ s.bytes.length) : ((s.bytes.drop start).take n).toArray.size = n :=
  length_part h

theorem tryInto_part (h : start + n ≤ s.bytes.length) :
    tryInto n (s.part start n) = some ⟨((s.bytes.drop start).take n).toArray, size_part h⟩ :=
  dif_pos (length_part h)

theorem copyFromSlice_part (h : start + n ≤ s.bytes.length) :
    copyFromSlice panic n (s.part start n) = .ok ⟨((s.bytes.drop start).take n).toArray, size_part h⟩ :=
  dif_pos (length_part h)

theorem array_eq (h : start + n = stop) (h' : stop ≤ s.bytes.length) :
    array panic n s start stop = .ok ⟨((s.bytes.drop start).take n).toArray, size_part (by omega)⟩ := by
  rw [array, range_eq h h']
  dsimp only [bind, Except.bind]
  rw [tryInto_part (by omega)]
  rfl

end

end Slices
