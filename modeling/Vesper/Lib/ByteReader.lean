import Mathlib.Algebra.Group.Nat.Defs
import Mathlib.Data.List.Basic
import Mathlib.Tactic.Common

/-!
# Readers of byte formats

A reader takes what it needs from the front of the bytes and leaves the rest, or fails. `Reads r b a`: the
bytes `b` are what `r` takes for the value `a`, whatever follows them. A format is read back once each of its
parts is; `Reads.bind` and `Reads.fold` put the parts together.
-/

namespace ByteReader

/-! ## Big-endian numbers -/

/-- The number that big-endian bytes stand for. -/
def beValue (b : List UInt8) : Nat := b.foldl (fun n x => 256 * n + x.toNat) 0

/-- The last `k` big-endian bytes of a number. -/
def beBytes : Nat → Nat → List UInt8
  | 0, _ => []
  | k + 1, n => .ofNat (n / 256 ^ k) :: beBytes k n

@[simp] theorem length_beBytes (k n : Nat) : (beBytes k n).length = k := by
  induction k with
  | zero => rfl
  | succ k ih => rw [beBytes, List.length_cons, ih]

theorem foldl_beBytes (k n m : Nat) :
    (beBytes k n).foldl (fun n x => 256 * n + x.toNat) m = 256 ^ k * m + n % 256 ^ k := by
  induction k generalizing m with
  | zero => simp [beBytes, Nat.mod_one]
  | succ k ih =>
    have hmod : n % 256 ^ (k + 1) = n % 256 ^ k + 256 ^ k * (n / 256 ^ k % 2 ^ 8) := Nat.mod_pow_succ
    rw [beBytes, List.foldl_cons, ih, UInt8.toNat_ofNat', hmod, Nat.pow_succ, Nat.mul_add,
      ← Nat.mul_assoc, Nat.add_assoc]
    exact congrArg _ (Nat.add_comm ..)

theorem beValue_beBytes {k n : Nat} (h : n < 256 ^ k) : beValue (beBytes k n) = n := by
  rw [beValue, foldl_beBytes, Nat.mul_zero, Nat.zero_add, Nat.mod_eq_of_lt h]

theorem beValue_lt (b : List UInt8) : beValue b < 256 ^ b.length := by
  suffices h : ∀ m, b.foldl (fun n x => 256 * n + x.toNat) m < 256 ^ b.length * (m + 1) by
    simpa [beValue] using h 0
  induction b with
  | nil => exact fun m => by simp
  | cons x b ih =>
    intro m
    have hx : x.toNat < 256 := x.toNat_lt
    calc b.foldl (fun n x => 256 * n + x.toNat) (256 * m + x.toNat)
        < 256 ^ b.length * (256 * m + x.toNat + 1) := ih _
      _ ≤ 256 ^ b.length * (256 * (m + 1)) := Nat.mul_le_mul_left _ (by omega)
      _ = 256 ^ (x :: b).length * (m + 1) := by rw [List.length_cons, Nat.pow_succ, Nat.mul_assoc]

/-! ## Readers -/

/-- What is read, and the bytes left. -/
abbrev Reader (ε α : Type) := StateT (List UInt8) (Except ε) α

section
variable {ε α β σ : Type} (e : ε)

def u8 : Reader ε UInt8
  | [] => .error e
  | v :: rest => .ok (v, rest)

def fixed (n : Nat) : Reader ε (Vector UInt8 n) := fun b =>
  if h : n ≤ b.length then .ok (⟨(b.take n).toArray, by simp [h]⟩, b.drop n) else .error e

def bytes (n : Nat) : Reader ε (List UInt8) := fun b =>
  if n ≤ b.length then .ok (b.take n, b.drop n) else .error e

def u16 : Reader ε UInt16 := do
  let b ← fixed e 2
  return .ofNat (beValue b.toList)

def u32 : Reader ε UInt32 := do
  let b ← fixed e 4
  return .ofNat (beValue b.toList)

/-- Reads `n` entries one after the other. -/
def fold (r : Reader ε α) (f : σ → α → σ) : Nat → σ → Reader ε σ
  | 0, s => pure s
  | n + 1, s => do
    let a ← r
    fold r f n (f s a)

end

/-! ## What is read back -/

section
variable {ε α β σ : Type} {e : ε} {r : Reader ε α} {b b' : List UInt8} {a : α}

/-- The bytes are what the reader takes for the value. -/
def Reads (r : Reader ε α) (b : List UInt8) (a : α) : Prop := ∀ rest, r (b ++ rest) = .ok (a, rest)

theorem Reads.whole (h : Reads r b a) : r b = .ok (a, []) := by
  have := h []
  rwa [List.append_nil] at this

theorem Reads.pure (a : α) : Reads (pure a : Reader ε α) [] a := fun _ => rfl

/-- The reader goes on with what follows the bytes. -/
theorem Reads.run (h : Reads r b a) (f : α → Reader ε β) (rest : List UInt8) :
    (r >>= f) (b ++ rest) = f a rest :=
  congrArg (fun x => x >>= fun p : α × List UInt8 => f p.1 p.2) (h rest)

theorem Reads.bind {f : α → Reader ε β} {c : β} (h : Reads r b a) (h' : Reads (f a) b' c) :
    Reads (r >>= f) (b ++ b') c := by
  intro rest
  rw [List.append_assoc, h.run]
  exact h' rest

/-- The last part of a format. -/
theorem Reads.bind_pure {f : α → Reader ε β} {c : β} (h : Reads r b a) (h' : Reads (f a) [] c) :
    Reads (r >>= f) b c := by
  have := h.bind h'
  rwa [List.append_nil] at this

theorem reads_u8 (v : UInt8) : Reads (u8 e) [v] v := fun _ => rfl

theorem reads_fixed {n : Nat} (v : Vector UInt8 n) : Reads (fixed e n) v.toList v := by
  intro rest
  have hlength : v.toList.length = n := Vector.length_toList
  have htake : (v.toList ++ rest).take n = v.toList := List.take_left' hlength
  have hdrop : (v.toList ++ rest).drop n = rest := List.drop_left' hlength
  have hle : n ≤ (v.toList ++ rest).length := by
    rw [List.length_append]
    omega
  simp only [fixed, dif_pos hle, htake, hdrop]
  rfl

theorem reads_bytes (b : List UInt8) : Reads (bytes e b.length) b b := by
  intro rest
  rw [bytes, if_pos (by simp), List.take_left, List.drop_left]

/-- `k` bytes of a number, as a vector. -/
theorem exists_vector {n : Nat} (b : List UInt8) (h : b.length = n) : ∃ v : Vector UInt8 n, v.toList = b :=
  ⟨⟨b.toArray, by simp [h]⟩, by simp [Vector.toList]⟩

theorem reads_u16 (n : UInt16) : Reads (u16 e) (beBytes 2 n.toNat) n := by
  obtain ⟨v, hv⟩ := exists_vector (beBytes 2 n.toNat) (length_beBytes ..)
  have hvalue : UInt16.ofNat (beValue v.toList) = n := by
    rw [hv, beValue_beBytes n.toNat_lt, UInt16.ofNat_toNat]
  rw [← hv]
  exact (reads_fixed v).bind_pure (hvalue ▸ Reads.pure _)

theorem reads_u32 (n : UInt32) : Reads (u32 e) (beBytes 4 n.toNat) n := by
  obtain ⟨v, hv⟩ := exists_vector (beBytes 4 n.toNat) (length_beBytes ..)
  have hvalue : UInt32.ofNat (beValue v.toList) = n := by
    rw [hv, beValue_beBytes n.toNat_lt, UInt32.ofNat_toNat]
  rw [← hv]
  exact (reads_fixed v).bind_pure (hvalue ▸ Reads.pure _)

theorem Reads.fold {enc : α → List UInt8} {f : σ → α → σ} {l : List α} (h : ∀ a ∈ l, Reads r (enc a) a)
    (s : σ) : Reads (fold r f l.length s) (l.flatMap enc) (l.foldl f s) := by
  induction l generalizing s with
  | nil => exact .pure s
  | cons a l ih =>
    exact (h a List.mem_cons_self).bind (ih (fun a' ha' => h a' (List.mem_cons_of_mem a ha')) (f s a))

end

/-! ## What is read -/

section
variable {ε α β σ : Type} {e : ε} {r : Reader ε α} {b rest : List UInt8}

theorem bind_eq_ok_iff {f : α → Reader ε β} {c : β} :
    (r >>= f) b = .ok (c, rest) ↔ ∃ a left, r b = .ok (a, left) ∧ f a left = .ok (c, rest) := by
  change (r b >>= fun p => f p.1 p.2) = _ ↔ _
  cases r b with
  | error => simp [bind, Except.bind]
  | ok p =>
    constructor
    · exact fun h => ⟨p.1, p.2, rfl, h⟩
    · rintro ⟨a, left, heq, h⟩
      cases heq
      exact h

theorem pure_eq_ok_iff {a c : α} : (pure a : Reader ε α) b = .ok (c, rest) ↔ a = c ∧ b = rest := by
  change Except.ok (a, b) = _ ↔ _
  simp

/-- Every value that the reader returns. -/
def Returns (r : Reader ε α) (Q : α → Prop) : Prop := ∀ b a rest, r b = .ok (a, rest) → Q a

theorem Returns.bind {f : α → Reader ε β} {Q : α → Prop} {R : β → Prop} (h : Returns r Q)
    (hf : ∀ a, Q a → Returns (f a) R) : Returns (r >>= f) R := by
  intro b c rest heq
  obtain ⟨a, left, ha, hc⟩ := bind_eq_ok_iff.mp heq
  exact hf a (h b a left ha) left c rest hc

theorem Returns.pure {Q : α → Prop} {a : α} (h : Q a) : Returns (pure a : Reader ε α) Q := by
  intro b c rest heq
  exact (pure_eq_ok_iff.mp heq).1 ▸ h

theorem returns_true (r : Reader ε α) : Returns r fun _ => True := fun _ _ _ _ => trivial

theorem returns_bytes (n : Nat) : Returns (bytes e n) fun b => b.length = n := by
  intro b a rest h
  unfold bytes at h
  split at h
  · next hle =>
    cases h
    exact List.length_take_of_le hle
  · cases h

/-- What the entries keep holds after reading them. -/
theorem Returns.fold {f : σ → α → σ} {Q : α → Prop} {I : Nat → σ → Prop} (h : Returns r Q)
    (hf : ∀ n s a, I n s → Q a → I (n + 1) (f s a)) (n : Nat) {k : Nat} {s : σ} (hs : I k s) :
    Returns (fold r f n s) (I (k + n)) := by
  induction n generalizing k s with
  | zero => exact .pure hs
  | succ n ih =>
    refine h.bind fun a ha => ?_
    have := ih (hf k s a hs ha)
    rwa [Nat.add_assoc, Nat.add_comm 1 n] at this

end

/-! ## How much is read -/

section
variable {ε α β σ : Type} {e : ε} {r : Reader ε α} {n : Nat}

/-- Together with the `n` bytes that were read before, the reader takes no fewer than the size of its value. -/
def Uses (n : Nat) (r : Reader ε α) (size : α → Nat) : Prop :=
  ∀ b a rest, r b = .ok (a, rest) → size a + rest.length ≤ n + b.length

theorem Uses.bind {f : α → Reader ε β} {size : α → Nat} {size' : β → Nat} (h : Uses 0 r size)
    (hf : ∀ a, Uses (n + size a) (f a) size') : Uses n (r >>= f) size' := by
  intro b c rest heq
  obtain ⟨a, left, ha, hc⟩ := bind_eq_ok_iff.mp heq
  have := h b a left ha
  have := hf a left c rest hc
  omega

theorem Uses.pure {size : α → Nat} {a : α} (h : size a ≤ n) : Uses n (pure a : Reader ε α) size := by
  intro b c rest heq
  obtain ⟨rfl, rfl⟩ := pure_eq_ok_iff.mp heq
  exact Nat.add_le_add_right h _

theorem Uses.throw {size : α → Nat} : Uses n (throw e : Reader ε α) size := fun _ _ _ h => nomatch h

theorem Uses.ite {c : Prop} [Decidable c] {r' : Reader ε α} {size : α → Nat} (h : Uses n r size)
    (h' : Uses n r' size) : Uses n (if c then r else r') size := by
  split
  · exact h
  · exact h'

theorem uses_u8 : Uses 0 (u8 e) fun _ => 1
  | [], _, _, h => nomatch h
  | _ :: b, _, _, h => by
    cases h
    show 1 + b.length ≤ 0 + (b.length + 1)
    omega

theorem uses_fixed (k : Nat) : Uses 0 (fixed e k) fun _ => k := by
  intro b a rest h
  unfold fixed at h
  split at h
  · next hle =>
    cases h
    show k + (b.drop k).length ≤ 0 + b.length
    rw [List.length_drop]
    omega
  · cases h

theorem uses_bytes (k : Nat) : Uses 0 (bytes e k) List.length := by
  intro b a rest h
  unfold bytes at h
  split at h
  · cases h
    rw [List.length_take, List.length_drop]
    omega
  · cases h

theorem uses_u16 : Uses 0 (u16 e) fun _ => 2 := (uses_fixed 2).bind fun _ => .pure (Nat.le_refl _)

theorem uses_u32 : Uses 0 (u32 e) fun _ => 4 := (uses_fixed 4).bind fun _ => .pure (Nat.le_refl _)

/-- Entries that are collected, each of them no longer than what is read for it. -/
theorem Uses.fold {f : σ → α → σ} {size : α → Nat} {total : σ → Nat} (h : Uses 0 r size)
    (hf : ∀ s a, total (f s a) ≤ total s + size a) (k : Nat) {s : σ} (hs : total s ≤ n) :
    Uses n (fold r f k s) total := by
  induction k generalizing n s with
  | zero => exact .pure hs
  | succ k ih => exact h.bind fun a => ih (Nat.le_trans (hf s a) (Nat.add_le_add_right hs _))

end

end ByteReader
