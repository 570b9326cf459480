import Mathlib.Data.List.Basic

/-!
# Symbolic cryptography

The free algebra of Diffie-Hellman, HKDF and HMAC terms over a type `N` of public key names, ideal
authenticated encryption over it, and what an attacker derives. Two terms are equal only when they
are built the same way, so every key derivation is injective and one-way; a sealed box opens
under its own key, nonce and associated data and under nothing else.
-/

namespace Symbolic
variable {N : Type}

/-- Key material. `extract` and `expand` are the two halves of HKDF; `cat` and `nil` build the
input of `extract`. -/
inductive Term (N : Type) where
  | bytes (b : List UInt8)
  | atom (n : Nat)
  | dh (a b : N)
  | nil
  | cat (a b : Term N)
  | extract (salt ikm : Term N)
  | expand (prk : Term N) (info : List UInt8) (block : Nat)
  | hmac (key : Term N) (data : List UInt8)
  deriving DecidableEq

namespace Term

/-- The value shared by the key pairs named `a` and `b`; the order of the two does not matter. -/
def shared [Ord N] (a b : N) : Term N := if (compare a b).isLE then dh a b else dh b a

theorem shared_comm [Ord N] [Std.TransOrd N] [Std.LawfulEqOrd N] (a b : N) :
    shared a b = shared b a := by
  have h : compare a b = (compare b a).swap := Std.OrientedOrd.eq_swap
  cases hc : compare b a
  · simp [shared, h, hc]
  · have hab : b = a := Std.LawfulEqCmp.compare_eq_iff_eq.mp hc
    simp [hab]
  · simp [shared, h, hc]

theorem shared_eq_iff [Ord N] [Std.TransOrd N] [Std.LawfulEqOrd N] {a b c d : N} :
    shared a b = shared c d ↔ (a = c ∧ b = d) ∨ (a = d ∧ b = c) := by
  constructor
  · unfold shared
    intro h
    split at h <;> split at h <;> simp_all
  · rintro (⟨rfl, rfl⟩ | ⟨rfl, rfl⟩)
    · rfl
    · exact shared_comm _ _

/-- The inputs of `extract`, in order. -/
def cats : List (Term N) → Term N
  | [] => nil
  | t :: ts => cat t (cats ts)

theorem cats_inj {ts us : List (Term N)} : cats ts = cats us ↔ ts = us := by
  induction ts generalizing us with
  | nil => cases us <;> simp [cats]
  | cons t ts ih => cases us <;> simp [cats, ih]

/-- `s` went into the building of the term. -/
inductive Part (s : Term N) : Term N → Prop
  | refl : Part s s
  | catLeft : Part s a → Part s (cat a b)
  | catRight : Part s b → Part s (cat a b)
  | salt : Part s a → Part s (extract a b)
  | ikm : Part s b → Part s (extract a b)
  | expand : Part s t → Part s (expand t info i)
  | hmac : Part s t → Part s (hmac t data)

def size : Term N → Nat
  | bytes _ | atom _ | dh _ _ | nil => 1
  | cat a b | extract a b => a.size + b.size + 1
  | expand t _ _ | hmac t _ => t.size + 1

theorem Part.size_le {s t : Term N} (h : Part s t) : s.size ≤ t.size := by
  induction h with
  | refl => exact Nat.le_refl _
  | catLeft _ ih | catRight _ ih | salt _ ih | ikm _ ih | expand _ ih | hmac _ ih =>
    simp only [size]
    omega

/-- A part of no smaller size is the whole. -/
theorem Part.eq_of_size_le {s t : Term N} (h : Part s t) (hsize : t.size ≤ s.size) : s = t := by
  cases h with
  | refl => rfl
  | catLeft h | catRight h | salt h | ikm h | expand h | hmac h =>
    have := h.size_le
    simp only [size] at hsize
    omega

end Term

/-- What an attacker derives that holds the secret keys of the names in `broken`. -/
inductive Derives [Ord N] (broken : N → Prop) : Term N → Prop
  | bytes : Derives broken (.bytes b)
  | dh : broken a → Derives broken (.shared a b)
  | nil : Derives broken .nil
  | cat : Derives broken a → Derives broken b → Derives broken (.cat a b)
  | fst : Derives broken (.cat a b) → Derives broken a
  | snd : Derives broken (.cat a b) → Derives broken b
  | extract : Derives broken a → Derives broken b → Derives broken (.extract a b)
  | expand : Derives broken t → Derives broken (.expand t info i)
  | hmac : Derives broken t → Derives broken (.hmac t data)

/-- Nothing is derived without its parts. -/
theorem Derives.part [Ord N] {broken : N → Prop} {s t : Term N} (h : Derives broken t)
    (hs : s.Part t) : Derives broken s := by
  induction h with
  | bytes => cases hs; exact .bytes
  | @dh a b ha =>
    have hself := Derives.dh (b := b) ha
    revert hs hself
    unfold Term.shared
    split <;> exact fun hs hself => by cases hs; exact hself
  | nil => cases hs; exact .nil
  | cat ha hb iha ihb =>
    cases hs with
    | refl => exact .cat ha hb
    | catLeft hs => exact iha hs
    | catRight hs => exact ihb hs
  | fst _ ih => exact ih (.catLeft hs)
  | snd _ ih => exact ih (.catRight hs)
  | extract ha hb iha ihb =>
    cases hs with
    | refl => exact .extract ha hb
    | salt hs => exact iha hs
    | ikm hs => exact ihb hs
  | expand ht ih =>
    cases hs with
    | refl => exact .expand ht
    | expand hs => exact ih hs
  | hmac ht ih =>
    cases hs with
    | refl => exact .hmac ht
    | hmac hs => exact ih hs

/-- An atom is derivable from nothing. -/
theorem Derives.not_atom [Ord N] {broken : N → Prop} {n : Nat} : ¬ Derives broken (.atom n) := by
  suffices h : ∀ t, Derives broken t → ¬ (Term.atom n).Part t from fun hd => h _ hd .refl
  intro t ht hs
  induction ht with
  | bytes | nil => cases hs
  | dh =>
    revert hs
    unfold Term.shared
    split <;> exact fun hs => by cases hs
  | cat _ _ iha ihb =>
    cases hs with
    | catLeft hs => exact iha hs
    | catRight hs => exact ihb hs
  | fst _ ih => exact ih (.catLeft hs)
  | snd _ ih => exact ih (.catRight hs)
  | extract _ _ iha ihb =>
    cases hs with
    | salt hs => exact iha hs
    | ikm hs => exact ihb hs
  | expand _ ih => cases hs with | expand hs => exact ih hs
  | hmac _ ih => cases hs with | hmac hs => exact ih hs

/-- Ciphertexts: a box sealed with a key, or bytes that no seal produced. -/
inductive Sealed (N : Type) where
  | box (key : Term N) (nonce plain aad : List UInt8)
  | raw (b : List UInt8)
  deriving DecidableEq

namespace Sealed

/-- The key of a box. -/
def key? : Sealed N → Option (Term N)
  | .box key .. => some key
  | .raw _ => none

variable [DecidableEq N]

/-- Ideal authenticated decryption. -/
def opened (key : Term N) (nonce aad : List UInt8) : Sealed N → Option (List UInt8)
  | .box key' nonce' plain aad' =>
    if key = key' ∧ nonce = nonce' ∧ aad = aad' then some plain else none
  | .raw _ => none

theorem opened_eq_some_iff {key : Term N} {nonce aad : List UInt8} {c : Sealed N} {p} :
    c.opened key nonce aad = some p ↔ c = .box key nonce p aad := by
  cases c with
  | raw b => simp [opened]
  | box key' nonce' plain aad' =>
    simp only [opened, Option.ite_none_right_eq_some, Option.some.injEq, box.injEq]
    constructor
    · rintro ⟨⟨rfl, rfl, rfl⟩, rfl⟩; exact ⟨rfl, rfl, rfl, rfl⟩
    · rintro ⟨rfl, rfl, rfl, rfl⟩; exact ⟨⟨rfl, rfl, rfl⟩, rfl⟩

/-- The ciphertexts an attacker can put on the wire: those it has seen, raw bytes, and boxes
under keys it derives. -/
inductive Forgeable [Ord N] (broken : N → Prop) (seen : Sealed N → Prop) : Sealed N → Prop
  | seen : seen c → Forgeable broken seen c
  | raw : Forgeable broken seen (.raw b)
  | box : Derives broken key → Forgeable broken seen (.box key nonce plain aad)

end Sealed
end Symbolic
