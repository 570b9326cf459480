import Vesper.Lib.SymbolicTerms

/-!
# What an attacker derives from key material

`Deduces broken known` closes the terms `known` under the operations of the algebra; `bytes` stands
for all that is public, what headers and opened boxes show included. Keys are never concatenations,
so nothing known is taken apart: `Composed` reads off the shape of a term how it can have been
deduced, and secrecy proofs descend along it.
-/

namespace Symbolic
variable {N : Type}

/-- A term that is neither a list of inputs nor a bare Diffie-Hellman output. -/
def Term.IsKey : Term N → Prop
  | .cat .. | .dh .. => False
  | _ => True

theorem not_isKey_shared [Ord N] {a b : N} : ¬ (Term.shared a b).IsKey := by
  unfold Term.shared
  split <;> exact id

/-- What is derived from the terms `known` with the secret keys of the names in `broken`. -/
inductive Deduces [Ord N] (broken : N → Prop) (known : Term N → Prop) : Term N → Prop
  | known : known t → Deduces broken known t
  | bytes : Deduces broken known (.bytes b)
  | dh : broken a → Deduces broken known (.shared a b)
  | nil : Deduces broken known .nil
  | cat : Deduces broken known a → Deduces broken known b → Deduces broken known (.cat a b)
  | fst : Deduces broken known (.cat a b) → Deduces broken known a
  | snd : Deduces broken known (.cat a b) → Deduces broken known b
  | extract : Deduces broken known a → Deduces broken known b →
    Deduces broken known (.extract a b)
  | expand : Deduces broken known t → Deduces broken known (.expand t info i)
  | hmac : Deduces broken known t → Deduces broken known (.hmac t data)

section
variable [Ord N] (broken : N → Prop) (known : Term N → Prop)

/-- Known, or put together from parts of which the same holds. -/
def Composed : Term N → Prop
  | .bytes _ | .nil => True
  | .atom n => known (.atom n)
  | .dh a b => known (.dh a b) ∨ ∃ x y, broken x ∧ Term.shared x y = .dh a b
  | .cat a b => Composed a ∧ Composed b
  | .extract a b => known (.extract a b) ∨ Composed a ∧ Composed b
  | .expand t info i => known (.expand t info i) ∨ Composed t
  | .hmac t data => known (.hmac t data) ∨ Composed t

variable {broken known} {t a b : Term N}

theorem Composed.of_known (hkey : ∀ t, known t → t.IsKey) (h : known t) :
    Composed broken known t := by
  cases t with
  | bytes | nil => trivial
  | atom => exact h
  | dh | cat => exact absurd (hkey _ h) id
  | extract | expand | hmac => exact .inl h

theorem Composed.shared {x y : N} (h : broken x) : Composed broken known (.shared x y) := by
  have hself : ∃ x' y', broken x' ∧ Term.shared x' y' = Term.shared x y := ⟨x, y, h, rfl⟩
  revert hself
  generalize hs : Term.shared x y = s
  intro hself
  cases s with
  | dh => exact .inr hself
  | _ => unfold Term.shared at hs; split at hs <;> cases hs

/-- Whatever is deduced is composed, as keys are all that is known. -/
theorem Deduces.composed (hkey : ∀ t, known t → t.IsKey) (h : Deduces broken known t) :
    Composed broken known t := by
  induction h with
  | known h => exact .of_known hkey h
  | bytes | nil => trivial
  | dh h => exact .shared h
  | cat _ _ iha ihb => exact ⟨iha, ihb⟩
  | fst _ ih => exact ih.1
  | snd _ ih => exact ih.2
  | extract _ _ iha ihb => exact .inr ⟨iha, ihb⟩
  | expand _ ih | hmac _ ih => exact .inr ih

/-- What is composed is deduced. -/
theorem Composed.deduces (h : Composed broken known t) : Deduces broken known t := by
  induction t with
  | bytes => exact .bytes
  | nil => exact .nil
  | atom => exact .known h
  | dh a b =>
    rcases h with h | ⟨x, y, hx, heq⟩
    · exact .known h
    · exact heq ▸ .dh hx
  | cat a b iha ihb => exact .cat (iha h.1) (ihb h.2)
  | extract a b iha ihb => exact h.elim .known fun h => .extract (iha h.1) (ihb h.2)
  | expand t info i ih => exact h.elim .known fun h => .expand (ih h)
  | hmac t data ih => exact h.elim .known fun h => .hmac (ih h)

/-- A known term is of use only for what it went into. -/
theorem Composed.without {known' : Term N → Prop} (h : Composed broken known' t)
    (hpart : ∀ k, known' k → k.Part t → known k) : Composed broken known t := by
  induction t with
  | bytes | nil => trivial
  | atom => exact hpart _ h .refl
  | dh a b => exact h.imp (hpart _ · .refl) id
  | cat a b iha ihb =>
    exact ⟨iha h.1 fun k hk hp => hpart k hk (.catLeft hp), ihb h.2 fun k hk hp => hpart k hk (.catRight hp)⟩
  | extract a b iha ihb =>
    exact h.imp (hpart _ · .refl) fun h =>
      ⟨iha h.1 fun k hk hp => hpart k hk (.salt hp), ihb h.2 fun k hk hp => hpart k hk (.ikm hp)⟩
  | expand t info i ih => exact h.imp (hpart _ · .refl) fun h => ih h fun k hk hp => hpart k hk (.expand hp)
  | hmac t data ih => exact h.imp (hpart _ · .refl) fun h => ih h fun k hk hp => hpart k hk (.hmac hp)

/-- What no known term went into is derived without them. -/
theorem Composed.derives (h : Composed broken known t) (hpart : ∀ k, known k → ¬ k.Part t) :
    Derives broken t := by
  induction t with
  | bytes => exact .bytes
  | nil => exact .nil
  | atom => exact absurd .refl (hpart _ h)
  | dh a b =>
    obtain ⟨x, y, hx, heq⟩ := h.resolve_left fun h => hpart _ h .refl
    exact heq ▸ .dh hx
  | cat a b iha ihb =>
    exact .cat (iha h.1 fun k hk hp => hpart k hk (.catLeft hp))
      (ihb h.2 fun k hk hp => hpart k hk (.catRight hp))
  | extract a b iha ihb =>
    obtain ⟨ha, hb⟩ := h.resolve_left fun h => hpart _ h .refl
    exact .extract (iha ha fun k hk hp => hpart k hk (.salt hp))
      (ihb hb fun k hk hp => hpart k hk (.ikm hp))
  | expand t info i ih =>
    exact .expand (ih (h.resolve_left fun h => hpart _ h .refl) fun k hk hp =>
      hpart k hk (.expand hp))
  | hmac t data ih =>
    exact .hmac (ih (h.resolve_left fun h => hpart _ h .refl) fun k hk hp =>
      hpart k hk (.hmac hp))

/-- A shared value takes one of the two secrets, unless it is known itself. -/
theorem Composed.broken_of_shared [Std.TransOrd N] [Std.LawfulEqOrd N] {x y : N}
    (h : Composed broken known (.shared x y)) (hnot : ¬ known (.shared x y)) :
    broken x ∨ broken y := by
  obtain ⟨x', y', hx, heq⟩ : ∃ x' y', broken x' ∧ Term.shared x' y' = Term.shared x y := by
    revert h hnot
    generalize hs : Term.shared x y = s
    intro h hnot
    cases s with
    | dh => exact h.resolve_left hnot
    | _ => unfold Term.shared at hs; split at hs <;> cases hs
  rcases Term.shared_eq_iff.mp heq with ⟨rfl, rfl⟩ | ⟨rfl, rfl⟩
  · exact .inl hx
  · exact .inr hx

end

/-- The ciphertexts that can be made of those seen, of raw bytes, and of the keys that are deduced. -/
inductive Sealed.Makeable [Ord N] (broken : N → Prop) (known : Term N → Prop) (seen : Sealed N → Prop) :
    Sealed N → Prop
  | seen : seen c → Makeable broken known seen c
  | raw : Makeable broken known seen (.raw b)
  | box : Deduces broken known key → Makeable broken known seen (.box key nonce plain aad)

end Symbolic
