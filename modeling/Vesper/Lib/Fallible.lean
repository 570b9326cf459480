import Mathlib.Logic.Basic

/-!
# Calls that may fail

When a call composed of others returns a result.
-/

variable {ε ε' α β : Type}

@[simp] theorem bind_eq_ok {x : Except ε α} {f : α → Except ε β} {b : β} :
    x >>= f = .ok b ↔ ∃ a, x = .ok a ∧ f a = .ok b := by
  cases x <;> simp [bind, Except.bind]

theorem bind_ne_error {x : Except ε α} {f : α → Except ε β} {e : ε} (h : x ≠ .error e)
    (hf : ∀ a, f a ≠ .error e) : x >>= f ≠ .error e := by
  cases x with
  | error e' => exact fun heq => h (congrArg Except.error (Except.error.inj heq))
  | ok a => exact hf a

@[simp] theorem pure_eq_ok {a b : α} : (pure a : Except ε α) = .ok b ↔ a = b := by
  simp [pure, Except.pure]

@[simp] theorem map_eq_ok {x : Except ε α} {f : α → β} {b : β} :
    x.map f = .ok b ↔ ∃ a, x = .ok a ∧ f a = b := by
  cases x <;> simp [Except.map]

@[simp] theorem mapError_eq_ok {x : Except ε α} {f : ε → ε'} {a : α} :
    x.mapError f = .ok a ↔ x = .ok a := by
  cases x with
  | error e => exact iff_of_false (fun heq => by cases heq) fun heq => by cases heq
  | ok b =>
    constructor
    · exact fun heq => congrArg Except.ok (Except.ok.inj heq)
    · exact fun heq => congrArg Except.ok (Except.ok.inj heq)

theorem eq_ok_get {x : Except ε α} (h : x.toOption.isSome) : x = .ok (x.toOption.get h) := by
  cases x with
  | error e => cases h
  | ok a => rfl
