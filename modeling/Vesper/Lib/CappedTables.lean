import Mathlib.Data.List.Basic
import Mathlib.Data.List.Count

/-!
# Capped tables

A table is a list of rows, and no key is to have more than a given number of them. `append_iff` says when
a row can be added, the other lemmas say what cannot break the cap.
-/

variable {ρ κ : Type*} [DecidableEq κ]

/-- No key has more than `n` rows. -/
def Capped (key : ρ → κ) (n : Nat) (rows : List ρ) : Prop :=
  ∀ k, rows.countP (fun r => key r = k) ≤ n

namespace Capped
variable {key : ρ → κ} {n : Nat} {rows rows' : List ρ} {row : ρ}

theorem nil : Capped key n [] := fun _ => Nat.zero_le n

theorem of_le (h : Capped key n rows)
    (hle : ∀ k, rows'.countP (fun r => key r = k) ≤ rows.countP fun r => key r = k) : Capped key n rows' :=
  fun k => Nat.le_trans (hle k) (h k)

theorem filter (h : Capped key n rows) (p : ρ → Bool) : Capped key n (rows.filter p) :=
  h.of_le fun _ => List.filter_sublist.countP_le

theorem countP_map {f : ρ → ρ} (hf : ∀ r ∈ rows, key (f r) = key r) (k : κ) :
    (rows.map f).countP (fun r => key r = k) = rows.countP fun r => key r = k := by
  rw [List.countP_map]
  refine List.countP_congr fun r hr => ?_
  simp only [Function.comp, hf r hr]

theorem map {f : ρ → ρ} (h : Capped key n rows) (hf : ∀ r ∈ rows, key (f r) = key r) :
    Capped key n (rows.map f) :=
  h.of_le fun k => Nat.le_of_eq (countP_map hf k)

/-- One more row fits if and only if there is room for its key. -/
theorem append_iff (h : Capped key n rows) :
    Capped key n (rows ++ [row]) ↔ rows.countP (fun r => key r = key row) < n := by
  have hcount : ∀ k, (rows ++ [row]).countP (fun r => key r = k) =
      rows.countP (fun r => key r = k) + if key row = k then 1 else 0 := by
    intro k
    rw [List.countP_append, List.countP_singleton]
    simp only [decide_eq_true_eq]
  constructor
  · intro hcapped
    have hrow := hcapped (key row)
    rw [hcount, if_pos rfl] at hrow
    exact hrow
  · intro hroom k
    rw [hcount]
    split
    · subst k
      exact hroom
    · exact h k

end Capped
