import Mathlib.Data.List.Nodup
import Mathlib.Logic.Function.Basic
import Vesper.Lib.Machine

/-!
# Calls on a shared cell

A call loads a cell, computes from what it loaded, and saves what comes back, if anything. Nothing
keeps other calls from running in between. Such calls are linearizable in every run in which a call
that saves would have done the same on what the cell holds at that moment.
-/

universe u

/-- What a call saves and returns, given what it loaded. -/
abbrev CellCall (σ ρ : Type u) : Type u := σ → Option σ × ρ

namespace CellCall

def map {σ ρ ρ' : Type u} (g : ρ → ρ') (f : CellCall σ ρ) : CellCall σ ρ' := fun v =>
  ((f v).1, g (f v).2)

inductive Phase (σ ρ : Type u) where
  | idle
  | loaded (v : σ)
  | computed (v : σ) (saves : Option σ) (result : ρ)
  | done (result : ρ)

section
variable {σ ρ : Type u}

instance : (p : Phase σ ρ) → Decidable (p = .idle)
  | .idle => .isTrue rfl
  | .loaded _ | .computed _ _ _ | .done _ => .isFalse nofun

instance : (p : Phase σ ρ) → Decidable (∃ result, p = .done result)
  | .done result => .isTrue ⟨result, rfl⟩
  | .idle | .loaded _ | .computed _ _ _ => .isFalse nofun

instance : (p : Phase σ ρ) → Decidable (∀ result, p ≠ .done result)
  | .done result => .isFalse fun h => h result rfl
  | .idle | .loaded _ | .computed _ _ _ => .isTrue nofun

end

/-- The cell, and how far each call is. -/
structure Memory (ι σ ρ : Type u) where
  cell : σ
  phase : ι → Phase σ ρ

variable {ι σ ρ : Type u} (f : ι → CellCall σ ρ)

/-- The calls one after the other: the cell after them, and what each returned. -/
def sequential (v : σ) : List ι → σ × List (ι × ρ)
  | [] => (v, [])
  | i :: is =>
    let (v', results) := sequential ((f i v).1.getD v) is
    (v', (i, (f i v).2) :: results)

/-- No call is under way. -/
def Memory.Quiet (m : Memory ι σ ρ) : Prop := ∀ i, m.phase i = .idle ∨ ∃ result, m.phase i = .done result

/-- The finished calls, run one after the other in some order, return the same and leave the same. -/
def Linearizable (init : σ) (m : Memory ι σ ρ) : Prop :=
  ∃ order : List ι, order.Nodup ∧ (∀ i, i ∈ order ↔ ∃ result, m.phase i = .done result) ∧
    (sequential f init order).1 = m.cell ∧
    ∀ i result, m.phase i = .done result → (i, result) ∈ (sequential f init order).2

/-- A call that is about to save would save and return the same, had it loaded the cell just now. -/
def Current (m : Memory ι σ ρ) (i : ι) : Prop :=
  ∀ v v' result, m.phase i = .computed v (some v') result →
    (f i m.cell).1.getD m.cell = v' ∧ (f i m.cell).2 = result

section
variable {f}

theorem sequential_append (v : σ) (is : List ι) (i : ι) :
    sequential f v (is ++ [i]) =
      ((f i (sequential f v is).1).1.getD (sequential f v is).1,
        (sequential f v is).2 ++ [(i, (f i (sequential f v is).1).2)]) := by
  induction is generalizing v with
  | nil => rfl
  | cons j is ih => simp only [List.cons_append, sequential, ih]

theorem map_sequential (v : σ) (is : List ι) : (sequential f v is).2.map (·.1) = is := by
  induction is generalizing v with
  | nil => rfl
  | cons j is ih => simp only [sequential, List.map_cons, ih]

end

/-- Where a call stands in the order of those that have taken effect. One that saves nothing takes
effect as it loads. -/
def Placed (f : ι → CellCall σ ρ) (order : List ι) (results : List (ι × ρ)) (i : ι) : Phase σ ρ → Prop
  | .idle => i ∉ order
  | .loaded v => ((f i v).1 = none → (i, (f i v).2) ∈ results) ∧ ((f i v).1 ≠ none → i ∉ order)
  | .computed v saves result => (saves, result) = f i v ∧ (saves = none → (i, result) ∈ results) ∧
      (saves ≠ none → i ∉ order)
  | .done result => (i, result) ∈ results

/-- Another call takes effect. -/
theorem Placed.append {f : ι → CellCall σ ρ} {order : List ι} {results : List (ι × ρ)} {i j : ι}
    {r : ρ} {p : Phase σ ρ} (hj : j ≠ i) (h : Placed f order results i p) :
    Placed f (order ++ [j]) (results ++ [(j, r)]) i p := by
  have hmem : ∀ {a : ι × ρ}, a ∈ results → a ∈ results ++ [(j, r)] := List.mem_append_left _
  have hnew : i ∉ order → i ∉ order ++ [j] := by
    intro hi
    simp [hi, Ne.symm hj]
  cases p with
  | idle => exact hnew h
  | loaded v => exact ⟨fun hv => hmem (h.1 hv), fun hv => hnew (h.2 hv)⟩
  | computed v saves result => exact ⟨h.1, fun hv => hmem (h.2.1 hv), fun hv => hnew (h.2.2 hv)⟩
  | done result => exact hmem h

/-- The calls that have taken effect, in order. -/
structure Explains (f : ι → CellCall σ ρ) (init : σ) (order : List ι) (m : Memory ι σ ρ) : Prop where
  nodup : order.Nodup
  cell : (sequential f init order).1 = m.cell
  placed : ∀ i, Placed f order (sequential f init order).2 i (m.phase i)

/-! ## Interleavings -/

variable [DecidableEq ι]

/-- The next step of a call. -/
def advance (m : Memory ι σ ρ) (i : ι) : Memory ι σ ρ :=
  match m.phase i with
  | .idle => { m with phase := Function.update m.phase i (.loaded m.cell) }
  | .loaded v => { m with phase := Function.update m.phase i (.computed v (f i v).1 (f i v).2) }
  | .computed _ saves result =>
    { cell := saves.getD m.cell, phase := Function.update m.phase i (.done result) }
  | .done _ => m

/-- Every interleaving of the steps of the calls. -/
def interleaving (init : σ) : Machine (Memory ι σ ρ) ι where
  init := ⟨init, fun _ => .idle⟩
  enabled m i := ∀ result, m.phase i ≠ .done result
  next := advance f

instance (init : σ) (m : Memory ι σ ρ) (i : ι) : Decidable ((interleaving f init).enabled m i) :=
  inferInstanceAs (Decidable (∀ result, m.phase i ≠ .done result))

variable {f} {init : σ} {m : Memory ι σ ρ} {i : ι} {order : List ι}

/-- A step in which the call takes effect. -/
theorem Explains.effect (h : Explains f init order m) {p : Phase σ ρ} {v : σ} (hi : i ∉ order)
    (hcell : (f i m.cell).1.getD m.cell = v)
    (hplaced : ∀ results, (i, (f i m.cell).2) ∈ results →
      Placed f (order ++ [i]) results i p) :
    Explains f init (order ++ [i]) ⟨v, Function.update m.phase i p⟩ where
  nodup := by
    rw [List.nodup_append]
    refine ⟨h.nodup, List.nodup_singleton i, fun a ha b hb => ?_⟩
    rw [List.mem_singleton.mp hb]
    rintro rfl
    exact hi ha
  cell := by rw [sequential_append, h.cell, hcell]
  placed := by
    intro j
    rw [sequential_append, h.cell]
    by_cases hj : j = i
    · subst hj
      simp only [Function.update_self]
      exact hplaced _ (List.mem_append_right _ (List.mem_singleton.mpr rfl))
    · simp only [Function.update_of_ne hj]
      exact (h.placed j).append (Ne.symm hj)

/-- A step that leaves the order. -/
theorem Explains.silent (h : Explains f init order m) {p : Phase σ ρ}
    (hplaced : Placed f order (sequential f init order).2 i p) :
    Explains f init order { m with phase := Function.update m.phase i p } where
  nodup := h.nodup
  cell := h.cell
  placed := by
    intro j
    by_cases hj : j = i
    · subst hj
      simp only [Function.update_self]
      exact hplaced
    · simp only [Function.update_of_ne hj]
      exact h.placed j

theorem Explains.advance (h : Explains f init order m) (hcurrent : Current f m i) :
    ∃ order', Explains f init order' (advance f m i) := by
  have hplaced := h.placed i
  unfold CellCall.advance
  cases hp : m.phase i with
  | idle =>
    rw [hp] at hplaced
    by_cases hsaves : (f i m.cell).1 = none
    · refine ⟨order ++ [i], h.effect hplaced (by rw [hsaves]; rfl) fun results hmem => ?_⟩
      exact ⟨fun _ => hmem, fun hv => absurd hsaves hv⟩
    · exact ⟨order, h.silent ⟨fun hv => absurd hv hsaves, fun _ => hplaced⟩⟩
  | loaded v =>
    rw [hp] at hplaced
    exact ⟨order, h.silent ⟨rfl, hplaced⟩⟩
  | computed v saves result =>
    rw [hp] at hplaced
    cases saves with
    | none => exact ⟨order, h.silent (hplaced.2.1 rfl)⟩
    | some v' =>
      obtain ⟨hcell, hresult⟩ := hcurrent v v' result hp
      refine ⟨order ++ [i], h.effect (hplaced.2.2 (Option.some_ne_none v')) hcell fun results hmem => ?_⟩
      rwa [hresult] at hmem
  | done result => exact ⟨order, h⟩

/-- What a call has computed is what it does on what it loaded. -/
theorem computed_eq (hm : (interleaving f init).Reachable m) {v : σ} {saves : Option σ} {result : ρ}
    (h : m.phase i = .computed v saves result) : (saves, result) = f i v := by
  induction hm generalizing i v saves result with
  | init => cases h
  | @step m j _ _ ih =>
    replace h : (CellCall.advance f m j).phase i = .computed v saves result := h
    unfold CellCall.advance at h
    by_cases hij : i = j
    · subst hij
      cases hp : m.phase i with
      | computed => simp [hp] at h
      | done => simp [hp] at h
      | idle => simp [hp] at h
      | loaded v₀ =>
        simp only [hp, Function.update_self, Phase.computed.injEq] at h
        obtain ⟨rfl, rfl, rfl⟩ := h
        rfl
    · refine ih (i := i) ?_
      rw [← h]
      cases m.phase j <;> simp only [Function.update_of_ne hij]

/-- **Linearizability**: what an interleaving returns and leaves is what the calls return and leave
one after the other, if each is current when it saves. -/
theorem linearizable_of_current {C : Memory ι σ ρ → ι → Prop}
    (hC : ∀ m i, (interleaving f init).Reachable m → C m i → Current f m i)
    (hm : ((interleaving f init).restrict C).Reachable m) (hquiet : m.Quiet) :
    Linearizable f init m := by
  have hinv : ∃ order, Explains f init order m := by
    refine Machine.Reachable.invariant (M := (interleaving f init).restrict C)
      (I := fun m => ∃ order, Explains f init order m)
      ⟨[], List.nodup_nil, rfl, fun i => List.not_mem_nil⟩ ?_ hm
    rintro m i hm ⟨order, h⟩ ⟨-, hc⟩
    exact h.advance (hC m i hm.of_restrict hc)
  obtain ⟨order, h⟩ := hinv
  refine ⟨order, h.nodup, fun i => ?_, h.cell, fun i result hp => ?_⟩
  · have hplaced := h.placed i
    rcases hquiet i with hp | ⟨result, hp⟩ <;> rw [hp] at hplaced
    · exact iff_of_false hplaced (by simp [hp])
    · refine iff_of_true ?_ ⟨result, hp⟩
      rw [← map_sequential (f := f) init order]
      exact List.mem_map_of_mem hplaced
  · have hplaced := h.placed i
    rw [hp] at hplaced
    exact hplaced

end CellCall
