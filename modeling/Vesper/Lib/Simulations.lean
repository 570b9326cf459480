import Vesper.Lib.Machine

/-!
# Simulations

A machine simulates a more abstract one when each of its steps is a run of the other one, and the two states
stay related. Its runs are then runs of the abstract machine, so that what holds in every state of those runs
holds, through the relation, in every state of its own.
-/

universe u v w x

namespace Machine
variable {σ : Type u} {ε : Type v} {τ : Type w} {δ : Type x} {M : Machine σ ε} {N : Machine τ δ}
  {R : σ → τ → Prop} {I : τ → Prop}

/-- As long as the abstract state meets the invariant `I`, a step of `M` is a run of `N`. -/
structure Simulates (M : Machine σ ε) (N : Machine τ δ) (R : σ → τ → Prop) (I : τ → Prop) : Prop where
  keeps : ∀ t d, I t → N.enabled t d → I (N.next t d)
  step : ∀ s t e, I t → R s t → M.enabled s e → ∃ ds, N.Allowed t ds ∧ R (M.next s e) (N.exec t ds)

/-- The run rule of simulations: a run of `M` is one of `N`. -/
theorem Simulates.run (h : M.Simulates N R I) {s : σ} {t : τ} {es : List ε} (hI : I t) (hR : R s t)
    (hes : M.Allowed s es) : ∃ ds, N.Allowed t ds ∧ I (N.exec t ds) ∧ R (M.exec s es) (N.exec t ds) := by
  induction es generalizing s t with
  | nil => exact ⟨[], trivial, hI, hR⟩
  | cons e es ih =>
    obtain ⟨ds, hds, hnext⟩ := h.step s t e hI hR hes.1
    have hI' : I (N.exec t ds) := Allowed.invariant h.keeps hI hds
    obtain ⟨ds', hds', hI'', hrun⟩ := ih hI' hnext hes.2
    refine ⟨ds ++ ds', allowed_append.mpr ⟨hds, hds'⟩, ?_, ?_⟩
    · rwa [exec_append]
    · rwa [exec_append]

theorem Simulates.reachable (h : M.Simulates N R I) (hI : I N.init) (hR : R M.init N.init) {s : σ}
    (hs : M.Reachable s) : ∃ t, N.Reachable t ∧ I t ∧ R s t := by
  obtain ⟨es, hes, rfl⟩ := reachable_iff.mp hs
  obtain ⟨ds, hds, hI', hrun⟩ := h.run hI hR hes
  exact ⟨_, Reachable.init.exec hds, hI', hrun⟩

end Machine
