import Vesper.Lib.Machine
import Mathlib.Data.List.Basic

/-!
# Interleaved handlers

A handler works on a store that all handlers share. It runs from one suspension to the next without
interruption, and any handlers may run in between. `Pool.Kept` is what proofs keep of a pool: an
invariant of the store, and an assertion for every suspended handler that the steps of the others do
not disturb.
-/

universe u v w

/-- Handlers of requests `ρ`, suspended at `τ`, over a store `σ`. -/
structure Handlers (σ : Type u) (ρ : Type v) (τ : Type w) where
  start : ρ → τ
  /-- One stretch of a handler, and where it is suspended next, unless it is finished. -/
  run : τ → σ → σ × Option τ

/-- The store, and the handlers that are under way. -/
structure Pool (σ : Type u) (τ : Type w) where
  store : σ
  tasks : List τ
  deriving DecidableEq

inductive PoolEvent (ρ : Type v)
  | call (request : ρ)
  | resume (i : Nat)
  deriving DecidableEq

namespace Pool
variable {σ : Type u} {ρ : Type v} {τ : Type w} (p : Pool σ τ)

/-- The handler at `i` is suspended at `next`, or finished. -/
def put (i : Nat) : Option τ → List τ
  | some next => p.tasks.set i next
  | none => p.tasks.eraseIdx i

/-- The handler that an event resumes meets the condition. -/
def Meets (C : τ → σ → Prop) : PoolEvent ρ → Prop
  | .call _ => True
  | .resume i => ∀ t ∈ p.tasks[i]?, C t p.store

instance {C : τ → σ → Prop} [∀ t s, Decidable (C t s)] : (e : PoolEvent ρ) → Decidable (p.Meets C e)
  | .call _ => .isTrue trivial
  | .resume i => inferInstanceAs (Decidable (∀ t ∈ p.tasks[i]?, C t p.store))

/-- The store meets `I`, and what is asserted at every suspended handler holds. -/
structure Kept (I : σ → Prop) (A : τ → σ → Prop) : Prop where
  store : I p.store
  tasks : ∀ t ∈ p.tasks, A t p.store

theorem mem_put {p : Pool σ τ} {i : Nat} {next : Option τ} {t : τ} (h : t ∈ p.put i next) :
    t ∈ p.tasks ∨ t ∈ next := by
  cases next with
  | none => exact .inl (List.mem_of_mem_eraseIdx h)
  | some next => exact (List.mem_or_eq_of_mem_set h).imp_right fun heq => by rw [heq]; rfl

end Pool

namespace Handlers
variable {σ : Type u} {ρ : Type v} {τ : Type w} (h : Handlers σ ρ τ)

def step (p : Pool σ τ) : PoolEvent ρ → Pool σ τ
  | .call request => { p with tasks := p.tasks ++ [h.start request] }
  | .resume i =>
    match p.tasks[i]? with
    | none => p
    | some t => ⟨(h.run t p.store).1, p.put i (h.run t p.store).2⟩

/-- Requests come in at any time, and any handler may be the next to run. -/
def machine (store : σ) : Machine (Pool σ τ) (PoolEvent ρ) where
  init := ⟨store, []⟩
  enabled _ _ := True
  next := h.step

/-- A handler that runs for so many stretches with nothing in between. -/
def alone : Nat → τ → σ → σ
  | 0, _, s => s
  | n + 1, t, s =>
    match h.run t s with
    | (s', none) => s'
    | (s', some t') => alone n t' s'

/-- What a stretch of a handler must do to keep `I` and the assertions `A`: its own assertion is set up
anew, those of the others are not disturbed. -/
structure Stable (I : σ → Prop) (A : τ → σ → Prop) (t : τ) (s : σ) : Prop where
  store : I (h.run t s).1
  next : ∀ t' ∈ (h.run t s).2, A t' (h.run t s).1
  others : ∀ u, A u s → A u (h.run t s).1

variable {h} {I : σ → Prop} {A C : τ → σ → Prop} {p : Pool σ τ} {store : σ}

theorem alone_finishes {t : τ} {s s' : σ} (n : Nat) (hrun : h.run t s = (s', none)) :
    h.alone (n + 1) t s = s' := by
  simp only [alone, hrun]

theorem alone_goes_on {t t' : τ} {s s' : σ} (n : Nat) (hrun : h.run t s = (s', some t')) :
    h.alone (n + 1) t s = h.alone n t' s' := by
  simp only [alone, hrun]

theorem Stable.of_run {t : τ} {s s' : σ} {next : Option τ} (hrun : h.run t s = (s', next)) (hstore : I s')
    (hnext : ∀ t' ∈ next, A t' s') (hothers : ∀ u, A u s → A u s') : h.Stable I A t s := by
  refine ⟨?_, ?_, ?_⟩ <;> rw [hrun]
  · exact hstore
  · exact hnext
  · exact hothers

/-- A stretch that only reads. -/
theorem Stable.of_read {t : τ} {s : σ} {next : Option τ} (hrun : h.run t s = (s, next)) (hstore : I s)
    (hnext : ∀ t' ∈ next, A t' s) : h.Stable I A t s :=
  .of_run hrun hstore hnext fun _ => id

theorem step_finished {i : Nat} (hi : p.tasks[i]? = none) : h.step p (.resume i) = p := by
  simp only [step, hi]

theorem step_resumed {i : Nat} {t : τ} (hi : p.tasks[i]? = some t) :
    h.step p (.resume i) = ⟨(h.run t p.store).1, p.put i (h.run t p.store).2⟩ := by
  simp only [step, hi]

/-- **The step rule** of the pool. -/
theorem kept_step (hstart : ∀ r s, I s → A (h.start r) s)
    (hrun : ∀ t s, I s → A t s → C t s → h.Stable I A t s) (hp : p.Kept I A) {e : PoolEvent ρ}
    (he : p.Meets C e) : (h.step p e).Kept I A := by
  cases e with
  | call request =>
    refine ⟨hp.store, fun t ht => ?_⟩
    obtain ht | ht := List.mem_append.mp ht
    · exact hp.tasks t ht
    · rw [List.mem_singleton.mp ht]
      exact hstart request p.store hp.store
  | resume i =>
    cases hi : p.tasks[i]? with
    | none => rwa [step_finished hi]
    | some t =>
      rw [step_resumed hi]
      have hstable := hrun t p.store hp.store (hp.tasks t (List.mem_of_getElem? hi)) (he t hi)
      refine ⟨hstable.store, fun u hu => ?_⟩
      obtain hu | hu := Pool.mem_put hu
      · exact hstable.others u (hp.tasks u hu)
      · exact hstable.next u hu

/-- **The rule of exact conditions** for a property of the store: if the stretches that meet `C` keep the
invariants, and are those that keep the property, then it holds throughout the runs whose stretches all
meet `C`, and throughout no others. -/
theorem throughout_iff {P : σ → Prop} (hstart : ∀ r s, I s → A (h.start r) s)
    (hrun : ∀ t s, I s → A t s → C t s → h.Stable I A t s)
    (hC : ∀ t s, I s → A t s → P s → (P (h.run t s).1 ↔ C t s)) (hp : p.Kept I A) (hP : P p.store)
    (es : List (PoolEvent ρ)) :
    (h.machine store).Throughout (P ·.store) p es ↔
      ((h.machine store).restrict fun p e => p.Meets C e).Allowed p es := by
  refine Machine.throughout_iff_of (I := fun p => p.Kept I A)
    (fun p e hp _ _ he => kept_step hstart hrun hp he) (fun p e hp hP _ => ?_) hp hP
    (Machine.allowed_of_enabled (fun _ _ => trivial) p es)
  show P (h.step p e).store ↔ p.Meets C e
  cases e with
  | call request => exact iff_of_true hP trivial
  | resume i =>
    cases hi : p.tasks[i]? with
    | none =>
      rw [step_finished hi]
      exact iff_of_true hP fun t ht => nomatch hi.symm.trans ht
    | some t =>
      rw [step_resumed hi]
      refine (hC t p.store hp.store (hp.tasks t (List.mem_of_getElem? hi)) hP).trans ?_
      exact ⟨fun hc u hu => Option.some.inj (hi.symm.trans hu) ▸ hc, fun hmeets => hmeets t hi⟩

end Handlers
