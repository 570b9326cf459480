import Mathlib.Order.Basic

/-!
# Event-driven machines

A machine has an initial state, a total next-state function and a guard that says which events
may happen. `Reachable` collects the states of all its runs and `Reachable.invariant` is the one
induction over runs that the safety theorems use. `restrict` narrows the guard, for results about
the runs whose steps all meet a further condition, `Until` speaks of the steps up to a certain one,
`timed` gives the machine a clock and `record` adds a history.
-/

universe u v

/-- States `σ`, events `ε`: `next` is only meant at events that the guard `enabled` admits. -/
structure Machine (σ : Type u) (ε : Type v) where
  init : σ
  enabled : σ → ε → Prop
  next : σ → ε → σ

namespace Machine
variable {σ : Type u} {ε : Type v} (M : Machine σ ε)

/-- The state after a list of events. -/
def exec (s : σ) (es : List ε) : σ := es.foldl M.next s

/-- Every event of the list is enabled at the state in which it happens. -/
def Allowed (s : σ) : List ε → Prop
  | [] => True
  | e :: es => M.enabled s e ∧ Allowed (M.next s e) es

/-- `P` holds in every state of a run. -/
def Throughout (P : σ → Prop) (s : σ) : List ε → Prop
  | [] => P s
  | e :: es => P s ∧ Throughout P (M.next s e) es

instance decidableAllowed [∀ s e, Decidable (M.enabled s e)] :
    ∀ s es, Decidable (M.Allowed s es)
  | _, [] => .isTrue trivial
  | s, e :: es =>
    have := decidableAllowed (M.next s e) es
    inferInstanceAs (Decidable (M.enabled s e ∧ M.Allowed (M.next s e) es))

inductive Reachable : σ → Prop
  | init : Reachable M.init
  | step : Reachable s → M.enabled s e → Reachable (M.next s e)

variable {M}

@[simp] theorem exec_nil (s : σ) : M.exec s [] = s := rfl

@[simp] theorem exec_cons (s : σ) (e : ε) (es : List ε) :
    M.exec s (e :: es) = M.exec (M.next s e) es := rfl

theorem exec_append (s : σ) (es es' : List ε) :
    M.exec s (es ++ es') = M.exec (M.exec s es) es' := List.foldl_append

theorem allowed_append {s : σ} {es es' : List ε} :
    M.Allowed s (es ++ es') ↔ M.Allowed s es ∧ M.Allowed (M.exec s es) es' := by
  induction es generalizing s with
  | nil => simp [Allowed]
  | cons e es ih => simp [Allowed, ih, and_assoc]

theorem Reachable.exec {s : σ} (h : M.Reachable s) {es : List ε} (hes : M.Allowed s es) :
    M.Reachable (M.exec s es) := by
  induction es generalizing s with
  | nil => exact h
  | cons e es ih => exact ih (h.step hes.1) hes.2

/-- The reachable states are the final states of the allowed runs. -/
theorem reachable_iff {s : σ} :
    M.Reachable s ↔ ∃ es, M.Allowed M.init es ∧ M.exec M.init es = s := by
  constructor
  · intro h
    induction h with
    | init => exact ⟨[], trivial, rfl⟩
    | @step s e _ he ih =>
      obtain ⟨es, hes, rfl⟩ := ih
      exact ⟨es ++ [e], allowed_append.mpr ⟨hes, he, trivial⟩, exec_append ..⟩
  · rintro ⟨es, hes, rfl⟩
    exact Reachable.init.exec hes

/-- **The run rule**: what holds initially and is kept by every enabled step of a reachable state
holds in every reachable state. -/
theorem Reachable.invariant {I : σ → Prop} (h0 : I M.init)
    (hstep : ∀ s e, M.Reachable s → I s → M.enabled s e → I (M.next s e))
    {s : σ} (h : M.Reachable s) : I s := by
  induction h with
  | init => exact h0
  | step hs he ih => exact hstep _ _ hs ih he

/-- The machine whose events must also meet `C`. -/
def restrict (M : Machine σ ε) (C : σ → ε → Prop) : Machine σ ε :=
  { M with enabled := fun s e => M.enabled s e ∧ C s e }

instance {C : σ → ε → Prop} {s : σ} {e : ε} [Decidable (M.enabled s e)] [Decidable (C s e)] :
    Decidable ((M.restrict C).enabled s e) :=
  inferInstanceAs (Decidable (M.enabled s e ∧ C s e))

theorem allowed_restrict_congr {C C' : σ → ε → Prop} (h : ∀ s e, M.enabled s e → (C s e ↔ C' s e))
    {s : σ} {es : List ε} : (M.restrict C).Allowed s es ↔ (M.restrict C').Allowed s es := by
  induction es generalizing s with
  | nil => exact Iff.rfl
  | cons e es ih => exact and_congr (and_congr_right (h s e)) ih

/-- **The rule of exact conditions**: where a step of a run keeps `P` if and only if it meets `C`,
`P` holds throughout the runs whose steps all meet `C`, and throughout no other. `I` is what the
steps that meet `C` keep. -/
theorem throughout_iff_of {P I : σ → Prop} {C : σ → ε → Prop}
    (hI : ∀ s e, I s → P s → M.enabled s e → C s e → I (M.next s e))
    (hC : ∀ s e, I s → P s → M.enabled s e → (P (M.next s e) ↔ C s e))
    {s : σ} {es : List ε} (hs : I s) (hP : P s) (hes : M.Allowed s es) :
    M.Throughout P s es ↔ (M.restrict C).Allowed s es := by
  induction es generalizing s with
  | nil => exact iff_of_true hP trivial
  | cons e es ih =>
    obtain ⟨he, hes⟩ := hes
    have hnext := hC s e hs hP he
    constructor
    · rintro ⟨-, hrest⟩
      have hP' : P (M.next s e) := by
        cases es with
        | nil => exact hrest
        | cons => exact hrest.1
      have hc := hnext.mp hP'
      exact ⟨⟨he, hc⟩, (ih (hI s e hs hP he hc) hP' hes).mp hrest⟩
    · rintro ⟨⟨-, hc⟩, hrest⟩
      exact ⟨hP, (ih (hI s e hs hP he hc) (hnext.mpr hc) hes).mpr hrest⟩

/-- The same, where every step keeps `I`. -/
theorem throughout_iff {P I : σ → Prop} {C : σ → ε → Prop}
    (hI : ∀ s e, I s → M.enabled s e → I (M.next s e))
    (hC : ∀ s e, I s → P s → M.enabled s e → (P (M.next s e) ↔ C s e))
    {s : σ} {es : List ε} (hs : I s) (hP : P s) (hes : M.Allowed s es) :
    M.Throughout P s es ↔ (M.restrict C).Allowed s es :=
  throughout_iff_of (fun s e hs _ he _ => hI s e hs he) hC hs hP hes

/-- What an invariant implies holds throughout every run. -/
theorem throughout_of_invariant {P I : σ → Prop} (hI : ∀ s e, I s → M.enabled s e → I (M.next s e))
    (hP : ∀ s, I s → P s) {s : σ} {es : List ε} (hs : I s) (hes : M.Allowed s es) :
    M.Throughout P s es := by
  induction es generalizing s with
  | nil => exact hP s hs
  | cons e es ih => exact ⟨hP s hs, ih (hI s e hs hes.1) hes.2⟩

theorem Throughout.last {P : σ → Prop} {s : σ} {es : List ε} (h : M.Throughout P s es) :
    P (M.exec s es) := by
  induction es generalizing s with
  | nil => exact h
  | cons e es ih => exact ih h.2

theorem throughout_iff_forall_prefix {P : σ → Prop} {s : σ} {es : List ε} :
    M.Throughout P s es ↔ ∀ es', es' <+: es → P (M.exec s es') := by
  induction es generalizing s with
  | nil =>
    constructor
    · intro h es' hpre
      rw [List.prefix_nil.mp hpre]
      exact h
    · exact fun h => h [] (List.prefix_refl [])
  | cons e es ih =>
    constructor
    · rintro ⟨hs, hrest⟩ es' hpre
      rcases List.prefix_cons_iff.mp hpre with rfl | ⟨rest, rfl, hrest'⟩
      · exact hs
      · exact ih.mp hrest rest hrest'
    · intro h
      refine ⟨h [] (List.nil_prefix), ih.mpr fun rest hrest => ?_⟩
      exact h (e :: rest) (List.cons_prefix_cons.mpr ⟨rfl, hrest⟩)

/-- All steps of a run meet a condition if each does that only follows steps which meet it. -/
theorem allowed_restrict_of_prefixes {C : σ → ε → Prop} {s : σ} {es : List ε} (hes : M.Allowed s es)
    (h : ∀ es' e, es' ++ [e] <+: es → (M.restrict C).Allowed s es' → C (M.exec s es') e) :
    (M.restrict C).Allowed s es := by
  induction es generalizing s with
  | nil => trivial
  | cons e es ih =>
    have hc : C s e := h [] e (List.prefix_append [e] es) trivial
    refine ⟨⟨hes.1, hc⟩, ih hes.2 fun es' e' hpre hes' => ?_⟩
    exact h (e :: es') e' (List.cons_prefix_cons.mpr ⟨rfl, hpre⟩) ⟨⟨hes.1, hc⟩, hes'⟩

theorem allowed_of_enabled (h : ∀ s e, M.enabled s e) (s : σ) (es : List ε) : M.Allowed s es := by
  induction es generalizing s with
  | nil => trivial
  | cons e es ih => exact ⟨h s e, ih _⟩

theorem Allowed.of_append {s : σ} {es es' : List ε} (h : M.Allowed s es) (hpre : es' <+: es) :
    M.Allowed s es' := by
  obtain ⟨rest, rfl⟩ := hpre
  exact (allowed_append.mp h).1

theorem Allowed.of_restrict {C : σ → ε → Prop} {s : σ} {es : List ε}
    (h : (M.restrict C).Allowed s es) : M.Allowed s es := by
  induction es generalizing s with
  | nil => trivial
  | cons e es ih => exact ⟨h.1.1, ih h.2⟩

theorem Allowed.invariant {I : σ → Prop} (hI : ∀ s e, I s → M.enabled s e → I (M.next s e)) {s : σ}
    {es : List ε} (hs : I s) (hes : M.Allowed s es) : I (M.exec s es) := by
  induction es generalizing s with
  | nil => exact hs
  | cons e es ih => exact ih (hI s e hs hes.1) hes.2

theorem throughout_restrict {C : σ → ε → Prop} {P : σ → Prop} {s : σ} {es : List ε} :
    (M.restrict C).Throughout P s es ↔ M.Throughout P s es := by
  induction es generalizing s with
  | nil => exact Iff.rfl
  | cons e es ih => exact and_congr_right fun _ => ih

theorem allowed_restrict_of_forall {C : σ → ε → Prop} {s : σ} {es : List ε} (hes : M.Allowed s es)
    (h : ∀ e ∈ es, ∀ s, C s e) : (M.restrict C).Allowed s es := by
  induction es generalizing s with
  | nil => trivial
  | cons e es ih =>
    exact ⟨⟨hes.1, h e List.mem_cons_self s⟩, ih hes.2 fun e' he' => h e' (List.mem_cons_of_mem e he')⟩

/-- `P` holds throughout the run, and also when it breaks off anywhere and events of `K` follow. -/
def Withstands (M : Machine σ ε) (K : ε → Prop) (P : σ → Prop) (s : σ) (es : List ε) : Prop :=
  ∀ es₁ es₂, es₁ <+: es → (∀ e ∈ es₂, K e) → M.Allowed s (es₁ ++ es₂) → M.Throughout P s (es₁ ++ es₂)

/-- The rule of exact conditions, where a step that misses the condition `C` may do its harm only
when events of `K` follow: those meet the condition themselves. -/
theorem withstands_iff {P I : σ → Prop} {C : σ → ε → Prop} {K : ε → Prop}
    (hI : ∀ s e, I s → M.enabled s e → C s e → I (M.next s e)) (hP : ∀ s, I s → P s)
    (hK : ∀ s e, K e → C s e)
    (hC : ∀ s e, I s → M.enabled s e → ¬C s e →
      ∃ es, (∀ e ∈ es, K e) ∧ M.Allowed (M.next s e) es ∧ ¬P (M.exec (M.next s e) es))
    {s : σ} {es : List ε} (hs : I s) (hes : M.Allowed s es) :
    M.Withstands K P s es ↔ (M.restrict C).Allowed s es := by
  have hkeep : ∀ s e, I s → (M.restrict C).enabled s e → I (M.next s e) :=
    fun s e hs he => hI s e hs he.1 he.2
  constructor
  · intro hwithstands
    refine allowed_restrict_of_prefixes hes fun es' e hpre hes' => by_contra fun hnot => ?_
    have hbefore : I (M.exec s es') := Allowed.invariant hkeep hs hes'
    have hrun := hes.of_append hpre
    obtain ⟨later, hlater, hallowed, hfails⟩ :=
      hC _ e hbefore (allowed_append.mp hrun).2.1 hnot
    have hafter : M.exec s (es' ++ [e]) = M.next (M.exec s es') e := exec_append ..
    refine hfails ?_
    have hlast := (hwithstands _ later hpre hlater
      (allowed_append.mpr ⟨hrun, by rwa [hafter]⟩)).last
    rwa [exec_append, hafter] at hlast
  · intro hall es₁ es₂ hpre hes₂ hallowed
    refine throughout_restrict.mp (throughout_of_invariant hkeep hP hs (allowed_append.mpr ⟨?_, ?_⟩))
    · exact hall.of_append hpre
    · exact allowed_restrict_of_forall (allowed_append.mp hallowed).2 fun e he s => hK s e (hes₂ e he)

/-! ## Until -/

/-- Every step of the run meets `Q`, up to the first that meets `L`. -/
def Until (M : Machine σ ε) (L Q : σ → ε → Prop) : σ → List ε → Prop
  | _, [] => True
  | s, e :: es => L s e ∨ Q s e ∧ M.Until L Q (M.next s e) es

/-- **The rule of exact conditions, until**: from wherever in the run some `P i` holds, `Q i` is met up
to the first step that meets `L i`, if and only if all steps meet `C`. -/
theorem until_iff {ι : Type*} {P : ι → σ → Prop} {L Q : ι → σ → ε → Prop} {C : σ → ε → Prop}
    (hkeep : ∀ i s e, Q i s e → P i (M.next s e))
    (hC : ∀ s e, M.enabled s e → ((∀ i, P i s → L i s e ∨ Q i s e) ↔ C s e))
    {s : σ} {es : List ε} (hes : M.Allowed s es) :
    (∀ es₁ es₂, es₁ ++ es₂ = es → ∀ i, P i (M.exec s es₁) → M.Until (L i) (Q i) (M.exec s es₁) es₂) ↔
      (M.restrict C).Allowed s es := by
  induction es generalizing s with
  | nil =>
    refine iff_of_true (fun es₁ es₂ heq i _ => ?_) trivial
    obtain ⟨rfl, rfl⟩ := List.append_eq_nil_iff.mp heq
    trivial
  | cons e es ih =>
    obtain ⟨he, hes⟩ := hes
    constructor
    · intro huntil
      refine ⟨⟨he, (hC s e he).mp fun i hi => ?_⟩, (ih hes).mp fun es₁ es₂ heq => ?_⟩
      · exact (huntil [] (e :: es) rfl i hi).imp_right And.left
      · exact huntil (e :: es₁) es₂ (congrArg (e :: ·) heq)
    · rintro ⟨⟨-, hc⟩, hrest⟩ es₁ es₂ heq i hi
      have hlater := (ih hes).mpr hrest
      cases es₁ with
      | nil =>
        obtain rfl : es₂ = e :: es := heq
        refine ((hC s e he).mpr hc i hi).imp_right fun hq => ⟨hq, ?_⟩
        exact hlater [] es rfl i (hkeep i s e hq)
      | cons e' es₁ =>
        obtain ⟨rfl, htail⟩ := List.cons.inj heq
        exact hlater es₁ es₂ htail i hi

/-! ## Clocks -/

/-- The machine whose events carry times that never go back; the state keeps the last one. -/
def timed {τ ι : Type*} [LE τ] (M : Machine σ (τ × ι)) (start : τ) : Machine (σ × τ) (τ × ι) where
  init := (M.init, start)
  enabled s e := s.2 ≤ e.1 ∧ M.enabled s.1 e
  next s e := (M.next s.1 e, e.1)

instance {τ ι : Type*} [LE τ] [DecidableLE τ] {M : Machine σ (τ × ι)} {start : τ} {s : σ × τ}
    {e : τ × ι} [Decidable (M.enabled s.1 e)] : Decidable ((M.timed start).enabled s e) :=
  inferInstanceAs (Decidable (_ ∧ _))

/-! ## Histories -/

/-- The machine with a history that every step extends and no step reads. -/
def record (M : Machine σ ε) {η : Type*} (start : η) (log : σ → ε → η → η) : Machine (σ × η) ε where
  init := (M.init, start)
  enabled s e := M.enabled s.1 e
  next s e := (M.next s.1 e, log s.1 e s.2)

section
variable {η : Type*} {start : η} {log : σ → ε → η → η}

instance {s : σ × η} {e : ε} [Decidable (M.enabled s.1 e)] :
    Decidable ((M.record start log).enabled s e) :=
  inferInstanceAs (Decidable (M.enabled s.1 e))

theorem allowed_record {s : σ × η} {es : List ε} :
    (M.record start log).Allowed s es ↔ M.Allowed s.1 es := by
  induction es generalizing s with
  | nil => exact Iff.rfl
  | cons e es ih => exact and_congr_right fun _ => ih

/-- A condition that does not read the history is one on the machine without it. -/
theorem allowed_restrict_record {C : σ → ε → Prop} {s : σ × η} {es : List ε} :
    ((M.record start log).restrict fun s e => C s.1 e).Allowed s es ↔ (M.restrict C).Allowed s.1 es :=
  (allowed_record : ((M.restrict C).record start log).Allowed s es ↔ _)

/-- The rule of exact conditions, for what is said of the history. -/
theorem throughout_record_iff {P I : σ × η → Prop} {C : σ → ε → Prop}
    (hI : ∀ s e, I s → M.enabled s.1 e → I ((M.record start log).next s e))
    (hC : ∀ s e, I s → P s → M.enabled s.1 e → (P ((M.record start log).next s e) ↔ C s.1 e))
    {s : σ × η} {es : List ε} (hs : I s) (hP : P s) (hes : M.Allowed s.1 es) :
    (M.record start log).Throughout P s es ↔ (M.restrict C).Allowed s.1 es :=
  (throughout_iff hI hC hs hP (allowed_record.mpr hes)).trans allowed_restrict_record

end

theorem Reachable.of_restrict {C : σ → ε → Prop} {s : σ} (h : (M.restrict C).Reachable s) :
    M.Reachable s := by
  induction h with
  | init => exact .init
  | step _ he ih => exact ih.step he.1

end Machine

/-- What is in a history after one more entry. -/
theorem getElem?_append_singleton {α : Type} {l : List α} {x y : α} {n : Nat} :
    (l ++ [x])[n]? = some y ↔ l[n]? = some y ∨ n = l.length ∧ y = x := by
  rcases Nat.lt_trichotomy n l.length with hn | rfl | hn
  · rw [List.getElem?_append_left hn]
    exact ⟨.inl, fun h => h.resolve_right fun h => absurd h.1 (Nat.ne_of_lt hn)⟩
  · simp [eq_comm]
  · rw [List.getElem?_eq_none (by simp; omega), List.getElem?_eq_none (Nat.le_of_lt hn)]
    refine iff_of_false (fun heq => by cases heq) ?_
    rintro (heq | ⟨heq, -⟩)
    · cases heq
    · exact absurd heq (Nat.ne_of_gt hn)
