import Mathlib.Logic.Basic

/-!
# Programs that write a state and may throw

A program reads and writes a state and ends with a result or an exception. What it wrote before an
exception stays written, as in a service that talks to a database outside a transaction.

`Related` is the logic of two runs, from related states, of programs that must not be told apart:
they throw the same exception or return related results, and leave related states. There is one
rule for every way to compose programs. `Oblivious` is its diagonal, `Triple` the logic of one run and
`Keeps` the logic of what a run leaves alone.
-/

universe u

/-- Programs over states `σ` that throw `ε` or return `α`. -/
abbrev Program (σ ε α : Type u) : Type u := ExceptT ε (StateM σ) α

namespace Program
variable {σ τ ε α β : Type u}

/-- The outcome of a program, and the state it leaves. -/
def exec (m : Program σ ε α) (s : σ) : Except ε α × σ := m.run.run s

/-- Reads the state. -/
def reads (f : σ → α) : Program σ ε α := do return f (← get)

/-- Throws unless the condition holds. -/
def demand (c : Prop) [Decidable c] (e : ε) : Program σ ε PUnit :=
  if c then return ⟨⟩ else throw e

/-- Throws unless there is a value. -/
def orThrow (o : Option α) (e : ε) : Program σ ε α :=
  match o with
  | some a => return a
  | none => throw e

/-- Returns or throws what was computed without the state. -/
def await (x : Except ε α) : Program σ ε α :=
  match x with
  | .ok a => return a
  | .error e => throw e

/-- Runs the program if the condition holds. -/
def when (c : Prop) [Decidable c] (m : Program σ ε PUnit) : Program σ ε PUnit :=
  if c then m else return ⟨⟩

/-- A program on a part of the state. -/
def zoom (part : τ → σ) (put : τ → σ → τ) (m : Program σ ε α) : Program τ ε α := do
  let (r, s) ← reads fun t => m.exec (part t)
  modify fun t => put t s
  match r with
  | .ok a => return a
  | .error e => throw e

section
variable (m : Program σ ε α) (k : α → Program σ ε β) (handler : ε → Program σ ε α) (s : σ)

@[simp] theorem exec_pure (a : α) : (pure a : Program σ ε α).exec s = (.ok a, s) := rfl

@[simp] theorem exec_throw (e : ε) : (throw e : Program σ ε α).exec s = (.error e, s) := rfl

@[simp] theorem exec_reads (f : σ → α) : (reads f : Program σ ε α).exec s = (.ok (f s), s) := rfl

@[simp] theorem exec_modify (f : σ → σ) :
    (modify f : Program σ ε PUnit).exec s = (.ok ⟨⟩, f s) := rfl

@[simp] theorem exec_await (x : Except ε α) :
    (await x : Program σ ε α).exec s = (x, s) := by
  cases x <;> rfl

theorem exec_bind : (m >>= k).exec s = match m.exec s with
    | (.ok a, s') => (k a).exec s'
    | (.error e, s') => (.error e, s') := by
  show ExceptT.bindCont k (m s).1 (m s).2 = _
  rw [show m.exec s = m s from rfl]
  rcases m s with ⟨_ | _, _⟩ <;> rfl

variable {m k s} in
theorem exec_bind_ok {a : α} {s' : σ} (h : m.exec s = (.ok a, s')) : (m >>= k).exec s = (k a).exec s' := by
  rw [exec_bind, h]

variable {m k s} in
theorem exec_bind_error {e : ε} {s' : σ} (h : m.exec s = (.error e, s')) : (m >>= k).exec s = (.error e, s') := by
  rw [exec_bind, h]

variable {k s} in
theorem exec_await_bind_ok {x : Except ε α} {a : α} (h : x = .ok a) : (await x >>= k).exec s = (k a).exec s :=
  exec_bind_ok (by rw [exec_await, h])

variable {k s} in
theorem exec_await_bind_error {x : Except ε α} {e : ε} (h : x = .error e) :
    (await x >>= k).exec s = (.error e, s) :=
  exec_bind_error (by rw [exec_await, h])

variable {m k s} in
theorem result_bind {b : β} : ((m >>= k).exec s).1 = .ok b ↔
    ∃ a, (m.exec s).1 = .ok a ∧ ((k a).exec (m.exec s).2).1 = .ok b := by
  rw [exec_bind]
  rcases m.exec s with ⟨_ | a, s'⟩
  · exact iff_of_false nofun fun ⟨_, h, _⟩ => nomatch h
  · constructor
    · exact fun h => ⟨a, rfl, h⟩
    · rintro ⟨_, ⟨⟩, h⟩
      exact h

variable {m s} in
theorem result_map {f : α → β} : ((m >>= fun a => pure (f a)).exec s).1 = (m.exec s).1.map f := by
  rw [exec_bind]
  rcases m.exec s with ⟨_ | _, _⟩ <;> rfl

theorem exec_tryCatch : (tryCatch m handler).exec s = match m.exec s with
    | (.ok a, s') => (.ok a, s')
    | (.error e, s') => (handler e).exec s' := by
  show ExceptT.tryCatch m handler s = _
  rw [show m.exec s = m s from rfl]
  rcases h : m s with ⟨_ | _, _⟩ <;>
    simp only [ExceptT.tryCatch, ExceptT.mk, bind, StateT.bind, h] <;> rfl

theorem exec_demand (c : Prop) [Decidable c] (e : ε) :
    (demand c e : Program σ ε PUnit).exec s = (if c then .ok ⟨⟩ else .error e, s) := by
  unfold demand
  split <;> rfl

theorem exec_zoom (part : τ → σ) (put : τ → σ → τ) (t : τ) : (zoom part put m).exec t =
    ((m.exec (part t)).1, put t (m.exec (part t)).2) := by
  unfold zoom
  rw [exec_bind]
  simp only [exec_reads]
  rcases m.exec (part t) with ⟨_ | _, _⟩ <;> rfl

end

/-! ## Two runs -/

/-- The same exception, or results that `V` relates. -/
def Alike (V : α → α → Prop) : Except ε α → Except ε α → Prop
  | .ok a, .ok b => V a b
  | .error e, .error e' => e = e'
  | _, _ => False

/-- From states that `R` relates, the programs end alike, in states that `R` relates. -/
def Related (R : σ → σ → Prop) (V : α → α → Prop) (m m' : Program σ ε α) : Prop :=
  ∀ s t, R s t → Alike V (m.exec s).1 (m'.exec t).1 ∧ R (m.exec s).2 (m'.exec t).2

namespace Related
variable {R : σ → σ → Prop} {V V' : α → α → Prop} {W : β → β → Prop} {m m' : Program σ ε α}
  {k k' : α → Program σ ε β}

protected theorem pure {a b : α} (h : V a b) : Related R V (pure a : Program σ ε α) (pure b) :=
  fun _ _ hst => ⟨h, hst⟩

protected theorem throw (e : ε) : Related R V (throw e) (throw e) :=
  fun _ _ hst => ⟨rfl, hst⟩

protected theorem reads {f f' : σ → α} (h : ∀ s t, R s t → V (f s) (f' t)) :
    Related R V (reads f : Program σ ε α) (reads f') :=
  fun s t hst => ⟨h s t hst, hst⟩

protected theorem modify {f f' : σ → σ} (h : ∀ s t, R s t → R (f s) (f' t)) :
    Related R (fun _ _ => True) (modify f : Program σ ε PUnit) (modify f') :=
  fun s t hst => ⟨trivial, h s t hst⟩

protected theorem demand {c c' : Prop} [Decidable c] [Decidable c'] (h : c ↔ c') (e : ε) :
    Related R (fun _ _ => c ∧ c') (demand c e) (demand c' e) := by
  intro s t hst
  rw [exec_demand, exec_demand]
  by_cases hc : c
  · rw [if_pos hc, if_pos (h.mp hc)]
    exact ⟨⟨hc, h.mp hc⟩, hst⟩
  · rw [if_neg hc, if_neg (mt h.mpr hc)]
    exact ⟨rfl, hst⟩

protected theorem orThrow (o : Option α) (e : ε) :
    Related R (fun a b => a = b ∧ o = some a) (orThrow o e) (orThrow o e) := by
  cases o with
  | none => exact .throw e
  | some a => exact .pure ⟨rfl, rfl⟩

theorem orThrowOf {o o' : Option α} (h : o.isSome = o'.isSome) (e : ε) :
    Related R (fun a b => o = some a ∧ o' = some b) (orThrow o e) (orThrow o' e) := by
  rcases o with _ | a <;> rcases o' with _ | b <;> try cases h
  · exact .throw e
  · exact .pure ⟨rfl, rfl⟩

protected theorem bind (h : Related R V m m') (hk : ∀ a b, V a b → Related R W (k a) (k' b)) :
    Related R W (m >>= k) (m' >>= k') := by
  intro s t hst
  obtain ⟨halike, hR⟩ := h s t hst
  rw [exec_bind, exec_bind]
  rcases hm : m.exec s with ⟨e | a, s'⟩ <;> rcases hm' : m'.exec t with ⟨e' | b, t'⟩ <;>
    rw [hm, hm'] at halike hR
  · exact ⟨halike, hR⟩
  · exact halike.elim
  · exact halike.elim
  · exact hk a b halike s' t' hR

theorem rescue {c c' : ε → Program σ ε α} (h : Related R V m m')
    (hc : ∀ e, Related R V (c e) (c' e)) : Related R V (tryCatch m c) (tryCatch m' c') := by
  intro s t hst
  obtain ⟨halike, hR⟩ := h s t hst
  rw [exec_tryCatch, exec_tryCatch]
  rcases hm : m.exec s with ⟨e | a, s'⟩ <;> rcases hm' : m'.exec t with ⟨e' | b, t'⟩ <;>
    rw [hm, hm'] at halike hR
  · obtain rfl : e = e' := halike
    exact hc e s' t' hR
  · exact halike.elim
  · exact halike.elim
  · exact ⟨halike, hR⟩

theorem weaken (h : Related R V m m') (hV : ∀ a b, V a b → V' a b) : Related R V' m m' := by
  intro s t hst
  obtain ⟨halike, hR⟩ := h s t hst
  refine ⟨?_, hR⟩
  rcases hm : (m.exec s).1 with e | a <;> rcases hm' : (m'.exec t).1 with e' | b <;>
    rw [hm, hm'] at halike
  · exact halike
  · exact halike.elim
  · exact halike.elim
  · exact hV a b halike

protected theorem zoom {R' : τ → τ → Prop} {part : τ → σ} {put : τ → σ → τ} (h : Related R V m m')
    (hpart : ∀ s t, R' s t → R (part s) (part t))
    (hput : ∀ s t a b, R' s t → R a b → R' (put s a) (put t b)) :
    Related R' V (m.zoom part put) (m'.zoom part put) := by
  intro s t hst
  obtain ⟨halike, hR⟩ := h (part s) (part t) (hpart s t hst)
  rw [exec_zoom, exec_zoom]
  exact ⟨halike, hput s t _ _ hst hR⟩

end Related

/-! ## One program in two runs -/

/-- The program cannot tell apart states that `R` relates, and what it returns has `Q`. -/
def Oblivious (R : σ → σ → Prop) (m : Program σ ε α) (Q : α → Prop) : Prop :=
  Related R (fun a b => a = b ∧ Q a) m m

namespace Oblivious
variable {R : σ → σ → Prop} {Q Q' : α → Prop} {m : Program σ ε α} {k : α → Program σ ε β}
  {V : β → β → Prop} {P : β → Prop}

protected theorem pure {a : α} (h : Q a) : Oblivious R (pure a : Program σ ε α) Q :=
  Related.pure ⟨rfl, h⟩

protected theorem throw (e : ε) : Oblivious R (throw e) Q := Related.throw e

protected theorem reads {f : σ → α} (h : ∀ s t, R s t → f s = f t) :
    Oblivious R (reads f : Program σ ε α) fun a => ∃ s t, R s t ∧ f s = a :=
  Related.reads fun s t hst => ⟨h s t hst, s, t, hst, rfl⟩

protected theorem modify {f : σ → σ} (h : ∀ s t, R s t → R (f s) (f t)) :
    Oblivious R (modify f : Program σ ε PUnit) fun _ => True :=
  (Related.modify h).weaken fun _ _ _ => ⟨rfl, trivial⟩

protected theorem demand (c : Prop) [Decidable c] (e : ε) :
    Oblivious R (demand c e) fun _ => c :=
  (Related.demand Iff.rfl e).weaken fun _ _ h => ⟨rfl, h.1⟩

protected theorem orThrow (o : Option α) (e : ε) :
    Oblivious R (orThrow o e) fun a => o = some a :=
  Related.orThrow o e

theorem bindRelated {k' : α → Program σ ε β} (h : Oblivious R m Q)
    (hk : ∀ a, Q a → Related R V (k a) (k' a)) : Related R V (m >>= k) (m >>= k') :=
  Related.bind h fun a _ hab => hab.1 ▸ hk a hab.2

protected theorem bind (h : Oblivious R m Q) (hk : ∀ a, Q a → Oblivious R (k a) P) :
    Oblivious R (m >>= k) P :=
  h.bindRelated hk

theorem rescue {c : ε → Program σ ε α} (h : Oblivious R m Q) (hc : ∀ e, Oblivious R (c e) Q) :
    Oblivious R (tryCatch m c) Q :=
  Related.rescue h hc

theorem weaken (h : Oblivious R m Q) (hQ : ∀ a, Q a → Q' a) : Oblivious R m Q' :=
  Related.weaken h fun a _ hab => ⟨hab.1, hQ a hab.2⟩

protected theorem when {c : Prop} [Decidable c] {m : Program σ ε PUnit} {q : Prop}
    (h : c → Oblivious R m fun _ => q) : Oblivious R (when c m) fun _ => c → q := by
  unfold Program.when
  split
  · exact (h ‹_›).weaken fun _ hq _ => hq
  · exact .pure fun hc => absurd hc ‹_›

theorem forM {f : β → Program σ ε PUnit} {l : List β}
    (h : ∀ a ∈ l, Oblivious R (f a) fun _ => True) : Oblivious R (l.forM f) fun _ => True := by
  induction l with
  | nil => exact .pure trivial
  | cons a l ih =>
    exact (h a List.mem_cons_self).bind fun _ _ => ih fun b hb => h b (List.mem_cons_of_mem a hb)

protected theorem zoom {R' : τ → τ → Prop} {part : τ → σ} {put : τ → σ → τ}
    (h : Oblivious R m Q) (hpart : ∀ s t, R' s t → R (part s) (part t))
    (hput : ∀ s t a b, R' s t → R a b → R' (put s a) (put t b)) :
    Oblivious R' (m.zoom part put) Q :=
  Related.zoom h hpart hput

/-- The states that the two runs leave are related again. -/
theorem after (h : Oblivious R m Q) {s t : σ} (hst : R s t) : R (m.exec s).2 (m.exec t).2 :=
  (h s t hst).2

end Oblivious

/-! ## One run -/

/-- From states with `P`, a result and the state it comes with have `Q`, the state that comes with
an exception has `E`. -/
def Triple (P : σ → Prop) (m : Program σ ε α) (Q : α → σ → Prop) (E : σ → Prop) : Prop :=
  ∀ s, P s → match m.exec s with
    | (.ok a, s') => Q a s'
    | (.error _, s') => E s'

namespace Triple
variable {P P' : σ → Prop} {Q : α → σ → Prop} {Q' : β → σ → Prop} {E : σ → Prop}
  {m : Program σ ε α} {k : α → Program σ ε β}

protected theorem pure {a : α} (h : ∀ s, P s → Q a s) : Triple P (pure a : Program σ ε α) Q E := h

protected theorem throw {e : ε} (h : ∀ s, P s → E s) : Triple P (throw e) Q E := h

protected theorem reads {f : σ → α} (h : ∀ s, P s → Q (f s) s) :
    Triple P (reads f : Program σ ε α) Q E := h

protected theorem modify {f : σ → σ} {Q : PUnit → σ → Prop} (h : ∀ s, P s → Q ⟨⟩ (f s)) :
    Triple P (modify f : Program σ ε PUnit) Q E := h

protected theorem demand {c : Prop} [Decidable c] {e : ε} {Q : PUnit → σ → Prop}
    (h : ∀ s, P s → c → Q ⟨⟩ s) (hE : ∀ s, P s → ¬c → E s) : Triple P (demand c e) Q E := by
  intro s hs
  rw [exec_demand]
  by_cases hc : c
  · rw [if_pos hc]
    exact h s hs hc
  · rw [if_neg hc]
    exact hE s hs hc

protected theorem orThrow {a : Option α} {e : ε} (h : ∀ b s, P s → a = some b → Q b s)
    (hE : ∀ s, P s → a = none → E s) : Triple P (orThrow a e) Q E := by
  cases a with
  | none => exact .throw fun s hs => hE s hs rfl
  | some a => exact .pure fun s hs => h a s hs rfl

protected theorem await {x : Except ε α} (h : ∀ a s, P s → x = .ok a → Q a s)
    (hE : ∀ s, P s → E s) : Triple P (await x) Q E := by
  cases x with
  | error e => exact .throw hE
  | ok a => exact .pure fun s hs => h a s hs rfl

protected theorem bind (h : Triple P m Q E) (hk : ∀ a, Triple (Q a) (k a) Q' E) :
    Triple P (m >>= k) Q' E := by
  intro s hs
  have hm := h s hs
  rw [exec_bind]
  rcases heq : m.exec s with ⟨e | a, s'⟩ <;> rw [heq] at hm
  · exact hm
  · exact hk a s' hm

theorem rescue {c : ε → Program σ ε α} {E' : σ → Prop} (h : Triple P m Q E)
    (hc : ∀ e, Triple E (c e) Q E') : Triple P (tryCatch m c) Q E' := by
  intro s hs
  have hm := h s hs
  rw [exec_tryCatch]
  rcases heq : m.exec s with ⟨e | a, s'⟩ <;> rw [heq] at hm
  · exact hc e s' hm
  · exact hm

theorem weaken {Q₂ : α → σ → Prop} {E₂ : σ → Prop} (h : Triple P m Q E)
    (hQ : ∀ a s, Q a s → Q₂ a s) (hE : ∀ s, E s → E₂ s) : Triple P m Q₂ E₂ := by
  intro s hs
  have hm := h s hs
  rcases heq : m.exec s with ⟨e | a, s'⟩ <;> rw [heq] at hm
  · exact hE s' hm
  · exact hQ a s' hm

theorem forM {f : β → Program σ ε PUnit} {l : List β}
    (h : ∀ a ∈ l, Triple P (f a) (fun _ => P) P) : Triple P (l.forM f) (fun _ => P) P := by
  induction l with
  | nil => exact .pure fun _ hs => hs
  | cons a l ih =>
    exact (h a List.mem_cons_self).bind fun _ => ih fun b hb => h b (List.mem_cons_of_mem a hb)

theorem strengthen (h : Triple P m Q E) (hP : ∀ s, P' s → P s) : Triple P' m Q E :=
  fun s hs => h s (hP s hs)

/-- What is known of no state in particular is assumed. -/
theorem given {q : Prop} (h : q → Triple P m Q E) : Triple (fun s => P s ∧ q) m Q E :=
  fun s hs => h hs.2 s hs.1

/-- What the program keeps stays known. -/
theorem keep {γ : Type*} {f : σ → γ} {P : γ → Prop} (h : ∀ s, f (m.exec s).2 = f s) :
    Triple (fun s => P (f s)) m (fun _ s => P (f s)) fun s => P (f s) := by
  intro s hs
  have hm := h s
  rcases heq : m.exec s with ⟨e | a, s'⟩ <;> rw [heq] at hm
  · exact (congrArg P hm).mpr hs
  · exact (congrArg P hm).mpr hs

/-- What held before is known of any result. -/
theorem since {q : Prop} (h : ∀ s, P s → q) : Triple P m (fun _ _ => q) fun _ => True := by
  intro s hs
  rcases m.exec s with ⟨e | a, s'⟩
  · trivial
  · exact h s hs

theorem result {V : α → Prop} (h : Triple P m (fun a _ => V a) E) {s : σ} (hs : P s) {a : α}
    (ha : (m.exec s).1 = .ok a) : V a := by
  have hm := h s hs
  rcases heq : m.exec s with ⟨e | b, s'⟩ <;> rw [heq] at hm ha <;> cases ha
  exact hm

/-- A program that never throws. -/
theorem returns (h : Triple P m Q fun _ => False) {s : σ} (hs : P s) :
    ∃ a s', m.exec s = (.ok a, s') ∧ Q a s' := by
  have hm := h s hs
  rcases heq : m.exec s with ⟨e | a, s'⟩ <;> rw [heq] at hm
  · exact hm.elim
  · exact ⟨a, s', rfl, hm⟩

/-- A program that never returns. -/
theorem error (h : Triple P m (fun _ _ => False) E) {s : σ} (hs : P s) :
    ∃ e s', m.exec s = (.error e, s') ∧ E s' := by
  have hm := h s hs
  rcases heq : m.exec s with ⟨e | a, s'⟩ <;> rw [heq] at hm
  · exact ⟨e, s', rfl, hm⟩
  · exact hm.elim

theorem after {E : σ → Prop} (h : Triple P m (fun _ => E) E) {s : σ} (hs : P s) :
    E (m.exec s).2 := by
  have hm := h s hs
  rcases heq : m.exec s with ⟨e | a, s'⟩ <;> rw [heq] at hm <;> exact hm

end Triple

/-! ## What a program leaves alone -/

/-- No run changes the value of `f`. -/
def Keeps {γ : Sort*} (f : σ → γ) (m : Program σ ε α) : Prop := ∀ s, f (m.exec s).2 = f s

namespace Keeps
variable {γ : Sort*} {f : σ → γ} {m : Program σ ε α} {k : α → Program σ ε β}

protected theorem pure {a : α} : Keeps f (pure a : Program σ ε α) := fun _ => rfl

protected theorem throw {e : ε} : Keeps f (throw e : Program σ ε α) := fun _ => rfl

protected theorem reads {g : σ → α} : Keeps f (reads g : Program σ ε α) := fun _ => rfl

protected theorem await {x : Except ε α} : Keeps f (await x) := by
  intro s
  rw [exec_await]

protected theorem modify {g : σ → σ} (h : ∀ s, f (g s) = f s) :
    Keeps f (modify g : Program σ ε PUnit) := h

protected theorem demand {c : Prop} [Decidable c] {e : ε} : Keeps f (demand c e) := by
  intro s
  rw [exec_demand]

protected theorem orThrow {a : Option α} {e : ε} : Keeps f (orThrow a e) := by
  cases a with
  | none => exact .throw
  | some a => exact .pure

protected theorem bind (h : Keeps f m) (hk : ∀ a, Keeps f (k a)) : Keeps f (m >>= k) := by
  intro s
  have hm := h s
  rw [exec_bind]
  rcases heq : m.exec s with ⟨e | a, s'⟩ <;> rw [heq] at hm
  · exact hm
  · exact (hk a s').trans hm

theorem rescue {c : ε → Program σ ε α} (h : Keeps f m) (hc : ∀ e, Keeps f (c e)) :
    Keeps f (tryCatch m c) := by
  intro s
  have hm := h s
  rw [exec_tryCatch]
  rcases heq : m.exec s with ⟨e | a, s'⟩ <;> rw [heq] at hm
  · exact (hc e s').trans hm
  · exact hm

/-- An error is handled without a trace. -/
theorem attempt {c : ε → Program σ ε α} (hc : ∀ e, Keeps f (c e)) (s : σ) :
    f ((tryCatch m c).exec s).2 = f (m.exec s).2 := by
  rw [exec_tryCatch]
  rcases m.exec s with ⟨e | a, s'⟩
  · exact hc e s'
  · rfl

protected theorem when {c : Prop} [Decidable c] {m : Program σ ε PUnit} (h : c → Keeps f m) :
    Keeps f (when c m) := by
  unfold Program.when
  split
  · exact h ‹_›
  · exact .pure

protected theorem zoom {part : τ → σ} {put : τ → σ → τ} {g : τ → γ} (h : Keeps f m)
    (hpart : ∀ t s, f s = f (part t) → g (put t s) = g t) : Keeps g (m.zoom part put) := by
  intro t
  rw [exec_zoom]
  exact hpart t _ (h (part t))

end Keeps

end Program
