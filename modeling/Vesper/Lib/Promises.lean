import Mathlib.Data.List.Nodup
import Mathlib.Data.List.Perm.Basic
import Mathlib.Logic.Function.Basic

/-!
# Promises

Promises and the jobs of an event loop, with handlers `η` that the program gives a meaning to. A promise is
pending, with the reactions that wait for it, or settled; one that is resolved with another promise takes over
its outcome, two jobs later. `Serves` says of a list of jobs that every owner has at most one job in it.
-/

namespace Promises

abbrev PromiseId := Nat

/-- What `then` leaves: a handler for each outcome, which is passed on where there is none, and the promise
that becomes what the handler makes of it. -/
structure Reaction (η : Type) where
  onFulfilled : Option η
  onRejected : Option η
  derived : PromiseId

inductive PromiseState (η ν ε : Type)
  | pending (reactions : List (Reaction η))
  | settled (outcome : Except ε ν)

inductive Job (η ν ε : Type)
  | reaction (reaction : Reaction η) (outcome : Except ε ν)
  /-- Makes a promise wait for the one that it was resolved with. -/
  | thenable (promise inner : PromiseId)

/-- The promises below `size` exist. -/
structure Heap (η ν ε : Type) where
  state : PromiseId → PromiseState η ν ε
  size : Nat
  jobs : List (Job η ν ε)

section
variable {η ν ε : Type}

def Reaction.handler (r : Reaction η) : Except ε ν → Option η
  | .ok _ => r.onFulfilled
  | .error _ => r.onRejected

def PromiseState.outcome : PromiseState η ν ε → Option (Except ε ν)
  | .pending _ => none
  | .settled outcome => some outcome

namespace Heap
variable (h : Heap η ν ε)

/-- The new promise is the one after those that exist. -/
def new (state : PromiseState η ν ε) : Heap η ν ε :=
  { h with state := Function.update h.state h.size state, size := h.size + 1 }

def enqueue (job : Job η ν ε) : Heap η ν ε := { h with jobs := h.jobs ++ [job] }

/-- A promise settles once. -/
def settle (p : PromiseId) (outcome : Except ε ν) : Heap η ν ε :=
  match h.state p with
  | .pending reactions =>
    { h with
      state := Function.update h.state p (.settled outcome)
      jobs := h.jobs ++ reactions.map (.reaction · outcome) }
  | .settled _ => h

/-- Waits for a promise. -/
def react (p : PromiseId) (r : Reaction η) : Heap η ν ε :=
  match h.state p with
  | .pending reactions => { h with state := Function.update h.state p (.pending (reactions ++ [r])) }
  | .settled outcome => h.enqueue (.reaction r outcome)

/-- `promise.then(onFulfilled, onRejected)`, which is the new promise. -/
def «then» (p : PromiseId) (onFulfilled onRejected : Option η) : Heap η ν ε :=
  (h.new (.pending [])).react p ⟨onFulfilled, onRejected, h.size⟩

/-- Resolves a promise with another one. -/
def follow (promise inner : PromiseId) : Heap η ν ε := h.enqueue (.thenable promise inner)

/-- Takes a job off the queue. -/
def take (n : Nat) : Heap η ν ε := { h with jobs := h.jobs.eraseIdx n }

section
variable {h : Heap η ν ε} {p q : PromiseId} {r : Reaction η} {outcome : Except ε ν} {reactions : List (Reaction η)}

theorem settle_pending (hp : h.state p = .pending reactions) : h.settle p outcome =
    { h with
      state := Function.update h.state p (.settled outcome)
      jobs := h.jobs ++ reactions.map (.reaction · outcome) } := by
  rw [settle, hp]

theorem react_pending (hp : h.state p = .pending reactions) :
    h.react p r = { h with state := Function.update h.state p (.pending (reactions ++ [r])) } := by
  rw [react, hp]

theorem react_settled (hp : h.state p = .settled outcome) :
    h.react p r = h.enqueue (.reaction r outcome) := by
  rw [react, hp]

@[simp] theorem size_react : (h.react p r).size = h.size := by
  unfold react
  split <;> rfl

@[simp] theorem size_then {onFulfilled onRejected : Option η} :
    (h.then p onFulfilled onRejected).size = h.size + 1 := size_react

/-! What `then` changes, on a promise that exists. -/

section
variable {onFulfilled onRejected : Option η}

theorem then_pending (hp : p < h.size) (hs : h.state p = .pending reactions) :
    h.then p onFulfilled onRejected =
      { state := Function.update (Function.update h.state h.size (.pending [])) p
          (.pending (reactions ++ [⟨onFulfilled, onRejected, h.size⟩]))
        size := h.size + 1
        jobs := h.jobs } :=
  react_pending ((Function.update_of_ne (Nat.ne_of_lt hp) _ _).trans hs)

theorem then_settled (hp : p < h.size) (hs : h.state p = .settled outcome) :
    h.then p onFulfilled onRejected =
      (h.new (.pending [])).enqueue (.reaction ⟨onFulfilled, onRejected, h.size⟩ outcome) :=
  react_settled ((Function.update_of_ne (Nat.ne_of_lt hp) _ _).trans hs)

theorem state_then_new (hp : p < h.size) : (h.then p onFulfilled onRejected).state h.size = .pending [] := by
  cases hs : h.state p with
  | pending reactions =>
    rw [then_pending hp hs]
    exact (Function.update_of_ne (Nat.ne_of_gt hp) _ _).trans (Function.update_self ..)
  | settled outcome =>
    rw [then_settled hp hs]
    exact Function.update_self ..

theorem state_then_of_ne (hp : p < h.size) (hq : q < h.size) (hne : q ≠ p) :
    (h.then p onFulfilled onRejected).state q = h.state q := by
  cases hs : h.state p with
  | pending reactions =>
    rw [then_pending hp hs]
    exact (Function.update_of_ne hne _ _).trans (Function.update_of_ne (Nat.ne_of_lt hq) _ _)
  | settled outcome =>
    rw [then_settled hp hs]
    exact Function.update_of_ne (Nat.ne_of_lt hq) _ _

end

end

end Heap

end

/-! ## Who has a job -/

section
variable {α ι : Type}

/-- The jobs are those of the owners that have one. -/
structure Serves (jobs : List α) (job : ι → Option α) : Prop where
  nodup : jobs.Nodup
  mem_iff : ∀ a, a ∈ jobs ↔ ∃ i, job i = some a
  owner : ∀ i j a, job i = some a → job j = some a → i = j

namespace Serves
variable {jobs : List α} {job : ι → Option α} {a : α} {i : ι}

theorem nil : Serves ([] : List α) fun _ : ι => none where
  nodup := List.nodup_nil
  mem_iff _ := iff_of_false List.not_mem_nil fun ⟨_, h⟩ => nomatch h
  owner _ _ _ h := nomatch h

theorem congr {job' : ι → Option α} (h : Serves jobs job) (heq : ∀ i, job' i = job i) : Serves jobs job' :=
  funext heq ▸ h

variable [DecidableEq ι]

/-- An owner is served. -/
theorem take (h : Serves jobs job) {n : Nat} (hn : jobs[n]? = some a) (hi : job i = some a) :
    Serves (jobs.eraseIdx n) (Function.update job i none) := by
  obtain ⟨hlt, rfl⟩ := List.getElem?_eq_some_iff.mp hn
  have hperm := List.getElem_cons_eraseIdx_perm hlt
  have hnodup := hperm.nodup_iff.mpr h.nodup
  refine ⟨hnodup.of_cons, fun b => ?_, fun j k b hj hk => ?_⟩
  · have hmem := (hperm.mem_iff (a := b)).trans (h.mem_iff b)
    rw [List.mem_cons] at hmem
    constructor
    · intro hb
      obtain ⟨j, hj⟩ := hmem.mp (.inr hb)
      have hne : j ≠ i := by
        rintro rfl
        obtain rfl := Option.some.inj (hi.symm.trans hj)
        exact (List.nodup_cons.mp hnodup).1 hb
      exact ⟨j, (Function.update_of_ne hne _ _).trans hj⟩
    · rintro ⟨j, hj⟩
      have hne : j ≠ i := by
        rintro rfl
        rw [Function.update_self] at hj
        cases hj
      rw [Function.update_of_ne hne] at hj
      refine (hmem.mpr ⟨j, hj⟩).resolve_left ?_
      rintro rfl
      exact hne (h.owner j i _ hj hi)
  · have hold : ∀ {j}, Function.update job i none j = some b → job j = some b := by
      intro j hj
      by_cases hji : j = i
      · subst hji
        rw [Function.update_self] at hj
        cases hj
      · rwa [Function.update_of_ne hji] at hj
    exact h.owner j k b (hold hj) (hold hk)

/-- An owner without a job gets one that is nobody's. -/
theorem put (h : Serves jobs job) (hi : job i = none) (hfresh : ∀ j, job j ≠ some a) :
    Serves (jobs ++ [a]) (Function.update job i (some a)) := by
  have hold : ∀ {j b}, Function.update job i (some a) j = some b → j = i ∧ b = a ∨ job j = some b := by
    intro j b hj
    by_cases hji : j = i
    · subst hji
      rw [Function.update_self] at hj
      exact .inl ⟨rfl, (Option.some.inj hj).symm⟩
    · exact .inr (by rwa [Function.update_of_ne hji] at hj)
  refine ⟨?_, fun b => ?_, fun j k b hj hk => ?_⟩
  · refine List.nodup_append.mpr ⟨h.nodup, List.nodup_singleton a, ?_⟩
    rintro b hb _ (_ | ⟨_, ⟨⟩⟩) rfl
    obtain ⟨j, hj⟩ := (h.mem_iff b).mp hb
    exact hfresh j hj
  · rw [List.mem_append, List.mem_singleton, h.mem_iff]
    constructor
    · rintro (⟨j, hj⟩ | rfl)
      · refine ⟨j, (Function.update_of_ne ?_ _ _).trans hj⟩
        rintro rfl
        cases hi.symm.trans hj
      · exact ⟨i, Function.update_self ..⟩
    · rintro ⟨j, hj⟩
      rcases hold hj with ⟨-, rfl⟩ | hj
      · exact .inr rfl
      · exact .inl ⟨j, hj⟩
  · rcases hold hj with ⟨hji, hb⟩ | hj' <;> rcases hold hk with ⟨hki, hb'⟩ | hk'
    · rw [hji, hki]
    · exact absurd (hb ▸ hk') (hfresh k)
    · exact absurd (hb' ▸ hj') (hfresh j)
    · exact h.owner j k b hj' hk'

end Serves

end

end Promises
