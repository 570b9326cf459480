import Vesper.Lib.Machine
import Vesper.Lib.Promises

/-!
# `withLock`

The chain of promises that `withLock` of `useE2E.ts` builds under each key of a map. The functions that it is
given begin, throw, settle and call `withLock` when they like, and the jobs of the event loop run in any order,
of which that of its queue is one.
-/

namespace Vesper.Client.Locks
open Promises

/-! ## The map -/

/-- The callbacks of `withLock`: the function of a call, by number, and `() => {}`. -/
inductive Callback
  | fn (call : Nat)
  | ignore

/-- A function has not begun, its promise is pending, or it has ended. -/
inductive Stage (ν ε : Type)
  | waiting
  | running (promise : PromiseId)
  | ended (outcome : Except ε ν)

/-- A call: its promises `prev` and `next`, and the one that goes into the map. The caller has `next`. -/
structure LockCall (κ : Type) where
  key : κ
  prev : PromiseId
  next : PromiseId
  caught : PromiseId

/-- `stage` is what becomes of the function of each call. -/
structure LockState (κ ν ε : Type) where
  heap : Heap Callback ν ε
  map : κ → Option PromiseId
  calls : List (LockCall κ)
  stage : Nat → Stage ν ε

/-- A function that is called returns a promise, or throws. -/
inductive Start (ε : Type)
  | returns
  | throws (e : ε)

inductive LockEvent (κ ν ε : Type)
  | withLock (key : κ)
  /-- A job of the event loop; what a function does that begins in it. -/
  | job (n : Nat) (start : Start ε)
  /-- The promise of the function of a call settles. -/
  | settle (call : Nat) (outcome : Except ε ν)

namespace LockState
variable {κ ν ε : Type} [DecidableEq κ] (undefined : ν) (s : LockState κ ν ε)

def withLock (key : κ) : LockState κ ν ε :=
  let (prev, heap) := match s.map key with
    | some prev => (prev, s.heap)
    -- `Promise.resolve()`
    | none => (s.heap.size, s.heap.new (.settled (.ok undefined)))
  let fn := some (.fn s.calls.length)
  let next := heap.size
  let heap := heap.then prev fn fn
  let caught := heap.size
  let heap := heap.then next none (some .ignore)
  { s with
    heap
    map := Function.update s.map key (some caught)
    calls := s.calls ++ [{ key, prev, next, caught }] }

/-- The function of a call goes on. -/
def setStage (call : Nat) (stage : Stage ν ε) (heap : Heap Callback ν ε) : LockState κ ν ε :=
  { s with heap, stage := Function.update s.stage call stage }

def perform (start : Start ε) : Job Callback ν ε → LockState κ ν ε
  | .thenable promise inner => { s with heap := s.heap.react inner ⟨none, none, promise⟩ }
  | .reaction r outcome =>
    match r.handler outcome with
    | none => { s with heap := s.heap.settle r.derived outcome }
    | some .ignore => { s with heap := s.heap.settle r.derived (.ok undefined) }
    | some (.fn call) =>
      match start with
      | .returns =>
        s.setStage call (.running s.heap.size) ((s.heap.new (.pending [])).follow r.derived s.heap.size)
      | .throws e => s.setStage call (.ended (.error e)) (s.heap.settle r.derived (.error e))

def next : LockEvent κ ν ε → LockState κ ν ε
  | .withLock key => s.withLock undefined key
  | .job n start =>
    match s.heap.jobs[n]? with
    | some job => { s with heap := s.heap.take n }.perform undefined start job
    | none => s
  | .settle call outcome =>
    match s.stage call with
    | .running promise => s.setStage call (.ended outcome) (s.heap.settle promise outcome)
    | _ => s

end LockState

/-- All runs of `withLock` on a map that is empty at first, none of whose entries is removed. -/
def locks (κ : Type) {ν : Type} (ε : Type) [DecidableEq κ] (undefined : ν) :
    Machine (LockState κ ν ε) (LockEvent κ ν ε) where
  init := ⟨⟨fun _ => .pending [], 0, []⟩, fun _ => none, [], fun _ => .waiting⟩
  enabled s
    | .withLock _ => True
    | .job n _ => n < s.heap.jobs.length
    | .settle call _ => ∃ promise, s.stage call = .running promise
  next s e := s.next undefined e

section
variable {κ ν ε : Type} {undefined : ν} {s : LockState κ ν ε}

/-- Only a function that begins changes what becomes of the functions. -/
theorem stage_perform (start : Start ε) (job : Job Callback ν ε) (j : Nat) :
    (s.perform undefined start job).stage j = s.stage j ∨
      ∃ r before, job = .reaction r before ∧ r.handler before = some (.fn j) := by
  unfold LockState.perform
  split
  case h_1 => exact .inl rfl
  case h_2 r before =>
    split
    case h_1 | h_2 => exact .inl rfl
    case h_3 call hcall =>
      by_cases hj : j = call
      · subst hj
        exact .inr ⟨r, before, rfl, hcall⟩
      · cases start <;> exact .inl (Function.update_of_ne hj _ _)

@[simp] theorem calls_perform (start : Start ε) (job : Job Callback ν ε) :
    (s.perform undefined start job).calls = s.calls := by
  unfold LockState.perform
  split
  case h_1 => rfl
  case h_2 =>
    split
    case h_1 | h_2 => rfl
    case h_3 => cases start <;> rfl

end

/-! ## Where a call is -/

/-- A call waits for the one before it, or is due. The function has begun, and runs once `next` waits for its
promise. When it has stopped, the outcome is told to `next`, known to it, and at last the call is done. -/
inductive Phase (ν ε : Type)
  | waits
  | due (before : Except ε ν)
  | begun (promise : PromiseId)
  | runs (promise : PromiseId)
  | stopped (promise : PromiseId) (outcome : Except ε ν)
  | told (outcome : Except ε ν)
  | known (outcome : Except ε ν)
  | done (outcome : Except ε ν)

/-- Whose promise it is. -/
inductive Owner
  | nobody
  | prev (call : Nat)
  | next (call : Nat)
  | caught (call : Nat)
  | fn (call : Nat)

section
variable {κ ν ε : Type} (i : Nat) (c : LockCall κ)

/-- The reaction of `prev.then(fn, () => fn())`. -/
def onPrev : Reaction Callback := ⟨some (.fn i), some (.fn i), c.next⟩

/-- The reaction that makes `next` take over the outcome of the function. -/
def onFn : Reaction Callback := ⟨none, none, c.next⟩

/-- The reaction of `next.catch(() => {})`. -/
def onNext : Reaction Callback := ⟨none, some .ignore, c.caught⟩

namespace Phase

def stage : Phase ν ε → Stage ν ε
  | waits | due _ => .waiting
  | begun promise | runs promise => .running promise
  | stopped _ outcome | told outcome | known outcome | done outcome => .ended outcome

def job : Phase ν ε → Option (Job Callback ν ε)
  | due before => some (.reaction (onPrev i c) before)
  | begun promise | stopped promise _ => some (.thenable c.next promise)
  | told outcome => some (.reaction (onFn c) outcome)
  | known outcome => some (.reaction (onNext c) outcome)
  | waits | runs _ | done _ => none

/-- The state of `prev`. -/
def Prev : Phase ν ε → PromiseState Callback ν ε → Prop
  | waits, state => state = .pending [onPrev i c]
  | _, state => ∃ outcome, state = .settled outcome

/-- The state of `next`. -/
def next : Phase ν ε → PromiseState Callback ν ε
  | known outcome | done outcome => .settled outcome
  | _ => .pending [onNext c]

/-- The promise of the function, and its state. -/
def fn : Phase ν ε → Option (PromiseId × PromiseState Callback ν ε)
  | begun promise => some (promise, .pending [])
  | runs promise => some (promise, .pending [onFn c])
  | stopped promise outcome => some (promise, .settled outcome)
  | _ => none

/-- The call has been waited for, and is still. -/
def Busy : Phase ν ε → Prop
  | waits | done _ => False
  | _ => True

/-- How many jobs there are at most until the call is done, if no function settles in between. -/
def weight : Phase ν ε → Nat
  | waits => 6
  | due _ => 5
  | begun _ => 4
  | runs _ | stopped .. => 3
  | told _ => 2
  | known _ => 1
  | done _ => 0

end Phase

end

variable {κ ν ε : Type}

/-- The job of a call. -/
def LockState.job (s : LockState κ ν ε) (phase : Nat → Phase ν ε) (i : Nat) : Option (Job Callback ν ε) :=
  s.calls[i]?.bind ((phase i).job i)

/-- The call number `i`. -/
abbrev LockState.Call (s : LockState κ ν ε) (i : Nat) (c : LockCall κ) : Prop := s.calls[i]? = some c

/-- The last call before the number `n` with the key. -/
def LockState.Last (s : LockState κ ν ε) (key : κ) (n i : Nat) (c : LockCall κ) : Prop :=
  s.Call i c ∧ c.key = key ∧ i < n ∧ ∀ j d, s.Call j d → d.key = key → j < n → j ≤ i

/-- **The invariant**: what the phases say of the promises and of the jobs, and how the calls are chained. -/
structure Wired (s : LockState κ ν ε) (phase : Nat → Phase ν ε) (owner : PromiseId → Owner) : Prop where
  serves : Serves s.heap.jobs (s.job phase)
  stage : ∀ i, s.stage i = (phase i).stage
  later : ∀ i, s.calls.length ≤ i → phase i = .waits
  prev : ∀ i c, s.Call i c → (phase i).Prev i c (s.heap.state c.prev)
  next : ∀ i c, s.Call i c → s.heap.state c.next = (phase i).next c
  fn : ∀ i c, s.Call i c → ∀ p state, (phase i).fn c = some (p, state) →
    s.heap.state p = state ∧ owner p = .fn i
  /-- Only the next call with the key waits for `caught`. -/
  caught : ∀ i c, s.Call i c → ∀ reactions, s.heap.state c.caught = .pending reactions →
    reactions = [] ∨ ∃ j d, s.Call j d ∧ phase j = .waits ∧ d.prev = c.caught
  done : ∀ i c, s.Call i c →
    ((∃ outcome, phase i = .done outcome) ↔ ∃ outcome, s.heap.state c.caught = .settled outcome)
  owners : ∀ i c, s.Call i c → owner c.next = .next i ∧ owner c.caught = .caught i
  fresh : ∀ p, s.heap.size ≤ p → owner p = .nobody
  chain : ∀ i c, s.Call i c →
    (owner c.prev = .prev i ∧ phase i ≠ .waits ∧ ∀ j d, s.Call j d → d.key = c.key → i ≤ j) ∨
      ∃ j d, s.Last c.key i j d ∧ d.caught = c.prev
  map : ∀ key, (s.map key = none ∧ ∀ i c, s.Call i c → c.key ≠ key) ∨
    ∃ i c, s.Last key s.calls.length i c ∧ s.map key = some c.caught

/-! ## What the invariant says -/

namespace Wired
variable {s : LockState κ ν ε} {phase : Nat → Phase ν ε} {owner : PromiseId → Owner} {i j : Nat} {c d : LockCall κ}

/-- A call that waits for no other has the calls before it on its key done. -/
theorem done_before (hw : Wired s phase owner) (hc : s.Call i c) (hd : s.Call j d) (hkey : c.key = d.key)
    (hlt : i < j) (hj : phase j ≠ .waits) : ∃ outcome, phase i = .done outcome := by
  induction j using Nat.strongRecOn generalizing d with
  | ind j ih =>
    obtain ⟨-, -, hfirst⟩ | ⟨k, e, ⟨he, hekey, hkj, hlast⟩, hcaught⟩ := hw.chain j d hd
    · exact absurd (hfirst i c hc hkey) (Nat.not_le.mpr hlt)
    have hprev : ∃ outcome, s.heap.state d.prev = .settled outcome := by
      have := hw.prev j d hd
      cases hphase : phase j <;> rw [hphase] at this
      case waits => exact absurd hphase hj
      all_goals exact this
    obtain ⟨outcome, hdone⟩ := (hw.done k e he).mpr (by rwa [hcaught])
    rcases Nat.lt_or_eq_of_le (hlast i c hc hkey hlt) with hik | rfl
    · exact ih k hkj he (hkey.trans hekey.symm) hik (by rw [hdone]; nofun)
    · exact ⟨outcome, hdone⟩

/-- Only the own function settles `next`. -/
theorem outcome_next (hw : Wired s phase owner) (hc : s.Call i c) {outcome : Except ε ν}
    (h : s.heap.state c.next = .settled outcome) : s.stage i = .ended outcome := by
  rw [hw.stage]
  rw [hw.next i c hc] at h
  cases hphase : phase i <;> rw [hphase] at h <;> cases h <;> rfl

theorem job_none (hw : Wired s phase owner) (hidle : s.heap.jobs = []) (hc : s.Call i c) :
    (phase i).job i c = none := by
  rw [Option.eq_none_iff_forall_ne_some]
  intro job hjob
  have hmem := (hw.serves.mem_iff job).mpr ⟨i, by rw [LockState.job, hc]; exact hjob⟩
  rw [hidle] at hmem
  cases hmem

/-- With no job left, a call that has not begun waits for one that runs. -/
theorem waits_for (hw : Wired s phase owner) (hidle : s.heap.jobs = []) (hc : s.Call i c)
    (hi : phase i = .waits) : ∃ j d promise, j < i ∧ s.Call j d ∧ d.key = c.key ∧ phase j = .runs promise := by
  induction i using Nat.strongRecOn generalizing c with
  | ind i ih =>
    obtain ⟨-, hnot, -⟩ | ⟨j, d, ⟨hd, hkey, hji, -⟩, hcaught⟩ := hw.chain i c hc
    · exact absurd hi hnot
    have hpending : s.heap.state d.caught = .pending [onPrev i c] := by
      have := hw.prev i c hc
      rw [hi] at this
      rw [hcaught]
      exact this
    have hjob := hw.job_none hidle hd
    cases hphase : phase j <;> rw [hphase] at hjob
    case due | begun | stopped | told | known => cases hjob
    case waits =>
      obtain ⟨k, e, promise, hkj, he, hkey', hruns⟩ := ih j hji hd hphase
      exact ⟨k, e, promise, Nat.lt_trans hkj hji, he, hkey'.trans hkey, hruns⟩
    case runs promise => exact ⟨j, d, promise, hji, hd, hkey, hphase⟩
    case done outcome =>
      obtain ⟨outcome', hsettled⟩ := (hw.done j d hd).mp ⟨outcome, hphase⟩
      cases hpending.symm.trans hsettled

/-- With no job left, the outcome of a function has reached its caller. -/
theorem reached (hw : Wired s phase owner) (hidle : s.heap.jobs = []) (hc : s.Call i c) {outcome : Except ε ν}
    (hi : s.stage i = .ended outcome) : s.heap.state c.next = .settled outcome := by
  have hjob := hw.job_none hidle hc
  rw [hw.stage] at hi
  rw [hw.next i c hc]
  cases hphase : phase i <;> rw [hphase] at hjob hi <;> cases hi <;> first | rfl | cases hjob

theorem lt_length (hc : s.Call i c) : i < s.calls.length := (List.getElem?_eq_some_iff.mp hc).1

theorem job_update (hc : s.Call i c) (x : Phase ν ε) :
    s.job (Function.update phase i x) = Function.update (s.job phase) i (x.job i c) := by
  funext j
  by_cases hji : j = i
  · subst hji
    rw [Function.update_self, LockState.job, hc, Function.update_self]
    rfl
  · rw [Function.update_of_ne hji, LockState.job, Function.update_of_ne hji]
    rfl

theorem job_eq (hc : s.Call i c) : s.job phase i = (phase i).job i c := by
  rw [LockState.job, hc]
  rfl

theorem owner_prev (hw : Wired s phase owner) (hc : s.Call i c) :
    owner c.prev = .prev i ∨ ∃ j d, s.Call j d ∧ d.caught = c.prev ∧ owner c.prev = .caught j := by
  obtain ⟨h, -⟩ | ⟨j, d, ⟨hd, -⟩, hcaught⟩ := hw.chain i c hc
  · exact .inl h
  · exact .inr ⟨j, d, hd, hcaught, hcaught ▸ (hw.owners j d hd).2⟩

/-- Only the own function begins in the job of a call, which has not begun then. -/
theorem fn_of_job {x : Phase ν ε} {r : Reaction Callback} {before : Except ε ν} {k : Nat}
    (hx : x.job i c = some (.reaction r before)) (hr : r.handler before = some (.fn k)) :
    k = i ∧ x.stage = .waiting := by
  cases x <;> cases hx <;> cases before <;> cases hr <;> exact ⟨rfl, rfl⟩

/-- A job has one owner. -/
theorem job_owner (hw : Wired s phase owner) {x : Phase ν ε} {job : Job Callback ν ε} (hc : s.Call i c)
    (hx : x.job i c = some job) (hj : s.job phase j = some job) : j = i := by
  obtain ⟨d, hd, hjob⟩ := Option.bind_eq_some_iff.mp hj
  have hnext : c.next = d.next ∨ c.caught = d.caught ∨ c.next = d.caught ∨ c.caught = d.next := by
    cases x <;> cases hx <;> cases hphase : phase j <;> rw [hphase] at hjob <;>
      simp_all [Phase.job, onPrev, onFn, onNext]
  obtain ⟨hcn, hcc⟩ := hw.owners i c hc
  obtain ⟨hdn, hdc⟩ := hw.owners j d hd
  rcases hnext with h | h | h | h
  · rw [h, hdn] at hcn
    injection hcn
  · rw [h, hdc] at hcc
    injection hcc
  · rw [h, hdc] at hcn
    cases hcn
  · rw [h, hdn] at hcc
    cases hcc

theorem lt_size (hw : Wired s phase owner) {p : PromiseId} (hp : owner p ≠ .nobody) : p < s.heap.size :=
  Nat.lt_of_not_le (mt (hw.fresh p) hp)

end Wired

end Vesper.Client.Locks
