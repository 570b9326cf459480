import Mathlib.Algebra.Order.BigOperators.Group.Finset
import Vesper.Client.LockSteps
import Vesper.Client.LockCalls

/-!
# First come, first served

In every run of `withLock` the functions of the calls under a key begin in the order of the calls.
-/

namespace Vesper.Client.Locks
open Promises
variable {κ ν ε : Type}

section
variable [DecidableEq κ] {undefined : ν} {s : LockState κ ν ε}

theorem next_job {n : Nat} {job : Job Callback ν ε} (hn : s.heap.jobs[n]? = some job) (start : Start ε) :
    s.next undefined (.job n start) = { s with heap := s.heap.take n }.perform undefined start job := by
  simp only [LockState.next, hn]

theorem wired_init : Wired (locks κ ε undefined).init (fun _ => .waits) fun _ => .nobody where
  serves := Serves.nil.congr fun _ => rfl
  stage _ := rfl
  later _ _ := rfl
  prev _ _ h := nomatch h
  next _ _ h := nomatch h
  fn _ _ h := nomatch h
  caught _ _ h := nomatch h
  done _ _ h := nomatch h
  owners _ _ h := nomatch h
  fresh _ _ := rfl
  chain _ _ h := nomatch h
  map _ := .inl ⟨rfl, nofun⟩

theorem Wired.step {phase : Nat → Phase ν ε} {owner : PromiseId → Owner} (hw : Wired s phase owner)
    {e : LockEvent κ ν ε} (he : (locks κ ε undefined).enabled s e) :
    ∃ phase' owner', Wired (s.next undefined e) phase' owner' := by
  cases e with
  | withLock key => exact hw.withLock undefined key
  | job n start =>
    obtain ⟨job, hn⟩ : ∃ job, s.heap.jobs[n]? = some job := ⟨_, List.getElem?_eq_getElem he⟩
    obtain ⟨phase', owner', hw', -⟩ := hw.perform undefined hn start
    exact ⟨phase', owner', by rwa [next_job hn]⟩
  | settle i outcome =>
    obtain ⟨promise, hpromise⟩ := he
    have hi : phase i = .begun promise ∨ phase i = .runs promise := by
      rw [hw.stage] at hpromise
      cases hphase : phase i <;> rw [hphase] at hpromise <;> cases hpromise
      · exact .inl rfl
      · exact .inr rfl
    have hc : ∃ c, s.Call i c := by
      by_contra hnone
      have hle : s.calls.length ≤ i :=
        Nat.le_of_not_lt fun hlt => hnone ⟨_, List.getElem?_eq_getElem hlt⟩
      obtain h | h := hi <;> cases (hw.later i hle).symm.trans h
    obtain ⟨c, hc⟩ := hc
    obtain ⟨x, hw'⟩ := hw.settle hc hi outcome
    refine ⟨Function.update phase i x, owner, ?_⟩
    simp only [LockState.next, hpromise]
    exact hw'

theorem reachable_wired (h : (locks κ ε undefined).Reachable s) :
    ∃ phase owner, Wired s phase owner :=
  h.invariant (I := fun s => ∃ phase owner, Wired s phase owner) ⟨_, _, wired_init⟩
    fun _ _ _ ⟨_, _, hw⟩ he => hw.step he

/-- The jobs come to an end, whatever the functions do that begin in them. -/
theorem Wired.length_le {phase : Nat → Phase ν ε} {owner : PromiseId → Owner} (hw : Wired s phase owner)
    {es : List (LockEvent κ ν ε)}
    (hes : ((locks κ ε undefined).restrict fun _ e => ∃ n start, e = .job n start).Allowed s es) :
    es.length ≤ ∑ i ∈ Finset.range s.calls.length, (phase i).weight := by
  induction es generalizing s phase owner with
  | nil => exact Nat.zero_le _
  | cons e es ih =>
    obtain ⟨⟨he, n, start, rfl⟩, hes⟩ := hes
    obtain ⟨job, hn⟩ : ∃ job, s.heap.jobs[n]? = some job := ⟨_, List.getElem?_eq_getElem he⟩
    obtain ⟨phase', owner', hw', hle, i, hi, hlt⟩ := hw.perform undefined hn start
    have hes : ((locks κ ε undefined).restrict fun _ e => ∃ n start, e = .job n start).Allowed
        (s.next undefined (.job n start)) es := hes
    rw [next_job hn] at hes
    have hrest := ih hw' hes
    rw [calls_perform] at hrest
    exact Nat.lt_of_le_of_lt hrest (Finset.sum_lt_sum (fun j _ => hle j) ⟨i, Finset.mem_range.mpr hi, hlt⟩)

theorem Phase.weight_le (x : Phase ν ε) : x.weight ≤ 6 := by
  cases x <;> simp [Phase.weight]

/-- What has begun only ends, as its promise settles. -/
theorem Wired.stage_next {phase : Nat → Phase ν ε} {owner : PromiseId → Owner} (hw : Wired s phase owner)
    {e : LockEvent κ ν ε} (he : (locks κ ε undefined).enabled s e) {i : Nat} (hi : s.stage i ≠ .waiting) :
    (s.next undefined e).stage i = s.stage i ∨
      ∃ outcome, e = .settle i outcome ∧ (s.next undefined e).stage i = .ended outcome := by
  cases e with
  | withLock key => exact .inl rfl
  | job n start =>
    obtain ⟨job, hn⟩ : ∃ job, s.heap.jobs[n]? = some job := ⟨_, List.getElem?_eq_getElem he⟩
    rw [next_job hn]
    refine (stage_perform start job i).imp_right ?_
    rintro ⟨r, before, rfl, hr⟩
    obtain ⟨j, hj⟩ := (hw.serves.mem_iff _).mp (List.mem_of_getElem? hn)
    obtain ⟨c, -, hjob⟩ := Option.bind_eq_some_iff.mp hj
    obtain ⟨rfl, hwaiting⟩ := Wired.fn_of_job hjob hr
    exact absurd ((hw.stage i).trans hwaiting) hi
  | settle call outcome =>
    obtain ⟨promise, hpromise⟩ := he
    simp only [LockState.next, hpromise]
    by_cases hic : i = call
    · subst hic
      exact .inr ⟨outcome, rfl, Function.update_self ..⟩
    · exact .inl (Function.update_of_ne hic _ _)

/-- **`withLock`**, in every state of every run: the functions of the calls with a key begin in the order of
the calls, each when the one before has ended in whatever way, and once. `next` settles with the outcome of the
own function only, and does where no job is left. A call that has then not begun waits for an earlier one with
its key that runs, and the jobs come to an end. -/
theorem withLock_fifo (h : (locks κ ε undefined).Reachable s) :
    (∀ i j c d, s.Call i c → s.Call j d → c.key = d.key → i < j → s.stage j ≠ .waiting →
      ∃ outcome, s.stage i = .ended outcome) ∧
    (∀ i j c d p q, s.Call i c → s.Call j d → c.key = d.key → s.stage i = .running p → s.stage j = .running q →
      i = j) ∧
    (∀ e, (locks κ ε undefined).enabled s e → ∀ i, s.stage i ≠ .waiting →
      (s.next undefined e).stage i = s.stage i ∨
        ∃ outcome, e = .settle i outcome ∧ (s.next undefined e).stage i = .ended outcome) ∧
    (∀ i c outcome, s.Call i c → s.heap.state c.next = .settled outcome → s.stage i = .ended outcome) ∧
    (s.heap.jobs = [] → ∀ i c, s.Call i c →
      (s.stage i = .waiting → ∃ j d p, j < i ∧ s.Call j d ∧ d.key = c.key ∧ s.stage j = .running p) ∧
      ∀ outcome, s.stage i = .ended outcome → s.heap.state c.next = .settled outcome) ∧
    ∀ es, ((locks κ ε undefined).restrict fun _ e => ∃ n start, e = .job n start).Allowed s es →
      es.length ≤ 6 * s.calls.length := by
  obtain ⟨phase, owner, hw⟩ := reachable_wired h
  have horder : ∀ i j c d, s.Call i c → s.Call j d → c.key = d.key → i < j → s.stage j ≠ .waiting →
      ∃ outcome, s.stage i = .ended outcome := by
    intro i j c d hc hd hkey hlt hj
    have hnot : phase j ≠ .waits := by
      intro hwaits
      rw [hw.stage, hwaits] at hj
      exact hj rfl
    obtain ⟨outcome, hdone⟩ := hw.done_before hc hd hkey hlt hnot
    exact ⟨outcome, by rw [hw.stage, hdone]; rfl⟩
  have hexcl : ∀ i j c d p q, s.Call i c → s.Call j d → c.key = d.key → s.stage i = .running p →
      s.stage j = .running q → ¬i < j := by
    intro i j c d p q hc hd hkey hi hj hlt
    obtain ⟨outcome, hended⟩ := horder i j c d hc hd hkey hlt (by rw [hj]; nofun)
    cases hi.symm.trans hended
  refine ⟨horder, ?_, fun e he i hi => hw.stage_next he hi, fun i c outcome hc => hw.outcome_next hc, ?_, ?_⟩
  · intro i j c d p q hc hd hkey hi hj
    rcases Nat.lt_trichotomy i j with hlt | rfl | hlt
    · exact absurd hlt (hexcl i j c d p q hc hd hkey hi hj)
    · rfl
    · exact absurd hlt (hexcl j i d c q p hd hc hkey.symm hj hi)
  · intro hidle i c hc
    refine ⟨fun hi => ?_, fun outcome => hw.reached hidle hc⟩
    have hwaits : phase i = .waits := by
      have hjob := hw.job_none hidle hc
      rw [hw.stage] at hi
      cases hphase : phase i <;> rw [hphase] at hi hjob <;> try rfl
      case due => cases hjob
      all_goals cases hi
    obtain ⟨j, d, p, hji, hd, hkey, hruns⟩ := hw.waits_for hidle hc hwaits
    exact ⟨j, d, p, hji, hd, hkey, by rw [hw.stage, hruns]; rfl⟩
  · intro es hes
    refine (hw.length_le hes).trans ?_
    calc ∑ i ∈ Finset.range s.calls.length, (phase i).weight
      _ ≤ ∑ _i ∈ Finset.range s.calls.length, 6 := Finset.sum_le_sum fun i _ => (phase i).weight_le
      _ = 6 * s.calls.length := by simp [Nat.mul_comm]

/-- The first function rejects: the second one begins, and its caller gets its result. -/
theorem withLock_fifo_rejected :
    let s := (locks Nat String ()).exec (locks Nat String ()).init
      [.withLock 7, .withLock 7, .job 0 .returns, .job 0 .returns, .settle 0 (.error "first"), .job 0 .returns,
        .job 0 .returns, .job 0 .returns, .job 0 .returns]
    s.stage 0 = .ended (.error "first") ∧ s.stage 1 = .running 6 ∧
      s.heap.state 1 = .settled (.error "first") ∧
      ∃ outcome, s.stage 0 = .ended outcome := by
  intro s
  have hreachable : (locks Nat String ()).Reachable s :=
    Machine.Reachable.init.exec ⟨trivial, trivial, Nat.zero_lt_one, Nat.zero_lt_one, ⟨_, rfl⟩, Nat.zero_lt_one,
      Nat.zero_lt_one, Nat.zero_lt_one, Nat.zero_lt_one, trivial⟩
  exact ⟨rfl, rfl, rfl, (withLock_fifo hreachable).1 0 1 _ _ rfl rfl rfl (by decide) nofun⟩

end

end Vesper.Client.Locks
