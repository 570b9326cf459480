import Vesper.Client.Locks

/-!
# The jobs of `withLock`

Each job of a call, and each promise of a function that settles, keeps the chains wired.
-/

namespace Vesper.Client.Locks
open Promises
variable {κ ν ε : Type}

namespace Wired
variable {s : LockState κ ν ε} {phase : Nat → Phase ν ε} {owner : PromiseId → Owner} {i j : Nat} {c d : LockCall κ}

/-- **The rule of steps** of a call that has been waited for and is still: no other promise than its own two
changes. -/
theorem advance (hw : Wired s phase owner) (hc : s.Call i c) {x : Phase ν ε} (heap : Heap Callback ν ε)
    (owner' : PromiseId → Owner)
    (hserves : Serves heap.jobs (Function.update (s.job phase) i (x.job i c)))
    (hstate : ∀ p, owner p ≠ .nobody → owner p ≠ .next i → owner p ≠ .fn i → heap.state p = s.heap.state p)
    (hnext : heap.state c.next = x.next c)
    (hfn : ∀ p state, x.fn c = some (p, state) → heap.state p = state ∧ owner' p = .fn i)
    (howner : ∀ p, owner p ≠ .nobody → owner' p = owner p)
    (hfresh : ∀ p, heap.size ≤ p → owner' p = .nobody) (hi : (phase i).Busy) (hx : x.Busy) :
    Wired (s.setStage i x.stage heap) (Function.update phase i x) owner' := by
  have hwaits : ∀ {j}, Function.update phase i x j = .waits ↔ phase j = .waits := by
    intro j
    by_cases hji : j = i
    · subst hji
      rw [Function.update_self]
      exact iff_of_false (fun h => by rw [h] at hx; exact hx) fun h => by rw [h] at hi; exact hi
    · rw [Function.update_of_ne hji]
  have hprevState : ∀ {j d}, s.Call j d → heap.state d.prev = s.heap.state d.prev := by
    intro j d hd
    obtain h | ⟨k, -, -, -, h⟩ := hw.owner_prev hd <;>
      exact hstate _ (by rw [h]; nofun) (by rw [h]; nofun) (by rw [h]; nofun)
  have hcaughtState : ∀ {j d}, s.Call j d → heap.state d.caught = s.heap.state d.caught := by
    intro j d hd
    have h := (hw.owners j d hd).2
    exact hstate _ (by rw [h]; nofun) (by rw [h]; nofun) (by rw [h]; nofun)
  constructor
  case serves =>
    rw [← job_update hc] at hserves
    exact hserves
  case stage =>
    intro j
    show Function.update s.stage i x.stage j = _
    by_cases hji : j = i
    · subst hji
      rw [Function.update_self, Function.update_self]
    · rw [Function.update_of_ne hji, Function.update_of_ne hji]
      exact hw.stage j
  case later =>
    intro j hj
    exact hwaits.mpr (hw.later j hj)
  case prev =>
    intro j d hd
    show (Function.update phase i x j).Prev j d (heap.state d.prev)
    rw [hprevState hd]
    have hold := hw.prev j d hd
    by_cases hji : j = i
    · subst hji
      rw [Function.update_self]
      have hsettled : ∃ outcome, s.heap.state d.prev = .settled outcome := by
        cases hphase : phase j <;> rw [hphase] at hold hi
        case waits => exact hi.elim
        all_goals exact hold
      cases x
      case waits => exact hx.elim
      all_goals exact hsettled
    · rwa [Function.update_of_ne hji]
  case next =>
    intro j d hd
    show heap.state d.next = _
    by_cases hji : j = i
    · subst hji
      obtain rfl := Option.some.inj (hc.symm.trans hd)
      rw [Function.update_self, hnext]
    · have h := (hw.owners j d hd).1
      rw [Function.update_of_ne hji, ← hw.next j d hd]
      refine hstate _ (by rw [h]; nofun) ?_ (by rw [h]; nofun)
      rw [h]
      exact fun heq => hji (Owner.next.inj heq)
  case fn =>
    intro j d hd p state hp
    by_cases hji : j = i
    · subst hji
      obtain rfl := Option.some.inj (hc.symm.trans hd)
      rw [Function.update_self] at hp
      exact hfn p state hp
    · rw [Function.update_of_ne hji] at hp
      obtain ⟨hp, h⟩ := hw.fn j d hd p state hp
      refine ⟨(hstate p (by rw [h]; nofun) (by rw [h]; nofun) ?_).trans hp, (howner p (by rw [h]; nofun)).trans h⟩
      rw [h]
      exact fun heq => hji (Owner.fn.inj heq)
  case caught =>
    intro j d hd reactions hreactions
    refine (hw.caught j d hd reactions ((hcaughtState hd).symm.trans hreactions)).imp_right ?_
    rintro ⟨k, e, he, hk, hprev⟩
    exact ⟨k, e, he, hwaits.mpr hk, hprev⟩
  case done =>
    intro j d hd
    show _ ↔ ∃ outcome, heap.state d.caught = .settled outcome
    rw [hcaughtState hd, ← hw.done j d hd]
    by_cases hji : j = i
    · subst hji
      rw [Function.update_self]
      refine iff_of_false ?_ ?_
      · rintro ⟨outcome, rfl⟩
        exact hx
      · rintro ⟨outcome, h⟩
        rw [h] at hi
        exact hi
    · rw [Function.update_of_ne hji]
  case owners =>
    intro j d hd
    obtain ⟨hn, hcaught⟩ := hw.owners j d hd
    exact ⟨(howner _ (by rw [hn]; nofun)).trans hn, (howner _ (by rw [hcaught]; nofun)).trans hcaught⟩
  case fresh => exact hfresh
  case chain =>
    intro j d hd
    refine (hw.chain j d hd).imp_left ?_
    rintro ⟨h, hnot, hfirst⟩
    exact ⟨(howner _ (by rw [h]; nofun)).trans h, mt hwaits.mp hnot, hfirst⟩
  case map => exact hw.map

/-- The rule of a call that gets done: of the others, only those change that waited for it. -/
theorem finish (hw : Wired s phase owner) (hc : s.Call i c) {outcome before : Except ε ν}
    (hi : phase i = .known outcome) {phase' : Nat → Phase ν ε} {jobs : List (Job Callback ν ε)}
    (hserves : Serves jobs (s.job phase')) (hdone : phase' i = .done outcome)
    (hother : ∀ j, j ≠ i → phase' j = phase j ∨
      phase j = .waits ∧ phase' j = .due before ∧ ∃ d, s.Call j d ∧ d.prev = c.caught)
    (hwoken : ∀ j d, s.Call j d → d.prev = c.caught → phase' j ≠ .waits) :
    Wired { s with heap := { s.heap with state := Function.update s.heap.state c.caught (.settled before), jobs } }
      phase' owner := by
  have hstate : ∀ p, owner p ≠ .caught i →
      Function.update s.heap.state c.caught (.settled before) p = s.heap.state p := by
    intro p hp
    refine Function.update_of_ne ?_ _ _
    rintro rfl
    exact hp (hw.owners i c hc).2
  have hwaits : ∀ {j}, phase' j = .waits → phase j = .waits := by
    intro j hj
    by_cases hji : j = i
    · rw [hji, hdone] at hj
      cases hj
    · obtain h | ⟨h, -⟩ := hother j hji
      · rwa [h] at hj
      · exact h
  constructor
  case serves => exact hserves
  case stage =>
    intro j
    show s.stage j = _
    rw [hw.stage]
    by_cases hji : j = i
    · rw [hji, hi, hdone]
      rfl
    · obtain h | ⟨h, h', -⟩ := hother j hji
      · rw [h]
      · rw [h, h']
        rfl
  case later =>
    intro j hj
    have hold := hw.later j hj
    have hji : j ≠ i := by
      rintro rfl
      rw [hi] at hold
      cases hold
    obtain h | ⟨-, -, d, hd, -⟩ := hother j hji
    · rwa [h]
    · exact absurd (lt_length hd) (Nat.not_lt.mpr hj)
  case prev =>
    intro j d hd
    show (phase' j).Prev j d (Function.update s.heap.state c.caught (.settled before) d.prev)
    by_cases hprev : d.prev = c.caught
    · rw [hprev, Function.update_self]
      cases hphase : phase' j
      case waits => exact absurd hphase (hwoken j d hd hprev)
      all_goals exact ⟨before, rfl⟩
    · rw [Function.update_of_ne hprev]
      have hold := hw.prev j d hd
      by_cases hji : j = i
      · subst hji
        rw [hdone]
        rw [hi] at hold
        exact hold
      · obtain h | ⟨-, -, e, he, heq⟩ := hother j hji
        · rwa [h]
        · obtain rfl := Option.some.inj (hd.symm.trans he)
          exact absurd heq hprev
  case next =>
    intro j d hd
    have h := (hw.owners j d hd).1
    refine ((hstate _ (by rw [h]; nofun)).trans (hw.next j d hd)).trans ?_
    by_cases hji : j = i
    · rw [hji, hi, hdone]
      rfl
    · obtain h | ⟨h, h', -⟩ := hother j hji
      · rw [h]
      · rw [h, h']
        rfl
  case fn =>
    intro j d hd p state hp
    have hsame : (phase j).fn d = some (p, state) := by
      by_cases hji : j = i
      · rw [hji, hdone] at hp
        cases hp
      · obtain h | ⟨-, h, -⟩ := hother j hji
        · rwa [h] at hp
        · rw [h] at hp
          cases hp
    obtain ⟨hp, h⟩ := hw.fn j d hd p state hsame
    exact ⟨(hstate p (by rw [h]; nofun)).trans hp, h⟩
  case caught =>
    intro j d hd reactions hreactions
    have hji : j ≠ i := by
      rintro rfl
      obtain rfl := Option.some.inj (hc.symm.trans hd)
      have hself : Function.update s.heap.state c.caught (.settled before) c.caught = .settled before :=
        Function.update_self ..
      cases hself.symm.trans hreactions
    have h := (hw.owners j d hd).2
    have hne : d.caught ≠ c.caught := by
      intro heq
      rw [heq, (hw.owners i c hc).2] at h
      exact hji (Owner.caught.inj h).symm
    have hold : s.heap.state d.caught = .pending reactions := by
      rw [← hreactions]
      exact (Function.update_of_ne hne _ _).symm
    refine (hw.caught j d hd reactions hold).imp_right ?_
    rintro ⟨k, e, he, hk, hprev⟩
    have hki : k ≠ i := by
      rintro rfl
      rw [hi] at hk
      cases hk
    obtain h | ⟨-, -, e', he', heq⟩ := hother k hki
    · exact ⟨k, e, he, h.trans hk, hprev⟩
    · obtain rfl := Option.some.inj (he.symm.trans he')
      exact absurd (hprev.symm.trans heq) hne
  case done =>
    intro j d hd
    show _ ↔ ∃ outcome, Function.update s.heap.state c.caught (.settled before) d.caught = .settled outcome
    by_cases hji : j = i
    · subst hji
      obtain rfl := Option.some.inj (hc.symm.trans hd)
      exact iff_of_true ⟨outcome, hdone⟩ ⟨before, Function.update_self ..⟩
    · have h := (hw.owners j d hd).2
      rw [hstate _ (by rw [h]; exact fun heq => hji (Owner.caught.inj heq)), ← hw.done j d hd]
      obtain h | ⟨h, h', -⟩ := hother j hji
      · rw [h]
      · rw [h, h']
        exact iff_of_false (fun ⟨_, heq⟩ => nomatch heq) fun ⟨_, heq⟩ => nomatch heq
  case owners => exact hw.owners
  case fresh => exact hw.fresh
  case chain =>
    intro j d hd
    refine (hw.chain j d hd).imp_left ?_
    rintro ⟨h, hnot, hfirst⟩
    exact ⟨h, mt hwaits hnot, hfirst⟩
  case map => exact hw.map

/-- A call is done: the next one with its key, if there is one, becomes due. -/
theorem wake (hw : Wired s phase owner) (hc : s.Call i c) {outcome : Except ε ν} (before : Except ε ν)
    (hi : phase i = .known outcome) {n : Nat} (hn : s.heap.jobs[n]? = some (.reaction (onNext c) outcome)) :
    ∃ phase', Wired { s with heap := (s.heap.take n).settle c.caught before } phase' owner ∧
      phase' i = .done outcome ∧ ∀ j, phase' j ≠ phase j → j = i ∨ phase j = .waits ∧ phase' j = .due before := by
  have hpending : ∃ reactions, s.heap.state c.caught = .pending reactions := by
    cases hstate : s.heap.state c.caught
    case pending reactions => exact ⟨reactions, rfl⟩
    case settled before =>
      obtain ⟨outcome', h⟩ := (hw.done i c hc).mpr ⟨before, hstate⟩
      cases hi.symm.trans h
  obtain ⟨reactions, hpending⟩ := hpending
  have hwaiting : ∀ {j d}, s.Call j d → d.prev = c.caught → phase j = .waits → reactions = [onPrev j d] := by
    intro j d hd hprev hj
    have h := hw.prev j d hd
    rw [hj, hprev, hpending] at h
    exact PromiseState.pending.inj h
  have hjob : s.job phase i = some (.reaction (onNext c) outcome) := by
    rw [job_eq hc, hi]
    rfl
  have htake := hw.serves.take hn hjob
  rw [Heap.settle_pending (h := s.heap.take n) hpending]
  have hne : ∀ {j}, phase j = .waits → j ≠ i := by
    rintro j hj rfl
    cases hj.symm.trans hi
  rcases hw.caught i c hc reactions hpending with rfl | ⟨j, d, hd, hj, hprev⟩
  · -- nobody waits
    refine ⟨Function.update phase i (.done outcome), hw.finish hc hi ?_ (Function.update_self ..) ?_ ?_,
      Function.update_self .., ?_⟩
    · rw [job_update hc]
      show Serves (_ ++ []) _
      rw [List.append_nil]
      exact htake
    · exact fun j hji => .inl (Function.update_of_ne hji _ _)
    · intro j d hd hprev hj
      by_cases hji : j = i
      · rw [hji, Function.update_self] at hj
        cases hj
      · rw [Function.update_of_ne hji] at hj
        cases hwaiting hd hprev hj
    · intro j hj
      by_contra hji
      exact hj (Function.update_of_ne (fun h => hji (.inl h)) _ _)
  · -- the call that waits becomes due
    obtain rfl := hwaiting hd hprev hj
    have hji := hne hj
    have hself : Function.update (Function.update phase i (.done outcome)) j (.due before) j = .due before :=
      Function.update_self ..
    have hothers : ∀ {k}, k ≠ i → k ≠ j →
        Function.update (Function.update phase i (.done outcome)) j (.due before) k = phase k :=
      fun hki hkj => (Function.update_of_ne hkj _ _).trans (Function.update_of_ne hki _ _)
    have hdone : Function.update (Function.update phase i (.done outcome)) j (.due before) i = .done outcome :=
      (Function.update_of_ne hji.symm _ _).trans (Function.update_self ..)
    refine ⟨_, hw.finish hc hi ?_ hdone ?_ ?_, hdone, ?_⟩
    · rw [job_update hd, job_update hc]
      refine htake.put ?_ fun k hk => ?_
      · rw [Function.update_of_ne hji, job_eq hd, hj]
        rfl
      · have hki : k ≠ i := by
          rintro rfl
          rw [Function.update_self] at hk
          cases hk
        rw [Function.update_of_ne hki] at hk
        obtain rfl := hw.job_owner (x := .due before) hd rfl hk
        rw [job_eq hd, hj] at hk
        cases hk
    · intro k hki
      by_cases hkj : k = j
      · rw [hkj]
        exact .inr ⟨hj, hself, d, hd, hprev⟩
      · exact .inl (hothers hki hkj)
    · intro k e he heprev hk
      by_cases hki : k = i
      · rw [hki, hdone] at hk
        cases hk
      by_cases hkj : k = j
      · rw [hkj, hself] at hk
        cases hk
      · rw [hothers hki hkj] at hk
        have h := hwaiting he heprev hk
        injection h with h
        injection h with h
        injection h with h
        injection h with h
        exact hkj h.symm
    · intro k hk
      by_cases hki : k = i
      · exact .inl hki
      by_cases hkj : k = j
      · rw [hkj]
        exact .inr ⟨hj, hself⟩
      · exact absurd (hothers hki hkj) hk

/-- A call without a job gets one. -/
theorem give (hw : Wired s phase owner) (hc : s.Call i c) {jobs : List (Job Callback ν ε)}
    (h : Serves jobs (Function.update (s.job phase) i none)) (x : Phase ν ε) :
    Serves (jobs ++ (x.job i c).toList) (Function.update (s.job phase) i (x.job i c)) := by
  cases hx : x.job i c with
  | none =>
    rw [Option.toList_none, List.append_nil]
    exact h
  | some job =>
    have hput := h.put (a := job) (Function.update_self ..) fun j hj => ?_
    · rw [Function.update_idem] at hput
      exact hput
    · have hji : j ≠ i := by
        rintro rfl
        rw [Function.update_self] at hj
        cases hj
      rw [Function.update_of_ne hji] at hj
      exact hji (hw.job_owner hc hx hj)

/-- The job of a call is done, and the call gets the next one. -/
theorem move (hw : Wired s phase owner) (hc : s.Call i c) {n : Nat} {job : Job Callback ν ε}
    (hn : s.heap.jobs[n]? = some job) (hjob : (phase i).job i c = some job) (x : Phase ν ε) :
    Serves (s.heap.jobs.eraseIdx n ++ (x.job i c).toList) (Function.update (s.job phase) i (x.job i c)) :=
  hw.give hc (hw.serves.take hn ((job_eq hc).trans hjob)) x
theorem same_stage (hw : Wired s phase owner) {x : Phase ν ε} (hx : x.stage = (phase i).stage)
    (heap : Heap Callback ν ε) : s.setStage i x.stage heap = { s with heap } := by
  rw [LockState.setStage, hx, ← hw.stage, Function.update_eq_self]

theorem handler_onPrev {before : Except ε ν} : (onPrev i c).handler before = some (.fn i) := by
  cases before <;> rfl

theorem nearer {x : Phase ν ε} (hx : x.weight < (phase i).weight) (j : Nat) :
    (Function.update phase i x j).weight ≤ (phase j).weight := by
  by_cases hji : j = i
  · subst hji
    rw [Function.update_self]
    exact Nat.le_of_lt hx
  · exact Nat.le_of_eq (by rw [Function.update_of_ne hji])

variable {undefined : ν}

/-- `prev` has settled, and the function begins. -/
theorem begin_fn (hw : Wired s phase owner) (hc : s.Call i c) {before : Except ε ν} (hi : phase i = .due before)
    {n : Nat} (hn : s.heap.jobs[n]? = some (.reaction (onPrev i c) before)) (start : Start ε) :
    ∃ x owner', Wired ({ s with heap := s.heap.take n }.perform undefined start (.reaction (onPrev i c) before))
      (Function.update phase i x) owner' ∧ x.weight < (phase i).weight := by
  have hjob : (phase i).job i c = some (.reaction (onPrev i c) before) := by rw [hi]; rfl
  have hnext : s.heap.state c.next = .pending [onNext c] := by rw [hw.next i c hc, hi]; rfl
  simp only [LockState.perform, handler_onPrev]
  cases start with
  | returns =>
    have hne : ∀ {p}, owner p ≠ .nobody → p ≠ s.heap.size := fun hp => Nat.ne_of_lt (hw.lt_size hp)
    refine ⟨.begun s.heap.size, Function.update owner s.heap.size (.fn i),
      hw.advance hc (x := .begun s.heap.size) _ _ (hw.move hc hn hjob (.begun s.heap.size)) ?_ ?_ ?_ ?_ ?_
        (by rw [hi]; trivial) trivial,
      by simp [hi, Phase.weight]⟩
    · exact fun p hp _ _ => Function.update_of_ne (hne hp) _ _
    · refine (Function.update_of_ne (hne ?_) _ _).trans hnext
      rw [(hw.owners i c hc).1]
      nofun
    · intro p state hp
      cases hp
      exact ⟨Function.update_self .., Function.update_self ..⟩
    · exact fun p hp => Function.update_of_ne (hne hp) _ _
    · intro p hp
      have hlt : s.heap.size < p := hp
      rw [Function.update_of_ne (Nat.ne_of_gt hlt)]
      exact hw.fresh p (Nat.le_of_lt hlt)
  | throws e =>
    have hsettle : (s.heap.take n).settle (onPrev i c).derived (.error e) = _ :=
      Heap.settle_pending (h := s.heap.take n) hnext
    simp only [hsettle]
    refine ⟨.known (.error e), owner,
      hw.advance hc (x := .known (.error e)) _ _ (hw.move hc hn hjob (.known (.error e))) ?_ ?_ nofun
        (fun p _ => rfl) hw.fresh (by rw [hi]; trivial) trivial,
      by simp [hi, Phase.weight]⟩
    · intro p _ hp _
      refine Function.update_of_ne ?_ _ _
      rintro rfl
      exact hp (hw.owners i c hc).1
    · exact Function.update_self ..

/-- `next` begins to wait for the promise of the function. -/
theorem wait_fn (hw : Wired s phase owner) (hc : s.Call i c) {promise : PromiseId} {n : Nat}
    (hn : s.heap.jobs[n]? = some (.thenable c.next promise))
    (hi : phase i = .begun promise ∨ ∃ outcome, phase i = .stopped promise outcome) (start : Start ε) :
    ∃ x, Wired ({ s with heap := s.heap.take n }.perform undefined start (.thenable c.next promise))
      (Function.update phase i x) owner ∧ x.weight < (phase i).weight := by
  have hjob : (phase i).job i c = some (.thenable c.next promise) := by
    obtain h | ⟨outcome, h⟩ := hi <;> rw [h] <;> rfl
  have hnext : s.heap.state c.next = .pending [onNext c] := by
    rw [hw.next i c hc]
    obtain h | ⟨outcome, h⟩ := hi <;> rw [h] <;> rfl
  have hne : c.next ≠ promise := by
    have hpromise : owner promise = .fn i := by
      obtain h | ⟨outcome, h⟩ := hi <;> exact (hw.fn i c hc promise _ (by rw [h]; rfl)).2
    rintro rfl
    rw [(hw.owners i c hc).1] at hpromise
    cases hpromise
  simp only [LockState.perform]
  obtain h | ⟨outcome, h⟩ := hi
  · obtain ⟨hstate, howner⟩ := hw.fn i c hc promise (.pending []) (by rw [h]; rfl)
    simp only [Heap.react_pending (h := s.heap.take n) hstate]
    have hserves := hw.move hc hn hjob (.runs promise)
    rw [show (Phase.runs promise : Phase ν ε).job i c = none from rfl, Option.toList_none, List.append_nil] at hserves
    have hstep := hw.advance hc (x := .runs promise)
      { s.heap.take n with state := Function.update s.heap.state promise (.pending ([] ++ [onFn c])) } owner
      hserves ?_ ((Function.update_of_ne hne _ _).trans hnext) ?_ (fun p _ => rfl) hw.fresh (by rw [h]; trivial)
      trivial
    · rw [hw.same_stage (by rw [h]; rfl)] at hstep
      exact ⟨.runs promise, hstep, by simp [h, Phase.weight]⟩
    · intro p _ _ hp
      refine Function.update_of_ne ?_ _ _
      rintro rfl
      exact hp howner
    · intro p state hp
      cases hp
      exact ⟨Function.update_self .., howner⟩
  · obtain ⟨hstate, -⟩ := hw.fn i c hc promise (.settled outcome) (by rw [h]; rfl)
    simp only [Heap.react_settled (h := s.heap.take n) hstate]
    have hstep := hw.advance hc (x := .told outcome) ((s.heap.take n).enqueue (.reaction (onFn c) outcome)) owner
      (hw.move hc hn hjob (.told outcome)) (fun p _ _ _ => rfl) hnext nofun (fun p _ => rfl) hw.fresh
      (by rw [h]; trivial) trivial
    rw [hw.same_stage (by rw [h]; rfl)] at hstep
    exact ⟨.told outcome, hstep, by simp [h, Phase.weight]⟩

/-- `next` takes over the outcome of the function. -/
theorem pass (hw : Wired s phase owner) (hc : s.Call i c) {outcome : Except ε ν} (hi : phase i = .told outcome)
    {n : Nat} (hn : s.heap.jobs[n]? = some (.reaction (onFn c) outcome)) (start : Start ε) :
    ∃ x, Wired ({ s with heap := s.heap.take n }.perform undefined start (.reaction (onFn c) outcome))
      (Function.update phase i x) owner ∧ x.weight < (phase i).weight := by
  have hnext : s.heap.state c.next = .pending [onNext c] := by rw [hw.next i c hc, hi]; rfl
  have hhandler : (onFn c).handler outcome = none := by cases outcome <;> rfl
  simp only [LockState.perform, hhandler]
  have hsettle : (s.heap.take n).settle c.next outcome = _ := Heap.settle_pending (h := s.heap.take n) hnext
  have hstep := hw.advance hc (x := .known outcome) ((s.heap.take n).settle c.next outcome) owner ?_ ?_ ?_ nofun
    (fun p _ => rfl) ?_ (by rw [hi]; trivial) trivial
  · rw [hw.same_stage (by rw [hi]; rfl)] at hstep
    exact ⟨.known outcome, hstep, by simp [hi, Phase.weight]⟩
  · rw [hsettle]
    exact hw.move hc hn (by rw [hi]; rfl) (.known outcome)
  · intro p _ hp _
    rw [hsettle]
    refine Function.update_of_ne ?_ _ _
    rintro rfl
    exact hp (hw.owners i c hc).1
  · rw [hsettle]
    exact Function.update_self ..
  · rw [hsettle]
    exact hw.fresh

/-- The promise of a function settles. -/
theorem settle (hw : Wired s phase owner) (hc : s.Call i c) {promise : PromiseId}
    (hi : phase i = .begun promise ∨ phase i = .runs promise) (outcome : Except ε ν) :
    ∃ x, Wired (s.setStage i (.ended outcome) (s.heap.settle promise outcome)) (Function.update phase i x) owner := by
  have hnext : s.heap.state c.next = .pending [onNext c] := by
    rw [hw.next i c hc]
    obtain h | h := hi <;> rw [h] <;> rfl
  have howner : owner promise = .fn i := by
    obtain h | h := hi <;> exact (hw.fn i c hc promise _ (by rw [h]; rfl)).2
  have hother : ∀ p, owner p ≠ .fn i →
      Function.update s.heap.state promise (.settled outcome) p = s.heap.state p := by
    intro p hp
    refine Function.update_of_ne ?_ _ _
    rintro rfl
    exact hp howner
  have hcn := (hw.owners i c hc).1
  obtain h | h := hi
  · obtain ⟨hstate, -⟩ := hw.fn i c hc promise (.pending []) (by rw [h]; rfl)
    rw [Heap.settle_pending hstate]
    refine ⟨.stopped promise outcome, hw.advance hc (x := .stopped promise outcome) _ _ ?_ (fun p _ _ => hother p)
      ((hother _ (by rw [hcn]; nofun)).trans hnext) ?_ (fun p _ => rfl) hw.fresh (by rw [h]; trivial) trivial⟩
    · have hsame : (Phase.stopped promise outcome).job i c = s.job phase i := by
        rw [job_eq hc, h]
        rfl
      rw [hsame, Function.update_eq_self]
      show Serves (s.heap.jobs ++ []) _
      rw [List.append_nil]
      exact hw.serves
    · intro p state hp
      cases hp
      exact ⟨Function.update_self .., howner⟩
  · obtain ⟨hstate, -⟩ := hw.fn i c hc promise (.pending [onFn c]) (by rw [h]; rfl)
    rw [Heap.settle_pending hstate]
    refine ⟨.told outcome, hw.advance hc (x := .told outcome) _ _ ?_ (fun p _ _ => hother p)
      ((hother _ (by rw [hcn]; nofun)).trans hnext) nofun (fun p _ => rfl) hw.fresh (by rw [h]; trivial) trivial⟩
    refine hw.give hc ?_ (.told outcome)
    have hnone : s.job phase i = none := by
      rw [job_eq hc, h]
      rfl
    rw [← hnone, Function.update_eq_self]
    exact hw.serves

/-! ## Jobs -/

variable (undefined) in
/-- A job is that of a call, and no call moves away from its end. -/
theorem perform (hw : Wired s phase owner) {n : Nat} {job : Job Callback ν ε} (hn : s.heap.jobs[n]? = some job)
    (start : Start ε) :
    ∃ phase' owner', Wired ({ s with heap := s.heap.take n }.perform undefined start job) phase' owner' ∧
      (∀ j, (phase' j).weight ≤ (phase j).weight) ∧
      ∃ i, i < s.calls.length ∧ (phase' i).weight < (phase i).weight := by
  obtain ⟨i, hi⟩ := (hw.serves.mem_iff job).mp (List.mem_of_getElem? hn)
  obtain ⟨c, hc, hjob⟩ := Option.bind_eq_some_iff.mp hi
  have hstep : ∀ {x : Phase ν ε} {owner'},
      Wired ({ s with heap := s.heap.take n }.perform undefined start job) (Function.update phase i x) owner' ∧
        x.weight < (phase i).weight → ∃ phase' owner',
      Wired ({ s with heap := s.heap.take n }.perform undefined start job) phase' owner' ∧
        (∀ j, (phase' j).weight ≤ (phase j).weight) ∧
        ∃ i, i < s.calls.length ∧ (phase' i).weight < (phase i).weight := by
    rintro x owner' ⟨hw', hlt⟩
    exact ⟨_, owner', hw', nearer hlt, i, lt_length hc, by rwa [Function.update_self]⟩
  cases hphase : phase i with
  | waits | runs | done => rw [hphase] at hjob; cases hjob
  | due before =>
    rw [hphase] at hjob
    cases hjob
    obtain ⟨x, owner', h⟩ := hw.begin_fn hc hphase hn start
    exact hstep h
  | begun promise =>
    rw [hphase] at hjob
    cases hjob
    obtain ⟨x, h⟩ := hw.wait_fn hc hn (.inl hphase) start
    exact hstep h
  | stopped promise outcome =>
    rw [hphase] at hjob
    cases hjob
    obtain ⟨x, h⟩ := hw.wait_fn hc hn (.inr ⟨outcome, hphase⟩) start
    exact hstep h
  | told outcome =>
    rw [hphase] at hjob
    cases hjob
    obtain ⟨x, h⟩ := hw.pass hc hphase hn start
    exact hstep h
  | known outcome =>
    rw [hphase] at hjob
    cases hjob
    have hwake : ∀ before : Except ε ν, ∃ phase' owner',
        Wired { s with heap := (s.heap.take n).settle c.caught before } phase' owner' ∧
          (∀ j, (phase' j).weight ≤ (phase j).weight) ∧
          ∃ i, i < s.calls.length ∧ (phase' i).weight < (phase i).weight := by
      intro before
      obtain ⟨phase', hw', hdone, hothers⟩ := hw.wake hc before hphase hn
      refine ⟨phase', owner, hw', fun j => ?_, i, lt_length hc, by simp [hdone, hphase, Phase.weight]⟩
      by_cases hj : phase' j = phase j
      · exact Nat.le_of_eq (by rw [hj])
      · obtain rfl | ⟨h, h'⟩ := hothers j hj
        · simp [hdone, hphase, Phase.weight]
        · simp [h, h', Phase.weight]
    cases outcome with
    | ok v => exact hwake (.ok v)
    | error e => exact hwake (.ok undefined)

end Wired

end Vesper.Client.Locks
