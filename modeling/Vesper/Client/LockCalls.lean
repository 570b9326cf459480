import Vesper.Client.Locks

/-!
# A call of `withLock`

A new call takes the place of the last one under its key in the map, and waits for it.
-/

namespace Vesper.Client.Locks
open Promises
variable {κ ν ε : Type}

namespace Wired
variable {s : LockState κ ν ε} {phase : Nat → Phase ν ε} {owner : PromiseId → Owner} {i j : Nat} {c d : LockCall κ}

theorem call_append {map : κ → Option PromiseId} {heap : Heap Callback ν ε} {stage : Nat → Stage ν ε} :
    LockState.Call { heap, map, calls := s.calls ++ [c], stage } j d ↔
      s.Call j d ∨ j = s.calls.length ∧ d = c :=
  getElem?_append_singleton

theorem last_append {map : κ → Option PromiseId} {heap : Heap Callback ν ε} {stage : Nat → Stage ν ε} {key : κ}
    {n : Nat} (h : s.Last key n i d) (hn : n ≤ s.calls.length ∨ c.key ≠ key) :
    LockState.Last { heap, map, calls := s.calls ++ [c], stage } key n i d := by
  obtain ⟨hd, hkey, hlt, hlast⟩ := h
  refine ⟨call_append.mpr (.inl hd), hkey, hlt, fun j e he hekey hj => ?_⟩
  obtain he | ⟨rfl, rfl⟩ := call_append.mp he
  · exact hlast j e he hekey hj
  · obtain hn | hn := hn
    · exact absurd hj (Nat.not_lt.mpr hn)
    · exact absurd hekey hn

/-- The rule of `withLock`. The new call is due, or the only one to wait for its `prev`. -/
theorem append [DecidableEq κ] (hw : Wired s phase owner) {x : Phase ν ε} {heap : Heap Callback ν ε}
    {owner' : PromiseId → Owner}
    (hx : x = .waits ∨ ∃ before, x = .due before)
    (hserves : Serves heap.jobs (Function.update (s.job phase) s.calls.length (x.job s.calls.length c)))
    (hstate : ∀ p, owner p ≠ .nobody → heap.state p = s.heap.state p ∨
      x = .waits ∧ p = c.prev ∧ s.heap.state p = .pending [] ∧ heap.state p = .pending [onPrev s.calls.length c])
    (hprev : x.Prev s.calls.length c (heap.state c.prev)) (hnext : heap.state c.next = .pending [onNext c])
    (hcaught : heap.state c.caught = .pending []) (howner : ∀ p, owner p ≠ .nobody → owner' p = owner p)
    (howners : owner' c.next = .next s.calls.length ∧ owner' c.caught = .caught s.calls.length)
    (hfresh : ∀ p, heap.size ≤ p → owner' p = .nobody)
    (hchain : (owner' c.prev = .prev s.calls.length ∧ x ≠ .waits ∧ ∀ j d, s.Call j d → d.key ≠ c.key) ∨
      ∃ j d, s.Last c.key s.calls.length j d ∧ d.caught = c.prev) :
    Wired { s with heap, map := Function.update s.map c.key (some c.caught), calls := s.calls ++ [c] }
      (Function.update phase s.calls.length x) owner' := by
  have hold : ∀ {j}, j < s.calls.length → Function.update phase s.calls.length x j = phase j :=
    fun hj => Function.update_of_ne (Nat.ne_of_lt hj) _ _
  have hself : Function.update phase s.calls.length x s.calls.length = x := Function.update_self ..
  constructor
  case serves =>
    refine hserves.congr fun j => ?_
    rw [LockState.job]
    show (s.calls ++ [c])[j]?.bind _ = _
    rcases Nat.lt_trichotomy j s.calls.length with hj | rfl | hj
    · rw [List.getElem?_append_left hj, hold hj, Function.update_of_ne (Nat.ne_of_lt hj)]
      rfl
    · rw [List.getElem?_concat_length, hself, Function.update_self]
      rfl
    · have hnone : (s.calls ++ [c])[j]? = none :=
        List.getElem?_eq_none (by rw [List.length_append]; exact hj)
      rw [hnone]
      show none = _
      rw [Function.update_of_ne (Nat.ne_of_gt hj), LockState.job, List.getElem?_eq_none (Nat.le_of_lt hj)]
      rfl
  case stage =>
    intro j
    show s.stage j = _
    rw [hw.stage]
    by_cases hj : j = s.calls.length
    · rw [hj, hself, hw.later _ (Nat.le_refl _)]
      obtain rfl | ⟨before, rfl⟩ := hx <;> rfl
    · rw [Function.update_of_ne hj]
  case later =>
    intro j hj
    have hlt : s.calls.length < j := by
      rw [List.length_append] at hj
      exact hj
    rw [Function.update_of_ne (Nat.ne_of_gt hlt)]
    exact hw.later j (Nat.le_of_lt hlt)
  case prev =>
    intro j d hd
    show (Function.update phase s.calls.length x j).Prev j d (heap.state d.prev)
    obtain hd | ⟨rfl, rfl⟩ := call_append.mp hd
    · rw [hold (lt_length hd)]
      have h := hw.prev j d hd
      have hnobody : owner d.prev ≠ .nobody := by
        obtain h | ⟨k, -, -, -, h⟩ := hw.owner_prev hd <;> rw [h] <;> exact Owner.noConfusion
      obtain heq | ⟨-, -, hpending, -⟩ := hstate _ hnobody
      · rwa [heq]
      · rw [hpending] at h
        cases hphase : phase j <;> rw [hphase] at h
        case waits => cases h
        all_goals
          obtain ⟨_, h⟩ := h
          cases h
    · rw [hself]
      exact hprev
  case next =>
    intro j d hd
    show heap.state d.next = _
    obtain hd | ⟨rfl, rfl⟩ := call_append.mp hd
    · rw [hold (lt_length hd)]
      have h := hw.next j d hd
      obtain heq | ⟨-, -, hpending, -⟩ := hstate d.next (by rw [(hw.owners j d hd).1]; exact Owner.noConfusion)
      · exact heq.trans h
      · rw [hpending] at h
        cases hphase : phase j <;> rw [hphase] at h <;> cases h
    · rw [hself, hnext]
      obtain rfl | ⟨before, rfl⟩ := hx <;> rfl
  case fn =>
    intro j d hd p state hp
    obtain hd | ⟨rfl, rfl⟩ := call_append.mp hd
    · rw [hold (lt_length hd)] at hp
      obtain ⟨hp, h⟩ := hw.fn j d hd p state hp
      have hnobody : owner p ≠ .nobody := by
        rw [h]
        exact Owner.noConfusion
      refine ⟨?_, (howner p hnobody).trans h⟩
      obtain heq | ⟨-, rfl, -⟩ := hstate p hnobody
      · exact heq.trans hp
      · obtain ⟨hc, -⟩ | ⟨k, e, ⟨he, -⟩, heq⟩ := hchain
        · rw [howner _ hnobody, h] at hc
          cases hc
        · rw [← heq, (hw.owners k e he).2] at h
          cases h
    · rw [hself] at hp
      obtain rfl | ⟨before, rfl⟩ := hx <;> cases hp
  case caught =>
    intro j d hd reactions hreactions
    obtain hd | ⟨rfl, rfl⟩ := call_append.mp hd
    · obtain heq | ⟨rfl, hp, -, -⟩ := hstate d.caught (by rw [(hw.owners j d hd).2]; exact Owner.noConfusion)
      · refine (hw.caught j d hd reactions (heq.symm.trans hreactions)).imp_right ?_
        rintro ⟨k, e, he, hk, h⟩
        exact ⟨k, e, call_append.mpr (.inl he), (hold (lt_length he)).trans hk, h⟩
      · exact .inr ⟨_, c, call_append.mpr (.inr ⟨rfl, rfl⟩), hself, hp.symm⟩
    · exact .inl (PromiseState.pending.inj (hreactions.symm.trans hcaught))
  case done =>
    intro j d hd
    show _ ↔ ∃ outcome, heap.state d.caught = .settled outcome
    obtain hd | ⟨rfl, rfl⟩ := call_append.mp hd
    · rw [hold (lt_length hd)]
      obtain heq | ⟨-, -, hpending, hpending'⟩ :=
        hstate d.caught (by rw [(hw.owners j d hd).2]; exact Owner.noConfusion)
      · rw [heq]
        exact hw.done j d hd
      · have h := hw.done j d hd
        rw [hpending] at h
        rw [hpending']
        refine ⟨fun hdone => ?_, fun hsettled => ?_⟩
        · obtain ⟨_, heq⟩ := h.mp hdone
          cases heq
        · obtain ⟨_, heq⟩ := hsettled
          cases heq
    · rw [hself, hcaught]
      refine iff_of_false (fun hdone => ?_) fun hsettled => ?_
      · obtain ⟨_, heq⟩ := hdone
        obtain rfl | ⟨before, rfl⟩ := hx <;> cases heq
      · obtain ⟨_, heq⟩ := hsettled
        cases heq
  case owners =>
    intro j d hd
    obtain hd | ⟨rfl, rfl⟩ := call_append.mp hd
    · obtain ⟨hn, hc⟩ := hw.owners j d hd
      exact ⟨(howner _ (by rw [hn]; exact Owner.noConfusion)).trans hn,
        (howner _ (by rw [hc]; exact Owner.noConfusion)).trans hc⟩
    · exact howners
  case fresh => exact hfresh
  case chain =>
    intro j d hd
    obtain hd | ⟨rfl, rfl⟩ := call_append.mp hd
    · have hlt := lt_length hd
      refine (hw.chain j d hd).imp ?_ ?_
      · rintro ⟨h, hnot, hfirst⟩
        refine ⟨(howner _ (by rw [h]; exact Owner.noConfusion)).trans h, by rwa [hold hlt], fun k e he hkey => ?_⟩
        obtain he | ⟨rfl, -⟩ := call_append.mp he
        · exact hfirst k e he hkey
        · exact Nat.le_of_lt hlt
      · rintro ⟨k, e, hlast, h⟩
        exact ⟨k, e, last_append hlast (.inl (Nat.le_of_lt hlt)), h⟩
    · refine hchain.imp ?_ ?_
      · rintro ⟨h, hnot, hnone⟩
        refine ⟨h, by rwa [hself], fun k e he hkey => ?_⟩
        obtain he | ⟨rfl, -⟩ := call_append.mp he
        · exact absurd hkey (hnone k e he)
        · exact Nat.le_refl _
      · rintro ⟨k, e, hlast, h⟩
        exact ⟨k, e, last_append hlast (.inl (Nat.le_refl _)), h⟩
  case map =>
    intro key
    show (Function.update s.map c.key (some c.caught) key = none ∧ _) ∨
      ∃ i d, LockState.Last _ key (s.calls ++ [c]).length i d ∧
        Function.update s.map c.key (some c.caught) key = some d.caught
    rw [List.length_append, List.length_singleton]
    by_cases hkey : key = c.key
    · subst hkey
      refine .inr ⟨_, c, ⟨call_append.mpr (.inr ⟨rfl, rfl⟩), rfl, Nat.lt_succ_self _, fun j d hd _ hj => ?_⟩,
        Function.update_self ..⟩
      exact Nat.le_of_lt_succ hj
    · rw [Function.update_of_ne hkey]
      refine (hw.map key).imp ?_ ?_
      · rintro ⟨hnone, h⟩
        refine ⟨hnone, fun j d hd => ?_⟩
        obtain hd | ⟨-, rfl⟩ := call_append.mp hd
        · exact h j d hd
        · exact Ne.symm hkey
      · rintro ⟨j, d, ⟨hd, hdkey, hlt, hlast⟩, h⟩
        refine ⟨j, d, ⟨call_append.mpr (.inl hd), hdkey, Nat.lt_succ_of_lt hlt, fun k e he hekey _ => ?_⟩, h⟩
        obtain he | ⟨-, rfl⟩ := call_append.mp he
        · exact hlast k e he hekey (lt_length he)
        · exact absurd hekey.symm hkey

/-- Nobody waits yet for the promise in the map. -/
theorem last_free (hw : Wired s phase owner) {key : κ} (h : s.Last key s.calls.length i c)
    {reactions : List (Reaction Callback)} (hpending : s.heap.state c.caught = .pending reactions) :
    reactions = [] := by
  obtain ⟨hc, hkey, -, hlast⟩ := h
  have howner := (hw.owners i c hc).2
  refine (hw.caught i c hc reactions hpending).resolve_right ?_
  rintro ⟨j, d, hd, -, hprev⟩
  obtain ⟨h, -⟩ | ⟨k, e, ⟨he, hekey, hkj, -⟩, hcaught⟩ := hw.chain j d hd
  · rw [hprev, howner] at h
    cases h
  · have h := (hw.owners k e he).2
    rw [hcaught, hprev, howner] at h
    obtain rfl := Owner.caught.inj h
    obtain rfl := Option.some.inj (hc.symm.trans he)
    exact absurd (hlast j d hd (hekey.symm.trans hkey) (lt_length hd)) (Nat.not_le.mpr hkj)

section
variable [DecidableEq κ] {key : κ} {prev : PromiseId} {heap : Heap Callback ν ε}

theorem append_then (hw : Wired s phase owner) {x : Phase ν ε} (owner' : PromiseId → Owner)
    (hprev : prev < heap.size) (hjobs : heap.jobs = s.heap.jobs)
    (hstate : ∀ p, owner p ≠ .nobody → heap.state p = s.heap.state p)
    (howner : ∀ p, owner p ≠ .nobody → owner' p = owner p) (hfresh : ∀ p, heap.size ≤ p → owner' p = .nobody)
    (hx : x = .waits ∧ heap.state prev = .pending [] ∨ ∃ before, x = .due before ∧ heap.state prev = .settled before)
    (hchain : (owner' prev = .prev s.calls.length ∧ x ≠ .waits ∧ ∀ j d, s.Call j d → d.key ≠ key) ∨
      ∃ j d, s.Last key s.calls.length j d ∧ d.caught = prev) :
    ∃ phase' owner', Wired
      { s with
        heap := (heap.then prev (some (.fn s.calls.length)) (some (.fn s.calls.length))).then heap.size none
          (some .ignore)
        map := Function.update s.map key (some (heap.size + 1))
        calls := s.calls ++ [{ key, prev, next := heap.size, caught := heap.size + 1 }] } phase' owner' := by
  have hnext : (heap.then prev (some (.fn s.calls.length)) (some (.fn s.calls.length))).state heap.size =
      .pending [] :=
    Heap.state_then_new hprev
  have hlt : ∀ {p}, owner p ≠ .nobody → p < heap.size := fun hp =>
    Nat.lt_of_not_le fun hle => hp ((howner _ hp).symm.trans (hfresh _ hle))
  have hinner : heap.size < (heap.then prev (some (.fn s.calls.length)) (some (.fn s.calls.length))).size := by
    rw [Heap.size_then]
    exact Nat.lt_succ_self _
  have hearlier : ∀ {p}, p < heap.size →
      ((heap.then prev (some (.fn s.calls.length)) (some (.fn s.calls.length))).then heap.size none
          (some .ignore)).state p =
        (heap.then prev (some (.fn s.calls.length)) (some (.fn s.calls.length))).state p :=
    fun hp => Heap.state_then_of_ne hinner (Nat.lt_trans hp hinner) (Nat.ne_of_lt hp)
  refine ⟨Function.update phase s.calls.length x,
    Function.update (Function.update owner' heap.size (.next s.calls.length)) (heap.size + 1)
      (.caught s.calls.length),
    hw.append (c := ⟨key, prev, heap.size, heap.size + 1⟩)
      (hx.imp And.left (Exists.imp fun _ => And.left))
      ?_ ?_ ?_ ?_ ?_ ?_ ?_ ?_ ?_⟩
  · rw [Heap.then_pending hinner hnext]
    have hnone : s.job phase s.calls.length = none := by
      rw [LockState.job, List.getElem?_eq_none (Nat.le_refl _)]
      rfl
    obtain ⟨rfl, hpending⟩ | ⟨before, rfl, hsettled⟩ := hx
    · rw [Heap.then_pending hprev hpending]
      show Serves heap.jobs _
      rw [hjobs, show Phase.job _ _ .waits = s.job phase s.calls.length from hnone.symm, Function.update_eq_self]
      exact hw.serves
    · rw [Heap.then_settled hprev hsettled]
      show Serves (heap.jobs ++ [_]) _
      rw [hjobs]
      refine hw.serves.put hnone fun j hj => ?_
      obtain ⟨d, hd, hjob⟩ := Option.bind_eq_some_iff.mp hj
      exact Nat.ne_of_gt (lt_length hd) (fn_of_job hjob (by cases before <;> rfl)).1
  · intro p hp
    rw [hearlier (hlt hp)]
    by_cases hpp : p = prev
    · subst hpp
      obtain ⟨rfl, hpending⟩ | ⟨before, rfl, hsettled⟩ := hx
      · rw [Heap.then_pending hprev hpending]
        exact .inr ⟨rfl, rfl, (hstate p hp).symm.trans hpending, Function.update_self ..⟩
      · rw [Heap.then_settled hprev hsettled]
        exact .inl ((Function.update_of_ne (Nat.ne_of_lt hprev) _ _).trans (hstate p hp))
    · exact .inl ((Heap.state_then_of_ne hprev (hlt hp) hpp).trans (hstate p hp))
  · show x.Prev _ _ (Heap.state _ prev)
    rw [hearlier hprev]
    obtain ⟨rfl, hpending⟩ | ⟨before, rfl, hsettled⟩ := hx
    · rw [Heap.then_pending hprev hpending]
      exact Function.update_self ..
    · rw [Heap.then_settled hprev hsettled]
      exact ⟨before, (Function.update_of_ne (Nat.ne_of_lt hprev) _ _).trans hsettled⟩
  · rw [Heap.then_pending hinner hnext, Heap.size_then]
    exact Function.update_self ..
  · show Heap.state _ (heap.size + 1) = _
    rw [← Heap.size_then (h := heap) (p := prev)]
    exact Heap.state_then_new hinner
  · intro p hp
    rw [Function.update_of_ne (Nat.ne_of_lt (Nat.lt_succ_of_lt (hlt hp))),
      Function.update_of_ne (Nat.ne_of_lt (hlt hp))]
    exact howner p hp
  · exact ⟨(Function.update_of_ne (Nat.ne_of_lt (Nat.lt_succ_self _)) _ _).trans (Function.update_self ..),
      Function.update_self ..⟩
  · intro p hp
    rw [Heap.size_then, Heap.size_then] at hp
    have hlt : heap.size + 1 < p := hp
    rw [Function.update_of_ne (Nat.ne_of_gt hlt), Function.update_of_ne (Nat.ne_of_gt (Nat.lt_of_succ_lt hlt))]
    exact hfresh p (Nat.le_of_lt (Nat.lt_of_succ_lt hlt))
  · refine hchain.imp_left (And.imp_left fun h => ?_)
    show Function.update (Function.update owner' heap.size _) (heap.size + 1) _ prev = _
    rw [Function.update_of_ne (Nat.ne_of_lt (Nat.lt_succ_of_lt hprev)), Function.update_of_ne (Nat.ne_of_lt hprev)]
    exact h

end

theorem withLock (hw : Wired s phase owner) [DecidableEq κ] (undefined : ν) (key : κ) :
    ∃ phase' owner', Wired (s.withLock undefined key) phase' owner' := by
  rcases hw.map key with ⟨hmap, hnone⟩ | ⟨i, c, hlast, hmap⟩
  · simp only [LockState.withLock, hmap, Heap.size_then]
    refine hw.append_then (x := .due (.ok undefined)) (Function.update owner s.heap.size (.prev s.calls.length))
      (Nat.lt_succ_self _) rfl ?_ ?_ ?_ (.inr ⟨_, rfl, Function.update_self ..⟩)
      (.inl ⟨Function.update_self .., nofun, hnone⟩)
    · exact fun p hp => Function.update_of_ne (Nat.ne_of_lt (hw.lt_size hp)) _ _
    · exact fun p hp => Function.update_of_ne (Nat.ne_of_lt (hw.lt_size hp)) _ _
    · intro p hp
      have hlt : s.heap.size < p := hp
      rw [Function.update_of_ne (Nat.ne_of_gt hlt)]
      exact hw.fresh p (Nat.le_of_lt hlt)
  · simp only [LockState.withLock, hmap, Heap.size_then]
    have hlt : c.caught < s.heap.size := hw.lt_size (by rw [(hw.owners i c hlast.1).2]; nofun)
    cases hstate : s.heap.state c.caught with
    | pending reactions =>
      obtain rfl := hw.last_free hlast hstate
      exact hw.append_then (x := .waits) owner hlt rfl (fun _ _ => rfl) (fun _ _ => rfl) hw.fresh (.inl ⟨rfl, hstate⟩)
        (.inr ⟨i, c, hlast, rfl⟩)
    | settled before =>
      exact hw.append_then (x := .due before) owner hlt rfl (fun _ _ => rfl) (fun _ _ => rfl) hw.fresh
        (.inr ⟨before, rfl, hstate⟩) (.inr ⟨i, c, hlast, rfl⟩)

end Wired

end Vesper.Client.Locks
