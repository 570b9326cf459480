import Vesper.Server.Gateway

/-!
# The rate limiter as a sliding window

`WsRateLimiter` keeps the times of the calls that it let through, and drops them when they expire and a call
or a cleanup comes across them. Its answers are those of the full history.
-/

namespace Vesper.Server.WsRateLimiter

/-! ## Sequences of calls -/

inductive Call
  | isAllowed (userId : UserId)
  | retryAfter (userId : UserId)
  | cleanup
  deriving DecidableEq

/-- The limiter after a call at a time. -/
def call (limiter : WsRateLimiter) : Time × Call → WsRateLimiter
  | (now, .isAllowed userId) => limiter.hit now userId
  | (_, .retryAfter _) => limiter
  | (now, .cleanup) => limiter.cleanup now

def run (limiter : WsRateLimiter) (calls : List (Time × Call)) : WsRateLimiter := calls.foldl call limiter

/-- The times of the calls of a user that are let through. -/
def allowed (userId : UserId) : WsRateLimiter → List (Time × Call) → List Time
  | _, [] => []
  | limiter, c :: calls =>
    (if c.2 = .isAllowed userId ∧ limiter.isAllowed c.1 userId then [c.1] else []) ++
      allowed userId (limiter.call c) calls

/-- The times in `(now - ttlMs, now]`. -/
def window (ttlMs now : Time) (times : List Time) : List Time :=
  times.filter fun t => now - ttlMs < t ∧ t ≤ now

/-- The clock does not go back. -/
def InOrder (calls : List (Time × Call)) : Prop := calls.Pairwise fun c c' => c.1 ≤ c'.1

instance (calls : List (Time × Call)) : Decidable (InOrder calls) :=
  inferInstanceAs (Decidable (calls.Pairwise fun c c' => c.1 ≤ c'.1))

/-- The calls of a user, and the cleanups. -/
def Call.Concerns (userId : UserId) : Call → Prop
  | .isAllowed user | .retryAfter user => user = userId
  | .cleanup => True

instance (userId : UserId) (c : Call) : Decidable (c.Concerns userId) := by
  cases c <;> unfold Call.Concerns <;> infer_instance

/-- The second sequence is the first with further cleanups in it. -/
inductive WithCleanups : List (Time × Call) → List (Time × Call) → Prop
  | nil : WithCleanups [] []
  | same : WithCleanups calls calls' → WithCleanups (c :: calls) (c :: calls')
  | cleanup : WithCleanups calls calls' → WithCleanups calls ((now, .cleanup) :: calls')

/-! ## One call -/

variable {limiter limiter' : WsRateLimiter} {now time : Time} {userId user : UserId} {c : Time × Call}
  {calls calls' : List (Time × Call)}

@[simp] theorem call_limit (limiter : WsRateLimiter) (c : Time × Call) :
    (limiter.call c).limit = limiter.limit := by
  obtain ⟨now, c⟩ := c
  cases c <;> rfl

@[simp] theorem call_ttlMs (limiter : WsRateLimiter) (c : Time × Call) :
    (limiter.call c).ttlMs = limiter.ttlMs := by
  obtain ⟨now, c⟩ := c
  cases c <;> rfl

/-- What a call leaves of a user's times. -/
theorem windows_call (limiter : WsRateLimiter) (c : Time × Call) (userId : UserId) :
    (limiter.call c).windows userId =
      if c.2 = .isAllowed userId ∨ c.2 = .cleanup then
        limiter.fresh c.1 userId ++
          if c.2 = .isAllowed userId ∧ limiter.isAllowed c.1 userId then [c.1] else []
      else limiter.windows userId := by
  obtain ⟨now, c⟩ := c
  cases c with
  | isAllowed user =>
    by_cases huser : user = userId
    · subst huser
      by_cases hallowed : limiter.isAllowed now user
      · simp [call, hit, hallowed]
      · simp [call, hit, hallowed]
    · simp [call, hit, huser, Ne.symm huser]
  | retryAfter user => simp [call]
  | cleanup => simp [call, cleanup]

/-- What is counted later was counted before. -/
theorem filter_fresh (h : time ≤ now) : (limiter.fresh time userId).filter (now - · < limiter.ttlMs) =
    limiter.fresh now userId := by
  rw [fresh, List.filter_filter, fresh]
  refine List.filter_congr fun t _ => ?_
  have hcounted : now - t < limiter.ttlMs → time - t < limiter.ttlMs := fun ht =>
    Int.lt_of_le_of_lt (Int.sub_le_sub_right h t) ht
  by_cases ht : now - t < limiter.ttlMs
  · simp [ht, hcounted ht]
  · simp [ht]

theorem fresh_call (h : c.1 ≤ now) : (limiter.call c).fresh now userId = limiter.fresh now userId ++
    (if c.2 = .isAllowed userId ∧ limiter.isAllowed c.1 userId then [c.1] else []).filter
      (now - · < limiter.ttlMs) := by
  rw [fresh, windows_call, call_ttlMs]
  split
  · rw [List.filter_append, filter_fresh h]
  · rename_i hother
    rw [if_neg fun hcall => hother (.inl hcall.1), List.filter_nil, List.append_nil, fresh]

/-! ## Runs -/

@[simp] theorem run_limit (limiter : WsRateLimiter) (calls : List (Time × Call)) :
    (limiter.run calls).limit = limiter.limit := by
  induction calls generalizing limiter with
  | nil => rfl
  | cons c calls ih => exact (ih _).trans (call_limit limiter c)

@[simp] theorem run_ttlMs (limiter : WsRateLimiter) (calls : List (Time × Call)) :
    (limiter.run calls).ttlMs = limiter.ttlMs := by
  induction calls generalizing limiter with
  | nil => rfl
  | cons c calls ih => exact (ih _).trans (call_ttlMs limiter c)

/-- **The window of a run**: what counts after it is what counted before, and the calls let through. -/
theorem fresh_run (h : ∀ c ∈ calls, c.1 ≤ now) : (limiter.run calls).fresh now userId =
    limiter.fresh now userId ++ (limiter.allowed userId calls).filter (now - · < limiter.ttlMs) := by
  induction calls generalizing limiter with
  | nil => rw [allowed, List.filter_nil, List.append_nil, run, List.foldl_nil]
  | cons c calls ih =>
    calc ((limiter.call c).run calls).fresh now userId
      _ = (limiter.call c).fresh now userId ++
          ((limiter.call c).allowed userId calls).filter (now - · < limiter.ttlMs) := by
        rw [ih fun c' hc' => h c' (.tail _ hc'), call_ttlMs]
      _ = _ := by
        rw [fresh_call (h c (.head _)), allowed, List.filter_append, List.append_assoc]

theorem allowed_le (h : ∀ c ∈ calls, c.1 ≤ now) : ∀ t ∈ limiter.allowed userId calls, t ≤ now := by
  induction calls generalizing limiter with
  | nil => simp [allowed]
  | cons c calls ih =>
    intro t ht
    rcases List.mem_append.mp ht with ht | ht
    · split at ht
      · rw [List.mem_singleton.mp ht]
        exact h c (.head _)
      · cases ht
    · exact ih (fun c' hc' => h c' (.tail _ hc')) t ht

/-- A limiter never holds more times of a user than it lets through. -/
theorem windows_run_le (h : (limiter.windows userId).length ≤ limiter.limit) :
    ((limiter.run calls).windows userId).length ≤ limiter.limit := by
  induction calls generalizing limiter with
  | nil => exact h
  | cons c calls ih =>
    rw [← call_limit limiter c]
    refine ih ?_
    have hfresh : (limiter.fresh c.1 userId).length ≤ (limiter.windows userId).length :=
      List.length_filter_le ..
    rw [windows_call, call_limit]
    split
    · split
      · rename_i hallowed
        have hroom : (limiter.fresh c.1 userId).length < limiter.limit := by
          simpa [isAllowed] using hallowed.2
        rw [List.length_append, List.length_singleton]
        exact hroom
      · rw [List.append_nil]
        omega
    · exact h

theorem sub_lt_sub_comm {a b c : Int} : a - b < c ↔ a - c < b := by
  omega

theorem fresh_new (limit : Nat) (ttlSeconds : Int) : (new limit ttlSeconds).fresh now userId = [] := rfl

/-- **Exactness**: a call is let through if fewer than `limit` of the user's calls were in the window. -/
theorem isAllowed_iff {limit : Nat} {ttlSeconds : Int} (h : ∀ c ∈ calls, c.1 ≤ now) :
    ((new limit ttlSeconds).run calls).isAllowed now userId = true ↔
      (window (ttlSeconds * 1000) now ((new limit ttlSeconds).allowed userId calls)).length < limit := by
  have hwindow : ((new limit ttlSeconds).allowed userId calls).filter (now - · < ttlSeconds * 1000) =
      window (ttlSeconds * 1000) now ((new limit ttlSeconds).allowed userId calls) := by
    refine List.filter_congr fun t ht => ?_
    have hle := allowed_le h t ht
    simp only [hle, and_true, decide_eq_decide]
    exact sub_lt_sub_comm
  rw [isAllowed, fresh_run h, fresh_new, List.nil_append, run_limit, decide_eq_true_eq, ← hwindow]
  rfl

/-! ## Other users -/

/-- A user's times depend on the user's own calls and the cleanups. -/
theorem windows_run_congr (hlimit : limiter.limit = limiter'.limit) (httl : limiter.ttlMs = limiter'.ttlMs)
    (h : limiter.windows userId = limiter'.windows userId) : (limiter.run calls).windows userId =
      (limiter'.run (calls.filter (·.2.Concerns userId))).windows userId := by
  induction calls generalizing limiter limiter' with
  | nil => exact h
  | cons c calls ih =>
    have hfresh : ∀ now, limiter.fresh now userId = limiter'.fresh now userId := fun now => by
      rw [fresh, fresh, h, httl]
    rw [List.filter_cons]
    split
    · refine ih (by simpa using hlimit) (by simpa using httl) ?_
      rw [windows_call, windows_call, h, hfresh, isAllowed, isAllowed, hfresh, hlimit]
    · rename_i hother
      refine ih (by simpa using hlimit) (by simpa using httl) ?_
      have hnot : ¬ (c.2 = .isAllowed userId ∨ c.2 = .cleanup) := by
        rintro (hc | hc)
        · exact hother (by rw [hc]; exact decide_eq_true rfl)
        · exact hother (by rw [hc]; exact decide_eq_true trivial)
      rw [windows_call, if_neg hnot, h]

/-! ## Cleanups -/

/-- From a time on both limiters count the same; the second may have dropped more. -/
structure Agree (limiter limiter' : WsRateLimiter) (time : Time) : Prop where
  limit : limiter'.limit = limiter.limit
  ttlMs : limiter'.ttlMs = limiter.ttlMs
  fresh : ∀ now userId, time ≤ now → limiter'.fresh now userId = limiter.fresh now userId
  fewer : ∀ userId, limiter'.windows userId ⊆ limiter.windows userId

theorem Agree.isAllowed (h : Agree limiter limiter' time) (hnow : time ≤ now) :
    limiter'.isAllowed now userId = limiter.isAllowed now userId := by
  rw [WsRateLimiter.isAllowed, WsRateLimiter.isAllowed, h.limit, h.fresh _ _ hnow]

/-- Both take the same call. -/
theorem Agree.call (h : Agree limiter limiter' time) (hc : time ≤ c.1) :
    Agree (limiter.call c) (limiter'.call c) c.1 where
  limit := by rw [call_limit, call_limit, h.limit]
  ttlMs := by rw [call_ttlMs, call_ttlMs, h.ttlMs]
  fresh now userId hnow := by
    rw [fresh_call hnow, fresh_call hnow, h.fresh _ _ (Int.le_trans hc hnow), h.isAllowed hc, h.ttlMs]
  fewer userId := by
    rw [windows_call, windows_call, h.fresh _ _ hc, h.isAllowed hc]
    split
    · exact List.Subset.refl _
    · exact h.fewer userId

/-- Only the second takes a cleanup. -/
theorem Agree.cleanup (h : Agree limiter limiter' time) (hnow : time ≤ now) :
    Agree limiter (limiter'.cleanup now) now where
  limit := h.limit
  ttlMs := h.ttlMs
  fresh _ _ hnow' := (filter_fresh hnow').trans (h.fresh _ _ (Int.le_trans hnow hnow'))
  fewer userId := fun _ ht => h.fewer userId (List.mem_of_mem_filter ht)

theorem Agree.mono (h : Agree limiter limiter' time) (hnow : time ≤ now) : Agree limiter limiter' now :=
  { h with fresh := fun now' userId hnow' => h.fresh now' userId (Int.le_trans hnow hnow') }

theorem Agree.refl (limiter : WsRateLimiter) (time : Time) : Agree limiter limiter time :=
  ⟨rfl, rfl, fun _ _ _ => rfl, fun _ => List.Subset.refl _⟩

/-- **Cleanups are unnoticed**: with further cleanups a run leaves a limiter that agrees. -/
theorem Agree.run (h : Agree limiter limiter' time) (hcalls : WithCleanups calls calls')
    (hstart : ∀ c ∈ calls', time ≤ c.1) (horder : InOrder calls') (hnow : time ≤ now)
    (hend : ∀ c ∈ calls', c.1 ≤ now) : Agree (limiter.run calls) (limiter'.run calls') now := by
  induction hcalls generalizing limiter limiter' time with
  | nil => exact h.mono hnow
  | @same calls calls' c _ ih =>
    obtain ⟨hnext, hrest⟩ := List.pairwise_cons.mp horder
    exact ih (h.call (hstart c (.head _))) hnext hrest (hend c (.head _)) fun c' hc' => hend c' (.tail _ hc')
  | @cleanup calls calls' t _ ih =>
    obtain ⟨hnext, hrest⟩ := List.pairwise_cons.mp horder
    exact ih (h.cleanup (hstart _ (.head _))) hnext hrest (hend _ (.head _)) fun c' hc' => hend c' (.tail _ hc')

/-- Where nothing remembered has expired, both remember the same. -/
theorem Agree.windows (h : Agree limiter limiter' now)
    (hfresh : ∀ t ∈ limiter.windows userId, now - t < limiter.ttlMs) :
    limiter'.windows userId = limiter.windows userId := by
  have hall : limiter.fresh now userId = limiter.windows userId :=
    List.filter_eq_self.mpr fun t ht => decide_eq_true (hfresh t ht)
  have hall' : limiter'.fresh now userId = limiter'.windows userId :=
    List.filter_eq_self.mpr fun t ht => decide_eq_true (h.ttlMs ▸ hfresh t (h.fewer userId ht))
  rw [← hall', h.fresh _ _ (Int.le_refl _), hall]

theorem Agree.retryAfter (h : Agree limiter limiter' now)
    (hfresh : ∀ t ∈ limiter.windows userId, now - t < limiter.ttlMs) :
    limiter'.retryAfter now userId = limiter.retryAfter now userId := by
  rw [WsRateLimiter.retryAfter, WsRateLimiter.retryAfter, h.windows hfresh, h.ttlMs]

/-- After a call that was denied nothing remembered has expired. -/
theorem fresh_of_denied (h : limiter.isAllowed now userId = false) :
    ∀ t ∈ (limiter.hit now userId).windows userId, now - t < limiter.ttlMs := by
  intro t ht
  simp only [hit, Function.update_self, h] at ht
  exact of_decide_eq_true (List.mem_filter.mp ht).2

/-! ## Waiting -/

/-- The seconds are rounded up. -/
theorem not_counted {now time oldest ttlMs : Int}
    (h : time + 1000 * ((oldest + ttlMs - time + 999) / 1000) ≤ now) : ¬ now - oldest < ttlMs := by
  omega

/-- After the seconds that `retryAfter` returns, the oldest call no longer counts. -/
theorem isAllowed_of_retryAfter (hlimit : 1 ≤ limiter.limit)
    (hbound : (limiter.windows userId).length ≤ limiter.limit) (hcalls : ∀ c ∈ calls, c.1 ≤ now)
    (hnone : limiter.allowed userId calls = [])
    (hwait : time + 1000 * limiter.retryAfter time userId ≤ now) :
    (limiter.run calls).isAllowed now userId = true := by
  rw [isAllowed, fresh_run hcalls, hnone, List.filter_nil, List.append_nil, run_limit, decide_eq_true_eq, fresh]
  rw [retryAfter] at hwait
  cases hmin : (limiter.windows userId).min? with
  | none =>
    rw [List.min?_eq_none_iff.mp hmin]
    exact hlimit
  | some oldest =>
    simp only [hmin] at hwait
    have hexpired : ¬ now - oldest < limiter.ttlMs := not_counted hwait
    refine Nat.lt_of_lt_of_le (List.length_filter_lt_length_iff_exists.mpr ?_) hbound
    exact ⟨oldest, List.min?_mem hmin, by simpa using hexpired⟩

/-! ## The limiter from the start -/

theorem before_of_inOrder {last : Call} (h : InOrder (calls ++ [(now, last)])) : ∀ c ∈ calls, c.1 ≤ now :=
  fun c hc => (List.pairwise_append.mp h).2.2 c hc _ (.head _)

theorem agree_new {limit : Nat} {ttlSeconds : Int} {last : Call} (hcalls : WithCleanups calls calls')
    (h : InOrder (calls' ++ [(now, last)])) :
    Agree ((new limit ttlSeconds).run calls) ((new limit ttlSeconds).run calls') now := by
  have horder := (List.pairwise_append.mp h).1
  have hend := before_of_inOrder h
  cases calls' with
  | nil => exact (Agree.refl _ now).run hcalls (by simp) horder (Int.le_refl _) hend
  | cons c rest =>
    refine (Agree.refl _ c.1).run hcalls ?_ horder (hend c (.head _)) hend
    intro c' hc'
    rcases List.mem_cons.mp hc' with rfl | hrest
    · exact Int.le_refl _
    · exact (List.pairwise_cons.mp horder).1 c' hrest

/-- **The limiter is an exact sliding window**: `isAllowed` counts the calls let through in the window; other
users are not noticed; further cleanups are noticed by no `isAllowed`, and by no `retryAfter` while nothing
expired is remembered, as after a call that was denied; and after the seconds that `retryAfter` returns a
call is let through. -/
theorem slidingWindow (limit : Nat) (ttlSeconds : Int) (hlimit : 1 ≤ limit) :
    let start := new limit ttlSeconds
    (∀ calls now userId, InOrder (calls ++ [(now, .isAllowed userId)]) →
      ((start.run calls).isAllowed now userId = true ↔
        (window (ttlSeconds * 1000) now (start.allowed userId calls)).length < limit)) ∧
    (∀ calls now userId,
      let own := calls.filter (·.2.Concerns userId)
      (start.run calls).isAllowed now userId = (start.run own).isAllowed now userId ∧
        (start.run calls).retryAfter now userId = (start.run own).retryAfter now userId) ∧
    (∀ calls calls' now userId, WithCleanups calls calls' → InOrder (calls' ++ [(now, .isAllowed userId)]) →
      (start.run calls').isAllowed now userId = (start.run calls).isAllowed now userId ∧
        ((∀ t ∈ (start.run calls).windows userId, now - t < ttlSeconds * 1000) →
          (start.run calls').retryAfter now userId = (start.run calls).retryAfter now userId)) ∧
    (∀ calls now userId, (start.run calls).isAllowed now userId = false →
      ∀ t ∈ (start.run (calls ++ [(now, .isAllowed userId)])).windows userId, now - t < ttlSeconds * 1000) ∧
    ∀ calls calls' time now userId,
      InOrder (calls ++ ((time, .retryAfter userId) :: calls') ++ [(now, .isAllowed userId)]) →
      (start.run calls).allowed userId calls' = [] →
      time + 1000 * (start.run calls).retryAfter time userId ≤ now →
        ((start.run calls).run calls').isAllowed now userId = true := by
  intro start
  have httl : ∀ calls, (start.run calls).ttlMs = ttlSeconds * 1000 := fun calls => run_ttlMs start calls
  refine ⟨fun calls now userId h => isAllowed_iff (before_of_inOrder h), fun calls now userId => ?_,
    fun calls calls' now userId hcalls h => ?_, fun calls now userId hdenied => ?_,
    fun calls calls' time now userId h hnone hwait => ?_⟩
  · have hwindows : (start.run calls).windows userId = _ := windows_run_congr rfl rfl rfl
    have hfresh : (start.run calls).fresh now userId =
        (start.run (calls.filter (·.2.Concerns userId))).fresh now userId := by
      rw [fresh, fresh, hwindows, httl, httl]
    constructor
    · rw [isAllowed, isAllowed, hfresh, run_limit, run_limit]
    · rw [retryAfter, retryAfter, hwindows, httl, httl]
  · have hagree : Agree (start.run calls) (start.run calls') now := agree_new hcalls h
    exact ⟨hagree.isAllowed (Int.le_refl _), fun hfresh => hagree.retryAfter (httl calls ▸ hfresh)⟩
  · rw [run, List.foldl_append, ← httl calls]
    exact fresh_of_denied hdenied
  · have hbefore := before_of_inOrder h
    refine isAllowed_of_retryAfter ?_ ?_ (fun c hc => hbefore c ?_) hnone hwait
    · rw [run_limit]
      exact hlimit
    · rw [run_limit]
      exact windows_run_le (Nat.zero_le _)
    · exact List.mem_append_right _ (.tail _ hc)

/-- One call a minute: the second is denied, and let through after the 30 seconds that are left. -/
theorem slidingWindow_sample : ((new 1 60).run [(0, .isAllowed 7), (30000, .isAllowed 7)]).retryAfter 30000 7 = 30 ∧
    (((new 1 60).run [(0, .isAllowed 7), (30000, .isAllowed 7)]).run []).isAllowed 60000 7 = true := by
  refine ⟨by decide, (slidingWindow 1 60 (Nat.le_refl 1)).2.2.2.2 _ [] 30000 60000 7 ?_ rfl (by decide)⟩
  decide

/-- A minute later the time that nobody dropped yet makes `retryAfter` negative; a cleanup makes it zero. -/
theorem cleanup_noticed : ¬ ∀ (limit : Nat) (ttlSeconds : Int), 1 ≤ limit → ∀ calls calls' now userId,
    WithCleanups calls calls' → InOrder (calls' ++ [(now, .retryAfter userId)]) →
      ((new limit ttlSeconds).run calls').retryAfter now userId =
        ((new limit ttlSeconds).run calls).retryAfter now userId := by
  intro h
  have hsame := h 1 60 (Nat.le_refl 1) [(0, .isAllowed 7)] [(0, .isAllowed 7), (61000, .cleanup)] 61000 7
    (.same (.cleanup .nil)) (by decide)
  exact absurd hsame (by decide)

end Vesper.Server.WsRateLimiter
