import Vesper.Lib.Machine
import Mathlib.Data.List.Nodup

/-!
# The offline queue

The hook `useOfflineQueue`: messages wait in a queue, and a flush hands them one after the other to
`onFlush`, which may take its time. What a flush does between two answers of `onFlush` is one step.
-/

namespace Vesper.Client

/-- A message of the queue. The identifier stands for the time and the random number of the source. -/
structure QueuedMessage (α : Type) where
  queueId : Nat
  msg : α
  deriving DecidableEq

/-- How a call of `onFlush` ends. -/
inductive Answer
  | returned (ok : Bool)
  | threw
  deriving DecidableEq

def Answer.ok : Answer → Bool
  | returned ok => ok
  | threw => false

/-- The callbacks that the hook runs. -/
inductive Callback (α : Type)
  | onFlush (msg : QueuedMessage α)
  | onFlushFailed (msg : QueuedMessage α)
  deriving DecidableEq

/-- A flush that waits for the answer of `onFlush` to `msg`. -/
structure Flush (α : Type) where
  toFlush : List (QueuedMessage α)
  msg : QueuedMessage α
  rest : List (QueuedMessage α)
  failed : List (QueuedMessage α)
  deriving DecidableEq

structure OfflineQueue (α : Type) where
  queueRef : List (QueuedMessage α)
  isOnline : Bool
  flushingRef : Bool
  suspended : Option (Flush α)
  nextId : Nat
  deriving DecidableEq

namespace OfflineQueue
variable {α : Type} (s : OfflineQueue α)

def enqueue (msg : α) : OfflineQueue α :=
  { s with queueRef := s.queueRef ++ [⟨s.nextId, msg⟩], nextId := s.nextId + 1 }

def flush : OfflineQueue α × List (Callback α) :=
  if s.flushingRef then (s, [])
  else match s.queueRef with
    | [] => (s, [])
    | msg :: rest =>
      ({ s with flushingRef := true, suspended := some ⟨s.queueRef, msg, rest, []⟩ }, [.onFlush msg])

/-- `flush` goes on with the answer, to the next message or to its end. -/
def resume (answer : Answer) (f : Flush α) : OfflineQueue α × List (Callback α) :=
  let failed := if answer.ok then f.failed else f.failed ++ [f.msg]
  let calls := if answer.ok then [] else [.onFlushFailed f.msg]
  match f.rest with
  | msg :: rest => ({ s with suspended := some { f with msg, rest, failed } }, calls ++ [.onFlush msg])
  | [] => ({ s with queueRef := failed, flushingRef := false, suspended := none }, calls)

end OfflineQueue

inductive QueueInput (α : Type)
  | enqueue (msg : α)
  | goOnline
  | goOffline
  | onConnect
  | answered (answer : Answer)
  deriving DecidableEq

def OfflineQueue.step {α : Type} (s : OfflineQueue α) : QueueInput α → OfflineQueue α × List (Callback α)
  | .enqueue msg => (s.enqueue msg, [])
  | .goOnline => ({ s with isOnline := true } : OfflineQueue α).flush
  | .goOffline => ({ s with isOnline := false }, [])
  | .onConnect => s.flush
  | .answered answer => s.suspended.elim (s, []) (s.resume answer)

/-- The messages that callbacks hand to `onFlush`. -/
def handedBy {α : Type} (calls : List (Callback α)) : List (QueuedMessage α) :=
  calls.filterMap fun
    | .onFlush msg => some msg
    | .onFlushFailed _ => none

/-- What has happened to the messages so far. -/
structure QueueLog (α : Type) where
  enqueued : List (QueuedMessage α)
  handed : List (QueuedMessage α)
  succeeded : List (QueuedMessage α)
  deriving DecidableEq

def QueueLog.extend {α : Type} (s : OfflineQueue α) (input : QueueInput α) (log : QueueLog α) : QueueLog α where
  enqueued := match input with
    | .enqueue msg => log.enqueued ++ [⟨s.nextId, msg⟩]
    | _ => log.enqueued
  handed := log.handed ++ handedBy (s.step input).2
  succeeded := match input with
    | .answered answer =>
      log.succeeded ++ if answer.ok then s.suspended.toList.map (·.msg) else []
    | _ => log.succeeded

/-- All runs of the hook. Only a call that is under way is answered. -/
def offlineQueue (α : Type) (isOnline : Bool) : Machine (OfflineQueue α) (QueueInput α) where
  init := ⟨[], isOnline, false, none, 0⟩
  enabled s input := ∀ answer, input = .answered answer → s.suspended ≠ none
  next s input := (s.step input).1

/-- The runs with what they do to the messages. -/
def offlineQueueLog (α : Type) (isOnline : Bool) : Machine (OfflineQueue α × QueueLog α) (QueueInput α) :=
  (offlineQueue α isOnline).record ⟨[], [], []⟩ QueueLog.extend

/-- Nothing is lost and nothing is sent twice: what has not succeeded is in the queue, and the next
flush that runs to its end hands it to `onFlush`; a message succeeds at most once; and nobody is tried
before all that were enqueued earlier have been. -/
structure Lossless {α : Type} (isOnline : Bool) (s : OfflineQueue α × QueueLog α) : Prop where
  kept : ∀ msg ∈ s.2.enqueued, msg ∉ s.2.succeeded → msg ∈ s.1.queueRef
  handed : ∀ msg ∈ s.2.enqueued, msg ∉ s.2.succeeded → s.1.suspended = none →
    ∀ answers : List Answer, answers.length = s.1.queueRef.length →
      msg ∈ ((offlineQueueLog α isOnline).exec s (.onConnect :: answers.map .answered)).2.handed.drop
        s.2.handed.length
  once : s.2.succeeded.Nodup
  ordered : ∀ x y, [x, y].Sublist s.2.enqueued → ∀ tried, tried <+: s.2.handed → y ∈ tried → x ∈ tried

/-- A flush ends with the queue that it began with: nothing has been enqueued in between. -/
def OfflineQueue.KeepsQueue {α : Type} (s : OfflineQueue α) : QueueInput α → Prop
  | .answered _ => ∀ f ∈ s.suspended, f.rest = [] → s.queueRef = f.toFlush
  | _ => True

/-! ## What every step keeps -/

section
variable {α : Type} {s : OfflineQueue α} {log : QueueLog α}

/-- What was enqueued since the flush began. -/
def OfflineQueue.later (s : OfflineQueue α) : List (QueuedMessage α) :=
  s.suspended.elim [] fun f => s.queueRef.drop f.toFlush.length

/-- The messages that the flush has tried and has to put back. -/
def OfflineQueue.tried (s : OfflineQueue α) : List (QueuedMessage α) :=
  s.suspended.elim [] fun f => f.failed ++ [f.msg]

/-- The messages that wait for their turn. -/
def OfflineQueue.line (s : OfflineQueue α) : List (QueuedMessage α) :=
  s.suspended.elim s.queueRef fun f => f.rest ++ s.later

/-- What every step keeps, also one that loses messages. -/
structure Orderly (s : OfflineQueue α) (log : QueueLog α) : Prop where
  flushing : s.flushingRef = s.suspended.isSome
  snapshot : ∀ f ∈ s.suspended, s.queueRef = f.toFlush ++ s.later ∧
    ∀ x ∈ f.toFlush, x ∈ f.failed ++ f.msg :: f.rest ∨ x ∈ log.succeeded
  increasing : log.enqueued.Pairwise (·.queueId < ·.queueId)
  fresh : ∀ x ∈ log.enqueued, x.queueId < s.nextId
  held : ∀ x ∈ s.tried ++ s.line, x ∈ log.enqueued
  nodup : (s.tried ++ s.line).Nodup
  queued : ∀ x ∈ log.handed, x ∈ log.enqueued
  tried : ∀ x ∈ s.tried, x ∈ log.handed
  succeeded : ∀ x ∈ log.succeeded, x ∈ log.handed ∧ x ∉ s.tried ++ s.line
  once : log.succeeded.Nodup
  line : ∃ old new, s.line = old ++ new ∧ (∀ x ∈ old, x ∈ log.handed) ∧ new.Pairwise (·.queueId < ·.queueId)
  ordered : ∀ x ∈ log.enqueued, ∀ y, x.queueId < y.queueId → ∀ tried, tried <+: log.handed → y ∈ tried →
    x ∈ tried ∨ x ∉ s.tried ++ s.line ∧ x ∉ log.handed

theorem orderly_start {isOnline : Bool} :
    Orderly (⟨[], isOnline, false, none, 0⟩ : OfflineQueue α) ⟨[], [], []⟩ where
  flushing := rfl
  snapshot := nofun
  increasing := .nil
  fresh := nofun
  held := nofun
  nodup := .nil
  queued := nofun
  tried := nofun
  succeeded := nofun
  once := .nil
  line := ⟨[], [], rfl, nofun, .nil⟩
  ordered := nofun

theorem Orderly.enqueue (h : Orderly s log) (msg : α) :
    Orderly (s.enqueue msg) { log with enqueued := log.enqueued ++ [⟨s.nextId, msg⟩] } := by
  have htried : (s.enqueue msg).tried = s.tried := rfl
  have hlater : ∀ f ∈ s.suspended, (s.enqueue msg).later = s.later ++ [⟨s.nextId, msg⟩] := by
    intro f hf
    have hlength : f.toFlush.length ≤ s.queueRef.length := by
      rw [(h.snapshot f hf).1, List.length_append]
      exact Nat.le_add_right _ _
    simp only [OfflineQueue.later, OfflineQueue.enqueue, Option.mem_def.mp hf, Option.elim_some]
    exact List.drop_append_of_le_length hlength
  have hline : (s.enqueue msg).line = s.line ++ [⟨s.nextId, msg⟩] := by
    unfold OfflineQueue.line
    cases hf : s.suspended with
    | none => simp only [OfflineQueue.enqueue, hf, Option.elim_none]
    | some f =>
      rw [show (s.enqueue msg).suspended = some f from hf]
      simp only [Option.elim_some, hlater f hf, List.append_assoc]
  have hnew : ∀ x ∈ log.enqueued, x ≠ ⟨s.nextId, msg⟩ := by
    rintro x hx rfl
    exact absurd (h.fresh _ hx) (Nat.lt_irrefl _)
  refine {
    flushing := h.flushing
    snapshot := fun f hf => ?_
    increasing := ?_
    fresh := fun x hx => ?_
    held := fun x hx => ?_
    nodup := ?_
    queued := fun x hx => List.mem_append_left _ (h.queued x hx)
    tried := h.tried
    succeeded := fun x hx => ?_
    once := h.once
    line := ?_
    ordered := fun x hx y hlt tried hstart hy => ?_ }
  · obtain ⟨hqueue, hall⟩ := h.snapshot f hf
    refine ⟨?_, hall⟩
    rw [hlater f hf, ← List.append_assoc, ← hqueue]
    rfl
  · refine List.pairwise_append.mpr ⟨h.increasing, List.pairwise_singleton _ _, fun x hx y hy => ?_⟩
    rw [List.mem_singleton.mp hy]
    exact h.fresh x hx
  · obtain hx | hx := List.mem_append.mp hx
    · exact Nat.lt_succ_of_lt (h.fresh x hx)
    · rw [List.mem_singleton.mp hx]
      exact Nat.lt_succ_self _
  · rw [htried, hline, ← List.append_assoc] at hx
    exact (List.mem_append.mp hx).elim (fun hx => List.mem_append_left _ (h.held x hx))
      (List.mem_append_right _)
  · rw [htried, hline, ← List.append_assoc, List.nodup_append]
    refine ⟨h.nodup, List.nodup_singleton _, fun x hx y hy => ?_⟩
    rw [List.mem_singleton.mp hy]
    exact hnew x (h.held x hx)
  · obtain ⟨hhanded, hnot⟩ := h.succeeded x hx
    rw [htried, hline, ← List.append_assoc]
    refine ⟨hhanded, fun hmem => (List.mem_append.mp hmem).elim hnot fun hmem => ?_⟩
    exact hnew x (h.queued x hhanded) (List.mem_singleton.mp hmem)
  · obtain ⟨old, new, hsplit, hold, hpair⟩ := h.line
    refine ⟨old, new ++ [⟨s.nextId, msg⟩], by rw [hline, hsplit, List.append_assoc], hold, ?_⟩
    refine List.pairwise_append.mpr ⟨hpair, List.pairwise_singleton _ _, fun x hx y hy => ?_⟩
    rw [List.mem_singleton.mp hy]
    refine h.fresh x (h.held x (List.mem_append_right _ ?_))
    exact hsplit ▸ List.mem_append_right _ hx
  · have hyold : y ∈ log.enqueued := h.queued y (hstart.subset hy)
    obtain hx | hx := List.mem_append.mp hx
    · refine (h.ordered x hx y hlt tried hstart hy).imp_right fun ⟨hnot, hunhanded⟩ => ⟨fun hmem => ?_, hunhanded⟩
      rw [htried, hline, ← List.append_assoc] at hmem
      exact (List.mem_append.mp hmem).elim hnot fun hmem => hnew x hx (List.mem_singleton.mp hmem)
    · rw [List.mem_singleton.mp hx] at hlt
      exact absurd (h.fresh y hyold) (Nat.lt_asymm hlt)

/-- The order of the first attempts, when the next message of the line is handed over. -/
theorem Orderly.ordered_hand (h : Orderly s log) {m : QueuedMessage α} {l : List (QueuedMessage α)}
    (hline : s.line = m :: l) {x y : QueuedMessage α} (hx : x ∈ log.enqueued) (hlt : x.queueId < y.queueId)
    {tried : List (QueuedMessage α)} (hstart : tried <+: log.handed ++ [m]) (hy : y ∈ tried) :
    x ∈ tried ∨ x ∉ s.tried ++ s.line ∧ x ∉ log.handed ++ [m] := by
  have hm : m ∈ s.tried ++ s.line := List.mem_append_right _ (hline ▸ List.mem_cons_self)
  have hgone : x ∉ s.tried ++ s.line ∧ x ∉ log.handed → x ∉ s.tried ++ s.line ∧ x ∉ log.handed ++ [m] := by
    rintro ⟨hnot, hunhanded⟩
    refine ⟨hnot, fun hmem => (List.mem_append.mp hmem).elim hunhanded fun hmem => ?_⟩
    exact hnot (List.mem_singleton.mp hmem ▸ hm)
  obtain heq | hstart := List.prefix_concat_iff.mp hstart
  case inr => exact (h.ordered x hx y hlt tried hstart hy).imp_right hgone
  subst heq
  by_cases hhanded : y ∈ log.handed
  · exact (h.ordered x hx y hlt _ (List.prefix_refl _) hhanded).imp (List.mem_append_left _) hgone
  obtain rfl : y = m := by simpa [hhanded] using hy
  by_cases hxhanded : x ∈ log.handed
  · exact .inl (List.mem_append_left _ hxhanded)
  refine .inr (hgone ⟨fun hmem => ?_, hxhanded⟩)
  obtain hmem | hmem := List.mem_append.mp hmem
  · exact hxhanded (h.tried x hmem)
  obtain ⟨old, new, hsplit, hold, hpair⟩ := h.line
  rw [hsplit] at hmem
  obtain hmem | hmem := List.mem_append.mp hmem
  · exact hxhanded (hold x hmem)
  rw [hline] at hsplit
  cases old with
  | cons z old =>
    cases hsplit
    exact hhanded (hold y List.mem_cons_self)
  | nil =>
    obtain rfl : new = y :: l := hsplit.symm
    obtain rfl | hmem := List.mem_cons.mp hmem
    · exact absurd hlt (Nat.lt_irrefl _)
    · exact absurd hlt (Nat.lt_asymm ((List.pairwise_cons.mp hpair).1 x hmem))

theorem Orderly.line_hand (h : Orderly s log) {m : QueuedMessage α} {l : List (QueuedMessage α)}
    (hline : s.line = m :: l) : ∃ old new, l = old ++ new ∧ (∀ x ∈ old, x ∈ log.handed ++ [m]) ∧
      new.Pairwise (·.queueId < ·.queueId) := by
  obtain ⟨old, new, hsplit, hold, hpair⟩ := h.line
  rw [hline] at hsplit
  cases old with
  | cons z old =>
    cases hsplit
    exact ⟨old, new, rfl, fun x hx => List.mem_append_left _ (hold x (List.mem_cons_of_mem _ hx)), hpair⟩
  | nil =>
    obtain rfl : new = m :: l := hsplit.symm
    exact ⟨[], l, rfl, nofun, (List.pairwise_cons.mp hpair).2⟩

/-- The next message of the line is handed over; of those tried, some may have succeeded. -/
theorem Orderly.hand (h : Orderly s log) {m : QueuedMessage α} {l succeeded : List (QueuedMessage α)}
    {s' : OfflineQueue α} (hline : s.line = m :: l) (hline' : s'.line = l) (hnext : s'.nextId = s.nextId)
    (hflushing : s'.flushingRef = s'.suspended.isSome)
    (hsnapshot : ∀ f ∈ s'.suspended, s'.queueRef = f.toFlush ++ s'.later ∧
      ∀ x ∈ f.toFlush, x ∈ f.failed ++ f.msg :: f.rest ∨ x ∈ succeeded)
    (htried : ∀ x ∈ s'.tried, x = m ∨ x ∈ s.tried) (hnodup : (s'.tried ++ s'.line).Nodup)
    (hsucceeded : ∀ x ∈ succeeded, x ∈ log.handed ∧ x ∉ s'.tried ++ s'.line) (honce : succeeded.Nodup) :
    Orderly s' { log with handed := log.handed ++ [m], succeeded } := by
  have hm : m ∈ log.enqueued := h.held m (List.mem_append_right _ (hline ▸ List.mem_cons_self))
  have hsubset : ∀ x ∈ s'.tried ++ s'.line, x ∈ s.tried ++ s.line := by
    intro x hx
    rw [hline]
    obtain hx | hx := List.mem_append.mp hx
    · obtain rfl | hx := htried x hx
      · exact List.mem_append_right _ List.mem_cons_self
      · exact List.mem_append_left _ hx
    · exact List.mem_append_right _ (List.mem_cons_of_mem _ (hline' ▸ hx))
  exact {
    flushing := hflushing
    snapshot := hsnapshot
    increasing := h.increasing
    fresh := fun x hx => hnext ▸ h.fresh x hx
    held := fun x hx => h.held x (hsubset x hx)
    nodup := hnodup
    queued := fun x hx => (List.mem_append.mp hx).elim (h.queued x) fun hx => List.mem_singleton.mp hx ▸ hm
    tried := fun x hx => (htried x hx).elim (fun heq => heq ▸ List.mem_append_right _ (List.mem_singleton_self _))
      fun hx => List.mem_append_left _ (h.tried x hx)
    succeeded := fun x hx => ⟨List.mem_append_left _ (hsucceeded x hx).1, (hsucceeded x hx).2⟩
    once := honce
    line := hline'.symm ▸ h.line_hand hline
    ordered := fun x hx y hlt tried hstart hy =>
      (h.ordered_hand hline hx hlt hstart hy).imp_right fun ⟨hnot, hunhanded⟩ =>
        ⟨fun hmem => hnot (hsubset x hmem), hunhanded⟩ }

theorem Orderly.flush (h : Orderly s log) :
    Orderly s.flush.1 { log with handed := log.handed ++ handedBy s.flush.2 } := by
  unfold OfflineQueue.flush
  split
  · simpa [handedBy] using h
  rename_i hflushing
  have hnone : s.suspended = none := by simpa [h.flushing] using hflushing
  have htried : s.tried = [] := by rw [OfflineQueue.tried, hnone]; rfl
  have hline : s.line = s.queueRef := by rw [OfflineQueue.line, hnone]; rfl
  split
  · simpa [handedBy] using h
  rename_i m rest hqueue
  rw [hqueue] at hline
  have hlater : ({ s with flushingRef := true, suspended := some ⟨s.queueRef, m, rest, []⟩ } :
      OfflineQueue α).later = [] := List.drop_length
  have hline' : ({ s with flushingRef := true, suspended := some ⟨s.queueRef, m, rest, []⟩ } :
      OfflineQueue α).line = rest := by
    simp only [OfflineQueue.line, Option.elim_some, hlater, List.append_nil]
  have hsame : [m] ++ rest = s.tried ++ s.line := by rw [htried, hline]; rfl
  refine h.hand hline hline' rfl rfl ?_ (fun x hx => .inl (List.mem_singleton.mp hx)) ?_ ?_ h.once
  · rintro f ⟨⟩
    rw [hlater]
    exact ⟨(List.append_nil _).symm, fun x hx => .inl (hqueue ▸ hx)⟩
  · rw [hline']
    exact hsame ▸ h.nodup
  · rw [hline']
    exact fun x hx => hsame ▸ h.succeeded x hx

/-- The messages that a flush puts back, once the answer has come. -/
def Flush.putBack (f : Flush α) (answer : Answer) : List (QueuedMessage α) :=
  if answer.ok then f.failed else f.failed ++ [f.msg]

theorem Flush.putBack_sublist (f : Flush α) (answer : Answer) :
    (f.putBack answer).Sublist (f.failed ++ [f.msg]) := by
  unfold Flush.putBack
  split
  · exact List.sublist_append_left _ _
  · exact .refl _

theorem Flush.mem_putBack (f : Flush α) (answer : Answer) {x : QueuedMessage α} (hx : x ∈ f.failed ++ [f.msg]) :
    x ∈ f.putBack answer ∨ x ∈ (if answer.ok then [f.msg] else [] : List (QueuedMessage α)) := by
  unfold Flush.putBack
  split
  · exact List.mem_append.mp hx
  · exact .inl hx

theorem OfflineQueue.resume_eq (s : OfflineQueue α) (answer : Answer) (f : Flush α) :
    (s.resume answer f).1 = match f.rest with
      | msg :: rest => { s with suspended := some { f with msg, rest, failed := f.putBack answer } }
      | [] => { s with queueRef := f.putBack answer, flushingRef := false, suspended := none } := by
  cases hrest : f.rest <;> cases hok : answer.ok <;> simp [OfflineQueue.resume, Flush.putBack, hrest, hok]

theorem handedBy_resume (s : OfflineQueue α) (answer : Answer) (f : Flush α) :
    handedBy (s.resume answer f).2 = f.rest.head?.toList := by
  cases hrest : f.rest <;> cases hok : answer.ok <;> simp [OfflineQueue.resume, handedBy, hrest, hok]

/-- The flush goes on. -/
theorem Orderly.resume (h : Orderly s log) {f : Flush α} (hf : s.suspended = some f) (answer : Answer) :
    Orderly (s.resume answer f).1 { log with
      handed := log.handed ++ handedBy (s.resume answer f).2
      succeeded := log.succeeded ++ if answer.ok then [f.msg] else [] } := by
  obtain ⟨hqueue, hall⟩ := h.snapshot f hf
  have htried : s.tried = f.failed ++ [f.msg] := by rw [OfflineQueue.tried, hf]; rfl
  have hline : s.line = f.rest ++ s.later := by rw [OfflineQueue.line, hf]; rfl
  have hlater : s.later = s.queueRef.drop f.toFlush.length := by rw [OfflineQueue.later, hf]; rfl
  have hmsg : f.msg ∈ s.tried := htried ▸ List.mem_append_right _ (List.mem_singleton_self _)
  have hback : ∀ x ∈ f.putBack answer, x ∈ s.tried := fun x hx => htried ▸ (f.putBack_sublist answer).subset hx
  have hdone : ∀ x ∈ log.succeeded ++ (if answer.ok then [f.msg] else []), x ∈ log.handed ∧
      x ∉ f.putBack answer ++ s.line := by
    intro x hx
    obtain hx | hx := List.mem_append.mp hx
    · refine ⟨(h.succeeded x hx).1, fun hmem => (h.succeeded x hx).2 ?_⟩
      exact (List.mem_append.mp hmem).elim (fun hmem => List.mem_append_left _ (hback x hmem))
        (List.mem_append_right _)
    · have hnodup := h.nodup
      rw [htried, List.append_assoc, List.nodup_append] at hnodup
      split at hx
      · rename_i hok
        obtain rfl := List.mem_singleton.mp hx
        refine ⟨h.tried _ hmsg, fun hmem => ?_⟩
        rw [Flush.putBack, if_pos hok] at hmem
        obtain hmem | hmem := List.mem_append.mp hmem
        · exact hnodup.2.2 _ hmem _ List.mem_cons_self rfl
        · exact (List.nodup_cons.mp hnodup.2.1).1 hmem
      · cases hx
  have honce : (log.succeeded ++ if answer.ok then [f.msg] else []).Nodup := by
    refine List.nodup_append.mpr ⟨h.once, ?_, fun x hx y hy hxy => ?_⟩
    · split
      · exact List.nodup_singleton _
      · exact List.nodup_nil
    · subst hxy
      split at hy
      · rw [List.mem_singleton.mp hy] at hx
        exact (h.succeeded _ hx).2 (List.mem_append_left _ hmsg)
      · cases hy
  have hnodup : (f.putBack answer ++ s.line).Nodup :=
    h.nodup.sublist (htried ▸ (f.putBack_sublist answer).append_right _)
  rw [OfflineQueue.resume_eq, handedBy_resume]
  cases hrest : f.rest with
  | cons m rest =>
    rw [hrest, List.cons_append] at hline
    have hline' : ({ s with suspended := some { f with msg := m, rest, failed := f.putBack answer } } :
        OfflineQueue α).line = rest ++ s.later := by
      rw [hlater]
      rfl
    have hsame : (f.putBack answer ++ [m]) ++ (rest ++ s.later) = f.putBack answer ++ s.line := by
      rw [hline, List.append_assoc]
      rfl
    refine h.hand hline hline' rfl (h.flushing.trans (by rw [hf]; rfl)) ?_ ?_ ?_ ?_ honce
    · rintro g ⟨⟩
      refine ⟨hqueue.trans (congrArg _ hlater), fun x hx => ?_⟩
      obtain hx | hx := hall x hx
      · rw [hrest, ← List.singleton_append, ← List.append_assoc] at hx
        obtain hx | hx := List.mem_append.mp hx
        · exact (f.mem_putBack answer hx).imp (List.mem_append_left _) (List.mem_append_right _)
        · exact .inl (List.mem_append_right _ hx)
      · exact .inr (List.mem_append_left _ hx)
    · intro x hx
      exact (List.mem_append.mp hx).elim (fun hx => .inr (hback x hx)) fun hx => .inl (List.mem_singleton.mp hx)
    · rw [hline']
      exact hsame ▸ hnodup
    · rw [hline']
      exact fun x hx => hsame ▸ hdone x hx
  | nil =>
    have hsubset : ∀ x ∈ f.putBack answer, x ∈ s.tried ++ s.line := fun x hx =>
      List.mem_append_left _ (hback x hx)
    simp only [List.head?_nil, Option.toList_none, List.append_nil]
    exact {
      flushing := rfl
      snapshot := nofun
      increasing := h.increasing
      fresh := h.fresh
      held := fun x hx => h.held x (hsubset x hx)
      nodup := (List.nodup_append.mp hnodup).1
      queued := h.queued
      tried := nofun
      succeeded := fun x hx => ⟨(hdone x hx).1, fun hmem => (hdone x hx).2 (List.mem_append_left _ hmem)⟩
      once := honce
      line := ⟨f.putBack answer, [], (List.append_nil _).symm, fun x hx => h.tried x (hback x hx), .nil⟩
      ordered := fun x hx y hlt tried hstart hy =>
        (h.ordered x hx y hlt tried hstart hy).imp_right fun ⟨hnot, hunhanded⟩ =>
          ⟨fun hmem => hnot (hsubset x hmem), hunhanded⟩ }

theorem Orderly.setOnline (h : Orderly s log) (isOnline : Bool) : Orderly { s with isOnline } log :=
  { h with }

/-- **One step**. -/
theorem orderly_next {input : QueueInput α} (h : Orderly s log)
    (he : ∀ answer, input = .answered answer → s.suspended ≠ none) :
    Orderly (s.step input).1 (log.extend s input) := by
  cases input with
  | enqueue msg =>
    have henqueue := h.enqueue msg
    rw [← List.append_nil log.handed] at henqueue
    exact henqueue
  | goOnline => exact (h.setOnline true).flush
  | goOffline =>
    have hlog : log.extend s .goOffline = log := by simp [QueueLog.extend, OfflineQueue.step, handedBy]
    rw [hlog]
    exact h.setOnline false
  | onConnect => exact h.flush
  | answered answer =>
    obtain ⟨f, hf⟩ := Option.ne_none_iff_exists'.mp (he answer rfl)
    have hresume := h.resume hf answer
    simp only [OfflineQueue.step, QueueLog.extend, hf]
    simpa using hresume

/-! ## What is lost -/

/-- A flush that runs to its end hands over all that wait. -/
theorem handed_drain {isOnline : Bool} {f : Flush α} (answers : List Answer) :
    s.suspended = some f → answers.length = f.rest.length + 1 →
    ((offlineQueueLog α isOnline).exec (s, log) (answers.map .answered)).2.handed = log.handed ++ f.rest := by
  induction answers generalizing s log f with
  | nil => exact fun _ hlength => absurd hlength (Nat.succ_ne_zero _).symm
  | cons answer answers ih =>
    intro hf hlength
    have hstep : s.step (.answered answer) = s.resume answer f := by
      rw [OfflineQueue.step, hf]
      rfl
    have hlog : (log.extend s (.answered answer)).handed = log.handed ++ f.rest.head?.toList := by
      rw [← handedBy_resume s answer f, ← hstep]
      rfl
    rw [List.map_cons, Machine.exec_cons]
    show ((offlineQueueLog α isOnline).exec
      ((s.step (.answered answer)).1, log.extend s (.answered answer)) _).2.handed = _
    rw [hstep, OfflineQueue.resume_eq]
    cases hrest : f.rest with
    | nil =>
      obtain rfl : answers = [] := by simpa [hrest] using hlength
      rw [hrest] at hlog
      exact hlog
    | cons m rest =>
      rw [hrest] at hlog
      have hanswers : answers.length = rest.length + 1 := by simpa [hrest] using hlength
      rw [ih rfl hanswers, hlog, List.append_assoc]
      rfl

theorem handed_onConnect {isOnline : Bool} (h : Orderly s log) (hnone : s.suspended = none)
    {answers : List Answer} (hlength : answers.length = s.queueRef.length) {x : QueuedMessage α}
    (hx : x ∈ s.queueRef) :
    x ∈ ((offlineQueueLog α isOnline).exec (s, log) (.onConnect :: answers.map .answered)).2.handed.drop
      log.handed.length := by
  obtain ⟨m, rest, hqueue⟩ := List.exists_cons_of_ne_nil (List.ne_nil_of_mem hx)
  have hflushing : s.flushingRef = false := by rw [h.flushing, hnone]; rfl
  have hstep : s.step .onConnect = ({ s with
      flushingRef := true, suspended := some ⟨s.queueRef, m, rest, []⟩ }, [.onFlush m]) := by
    simp [OfflineQueue.step, OfflineQueue.flush, hflushing, hqueue]
  have hlog : (log.extend s .onConnect).handed = log.handed ++ [m] := by
    show log.handed ++ handedBy (s.step .onConnect).2 = _
    rw [hstep]
    rfl
  rw [Machine.exec_cons]
  show x ∈ ((offlineQueueLog α isOnline).exec ((s.step .onConnect).1, log.extend s .onConnect)
    _).2.handed.drop _
  rw [hstep, handed_drain answers rfl (by simpa [hqueue] using hlength), hlog, List.append_assoc,
    List.drop_left]
  rwa [hqueue] at hx

/-- A message that is in line or has been tried is one that the next flush can still send. -/
theorem Orderly.mem_queueRef (h : Orderly s log) {x : QueuedMessage α} (hx : x ∈ s.queueRef) :
    x ∈ s.tried ++ s.line ∨ x ∈ log.succeeded := by
  cases hf : s.suspended with
  | none =>
    refine .inl (List.mem_append_right _ ?_)
    rwa [OfflineQueue.line, hf]
  | some f =>
    obtain ⟨hqueue, hall⟩ := h.snapshot f hf
    have hremaining : s.tried ++ s.line = (f.failed ++ f.msg :: f.rest) ++ s.later := by
      simp [OfflineQueue.tried, OfflineQueue.line, hf]
    rw [hremaining]
    rw [hqueue] at hx
    obtain hx | hx := List.mem_append.mp hx
    · exact (hall x hx).imp_left (List.mem_append_left _)
    · exact .inl (List.mem_append_right _ hx)

/-- Everything but the first demand holds in every run in which the first one does. -/
theorem lossless_iff {isOnline : Bool} (h : Orderly s log) : Lossless isOnline (s, log) ↔
    ∀ msg ∈ log.enqueued, msg ∉ log.succeeded → msg ∈ s.queueRef := by
  refine ⟨Lossless.kept, fun hkept => ⟨hkept, ?_, h.once, ?_⟩⟩
  · intro msg hmsg hnot hnone answers hlength
    exact handed_onConnect h hnone hlength (hkept msg hmsg hnot)
  · intro x y hxy tried hstart hy
    have hlt := List.pairwise_iff_forall_sublist.mp h.increasing hxy
    have hx : x ∈ log.enqueued := hxy.subset List.mem_cons_self
    refine (h.ordered x hx y hlt tried hstart hy).resolve_right fun ⟨hgone, hunhanded⟩ => ?_
    have hnot : x ∉ log.succeeded := fun hmem => hunhanded (h.succeeded x hmem).1
    exact (h.mem_queueRef (hkept x hx hnot)).elim hgone hnot

theorem flush_queueRef (s : OfflineQueue α) : s.flush.1.queueRef = s.queueRef := by
  unfold OfflineQueue.flush
  split
  · rfl
  · split <;> rfl

/-- A flush ends: what it puts back is all that has not succeeded, unless more has come in. -/
theorem finish_lossless (h : Orderly s log) {f : Flush α} (hf : s.suspended = some f) (hrest : f.rest = [])
    {answer : Answer} (hkept : ∀ msg ∈ log.enqueued, msg ∉ log.succeeded → msg ∈ s.queueRef) :
    (∀ msg ∈ log.enqueued, msg ∉ (log.succeeded ++ if answer.ok then [f.msg] else []) →
      msg ∈ f.putBack answer) ↔ s.queueRef = f.toFlush := by
  obtain ⟨hqueue, hall⟩ := h.snapshot f hf
  have htried : s.tried = f.failed ++ [f.msg] := by rw [OfflineQueue.tried, hf]; rfl
  have hline : s.line = s.later := by rw [OfflineQueue.line, hf, Option.elim_some, hrest]; rfl
  constructor
  · intro hback
    have hnone : s.later = [] := by
      refine List.eq_nil_iff_forall_not_mem.mpr fun x hx => ?_
      have hremains : x ∈ s.tried ++ s.line := List.mem_append_right _ (hline ▸ hx)
      have hfresh : x ∉ f.failed ++ [f.msg] := fun hmem =>
        (List.nodup_append.mp h.nodup).2.2 x (htried ▸ hmem) x (hline ▸ hx) rfl
      refine hfresh ((f.putBack_sublist answer).subset (hback x (h.held x hremains) fun hmem => ?_))
      obtain hmem | hmem := List.mem_append.mp hmem
      · exact (h.succeeded x hmem).2 hremains
      · split at hmem
        · exact hfresh (List.mem_append_right _ hmem)
        · cases hmem
    rw [hqueue, hnone, List.append_nil]
  · intro heq x hx hnot
    have hsucceeded : x ∉ log.succeeded := fun hmem => hnot (List.mem_append_left _ hmem)
    have hin := (hall x (heq ▸ hkept x hx hsucceeded)).resolve_right hsucceeded
    rw [hrest] at hin
    exact (f.mem_putBack answer hin).resolve_right fun hmem => hnot (List.mem_append_right _ hmem)

/-- **One step**: nothing gets lost if and only if no flush ends with another queue than it began with. -/
theorem next_lossless {isOnline : Bool} {input : QueueInput α} (h : Orderly s log)
    (he : ∀ answer, input = .answered answer → s.suspended ≠ none) (hlossless : Lossless isOnline (s, log)) :
    Lossless isOnline ((s.step input).1, log.extend s input) ↔ s.KeepsQueue input := by
  rw [lossless_iff (orderly_next h he)]
  have hkept := hlossless.kept
  have hsame : (s.step input).1.queueRef = s.queueRef → (log.extend s input).enqueued = log.enqueued →
      log.succeeded <+: (log.extend s input).succeeded →
      ∀ msg ∈ (log.extend s input).enqueued, msg ∉ (log.extend s input).succeeded →
        msg ∈ (s.step input).1.queueRef := by
    intro hqueue henqueued hsucceeded msg hmsg hnot
    exact hqueue ▸ hkept msg (henqueued ▸ hmsg) fun hmem => hnot (hsucceeded.subset hmem)
  cases input with
  | enqueue msg =>
    refine iff_of_true (fun x hx hnot => ?_) trivial
    exact (List.mem_append.mp hx).elim (fun hx => List.mem_append_left _ (hkept x hx hnot))
      (List.mem_append_right _)
  | goOnline => exact iff_of_true (hsame (flush_queueRef _) rfl (List.prefix_refl _)) trivial
  | goOffline => exact iff_of_true (hsame rfl rfl (List.prefix_refl _)) trivial
  | onConnect => exact iff_of_true (hsame (flush_queueRef _) rfl (List.prefix_refl _)) trivial
  | answered answer =>
    obtain ⟨f, hf⟩ := Option.ne_none_iff_exists'.mp (he answer rfl)
    have hstep : (s.step (.answered answer)).1 = _ :=
      (congrArg (fun o => (Option.elim o (s, []) (s.resume answer)).1) hf).trans (s.resume_eq answer f)
    have hsucceeded : (log.extend s (.answered answer)).succeeded =
        log.succeeded ++ if answer.ok then [f.msg] else [] := by
      simp only [QueueLog.extend, hf, Option.toList_some, List.map_cons, List.map_nil]
    cases hrest : f.rest with
    | cons m rest =>
      rw [hrest] at hstep
      refine iff_of_true (hsame ?_ rfl (hsucceeded ▸ List.prefix_append _ _)) fun g hg hnil => ?_
      · rw [hstep]
      · obtain rfl := Option.some.inj (hf.symm.trans hg)
        cases hrest.symm.trans hnil
    | nil =>
      rw [hrest] at hstep
      have hqueue : (s.step (.answered answer)).1.queueRef = f.putBack answer := by rw [hstep]
      have hcond : s.KeepsQueue (.answered answer) ↔ s.queueRef = f.toFlush := by
        refine ⟨fun hkeeps => hkeeps f hf hrest, fun heq g hg _ => ?_⟩
        obtain rfl := Option.some.inj (hf.symm.trans hg)
        exact heq
      rw [hqueue, hcond, hsucceeded]
      exact finish_lossless h hf hrest hkept

end

/-! ## Runs -/

/-- **The offline queue loses nothing and sends nothing twice**, in a run, if and only if every flush
ends with the queue that it began with. A message that is enqueued while a flush runs is lost when the
flush ends, for it then sets the queue to what has failed. -/
theorem queue_lossless (α : Type) (isOnline : Bool) (run : List (QueueInput α))
    (hrun : (offlineQueue α isOnline).Allowed (offlineQueue α isOnline).init run) :
    (offlineQueueLog α isOnline).Throughout (Lossless isOnline) (offlineQueueLog α isOnline).init run ↔
      ((offlineQueue α isOnline).restrict OfflineQueue.KeepsQueue).Allowed (offlineQueue α isOnline).init
        run := by
  refine Machine.throughout_record_iff (M := offlineQueue α isOnline) (I := fun s => Orderly s.1 s.2)
    (fun s input h he => ?_) (fun s input h hlossless he => ?_) orderly_start ?_ hrun
  · exact orderly_next h he
  · exact next_lossless h he hlossless
  · exact (lossless_iff orderly_start).mpr nofun

instance {α : Type} [DecidableEq α] (s : OfflineQueue α) (input : QueueInput α) :
    Decidable (s.KeepsQueue input) := by
  unfold OfflineQueue.KeepsQueue
  split <;> infer_instance

instance {α : Type} (isOnline : Bool) (s : OfflineQueue α) :
    (input : QueueInput α) → Decidable ((offlineQueue α isOnline).enabled s input)
  | .answered answer =>
    decidable_of_iff (s.suspended ≠ none) ⟨fun h _ _ => h, fun h => h answer rfl⟩
  | .enqueue _ | .goOnline | .goOffline | .onConnect => .isTrue nofun

instance {α : Type} (isOnline : Bool) (s : OfflineQueue α × QueueLog α) (input : QueueInput α) :
    Decidable ((offlineQueueLog α isOnline).enabled s input) :=
  inferInstanceAs (Decidable ((offlineQueue α isOnline).enabled s.1 input))

/-- Two messages wait. The first one fails, and a second flush sends it. -/
def patientRun : List (QueueInput Unit) := [.enqueue (), .enqueue (), .goOnline, .onConnect,
  .answered .threw, .answered (.returned true), .enqueue (), .onConnect, .answered (.returned true),
  .answered (.returned true)]

theorem queue_lossless_patient :
    (offlineQueueLog Unit false).Throughout (Lossless false) (offlineQueueLog Unit false).init patientRun :=
  (queue_lossless Unit false patientRun (by decide)).mpr (by decide)

/-- The second message is enqueued while the first one is sent, and gone after that. -/
theorem message_lost : ∃ s, (offlineQueueLog Unit false).Reachable s ∧ ¬Lossless false s :=
  ⟨_, Machine.reachable_iff.mpr
    ⟨[.enqueue (), .goOnline, .enqueue (), .answered (.returned true)], by decide, rfl⟩,
    fun h => absurd h.kept (by decide)⟩

end Vesper.Client
