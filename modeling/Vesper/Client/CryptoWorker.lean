import Vesper.Lib.Machine
import Mathlib.Logic.Function.Basic
import Mathlib.Data.List.Nodup
import Mathlib.Data.List.Perm.Basic

/-!
# The channel to the crypto worker

The calls of `cryptoWorkerClient.ts` and the handler of `crypto.worker.ts`, with the messages between them in
two queues. `dispatch` computes the answer to a request from the request and from what it draws; a call is
settled once, with the answer to its own request, however calls, messages and the initialization of the module
follow each other.
-/

namespace Vesper.Client.CryptoWorker

abbrev CallId := Nat

/-- How far a call has come. -/
inductive Stage (ρ : Type)
  /-- It awaits `readyPromise`. -/
  | waiting
  | posted (id : Nat)
  | settled (id : Nat) (outcome : Except String ρ)
  /-- `readyPromise` was rejected. -/
  | failed (error : String)
  deriving DecidableEq, Repr

structure Call (α ρ : Type) where
  request : α
  stage : Stage ρ
  deriving DecidableEq, Repr

/-- The id that the request of the call was posted under. -/
def Stage.id {ρ : Type} : Stage ρ → Option Nat
  | waiting | failed _ => none
  | posted id | settled id _ => some id

inductive ToWorker (α : Type)
  | init
  | request (id : Nat) (request : α)
  deriving DecidableEq, Repr

inductive ToPage (ρ : Type)
  | ready
  | error (error : String)
  | answer (id : Nat) (outcome : Except String ρ)
  deriving DecidableEq, Repr

def ToWorker.id {α : Type} : ToWorker α → Option Nat
  | init => none
  | request id _ => some id

def ToPage.id {ρ : Type} : ToPage ρ → Option Nat
  | ready | error _ => none
  | answer id _ => some id

/-- The page, the worker and the messages between them. -/
structure Channel (α ρ σ : Type) where
  /-- Whether `instance` is there. -/
  started : Bool
  /-- What `readyPromise` has settled to. -/
  ready : Option (Except String Unit)
  seq : Nat
  pending : List (Nat × CallId)
  calls : CallId → Option (Call α ρ)
  made : Nat
  toWorker : List (ToWorker α)
  /-- How many calls of `init` are under way in the worker. -/
  initializing : Nat
  mod : Bool
  toPage : List (ToPage ρ)
  /-- The requests that were dispatched, and what was drawn for each; no step reads it. -/
  handled : List (Nat × σ)
  /-- The requests that came before the module; no step reads it. -/
  dropped : List Nat

inductive Event (α σ : Type)
  | call (request : α)
  /-- A call goes on when `readyPromise` has settled. -/
  | resume (call : CallId)
  /-- The worker gets the next message. -/
  | receive (drawn : σ)
  /-- `init` is over. -/
  | initialized (result : Except String Unit)
  /-- The page gets the next message. -/
  | deliver
  | onerror (message : String)
  deriving DecidableEq, Repr

namespace Channel
variable {α ρ σ : Type} (c : Channel α ρ σ) (dispatch : α → σ → Except String ρ)

def ensureWorker : Channel α ρ σ :=
  if c.started then c
  else { c with started := true, ready := none, toWorker := c.toWorker ++ [.init] }

def setStage (call : CallId) (stage : Stage ρ) : Channel α ρ σ :=
  { c with calls := Function.update c.calls call ((c.calls call).map ({ · with stage })) }

/-- `readyResolve` or `readyReject`: a promise settles once. -/
def settleReady (result : Except String Unit) : Channel α ρ σ := { c with ready := c.ready <|> some result }

/-- `call`, once `readyPromise` has settled. -/
def post (call : CallId) (request : α) : Channel α ρ σ :=
  ({ c with
    seq := c.seq + 1
    pending := c.pending ++ [(c.seq + 1, call)]
    toWorker := c.toWorker ++ [.request (c.seq + 1) request] } : Channel α ρ σ).setStage call (.posted (c.seq + 1))

/-- `onmessage` of the worker. -/
def handle (drawn : σ) : ToWorker α → Channel α ρ σ
  | .init => { c with initializing := c.initializing + 1 }
  | .request id request =>
    if ¬c.mod then { c with dropped := c.dropped ++ [id] }
    else { c with
      toPage := c.toPage ++ [.answer id (dispatch request drawn)]
      handled := c.handled ++ [(id, drawn)] }

/-- `onmessage` of the page. -/
def onmessage : ToPage ρ → Channel α ρ σ
  | .ready => c.settleReady (.ok ())
  | .error error => c.settleReady (.error error)
  | .answer id outcome =>
    match c.pending.lookup id with
    | none => c
    | some call =>
      ({ c with pending := c.pending.filter (·.1 ≠ id) } : Channel α ρ σ).setStage call (.settled id outcome)

def Enabled : Event α σ → Prop
  | .call _ => True
  | .resume call => c.ready ≠ none ∧ ∃ k ∈ c.calls call, k.stage = .waiting
  | .receive _ => c.toWorker ≠ []
  | .initialized _ => c.initializing ≠ 0
  | .deliver => c.toPage ≠ []
  | .onerror _ => c.started

def next : Event α σ → Channel α ρ σ
  | .call request =>
    { c.ensureWorker with calls := Function.update c.calls c.made (some ⟨request, .waiting⟩), made := c.made + 1 }
  | .resume call =>
    match c.ready, c.calls call with
    | some (.ok ()), some k => c.post call k.request
    | some (.error e), some _ => c.setStage call (.failed e)
    | _, _ => c
  | .receive drawn =>
    match c.toWorker with
    | [] => c
    | message :: rest => ({ c with toWorker := rest } : Channel α ρ σ).handle dispatch drawn message
  | .initialized result =>
    let c := { c with initializing := c.initializing - 1 }
    match result with
    | .ok () => { c with mod := true, toPage := c.toPage ++ [.ready] }
    | .error e => { c with toPage := c.toPage ++ [.error e] }
  | .deliver =>
    match c.toPage with
    | [] => c
    | message :: rest => ({ c with toPage := rest } : Channel α ρ σ).onmessage message
  | .onerror message => c.settleReady (.error message)

def start : Channel α ρ σ := ⟨false, none, 0, [], fun _ => none, 0, [], 0, false, [], [], []⟩

end Channel

def channel {α ρ σ : Type} (dispatch : α → σ → Except String ρ) : Machine (Channel α ρ σ) (Event α σ) where
  init := .start
  enabled c e := c.Enabled e
  next c e := c.next dispatch e

instance {α ρ σ : Type} [DecidableEq ρ] {dispatch : α → σ → Except String ρ} (c : Channel α ρ σ) :
    (e : Event α σ) → Decidable ((channel dispatch).enabled c e)
  | .call _ => .isTrue trivial
  | .resume i => inferInstanceAs (Decidable (c.ready ≠ none ∧ ∃ k ∈ c.calls i, k.stage = .waiting))
  | .receive _ =>
    match h : c.toWorker with
    | [] => .isFalse fun he => he h
    | message :: rest => .isTrue fun hnil => by cases h.symm.trans hnil
  | .initialized _ => inferInstanceAs (Decidable (c.initializing ≠ 0))
  | .deliver =>
    match h : c.toPage with
    | [] => .isFalse fun he => he h
    | message :: rest => .isTrue fun hnil => by cases h.symm.trans hnil
  | .onerror _ => inferInstanceAs (Decidable (c.started = true))

/-! ## The invariant -/

namespace Channel
variable {α ρ σ : Type} {dispatch : α → σ → Except String ρ} {c : Channel α ρ σ}

/-- The ids of the requests and answers under way. -/
def flight (c : Channel α ρ σ) : List Nat := c.toWorker.filterMap ToWorker.id ++ c.toPage.filterMap ToPage.id

/-- What is under way is what is awaited; no request gets to the worker before its module. -/
structure Wired (dispatch : α → σ → Except String ρ) (c : Channel α ρ σ) : Prop where
  fresh : ∀ i, c.made ≤ i → c.calls i = none
  below : ∀ i k id, c.calls i = some k → k.stage.id = some id → id ≤ c.seq
  apart : ∀ i j k l id, c.calls i = some k → c.calls j = some l → k.stage.id = some id → l.stage.id = some id → i = j
  pending : ∀ id i, (id, i) ∈ c.pending ↔ ∃ r, c.calls i = some ⟨r, .posted id⟩
  distinct : c.flight.Nodup
  flies : ∀ i r id, c.calls i = some ⟨r, .posted id⟩ → id ∈ c.flight
  request : ∀ id r, .request id r ∈ c.toWorker → ∃ i, c.calls i = some ⟨r, .posted id⟩
  answer : ∀ id o, .answer id o ∈ c.toPage →
    ∃ i r d, c.calls i = some ⟨r, .posted id⟩ ∧ (id, d) ∈ c.handled ∧ o = dispatch r d
  settled : ∀ i r id o, c.calls i = some ⟨r, .settled id o⟩ → ∃ d, (id, d) ∈ c.handled ∧ o = dispatch r d
  handled : (c.handled.map Prod.fst).Nodup ∧
    ∀ q ∈ c.handled, q.1 ≤ c.seq ∧ q.1 ∉ c.toWorker.filterMap ToWorker.id
  dropped : c.dropped = []
  mod : c.ready = some (.ok ()) ∨ .ready ∈ c.toPage → c.mod
  sent : ∀ i k id, c.calls i = some k → k.stage.id = some id → c.ready = some (.ok ())
  failed : ∀ i r e, c.calls i = some ⟨r, .failed e⟩ → c.ready = some (.error e)
  idle : ¬c.started → c.ready = none ∧ c.toWorker = [] ∧ c.toPage = [] ∧ c.initializing = 0

theorem calls_setStage {i j : CallId} {stage : Stage ρ} {l : Call α ρ} :
    (c.setStage i stage).calls j = some l ↔
      (j ≠ i ∧ c.calls j = some l) ∨ (j = i ∧ ∃ k, c.calls i = some k ∧ l = { k with stage }) := by
  show Function.update c.calls i ((c.calls i).map ({ · with stage })) j = some l ↔ _
  by_cases h : j = i
  · subst h
    rw [Function.update_self, Option.map_eq_some_iff]
    simp [eq_comm]
  · rw [Function.update_of_ne h]
    simp [h]

/-- The calls, once one of them has come to the next stage. -/
theorem calls_setStage_of {i j : CallId} {stage stage' : Stage ρ} {r : α} {l : Call α ρ}
    (hi : c.calls i = some ⟨r, stage⟩) :
    (c.setStage i stage').calls j = some l ↔ (j ≠ i ∧ c.calls j = some l) ∨ (j = i ∧ l = ⟨r, stage'⟩) := by
  refine calls_setStage.trans (or_congr_right (and_congr_right fun _ => ?_))
  constructor
  · rintro ⟨k, hk, rfl⟩
    cases hi.symm.trans hk
    rfl
  · rintro rfl
    exact ⟨_, hi, rfl⟩

theorem mem_filterMap_toWorker {id : Nat} {messages : List (ToWorker α)} :
    id ∈ messages.filterMap ToWorker.id ↔ ∃ r, .request id r ∈ messages := by
  rw [List.mem_filterMap]
  constructor
  · rintro ⟨message, hmem, hid⟩
    cases message with
    | init => cases hid
    | request id r =>
      cases hid
      exact ⟨r, hmem⟩
  · rintro ⟨r, hmem⟩
    exact ⟨_, hmem, rfl⟩

theorem mem_filterMap_toPage {id : Nat} {messages : List (ToPage ρ)} :
    id ∈ messages.filterMap ToPage.id ↔ ∃ o, .answer id o ∈ messages := by
  rw [List.mem_filterMap]
  constructor
  · rintro ⟨message, hmem, hid⟩
    cases message with
    | ready | error => cases hid
    | answer id o =>
      cases hid
      exact ⟨o, hmem⟩
  · rintro ⟨o, hmem⟩
    exact ⟨_, hmem, rfl⟩

namespace Wired

theorem init (h : Wired dispatch c) : Wired dispatch c.ensureWorker := by
  rw [ensureWorker]
  split
  · exact h
  · rename_i hstarted
    have hready : c.ready = none := (h.idle hstarted).1
    have hids : (c.toWorker ++ [ToWorker.init]).filterMap ToWorker.id = c.toWorker.filterMap ToWorker.id := by
      rw [List.filterMap_append]
      exact List.append_nil _
    have hflight : flight { c with started := true, ready := none, toWorker := c.toWorker ++ [.init] } = c.flight := by
      rw [flight, hids]
      rfl
    refine { h with
      distinct := hflight ▸ h.distinct, flies := hflight ▸ h.flies, request := fun id r hmem => ?_,
      handled := ⟨h.handled.1, fun q hq => hids ▸ h.handled.2 q hq⟩, mod := fun hmod => h.mod (hready ▸ hmod),
      sent := hready ▸ h.sent, failed := hready ▸ h.failed, idle := fun hnot => absurd rfl hnot }
    rcases List.mem_append.mp hmem with hmem | hmem
    · exact h.request id r hmem
    · cases List.mem_singleton.mp hmem

/-- A call begins. -/
theorem call (h : Wired dispatch c) (request : α) :
    Wired dispatch { c with
      calls := Function.update c.calls c.made (some ⟨request, .waiting⟩), made := c.made + 1 } := by
  have hcalls : ∀ {i k}, Function.update c.calls c.made (some ⟨request, .waiting⟩) i = some k →
      c.calls i = some k ∨ k = ⟨request, .waiting⟩ := by
    intro i k hk
    by_cases hi : i = c.made
    · subst hi
      rw [Function.update_self] at hk
      exact .inr (Option.some.inj hk).symm
    · rw [Function.update_of_ne hi] at hk
      exact .inl hk
  have hkept : ∀ {i k}, c.calls i = some k →
      Function.update c.calls c.made (some ⟨request, .waiting⟩) i = some k := by
    intro i k hk
    by_cases hi : i = c.made
    · subst hi
      cases (h.fresh c.made (Nat.le_refl _)).symm.trans hk
    · rw [Function.update_of_ne hi]
      exact hk
  have hsent : ∀ {i k id}, Function.update c.calls c.made (some ⟨request, .waiting⟩) i = some k →
      k.stage.id = some id → c.calls i = some k := by
    intro i k id hk hid
    refine (hcalls hk).resolve_right ?_
    rintro rfl
    cases hid
  refine { h with
    fresh := fun i hi => ?_, below := fun i k id hk hid => h.below i k id (hsent hk hid) hid,
    apart := fun i j k l id hk hl hid hid' => h.apart i j k l id (hsent hk hid) (hsent hl hid') hid hid',
    pending := fun id i => (h.pending id i).trans (exists_congr fun r => ⟨hkept, fun hk => hsent hk rfl⟩),
    flies := fun i r id hk => h.flies i r id (hsent hk rfl),
    request := fun id r hmem => (h.request id r hmem).imp fun i => hkept,
    answer := fun id o hmem => ?_, settled := fun i r id o hk => h.settled i r id o (hsent hk rfl),
    sent := fun i k id hk hid => h.sent i k id (hsent hk hid) hid, failed := fun i r e hk => ?_ }
  · have hne : i ≠ c.made := by
      rintro rfl
      exact absurd hi (Nat.not_succ_le_self _)
    exact (Function.update_of_ne hne ..).trans (h.fresh i (Nat.le_of_succ_le hi))
  · obtain ⟨i, r, d, hk, hrest⟩ := h.answer id o hmem
    exact ⟨i, r, d, hkept hk, hrest⟩
  · refine h.failed i r e ((hcalls hk).resolve_right ?_)
    rintro ⟨⟩

/-- What is under way was posted, and is awaited. -/
theorem posted_of_flight (h : Wired dispatch c) {id : Nat} (hid : id ∈ c.flight) :
    ∃ i r, c.calls i = some ⟨r, .posted id⟩ := by
  rcases List.mem_append.mp hid with hid | hid
  · obtain ⟨r, hmem⟩ := mem_filterMap_toWorker.mp hid
    obtain ⟨i, hi⟩ := h.request id r hmem
    exact ⟨i, r, hi⟩
  · obtain ⟨o, hmem⟩ := mem_filterMap_toPage.mp hid
    obtain ⟨i, r, -, hi, -⟩ := h.answer id o hmem
    exact ⟨i, r, hi⟩

theorem flight_le (h : Wired dispatch c) {id : Nat} (hid : id ∈ c.flight) : id ≤ c.seq := by
  obtain ⟨i, r, hi⟩ := h.posted_of_flight hid
  exact h.below i _ id hi rfl

/-- A call posts its request under a new id. -/
theorem post (h : Wired dispatch c) {i : CallId} {r : α} (hi : c.calls i = some ⟨r, .waiting⟩)
    (hready : c.ready = some (.ok ())) : Wired dispatch (c.post i r) := by
  have hcalls : ∀ {j l}, (c.post i r).calls j = some l ↔
      (j ≠ i ∧ c.calls j = some l) ∨ (j = i ∧ l = ⟨r, .posted (c.seq + 1)⟩) := calls_setStage_of hi
  have hkept : ∀ {j l id}, c.calls j = some l → l.stage.id = some id → (c.post i r).calls j = some l := by
    intro j l id hl hid
    refine hcalls.mpr (.inl ⟨?_, hl⟩)
    rintro rfl
    cases hi.symm.trans hl
    cases hid
  have hold : ∀ {j l id}, (c.post i r).calls j = some l → l.stage.id = some id →
      c.calls j = some l ∧ id ≤ c.seq ∨ j = i ∧ l = ⟨r, .posted (c.seq + 1)⟩ := by
    intro j l id hl hid
    exact (hcalls.mp hl).imp_left fun hl => ⟨hl.2, h.below j l id hl.2 hid⟩
  have hflight : (c.post i r).flight.Perm ((c.seq + 1) :: c.flight) := by
    have hids : (c.toWorker ++ [ToWorker.request (c.seq + 1) r]).filterMap ToWorker.id =
        c.toWorker.filterMap ToWorker.id ++ [c.seq + 1] := by
      rw [List.filterMap_append]
      rfl
    show ((c.toWorker ++ [ToWorker.request (c.seq + 1) r]).filterMap ToWorker.id ++ c.toPage.filterMap ToPage.id).Perm _
    rw [hids, List.append_assoc]
    exact List.perm_middle
  have hnew : c.seq + 1 ∉ c.flight := fun hid => absurd (h.flight_le hid) (Nat.not_succ_le_self _)
  refine ⟨fun j hj => ?_, fun j l id hl hid => ?_, fun j j' k l id hk hl hid hid' => ?_, fun id j => ?_, ?_,
    fun j q id hl => ?_, fun id q hmem => ?_, fun id o hmem => ?_, fun j q id o hl => ?_, ⟨h.handled.1, fun q hq => ?_⟩,
    h.dropped, h.mod, fun _ _ _ _ _ => hready, fun j q e hl => ?_,
    fun hnot => ?_⟩
  · have hne : j ≠ i := by
      rintro rfl
      cases hi.symm.trans (h.fresh j hj)
    exact (Function.update_of_ne hne ..).trans (h.fresh j hj)
  · rcases hold hl hid with ⟨-, hle⟩ | ⟨-, rfl⟩
    · exact Nat.le_succ_of_le hle
    · cases hid
      exact Nat.le_refl _
  · rcases hold hk hid with ⟨hk, hle⟩ | ⟨rfl, rfl⟩ <;> rcases hold hl hid' with ⟨hl, hle'⟩ | ⟨rfl, rfl⟩
    · exact h.apart j j' k l id hk hl hid hid'
    · cases hid'
      exact absurd hle (Nat.not_succ_le_self _)
    · cases hid
      exact absurd hle' (Nat.not_succ_le_self _)
    · rfl
  · show (id, j) ∈ c.pending ++ [(c.seq + 1, i)] ↔ _
    rw [List.mem_append, List.mem_singleton, h.pending, Prod.mk.injEq]
    constructor
    · rintro (⟨q, hq⟩ | ⟨rfl, rfl⟩)
      · exact ⟨q, hkept hq rfl⟩
      · exact ⟨r, hcalls.mpr (.inr ⟨rfl, rfl⟩)⟩
    · rintro ⟨q, hq⟩
      rcases hcalls.mp hq with ⟨-, hq⟩ | ⟨rfl, heq⟩
      · exact .inl ⟨q, hq⟩
      · cases heq
        exact .inr ⟨rfl, rfl⟩
  · rw [hflight.nodup_iff, List.nodup_cons]
    exact ⟨hnew, h.distinct⟩
  · rw [hflight.mem_iff, List.mem_cons]
    rcases hcalls.mp hl with ⟨-, hl⟩ | ⟨-, heq⟩
    · exact .inr (h.flies j q id hl)
    · cases heq
      exact .inl rfl
  · rcases List.mem_append.mp hmem with hmem | hmem
    · exact (h.request id q hmem).imp fun j hj => hkept hj rfl
    · cases List.mem_singleton.mp hmem
      exact ⟨i, hcalls.mpr (.inr ⟨rfl, rfl⟩)⟩
  · obtain ⟨j, q, d, hj, hrest⟩ := h.answer id o hmem
    exact ⟨j, q, d, hkept hj rfl, hrest⟩
  · rcases hcalls.mp hl with ⟨-, hl⟩ | ⟨-, heq⟩
    · exact h.settled j q id o hl
    · cases heq
  · obtain ⟨hle, hnot⟩ := h.handled.2 q hq
    refine ⟨Nat.le_succ_of_le hle, fun hmem => ?_⟩
    obtain ⟨r', hmem⟩ := mem_filterMap_toWorker.mp hmem
    rcases List.mem_append.mp hmem with hmem | hmem
    · exact hnot (mem_filterMap_toWorker.mpr ⟨r', hmem⟩)
    · have hq' : q.1 = c.seq + 1 := (ToWorker.request.inj (List.mem_singleton.mp hmem)).1
      rw [hq'] at hle
      exact absurd hle (Nat.not_succ_le_self _)
  · rcases hcalls.mp hl with ⟨-, hl⟩ | ⟨-, heq⟩
    · exact h.failed j q e hl
    · cases heq
  · cases hready.symm.trans (h.idle hnot).1

/-- Once `readyPromise` is rejected nothing was posted, and nothing will be. -/
theorem fail (h : Wired dispatch c) {i : CallId} {e : String} (hready : c.ready = some (.error e)) :
    Wired dispatch (c.setStage i (.failed e)) := by
  have hnone : ∀ {j k id}, c.calls j = some k → k.stage.id = some id → False := fun hk hid => by
    cases hready.symm.trans (h.sent _ _ _ hk hid)
  have hnone' : ∀ {j k id}, (c.setStage i (.failed e)).calls j = some k → k.stage.id = some id → False := by
    intro j k id hk hid
    rcases calls_setStage.mp hk with ⟨-, hk⟩ | ⟨-, k, -, rfl⟩
    · exact hnone hk hid
    · cases hid
  refine { h with
    fresh := fun j hj => ?_, below := fun j k id hk hid => (hnone' hk hid).elim,
    apart := fun j j' k l id hk hl hid => (hnone' hk hid).elim, pending := fun id j => ?_,
    flies := fun j r id hk => (hnone' hk rfl).elim, request := fun id r hmem => ?_, answer := fun id o hmem => ?_,
    settled := fun j r id o hk => (hnone' hk rfl).elim, sent := fun j k id hk hid => (hnone' hk hid).elim,
    failed := fun j r e' hk => ?_ }
  · cases hj' : (c.setStage i (.failed e)).calls j with
    | none => rfl
    | some l =>
      rcases calls_setStage.mp hj' with ⟨-, hl⟩ | ⟨rfl, k, hk, -⟩
      · cases (h.fresh j hj).symm.trans hl
      · cases (h.fresh j hj).symm.trans hk
  · refine (h.pending id j).trans (iff_of_false ?_ ?_)
    · rintro ⟨r, hk⟩
      exact hnone hk rfl
    · rintro ⟨r, hk⟩
      exact hnone' hk rfl
  · obtain ⟨j, hj⟩ := h.request id r hmem
    exact (hnone hj rfl).elim
  · obtain ⟨j, r, d, hj, -⟩ := h.answer id o hmem
    exact (hnone hj rfl).elim
  · rcases calls_setStage.mp hk with ⟨-, hk⟩ | ⟨-, k, -, heq⟩
    · exact h.failed j r e' hk
    · cases heq
      exact hready

theorem settleReady (h : Wired dispatch c) {result : Except String Unit} (hmod : result = .ok () → c.mod)
    (hstarted : c.started) : Wired dispatch (c.settleReady result) := by
  cases hready : c.ready with
  | some settled =>
    have hsame : (c.ready <|> some result) = c.ready := by
      rw [hready]
      rfl
    show Wired dispatch { c with ready := c.ready <|> some result }
    rw [hsame]
    exact h
  | none =>
    have hnew : (c.settleReady result).ready = some result := by
      rw [Channel.settleReady, hready]
      rfl
    refine { h with
      mod := fun hcase => ?_, sent := fun i k id hk hid => ?_, failed := fun i r e hk => ?_,
      idle := fun hnot => absurd hstarted hnot }
    · rcases hcase with hcase | hcase
      · exact hmod (Option.some.inj (hnew.symm.trans hcase))
      · exact h.mod (.inr hcase)
    · cases hready.symm.trans (h.sent i k id hk hid)
    · cases hready.symm.trans (h.failed i r e hk)

/-- A message that answers nothing is gone. -/
theorem drop (h : Wired dispatch c) {message : ToPage ρ} {rest : List (ToPage ρ)} (hpage : c.toPage = message :: rest)
    (hid : message.id = none) : Wired dispatch { c with toPage := rest } := by
  have hflight : flight { c with toPage := rest } = c.flight := by
    rw [flight, flight, hpage, List.filterMap_cons_none hid]
  have hmem : ∀ {m}, m ∈ rest → m ∈ c.toPage := fun hm => hpage ▸ List.mem_cons_of_mem _ hm
  refine { h with
    distinct := hflight ▸ h.distinct, flies := hflight ▸ h.flies, answer := fun id o hm => h.answer id o (hmem hm),
    mod := fun hcase => h.mod (hcase.imp_right hmem), idle := fun hnot => ?_ }
  cases hpage.symm.trans (h.idle hnot).2.2.1

/-- An answer settles the call that asked. -/
theorem settle (h : Wired dispatch c) {id : Nat} {outcome : Except String ρ} {rest : List (ToPage ρ)}
    (hpage : c.toPage = .answer id outcome :: rest) :
    Wired dispatch (({ c with toPage := rest } : Channel α ρ σ).onmessage (.answer id outcome)) := by
  obtain ⟨i, r, d, hi, hhandled, houtcome⟩ := h.answer id outcome (hpage ▸ List.mem_cons_self)
  have hmem : ∀ {m}, m ∈ rest → m ∈ c.toPage := fun hm => hpage ▸ List.mem_cons_of_mem _ hm
  have hflight : c.flight.Perm (id :: (c.toWorker.filterMap ToWorker.id ++ rest.filterMap ToPage.id)) := by
    rw [flight, hpage]
    exact List.perm_middle
  have hdistinct := hflight.nodup_iff.mp h.distinct
  rw [List.nodup_cons] at hdistinct
  obtain ⟨hgone, hdistinct⟩ := hdistinct
  have hlookup : c.pending.lookup id = some i := by
    cases hlookup : c.pending.lookup id with
    | none =>
      have hnot := List.lookup_eq_none_iff.mp hlookup (id, i) ((h.pending id i).mpr ⟨r, hi⟩)
      exact absurd hnot (by simp)
    | some j =>
      obtain ⟨l₁, l₂, hsplit, -⟩ := List.lookup_eq_some_iff.mp hlookup
      obtain ⟨q, hj⟩ := (h.pending id j).mp (hsplit ▸ List.mem_append_right _ List.mem_cons_self)
      rw [h.apart j i _ _ id hj hi rfl rfl]
  have hcalls : ∀ {j l}, (c.setStage i (.settled id outcome)).calls j = some l ↔
      (j ≠ i ∧ c.calls j = some l) ∨ (j = i ∧ l = ⟨r, .settled id outcome⟩) := calls_setStage_of hi
  have hold : ∀ {j l id'}, (c.setStage i (.settled id outcome)).calls j = some l → l.stage.id = some id' →
      ∃ k, c.calls j = some k ∧ k.stage.id = some id' := by
    intro j l id' hl hid
    rcases hcalls.mp hl with ⟨-, hl⟩ | ⟨rfl, rfl⟩
    · exact ⟨l, hl, hid⟩
    · exact ⟨_, hi, hid⟩
  -- the other calls that wait for an answer are those that did
  have hposted : ∀ {j q id'}, (c.setStage i (.settled id outcome)).calls j = some ⟨q, .posted id'⟩ ↔
      id' ≠ id ∧ c.calls j = some ⟨q, .posted id'⟩ := by
    intro j q id'
    rw [hcalls]
    constructor
    · rintro (⟨hne, hj⟩ | ⟨-, heq⟩)
      · exact ⟨fun heq => hne (h.apart j i _ _ id hj hi (congrArg some heq) rfl), hj⟩
      · cases heq
    · rintro ⟨hne, hj⟩
      refine .inl ⟨?_, hj⟩
      rintro rfl
      cases hi.symm.trans hj
      exact hne rfl
  have hne : ∀ {id'}, id' ∈ c.toWorker.filterMap ToWorker.id ++ rest.filterMap ToPage.id → id' ≠ id := by
    rintro id' hid rfl
    exact hgone hid
  simp only [onmessage, hlookup]
  refine ⟨fun j hj => ?_, fun j l id' hl hid => ?_, fun j j' k l id' hk hl hid hid' => ?_, fun id' j => ?_, hdistinct,
    fun j q id' hl => ?_, fun id' q hm => ?_, fun id' o hm => ?_, fun j q id' o hl => ?_, h.handled, h.dropped,
    fun hcase => h.mod (hcase.imp_right hmem), fun j l id' hl hid => ?_, fun j q e hl => ?_, fun hnot => ?_⟩
  · have hne : j ≠ i := by
      rintro rfl
      cases hi.symm.trans (h.fresh j hj)
    exact (Function.update_of_ne hne ..).trans (h.fresh j hj)
  · obtain ⟨k, hk, hid⟩ := hold hl hid
    exact h.below j k id' hk hid
  · obtain ⟨k', hk, hid⟩ := hold hk hid
    obtain ⟨l', hl, hid'⟩ := hold hl hid'
    exact h.apart j j' k' l' id' hk hl hid hid'
  · show (id', j) ∈ c.pending.filter (·.1 ≠ id) ↔
      ∃ q, (c.setStage i (.settled id outcome)).calls j = some ⟨q, .posted id'⟩
    simp only [List.mem_filter, h.pending, hposted, decide_eq_true_eq, exists_and_left]
    exact and_comm
  · obtain ⟨hid, hj⟩ := hposted.mp hl
    exact (List.mem_cons.mp (hflight.mem_iff.mp (h.flies j q id' hj))).resolve_left hid
  · obtain ⟨j, hj⟩ := h.request id' q hm
    exact ⟨j, hposted.mpr ⟨hne (List.mem_append_left _ (mem_filterMap_toWorker.mpr ⟨q, hm⟩)), hj⟩⟩
  · obtain ⟨j, q, d', hj, hrest⟩ := h.answer id' o (hmem hm)
    exact ⟨j, q, d', hposted.mpr ⟨hne (List.mem_append_right _ (mem_filterMap_toPage.mpr ⟨o, hm⟩)), hj⟩, hrest⟩
  · rcases hcalls.mp hl with ⟨-, hl⟩ | ⟨-, heq⟩
    · exact h.settled j q id' o hl
    · cases heq
      exact ⟨d, hhandled, houtcome⟩
  · obtain ⟨k, hk, hid⟩ := hold hl hid
    exact h.sent j k id' hk hid
  · rcases hcalls.mp hl with ⟨-, hl⟩ | ⟨-, heq⟩
    · exact h.failed j q e hl
    · cases heq
  · cases hpage.symm.trans (h.idle hnot).2.2.1

/-- The worker answers a request. -/
theorem serve (h : Wired dispatch c) {message : ToWorker α} {rest : List (ToWorker α)}
    (hworker : c.toWorker = message :: rest) (drawn : σ) :
    Wired dispatch (({ c with toWorker := rest } : Channel α ρ σ).handle dispatch drawn message) := by
  have hmem : ∀ {m}, m ∈ rest → m ∈ c.toWorker := fun hm => hworker ▸ List.mem_cons_of_mem _ hm
  have hstarted : c.started := by_contra fun hnot => by cases hworker.symm.trans (h.idle hnot).2.1
  cases message with
  | init =>
    have hids : c.toWorker.filterMap ToWorker.id = rest.filterMap ToWorker.id := by
      rw [hworker]
      rfl
    have hflight : flight { c with toWorker := rest, initializing := c.initializing + 1 } = c.flight := by
      rw [flight, flight, hids]
    exact { h with
      distinct := hflight ▸ h.distinct, flies := hflight ▸ h.flies, request := fun id r hm => h.request id r (hmem hm),
      handled := ⟨h.handled.1, fun q hq => hids ▸ h.handled.2 q hq⟩, idle := fun hnot => absurd hstarted hnot }
  | request id r =>
    obtain ⟨i, hi⟩ := h.request id r (hworker ▸ List.mem_cons_self)
    have hmod : c.mod = true := h.mod (.inl (h.sent i _ id hi rfl))
    have hids : c.toWorker.filterMap ToWorker.id = id :: rest.filterMap ToWorker.id := by
      rw [hworker]
      rfl
    have hflight : c.flight.Perm (rest.filterMap ToWorker.id ++
        (c.toPage ++ [ToPage.answer id (dispatch r drawn)]).filterMap ToPage.id) := by
      rw [flight, hids, List.filterMap_append, ← List.append_assoc]
      exact (List.perm_append_singleton id _).symm
    have hdistinct := h.distinct
    rw [flight, hids] at hdistinct
    have hnot : id ∉ rest.filterMap ToWorker.id := fun hm =>
      (List.nodup_cons.mp hdistinct).1 (List.mem_append_left _ hm)
    simp only [handle, hmod, not_true_eq_false, if_false]
    refine { h with
      distinct := hflight.nodup_iff.mp h.distinct, flies := fun j q id' hj => hflight.mem_iff.mp (h.flies j q id' hj),
      request := fun id' q hm => h.request id' q (hmem hm), answer := fun id' o hm => ?_,
      settled := fun j q id' o hj => ?_, handled := ⟨?_, fun q hq => ?_⟩,
      mod := fun _ => rfl, idle := fun hnot => absurd hstarted hnot }
    · rcases List.mem_append.mp hm with hm | hm
      · obtain ⟨j, q, d, hj, hhandled, ho⟩ := h.answer id' o hm
        exact ⟨j, q, d, hj, List.mem_append_left _ hhandled, ho⟩
      · cases List.mem_singleton.mp hm
        exact ⟨i, r, drawn, hi, List.mem_append_right _ (List.mem_singleton.mpr rfl), rfl⟩
    · obtain ⟨d, hhandled, ho⟩ := h.settled j q id' o hj
      exact ⟨d, List.mem_append_left _ hhandled, ho⟩
    · rw [List.map_append, List.nodup_append]
      refine ⟨h.handled.1, List.nodup_singleton _, fun id' hid' id'' hid'' heq => ?_⟩
      obtain ⟨q, hq, rfl⟩ := List.mem_map.mp hid'
      cases List.mem_singleton.mp hid''
      exact (h.handled.2 q hq).2 (hids ▸ heq ▸ List.mem_cons_self)
    · rcases List.mem_append.mp hq with hq | hq
      · obtain ⟨hle, hnot⟩ := h.handled.2 q hq
        exact ⟨hle, fun hm => hnot (hids ▸ List.mem_cons_of_mem _ hm)⟩
      · cases List.mem_singleton.mp hq
        exact ⟨h.below i _ id hi rfl, hnot⟩

/-- The module is there, or is not to be had. -/
theorem initialized (h : Wired dispatch c) (hinit : c.initializing ≠ 0) (result : Except String Unit) :
    Wired dispatch (c.next dispatch (.initialized result)) := by
  have hstarted : c.started := by_contra fun hnot => hinit (h.idle hnot).2.2.2
  have hadd : ∀ {message : ToPage ρ} {mod : Bool}, message.id = none → (c.mod → mod) → (message = .ready → mod) →
      Wired dispatch { c with
        initializing := c.initializing - 1, mod, toPage := c.toPage ++ [message] } := by
    intro message mod hid hkeeps hnew
    have hids : (c.toPage ++ [message]).filterMap ToPage.id = c.toPage.filterMap ToPage.id := by
      rw [List.filterMap_append, List.filterMap_cons_none hid]
      exact List.append_nil _
    have hflight : flight { c with initializing := c.initializing - 1, mod, toPage := c.toPage ++ [message] } =
        c.flight := by
      rw [flight, hids]
      rfl
    refine { h with
      distinct := hflight ▸ h.distinct, flies := hflight ▸ h.flies, answer := fun id o hm => ?_, mod := fun hcase => ?_,
      idle := fun hnot => absurd hstarted hnot }
    · rcases List.mem_append.mp hm with hm | hm
      · exact h.answer id o hm
      · rw [← List.mem_singleton.mp hm] at hid
        cases hid
    · rcases hcase with hready | hmem
      · exact hkeeps (h.mod (.inl hready))
      · rcases List.mem_append.mp hmem with hmem | hmem
        · exact hkeeps (h.mod (.inr hmem))
        · exact hnew (List.mem_singleton.mp hmem).symm
  cases result with
  | ok => exact hadd rfl (fun _ => rfl) fun _ => rfl
  | error e => exact hadd rfl id fun heq => by cases heq

/-- **The step lemma.** -/
theorem next (h : Wired dispatch c) {e : Event α σ} (he : c.Enabled e) : Wired dispatch (c.next dispatch e) := by
  cases e with
  | call request =>
    have hcall := h.init.call request
    have hcalls : c.ensureWorker.calls = c.calls ∧ c.ensureWorker.made = c.made := by
      rw [ensureWorker]
      split <;> exact ⟨rfl, rfl⟩
    rw [hcalls.1, hcalls.2] at hcall
    exact hcall
  | resume i =>
    obtain ⟨hready, ⟨r, stage⟩, hk, hwaiting⟩ := he
    obtain rfl : stage = .waiting := hwaiting
    have hi : c.calls i = some ⟨r, .waiting⟩ := hk
    cases hsettled : c.ready with
    | none => exact absurd hsettled hready
    | some result =>
      cases result with
      | ok =>
        simp only [Channel.next, hsettled, hi]
        exact h.post hi hsettled
      | error e =>
        simp only [Channel.next, hsettled, hi]
        exact h.fail hsettled
  | receive drawn =>
    cases hworker : c.toWorker with
    | nil => exact absurd hworker he
    | cons message rest =>
      simp only [Channel.next, hworker]
      exact h.serve hworker drawn
  | initialized result => exact h.initialized he result
  | deliver =>
    cases hpage : c.toPage with
    | nil => exact absurd hpage he
    | cons message rest =>
      have hstarted : c.started := by_contra fun hnot => he (h.idle hnot).2.2.1
      simp only [Channel.next, hpage]
      cases message with
      | ready => exact (h.drop hpage rfl).settleReady (fun _ => h.mod (.inr (hpage ▸ List.mem_cons_self))) hstarted
      | error e => exact (h.drop hpage rfl).settleReady (fun heq => by cases heq) hstarted
      | answer id outcome => exact h.settle hpage
  | onerror message => exact h.settleReady (fun heq => by cases heq) he

end Wired
end Channel

/-! ## All runs -/

section
variable {α ρ σ : Type} {dispatch : α → σ → Except String ρ} {c : Channel α ρ σ}

theorem wired_of_reachable (hc : (channel dispatch).Reachable c) : c.Wired dispatch := by
  refine Machine.Reachable.invariant (M := channel dispatch) (I := Channel.Wired dispatch) ?_
    (fun c e _ h he => h.next he) hc
  exact ⟨fun _ _ => rfl, fun _ _ _ hk => (by cases hk), fun _ _ _ _ _ hk => (by cases hk),
    fun _ _ => iff_of_false List.not_mem_nil fun ⟨_, hk⟩ => (by cases hk), List.nodup_nil, fun _ _ _ hk => (by cases hk),
    fun _ _ hm => absurd hm List.not_mem_nil, fun _ _ hm => absurd hm List.not_mem_nil, fun _ _ _ _ hk => (by cases hk),
    ⟨List.nodup_nil, fun _ hq => absurd hq List.not_mem_nil⟩, rfl,
    fun hcase => hcase.elim (fun h => (by cases h)) fun h => absurd h List.not_mem_nil, fun _ _ _ hk => (by cases hk),
    fun _ _ _ hk => (by cases hk), fun _ => ⟨rfl, rfl, rfl, rfl⟩⟩

/-- **Every call gets its own answer.** However the calls of the page, the messages and the initialization
follow each other: no request gets to the worker before its module; a call that is settled has what `dispatch`
made of its own request, in a dispatch that was for no other call; the request or the answer of a call that
waits is under way; and when the module is not to be had every call that goes on fails with the same error. -/
theorem calls_answered (hc : (channel dispatch).Reachable c) :
    c.dropped = [] ∧
      (∀ i r id o, c.calls i = some ⟨r, .settled id o⟩ → ∃ d, (id, d) ∈ c.handled ∧ o = dispatch r d) ∧
      (c.handled.map Prod.fst).Nodup ∧
      (∀ i j k l id, c.calls i = some k → c.calls j = some l → k.stage.id = some id → l.stage.id = some id → i = j) ∧
      (∀ i r id, c.calls i = some ⟨r, .posted id⟩ →
        .request id r ∈ c.toWorker ∨ ∃ d, (id, d) ∈ c.handled ∧ .answer id (dispatch r d) ∈ c.toPage) ∧
      ∀ e, c.ready = some (.error e) → ∀ i k, c.calls i = some k → k.stage = .waiting ∨ k.stage = .failed e := by
  have h := wired_of_reachable hc
  refine ⟨h.dropped, h.settled, h.handled.1, h.apart, fun i r id hi => ?_, fun e hready i k hk => ?_⟩
  · rcases List.mem_append.mp (h.flies i r id hi) with hid | hid
    · obtain ⟨q, hmem⟩ := Channel.mem_filterMap_toWorker.mp hid
      obtain ⟨j, hj⟩ := h.request id q hmem
      obtain rfl := h.apart i j _ _ id hi hj rfl rfl
      cases hi.symm.trans hj
      exact .inl hmem
    · obtain ⟨o, hmem⟩ := Channel.mem_filterMap_toPage.mp hid
      obtain ⟨j, q, d, hj, hhandled, rfl⟩ := h.answer id o hmem
      obtain rfl := h.apart i j _ _ id hi hj rfl rfl
      cases hi.symm.trans hj
      exact .inr ⟨d, hhandled, hmem⟩
  · obtain ⟨r, stage⟩ := k
    cases stage with
    | waiting => exact .inl rfl
    | posted id => cases hready.symm.trans (h.sent i _ id hk rfl)
    | settled id o => cases hready.symm.trans (h.sent i _ id hk rfl)
    | failed e' =>
      cases hready.symm.trans (h.failed i r e' hk)
      exact .inr rfl

/-- Two calls before the worker is ready; the later one goes on first. -/
def twoCalls : List (Event Nat Nat) :=
  [.call 5, .call 7, .receive 0, .initialized (.ok ()), .deliver, .resume 1, .resume 0, .receive 10, .receive 20,
    .deliver]

theorem calls_answered_twoCalls :
    let c := (channel fun r d : Nat => (Except.ok (r + d) : Except String Nat)).exec .start twoCalls
    c.calls 1 = some ⟨7, .settled 1 (.ok 17)⟩ ∧ c.dropped = [] ∧ (c.handled.map Prod.fst).Nodup := by
  intro c
  have hallowed : (channel fun r d : Nat => (Except.ok (r + d) : Except String Nat)).Allowed .start twoCalls := by decide
  have hall := calls_answered (Machine.Reachable.init.exec hallowed)
  exact ⟨by decide, hall.1, hall.2.2.1⟩

end

end Vesper.Client.CryptoWorker
