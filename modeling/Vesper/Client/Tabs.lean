import Vesper.Client.Chains
import Vesper.Lib.Machine

/-!
# Calls in several tabs

The tabs of a browser share one key database, while the lock maps of `useE2E.ts` belong to a tab and
are cleared now and then. A call loads a value, runs the core on it and saves what comes back; calls
that wait for each other are a chain of promises. What the calls release and save is as it should be
as long as no two calls that save have the same value loaded.
-/

namespace Vesper.Client
open DoubleRatchet (keyPair)

/-! ## Calls step by step -/

/-- `drLocks`, `groupLocks` and `v3DrLocks`. -/
inductive LockMap where
  | dr | group | v3Dr
  deriving DecidableEq

section
variable {P : Primitives}

/-- The map that serialises the call, and its key there. -/
def Request.lock : Request P → LockMap × String
  | .drEncrypt myId peerId _ => (.dr, pairKey myId peerId)
  | .drDecrypt myId senderId _ => (.dr, pairKey myId senderId)
  | .drDeviceEncrypt senderDeviceId recipientDeviceId _
  | .drDeviceDecrypt senderDeviceId recipientDeviceId _ =>
    (.v3Dr, devicePairKey senderDeviceId recipientDeviceId)
  | .encryptForGroup conversationId _ | .encryptBinaryForGroup conversationId ..
  | .distributeMySenderKey conversationId => (.group, toString conversationId)

/-- Does the call load a second time, the key that it has just distributed? -/
def Request.reloads (a : Answers P) (stored : Option (Content P)) : Request P → Bool
  | .encryptBinaryForGroup _ _ memberIds => stored.isNone && memberIds ≠ [] && a.posted
  | _ => false

/-- From the first load to the save. -/
def Request.first (a : Answers P) : Request P → CriticalSection P
  | .encryptBinaryForGroup _ data memberIds => fun stored => do
    match ← loadedSender stored with
    | some sender => groupSenderEncrypt sender data
    | none => return if memberIds = [] then { saved := none, released := none } else doDistribute a
  | r => r.run a

/-- From the second load to the save. -/
def Request.second (a : Answers P) : Request P → CriticalSection P
  | .encryptBinaryForGroup _ data _ => groupSection data
  | r => r.run a

/-- With nobody in between, both parts are the whole call. -/
theorem Request.first_second (a : Answers P) (r : Request P) (stored : Option (Content P)) :
    r.run a stored = match r.first a stored with
      | .error e => .error e
      | .ok o => if r.reloads a stored then
          .ok (match r.second a o.saved with | .ok o' => o' | .error _ => o)
        else .ok o := by
  cases r with
  | encryptBinaryForGroup conversationId data memberIds =>
    simp only [Request.run, Request.first, Request.second, Request.reloads, groupBinarySection, groupSection]
    rcases stored with _ | _ | sender | _ | _
    · by_cases hmembers : memberIds = []
      · simp [loadedSender, hmembers, bind, Except.bind, pure, Except.pure]
      · by_cases hposted : a.posted = true
        · cases henc : groupSenderEncrypt (groupSenderGenerate a) data <;>
            simp [loadedSender, hmembers, hposted, doDistribute, henc, bind, Except.bind, pure, Except.pure]
        · simp [loadedSender, hmembers, hposted, bind, Except.bind, pure, Except.pure]
    · rfl
    · cases henc : groupSenderEncrypt sender data <;>
        simp [loadedSender, henc, bind, Except.bind]
    · rfl
    · rfl
  | drEncrypt | drDecrypt | drDeviceEncrypt | drDeviceDecrypt | encryptForGroup | distributeMySenderKey =>
    simp only [Request.first, Request.reloads, Bool.false_eq_true, if_false]
    cases Request.run a _ stored <;> rfl

end

/-! ## Tabs and their calls -/

/-- A call waits for its turn, has a value to save, is about to load again, or is over. -/
inductive CallPhase where
  | queued
  | computed (v : Content symbolic) (released : Option symbolic.Cipher) (version : Nat) (reloads : Bool)
  | distributed
  | ended

/-- A call in a tab. It waits for the promise of the call number `after`, if any. -/
structure TabCall where
  tab : Nat
  request : Request symbolic
  after : Option Nat
  phase : CallPhase

/-- The part of the call that begins with its next load. -/
def TabCall.part (t : TabCall) (a : Answers symbolic) : CriticalSection symbolic :=
  match t.phase with
  | .distributed => t.request.second a
  | _ => t.request.first a

def TabCall.reloads (t : TabCall) (a : Answers symbolic) (stored : Option (Content symbolic)) : Bool :=
  match t.phase with
  | .distributed => false
  | _ => t.request.reloads a stored

def TabCall.isOver (t : TabCall) : Bool := t.phase matches .ended

/-- Is there a value that the call has computed and not saved yet? -/
def TabCall.saving (t : TabCall) : Bool := t.phase matches .computed ..

/-- What clears lock maps of a tab: the reset button, `invalidatePeerSession` once the session is
deleted, `resetToNewKeys`, the effect that runs on logout, and `clearAllKeyMaterial`. -/
inductive Clearing where
  | clearDrLocks
  | invalidatePeerSession (ck : String)
  | resetToNewKeys
  | logout
  | clearAllKeyMaterial

def Clearing.clears : Clearing → LockMap × String → Bool
  | .clearDrLocks, (map, _) => map = .dr
  | .invalidatePeerSession ck, key => key = (.dr, ck)
  | .resetToNewKeys, _ | .logout, _ => true
  | .clearAllKeyMaterial, (map, _) => map = .v3Dr

/-- What deletes stored sessions and sender states, with no lock held. -/
inductive Deletion where
  | deleteRatchetSession (ck : String)
  | clearAllRatchetSessions
  | deleteGroupSender (conversationId : Nat)
  | clearAllCryptoState

def Deletion.deletes : Deletion → Slot → Bool
  | .deleteRatchetSession ck, slot => slot = (.ratchet, ck)
  | .clearAllRatchetSessions, (store, _) => store = .ratchet
  | .deleteGroupSender conversationId, slot => slot = (.groupSender, toString conversationId)
  | .clearAllCryptoState, _ => true

/-- The key database of the browser, the calls of all tabs, the promise to wait for under each key of
the lock maps, the random values drawn and what was released. Each save of a value counts as a version;
`lost` are the saves over a version that the call had not loaded. -/
structure Browser where
  db : Slot → Option (Content symbolic)
  calls : List TabCall
  locks : Nat × (LockMap × String) → Option Nat
  minted : Minted
  released : List symbolic.Cipher
  version : Slot → Nat
  lost : List Slot

/-- `load` is a load and the run of the core on it, `save` the save and the return after it; a rejected
promise ends a call. -/
inductive TabEvent where
  | call (tab : Nat) (r : Request symbolic)
  | load (i : Nat) (a : Answers symbolic)
  | save (i : Nat)
  | reject (i : Nat)
  | clear (tab : Nat) (c : Clearing)
  | delete (d : Deletion)

namespace Browser

/-- `withLock` -/
def call (s : Browser) (tab : Nat) (r : Request symbolic) : Browser :=
  { s with
    calls := s.calls ++ [{ tab, request := r, after := s.locks (tab, r.lock), phase := .queued }]
    locks := Function.update s.locks (tab, r.lock) (some s.calls.length) }

def setPhase (s : Browser) (i : Nat) (t : TabCall) (phase : CallPhase) : Browser :=
  { s with calls := s.calls.set i { t with phase } }

def load (s : Browser) (i : Nat) (t : TabCall) (a : Answers symbolic) : Browser :=
  let stored := s.db t.request.slot
  let minted := s.minted.add t.request a
  match t.part a stored with
  | .error _ => { s.setPhase i t .ended with minted }
  | .ok { saved := none, released } =>
    { s.setPhase i t .ended with minted, released := s.released ++ released.toList }
  | .ok { saved := some v, released } =>
    { s.setPhase i t (.computed v released (s.version t.request.slot) (t.reloads a stored)) with minted }

section
variable {s : Browser} {i : Nat} {t : TabCall} {a : Answers symbolic}

theorem load_error {e : Thrown} (h : t.part a (s.db t.request.slot) = .error e) :
    s.load i t a = { s.setPhase i t .ended with minted := s.minted.add t.request a } := by
  simp only [load, h]

theorem load_idle (h : t.part a (s.db t.request.slot) = .ok ⟨none, none⟩) :
    s.load i t a = { s.setPhase i t .ended with minted := s.minted.add t.request a } := by
  simp only [load, h, Option.toList_none, List.append_nil]
  rfl

theorem load_computed {v : Content symbolic} {released : Option symbolic.Cipher}
    (h : t.part a (s.db t.request.slot) = .ok ⟨some v, released⟩) :
    s.load i t a =
      { s.setPhase i t (.computed v released (s.version t.request.slot)
          (t.reloads a (s.db t.request.slot))) with minted := s.minted.add t.request a } := by
  simp only [load, h]

end

def save (s : Browser) (i : Nat) (t : TabCall) : Browser :=
  match t.phase with
  | .computed v released version reloads =>
    let slot := t.request.slot
    { s.setPhase i t (if reloads then .distributed else .ended) with
      db := Function.update s.db slot (some v)
      released := s.released ++ released.toList
      version := Function.update s.version slot (s.version slot + 1)
      lost := if version = s.version slot then s.lost else slot :: s.lost }
  | _ => s

/-- May the call load now? -/
def turn (s : Browser) (t : TabCall) : Bool :=
  match t.phase with
  | .queued => t.after.all fun j => s.calls[j]?.any TabCall.isOver
  | .distributed => true
  | .computed .. | .ended => false

end Browser

/-- Every order of the steps of any calls in any tabs. -/
def tabs : Machine Browser TabEvent where
  init :=
    { db := fun _ => none, calls := [], locks := fun _ => none, minted := ⟨[], [], []⟩, released := [],
      version := fun _ => 0, lost := [] }
  enabled s
    | .load i a => s.calls[i]?.any s.turn ∧ s.minted.Fresh a
    | .save i => s.calls[i]?.any TabCall.saving
    | .reject i => s.calls[i]?.any fun t => s.turn t || t.saving
    | .call .. | .clear .. | .delete _ => True
  next s
    | .call tab r => s.call tab r
    | .load i a => s.calls[i]?.elim s fun t => s.load i t a
    | .save i => s.calls[i]?.elim s fun t => s.save i t
    | .reject i => s.calls[i]?.elim s fun t => s.setPhase i t .ended
    | .clear tab c =>
      { s with locks := fun key => if key.1 = tab ∧ c.clears key.2 then none else s.locks key }
    | .delete d => { s with db := fun slot => if d.deletes slot then none else s.db slot }

instance : ∀ s e, Decidable (tabs.enabled s e)
  | s, .load i a => inferInstanceAs (Decidable (s.calls[i]?.any s.turn ∧ s.minted.Fresh a))
  | s, .save i => inferInstanceAs (Decidable (s.calls[i]?.any TabCall.saving = true))
  | s, .reject i => inferInstanceAs (Decidable ((s.calls[i]?.any fun t => s.turn t || t.saving) = true))
  | _, .call .. | _, .clear .. | _, .delete _ => inferInstanceAs (Decidable True)

/-- A call that goes on to save does not load a value that another call is about to save. -/
def Browser.Apart (s : Browser) : TabEvent → Prop
  | .load i a => ∀ t ∈ s.calls[i]?, ((t.part a (s.db t.request.slot)).toOption.bind (·.saved)).isSome →
      ∀ t' ∈ s.calls, t'.saving → t'.request.slot ≠ t.request.slot
  | _ => True

/-! ## What one call leaves the others -/

section
variable {R R' : ChainId → Option (symbolic.Block × Slot)} {log : List LogEntry} {slot slot' : Slot}
  {h h' : Head symbolic} {a : Answers symbolic} {m : Minted} {released : List symbolic.Cipher}
  {stored : Option (Content symbolic)} {o : Outcome symbolic}

/-- The value stands on a chain of its slot, in front of keys that were not used. -/
def Head.Unused (R : ChainId → Option (symbolic.Block × Slot)) (log : List LogEntry) (slot : Slot)
    (h : Head symbolic) : Prop :=
  ∃ n, h.At R slot n ∧ ∀ e ∈ log, e.chain = h.chain → e.n < n

theorem Head.Unused.mono (hu : h.Unused R log slot) (he : Extends R R') : h.Unused R' log slot := by
  obtain ⟨n, hat, hlt⟩ := hu
  exact ⟨n, hat.mono he, hlt⟩

/-- A key of another slot's chain does not matter. -/
theorem Head.Unused.other (hu : h.Unused R log slot) (hu' : h'.Unused R log slot') (hne : slot ≠ slot')
    (n : Nat) (p : Bytes) : h.Unused R (log ++ [⟨h'.chain, n, p⟩]) slot := by
  obtain ⟨k, hat, hlt⟩ := hu
  refine ⟨k, hat, fun e he hchain => ?_⟩
  rcases List.mem_append.mp he with he | he
  · exact hlt e he hchain
  · rw [List.mem_singleton.mp he] at hchain
    obtain ⟨b, hc, -⟩ := hat
    obtain ⟨k', hat', -⟩ := hu'
    obtain ⟨b', hc', -⟩ := hat'
    rw [← hchain, hc'] at hc
    cases hc
    exact absurd rfl hne

/-- The next key of the chain is used, for the first time. -/
theorem Head.Unused.draw (hu : h.Unused R log slot) (hbook : Book R log released)
    (hapart : log.Pairwise LogEntry.Apart) (p aad : Bytes) :
    ∃ n, Book R (log ++ [⟨h.chain, n, p⟩]) (released ++ [h.seal p aad]) ∧
      List.Pairwise LogEntry.Apart (log ++ [⟨h.chain, n, p⟩]) ∧
      h.next.Unused R (log ++ [⟨h.chain, n, p⟩]) slot := by
  obtain ⟨n, hat, hlt⟩ := hu
  refine ⟨n, hbook.append hat.seal, ?_, n + 1, hat.next, fun e he hchain => ?_⟩
  · refine List.pairwise_append.mpr ⟨hapart, List.pairwise_singleton .., ?_⟩
    intro e he e' he' hchain
    rw [List.mem_singleton.mp he'] at hchain ⊢
    exact Nat.ne_of_lt (hlt e he hchain)
  · rcases List.mem_append.mp he with he | he
    · exact Nat.lt_succ_of_lt (hlt e he hchain)
    · rw [List.mem_singleton.mp he]
      exact Nat.lt_succ_self n

theorem effect_first {r : Request symbolic} (h : r.first a stored = .ok o) :
    Effect a (r.met a) r.plaintext stored o := by
  cases r with
  | encryptBinaryForGroup conversationId data memberIds =>
    simp only [Request.first, bind_eq_ok] at h
    obtain ⟨sender, hload, hok⟩ := h
    rw [loadedSender_ok hload]
    cases sender with
    | some s => exact ⟨_, .inl rfl, moves_groupSenderEncrypt hok⟩
    | none =>
      by_cases hmembers : memberIds = []
      · simp only [hmembers, if_true, pure_eq_ok] at hok
        cases hok
        exact ⟨_, .inl rfl, .idle⟩
      · simp only [hmembers, if_false, pure_eq_ok] at hok
        cases hok
        exact Effect.doDistribute
  | drEncrypt | drDecrypt | drDeviceEncrypt | drDeviceDecrypt | encryptForGroup | distributeMySenderKey =>
    exact Request.effect h

theorem effect_second {r : Request symbolic} (h : r.second a stored = .ok o) :
    Effect a (r.met a) r.plaintext stored o := by
  cases r with
  | encryptBinaryForGroup conversationId data memberIds => exact Effect.groupSection h
  | drEncrypt | drDecrypt | drDeviceEncrypt | drDeviceDecrypt | encryptForGroup | distributeMySenderKey =>
    exact Request.effect h

theorem TabCall.effect {t : TabCall} (h : t.part a stored = .ok o) :
    Effect a (t.request.met a) t.request.plaintext stored o := by
  obtain ⟨tab, r, after, phase⟩ := t
  cases phase with
  | distributed => exact effect_second h
  | queued | computed | ended => exact effect_first h

end

/-! ## Runs -/

/-- The keys used are logged, none twice. Every value stored or about to be saved stands in front of
unused keys; what is about to be saved comes from the latest version, and from one call at most. -/
structure Browser.Kept (s : Browser) (R : ChainId → Option (symbolic.Block × Slot)) (log : List LogEntry) :
    Prop where
  registry : Registry s.minted R
  book : Book R log s.released
  apart : log.Pairwise LogEntry.Apart
  stored : ∀ slot v h, s.db slot = some v → v.head = some h → h.Unused R log slot
  computed : ∀ t ∈ s.calls, ∀ v ct version reloads, t.phase = .computed v ct version reloads →
    version = s.version t.request.slot ∧ ∃ base,
      Moves t.request.plaintext base ⟨some v, ct⟩ ∧ ∀ h, base = some h → h.Unused R log t.request.slot
  alone : ∀ (i j : Nat) (t t' : TabCall), s.calls[i]? = some t → s.calls[j]? = some t' →
    t.saving → t'.saving → t.request.slot = t'.request.slot → i = j
  lost : s.lost = []

section
variable {s : Browser} {R R' : ChainId → Option (symbolic.Block × Slot)} {log : List LogEntry} {i : Nat}
  {t : TabCall} {a : Answers symbolic}

theorem Browser.Kept.init : tabs.init.Kept (fun _ => none) [] where
  registry := .nil
  book := .nil
  apart := .nil
  stored _ _ _ hv := nomatch hv
  computed _ ht := nomatch ht
  alone _ _ _ _ ht := nomatch ht
  lost := rfl

theorem getElem?_set_cases {α : Type} {l : List α} {i j : Nat} {x y : α} (h : (l.set i x)[j]? = some y) :
    i = j ∧ y = x ∨ i ≠ j ∧ l[j]? = some y := by
  rw [List.getElem?_set] at h
  split at h
  · next heq =>
    split at h
    · exact .inl ⟨heq, (Option.some.inj h).symm⟩
    · cases h
  · next hne => exact .inr ⟨hne, h⟩

/-- A call does not go on to save. -/
theorem Browser.Kept.setPhase (hk : s.Kept R log) {x : TabCall} (hx : x.saving = false) :
    Browser.Kept { s with calls := s.calls.set i x } R log where
  registry := hk.registry
  book := hk.book
  apart := hk.apart
  stored := hk.stored
  computed t₁ ht₁ v ct version reloads hp := by
    rcases List.mem_or_eq_of_mem_set ht₁ with ht₁ | rfl
    · exact hk.computed t₁ ht₁ v ct version reloads hp
    · rw [TabCall.saving, hp] at hx
      cases hx
  alone i₁ i₂ t₁ t₂ h₁ h₂ hs₁ hs₂ hslot := by
    rcases getElem?_set_cases h₁ with ⟨-, rfl⟩ | ⟨-, h₁⟩
    · exact absurd (hx.symm.trans hs₁) nofun
    rcases getElem?_set_cases h₂ with ⟨-, rfl⟩ | ⟨-, h₂⟩
    · exact absurd (hx.symm.trans hs₂) nofun
    exact hk.alone i₁ i₂ t₁ t₂ h₁ h₂ hs₁ hs₂ hslot
  lost := hk.lost

theorem Browser.Kept.call (hk : s.Kept R log) (tab : Nat) (r : Request symbolic) :
    (s.call tab r).Kept R log where
  registry := hk.registry
  book := hk.book
  apart := hk.apart
  stored := hk.stored
  computed t ht v ct version reloads hp := by
    rcases List.mem_append.mp ht with ht | ht
    · exact hk.computed t ht v ct version reloads hp
    · cases List.mem_singleton.mp ht
      cases hp
  alone i₁ i₂ t₁ t₂ h₁ h₂ hs₁ hs₂ hslot := by
    rcases getElem?_append_singleton.mp h₁ with h₁ | ⟨-, rfl⟩
    · rcases getElem?_append_singleton.mp h₂ with h₂ | ⟨-, rfl⟩
      · exact hk.alone i₁ i₂ t₁ t₂ h₁ h₂ hs₁ hs₂ hslot
      · cases hs₂
    · cases hs₁
  lost := hk.lost

/-- Random values are drawn; the chain from which the call goes on is registered. -/
theorem Browser.Kept.prepare (hk : s.Kept R log) (hf : s.minted.Fresh a) {r : Request symbolic}
    {base : Option (Head symbolic)} (hbase : Base a (r.met a) ((s.db r.slot).bind Content.head) base) :
    ∃ R', Browser.Kept { s with minted := s.minted.add r a } R' log ∧
      ∀ h, base = some h → h.Unused R' log r.slot := by
  have hmint : ∀ {R'}, Registry (s.minted.add r a) R' → Extends R R' →
      Browser.Kept { s with minted := s.minted.add r a } R' log := fun hR' he =>
    { registry := hR'
      book := hk.book.mono he
      apart := hk.apart
      stored := fun slot v h hv hh => (hk.stored slot v h hv hh).mono he
      computed := fun t ht v ct version reloads hp => by
        obtain ⟨hversion, base, hmoves, hunused⟩ := hk.computed t ht v ct version reloads hp
        exact ⟨hversion, base, hmoves, fun h hh => (hunused h hh).mono he⟩
      alone := hk.alone
      lost := hk.lost }
  rcases hbase with rfl | rfl | ⟨base, hstart, rfl⟩
  · refine ⟨R, hmint hk.registry.add .refl, fun h hh => ?_⟩
    obtain ⟨v, hv, hhead⟩ := Option.bind_eq_some_iff.mp hh
    exact hk.stored r.slot v h hv hhead
  · exact ⟨R, hmint hk.registry.add .refl, fun _ hh => nomatch hh⟩
  · obtain ⟨hnone, hR'⟩ := hk.registry.start hf hstart r.slot
    refine ⟨_, hmint hR' (extends_update hnone _), fun h hh => ?_⟩
    cases hh
    refine ⟨0, hstart.at (Function.update_self ..), fun e he hchain => ?_⟩
    exact absurd hnone (hchain ▸ hk.book.registered he)

/-- A value to save is computed while no other call has one for its slot. -/
theorem Browser.Kept.compute (hk : s.Kept R log) {x : TabCall} {v : Content symbolic}
    {ct : Option symbolic.Cipher} {reloads : Bool} {base : Option (Head symbolic)}
    (hx : x.phase = .computed v ct (s.version x.request.slot) reloads)
    (hmoves : Moves x.request.plaintext base ⟨some v, ct⟩)
    (hunused : ∀ h, base = some h → h.Unused R log x.request.slot)
    (hapart : ∀ t ∈ s.calls, t.saving → t.request.slot ≠ x.request.slot) :
    Browser.Kept { s with calls := s.calls.set i x } R log where
  registry := hk.registry
  book := hk.book
  apart := hk.apart
  stored := hk.stored
  computed t₁ ht₁ v₁ ct₁ version₁ reloads₁ hp := by
    rcases List.mem_or_eq_of_mem_set ht₁ with ht₁ | rfl
    · exact hk.computed t₁ ht₁ v₁ ct₁ version₁ reloads₁ hp
    · rw [hx] at hp
      cases hp
      exact ⟨rfl, base, hmoves, hunused⟩
  alone i₁ i₂ t₁ t₂ h₁ h₂ hs₁ hs₂ hslot := by
    rcases getElem?_set_cases h₁ with ⟨hi₁, rfl⟩ | ⟨-, hold₁⟩ <;>
      rcases getElem?_set_cases h₂ with ⟨hi₂, rfl⟩ | ⟨-, hold₂⟩
    · exact hi₁.symm.trans hi₂
    · exact absurd hslot.symm (hapart t₂ (List.mem_of_getElem? hold₂) hs₂)
    · exact absurd hslot (hapart t₁ (List.mem_of_getElem? hold₁) hs₁)
    · exact hk.alone i₁ i₂ t₁ t₂ hold₁ hold₂ hs₁ hs₂ hslot
  lost := hk.lost

theorem Browser.Kept.load (hk : s.Kept R log) (ht : s.calls[i]? = some t) (hf : s.minted.Fresh a)
    (hapart : s.Apart (.load i a)) : ∃ R', (s.load i t a).Kept R' log := by
  have hover : TabCall.saving { t with phase := .ended } = false := rfl
  have hthrown : ∃ R', Browser.Kept { s.setPhase i t .ended with minted := s.minted.add t.request a } R' log := by
    obtain ⟨R', hk', -⟩ := hk.prepare (r := t.request) hf (.inr (.inl rfl))
    exact ⟨R', hk'.setPhase hover⟩
  cases hpart : t.part a (s.db t.request.slot) with
  | error e =>
    rw [Browser.load_error hpart]
    exact hthrown
  | ok o =>
    obtain ⟨base, hbase, hmoves⟩ := TabCall.effect hpart
    obtain ⟨R', hk', hunused⟩ := hk.prepare hf hbase
    obtain ⟨saved, released⟩ := o
    cases saved with
    | none =>
      cases hmoves
      rw [Browser.load_idle hpart]
      exact hthrown
    | some v =>
      rw [Browser.load_computed hpart]
      refine ⟨R', hk'.compute (x := { t with phase := _ }) rfl hmoves hunused ?_⟩
      exact hapart t ht (by rw [hpart]; rfl)

/-- The others have nothing to save for the slot. -/
theorem Browser.Kept.others (hk : s.Kept R log) (ht : s.calls[i]? = some t) (hs : t.saving)
    {x t₁ : TabCall} (hx : x.saving = false) (h₁ : t₁ ∈ s.calls.set i x) (hs₁ : t₁.saving) :
    t₁ ∈ s.calls ∧ t₁.request.slot ≠ t.request.slot := by
  obtain ⟨j, hj⟩ := List.mem_iff_getElem?.mp h₁
  rcases getElem?_set_cases hj with ⟨-, rfl⟩ | ⟨hne, hj⟩
  · exact absurd (hx.symm.trans hs₁) nofun
  · exact ⟨List.mem_of_getElem? hj, fun hslot => hne (hk.alone i j t t₁ ht hj hs hs₁ hslot.symm)⟩

/-- A value is put in its slot, where nobody else has one to put. -/
theorem Browser.Kept.put (hk : s.Kept R log) (ht : s.calls[i]? = some t) (hs : t.saving) {x : TabCall}
    (hx : x.saving = false) {v : Content symbolic} {c : Option symbolic.Cipher} {log' : List LogEntry}
    (hbook : Book R log' (s.released ++ c.toList)) (hapart : log'.Pairwise LogEntry.Apart)
    (hother : ∀ slot (h : Head symbolic), slot ≠ t.request.slot → h.Unused R log slot →
      h.Unused R log' slot)
    (hv : ∀ h, v.head = some h → h.Unused R log' t.request.slot) :
    Browser.Kept
      { s with
        calls := s.calls.set i x
        db := Function.update s.db t.request.slot (some v)
        released := s.released ++ c.toList
        version := Function.update s.version t.request.slot (s.version t.request.slot + 1) } R log' where
  registry := hk.registry
  book := hbook
  apart := hapart
  stored slot v₁ h₁ hv₁ hh₁ := by
    dsimp only at hv₁
    rw [Function.update_apply] at hv₁
    split at hv₁
    · next heq =>
      cases hv₁
      exact heq ▸ hv h₁ hh₁
    · next hne => exact hother slot h₁ hne (hk.stored slot v₁ h₁ hv₁ hh₁)
  computed t₁ ht₁ v₁ ct₁ version₁ reloads₁ hp := by
    obtain ⟨ht₁, hne⟩ := hk.others ht hs hx ht₁ (by rw [TabCall.saving, hp])
    obtain ⟨hversion, base, hmoves, hunused⟩ := hk.computed t₁ ht₁ v₁ ct₁ version₁ reloads₁ hp
    refine ⟨?_, base, hmoves, fun h hh => hother _ h hne (hunused h hh)⟩
    dsimp only
    rw [Function.update_of_ne hne]
    exact hversion
  alone := (hk.setPhase hx).alone
  lost := hk.lost

theorem Browser.Kept.save (hk : s.Kept R log) (ht : s.calls[i]? = some t) :
    ∃ log', (s.save i t).Kept R log' := by
  unfold Browser.save
  split
  · next v c version reloads hp =>
    have hs : t.saving := by rw [TabCall.saving, hp]
    have hx : TabCall.saving { t with phase := if reloads then .distributed else .ended } = false := by
      cases reloads <;> rfl
    obtain ⟨rfl, base, hmoves, hunused⟩ :=
      hk.computed t (List.mem_of_getElem? ht) v c version reloads hp
    dsimp only
    rw [if_pos rfl]
    cases hmoves with
    | rest hv =>
      refine ⟨log, hk.put (c := none) ht hs hx ?_ hk.apart (fun _ _ _ => id) fun h hh => ?_⟩
      · simpa using hk.book
      · exact hunused h (hv.symm.trans hh)
    | @draw v h p aad hh hplain hv =>
      obtain ⟨n, hbook, hapart, hnext⟩ := (hunused h hh).draw hk.book hk.apart p aad
      refine ⟨_, hk.put (c := some _) ht hs hx hbook hapart (fun slot h' hne hu => ?_) fun h' hh' => ?_⟩
      · exact hu.other (hunused h hh) hne n p
      · rw [hv] at hh'
        cases hh'
        exact hnext
  · exact ⟨log, hk⟩

/-- In a run in which calls keep apart, everything stays in order. -/
theorem tabs_kept (hs : (tabs.restrict Browser.Apart).Reachable s) : ∃ R log, s.Kept R log := by
  refine Machine.Reachable.invariant (I := fun s => ∃ R log, s.Kept R log) ⟨_, _, .init⟩ ?_ hs
  rintro s e - ⟨R, log, hk⟩ ⟨hen, hapart⟩
  cases e with
  | call tab r => exact ⟨R, log, hk.call tab r⟩
  | load i a =>
    show ∃ R log, (s.calls[i]?.elim s fun t => s.load i t a).Kept R log
    cases ht : s.calls[i]? with
    | none => exact ⟨R, log, hk⟩
    | some t =>
      obtain ⟨R', hk'⟩ := hk.load ht hen.2 hapart
      exact ⟨R', log, hk'⟩
  | save i =>
    show ∃ R log, (s.calls[i]?.elim s fun t => s.save i t).Kept R log
    cases ht : s.calls[i]? with
    | none => exact ⟨R, log, hk⟩
    | some t => exact ⟨R, hk.save ht⟩
  | reject i =>
    show ∃ R log, (s.calls[i]?.elim s fun t => s.setPhase i t .ended).Kept R log
    cases s.calls[i]? with
    | none => exact ⟨R, log, hk⟩
    | some t => exact ⟨R, log, hk.setPhase rfl⟩
  | clear tab c => exact ⟨R, log, { hk with }⟩
  | delete d =>
    refine ⟨R, log, { hk with stored := fun slot v h hv hh => ?_ }⟩
    change (if d.deletes slot then none else s.db slot) = some v at hv
    split at hv
    · cases hv
    · exact hk.stored slot v h hv hh

end

/-- **Exclusive use**: in a run in which no call that goes on to save loads a value that another call is
about to save, no key and nonce serve twice, and no save goes over one that the call has not loaded. -/
theorem key_use_exclusive {s : Browser} (hs : (tabs.restrict Browser.Apart).Reachable s) :
    KeysOnce s.released ∧ s.lost = [] := by
  obtain ⟨R, log, hk⟩ := tabs_kept hs
  exact ⟨(hk.book.keysOnce_iff hk.registry).mpr hk.apart, hk.lost⟩

/-- A tab distributes a sender key to a group and sends a file. -/
def keyDistributed : List TabEvent :=
  [.call 0 (.encryptBinaryForGroup 7 [1] [2]), .load 0 (answersOf 11), .save 0, .load 0 (answersOf 12),
    .save 0]

/-- Another tab sends to the group once the first one has. -/
def inTurn : List TabEvent :=
  keyDistributed ++ [.call 0 (.encryptForGroup 7 [2]), .load 1 (answersOf 13), .save 1,
    .call 1 (.encryptForGroup 7 [3]), .load 2 (answersOf 14), .save 2]

/-- The lock maps are cleared while a call has the sender state loaded. -/
def clearedUnderWay : List TabEvent :=
  keyDistributed ++ [.call 0 (.encryptForGroup 7 [2]), .load 1 (answersOf 13), .clear 0 .resetToNewKeys,
    .call 0 (.encryptForGroup 7 [3]), .load 2 (answersOf 14), .save 1, .save 2]

instance (s : Browser) : ∀ e, Decidable (s.Apart e)
  | .load i a => inferInstanceAs (Decidable (∀ t ∈ s.calls[i]?,
      ((t.part a (s.db t.request.slot)).toOption.bind (·.saved)).isSome →
        ∀ t' ∈ s.calls, t'.saving → t'.request.slot ≠ t.request.slot))
  | .call .. | .save _ | .reject _ | .clear .. | .delete _ => inferInstanceAs (Decidable True)

theorem key_use_exclusive_in_turn :
    KeysOnce ((tabs.restrict Browser.Apart).exec tabs.init inTurn).released ∧
      ((tabs.restrict Browser.Apart).exec tabs.init inTurn).lost = [] :=
  key_use_exclusive (Machine.Reachable.init.exec (by decide))

/-- Both calls seal with the same key, and the second save goes over the first. -/
theorem cleared_lock_shares_key : tabs.Allowed tabs.init clearedUnderWay ∧
    ¬ KeysUnique (tabs.exec tabs.init clearedUnderWay).released ∧
    (tabs.exec tabs.init clearedUnderWay).lost ≠ [] := by
  refine ⟨by decide, by decide, by decide⟩

/-! ## What the locks are for -/

theorem d_notMem_pairKey (m n : Nat) : 'd' ∉ (pairKey m n).toList := by
  have hdigits : ∀ k : Nat, 'd' ∉ Nat.toDigits 10 k := fun k hk =>
    absurd (Nat.isDigit_of_mem_toDigits (by decide) (by decide) hk) (by decide)
  unfold pairKey
  split <;> simp [hdigits]

theorem devicePairKey_ne_pairKey (m n m' n' : Nat) : devicePairKey m n ≠ pairKey m' n' := by
  intro h
  refine d_notMem_pairKey m' n' ?_
  rw [← h]
  simp [devicePairKey]

/-- Calls on one value wait under one key. -/
theorem Request.lock_eq {P : Primitives} {r r' : Request P} (h : r.slot = r'.slot) : r.lock = r'.lock := by
  have hne : ∀ m n m' n', pairKey m n ≠ devicePairKey m' n' :=
    fun m n m' n' => (devicePairKey_ne_pairKey m' n' m n).symm
  cases r <;> cases r' <;> simp_all [Request.slot, Request.lock, devicePairKey_ne_pairKey]

/-- All calls come from one tab, and a lock is only cleared when none of its calls is left. -/
def Browser.OneTab (s : Browser) (tab : Nat) : TabEvent → Prop
  | .call tab' _ => tab' = tab
  | .clear tab' c => tab' = tab ∧ ∀ t ∈ s.calls, c.clears t.request.lock → t.isOver
  | .load .. | .save _ | .reject _ | .delete _ => True

/-- The calls of a lock that came before are over. -/
def Browser.Settled (s : Browser) (i : Nat) (lock : LockMap × String) : Prop :=
  ∀ k < i, ∀ t, s.calls[k]? = some t → t.request.lock = lock → t.isOver

/-- The latest call of a lock has number `j`. -/
def Browser.Latest (s : Browser) (i : Nat) (lock : LockMap × String) (j : Nat) : Prop :=
  j < i ∧ (∃ t, s.calls[j]? = some t ∧ t.request.lock = lock) ∧
    ∀ k < i, ∀ t, s.calls[k]? = some t → t.request.lock = lock → k ≤ j

/-- What a call waits for: nothing, with the others over, or the latest of the others. -/
def Browser.Awaits (s : Browser) (i : Nat) (lock : LockMap × String) : Option Nat → Prop
  | none => s.Settled i lock
  | some j => s.Latest i lock j

def TabCall.waiting (t : TabCall) : Bool := t.phase matches .queued

/-- Each call waits for the one before it under its lock, and has begun only if all before it are over. -/
structure Browser.Queued (s : Browser) (tab : Nat) : Prop where
  locks : ∀ lock, s.Awaits s.calls.length lock (s.locks (tab, lock))
  awaits : ∀ (i : Nat) t, s.calls[i]? = some t → s.Awaits i t.request.lock t.after
  begun : ∀ (i : Nat) t, s.calls[i]? = some t → t.waiting = false → s.Settled i t.request.lock

section
variable {s : Browser} {i j : Nat} {t x : TabCall} {lock : LockMap × String} {tab : Nat} {o : Option Nat}

theorem Browser.Settled.set (h : s.Settled j lock) (ht : s.calls[i]? = some t)
    (hrequest : x.request = t.request) (hover : t.isOver → x.isOver) :
    Browser.Settled { s with calls := s.calls.set i x } j lock := by
  intro k hk t' ht' hlock
  rcases getElem?_set_cases ht' with ⟨rfl, rfl⟩ | ⟨-, ht'⟩
  · exact hover (h i hk t ht (hrequest ▸ hlock))
  · exact h k hk t' ht' hlock

theorem Browser.Awaits.set (h : s.Awaits j lock o) (ht : s.calls[i]? = some t)
    (hrequest : x.request = t.request) (hover : t.isOver → x.isOver) :
    Browser.Awaits { s with calls := s.calls.set i x } j lock o := by
  cases o with
  | none => exact Browser.Settled.set h ht hrequest hover
  | some m =>
    obtain ⟨hlt, ⟨t₁, ht₁, hlock₁⟩, hlatest⟩ := h
    refine ⟨hlt, ?_, fun k hk t' ht' hlock => ?_⟩
    · by_cases him : i = m
      · subst him
        obtain rfl := Option.some.inj (ht.symm.trans ht₁)
        exact ⟨x, List.getElem?_set_self (List.getElem?_eq_some_iff.mp ht).1, hrequest ▸ hlock₁⟩
      · exact ⟨t₁, (List.getElem?_set_ne him).trans ht₁, hlock₁⟩
    · rcases getElem?_set_cases ht' with ⟨rfl, rfl⟩ | ⟨-, ht'⟩
      · exact hlatest i hk t ht (hrequest ▸ hlock)
      · exact hlatest k hk t' ht' hlock

/-- A call goes on, which has begun or now may. -/
theorem Browser.Queued.set (hq : s.Queued tab) (ht : s.calls[i]? = some t)
    (hrequest : x.request = t.request) (hafter : x.after = t.after) (hover : t.isOver → x.isOver)
    (hsettled : s.Settled i t.request.lock) :
    Browser.Queued { s with calls := s.calls.set i x } tab where
  locks lock := by
    simp only [List.length_set]
    exact (hq.locks lock).set ht hrequest hover
  awaits j t' ht' := by
    rcases getElem?_set_cases ht' with ⟨rfl, rfl⟩ | ⟨-, ht'⟩
    · rw [hrequest, hafter]
      exact (hq.awaits i t ht).set ht hrequest hover
    · exact (hq.awaits j t' ht').set ht hrequest hover
  begun j t' ht' hwaiting := by
    rcases getElem?_set_cases ht' with ⟨rfl, rfl⟩ | ⟨-, ht'⟩
    · rw [hrequest]
      exact hsettled.set ht hrequest hover
    · exact (hq.begun j t' ht' hwaiting).set ht hrequest hover

/-- When it is a call's turn, those before it are over. -/
theorem Browser.Queued.settled (hq : s.Queued tab) (ht : s.calls[i]? = some t) (hturn : s.turn t) :
    s.Settled i t.request.lock := by
  by_cases hwaiting : t.waiting = false
  · exact hq.begun i t ht hwaiting
  obtain ⟨tab', r, after, phase⟩ := t
  cases phase with
  | computed | distributed | ended => exact absurd rfl hwaiting
  | queued =>
    have hawaits := hq.awaits i _ ht
    cases after with
    | none => exact hawaits
    | some j =>
      obtain ⟨hlt, ⟨t₁, ht₁, hlock₁⟩, hlatest⟩ := hawaits
      have hover : t₁.isOver := by simpa [Browser.turn, ht₁] using hturn
      have hbegun : t₁.waiting = false := by
        cases hp : t₁.phase <;> simp [TabCall.isOver, TabCall.waiting, hp] at hover ⊢
      intro k hk t' ht' hlock
      rcases Nat.lt_or_eq_of_le (hlatest k hk t' ht' hlock) with hkj | rfl
      · exact hq.begun j t₁ ht₁ hbegun k hkj t' ht' (hlock.trans hlock₁.symm)
      · obtain rfl := Option.some.inj (ht₁.symm.trans ht')
        exact hover

/-- A call that may load is the only one of its lock that is under way. -/
theorem Browser.Queued.apart (hq : s.Queued tab) {e : TabEvent} (hen : tabs.enabled s e) : s.Apart e := by
  cases e with
  | load i a =>
    intro t ht _ t' ht' hsaving hslot
    have hlock := Request.lock_eq hslot
    obtain ⟨hturn, -⟩ := hen
    rw [ht] at hturn
    obtain ⟨j, hj⟩ := List.mem_iff_getElem?.mp ht'
    have hnot : t'.isOver ≠ true ∧ t'.waiting = false := by
      cases hp : t'.phase <;> simp [TabCall.saving, TabCall.isOver, TabCall.waiting, hp] at hsaving ⊢
    rcases Nat.lt_trichotomy j i with hlt | rfl | hgt
    · exact hnot.1 (hq.settled ht hturn j hlt t' hj hlock)
    · obtain rfl := Option.some.inj (ht.symm.trans hj)
      cases hp : t.phase <;> simp [Browser.turn, TabCall.saving, hp] at hturn hsaving
    · have hover := hq.begun j t' hj hnot.2 i hgt t ht hlock.symm
      cases hp : t.phase <;> simp [Browser.turn, TabCall.isOver, hp] at hturn hover
  | call | save | reject | clear | delete => trivial

theorem Browser.Awaits.append {l : List TabCall} (h : s.Awaits i lock o) (hi : i ≤ s.calls.length) :
    Browser.Awaits { s with calls := s.calls ++ l } i lock o := by
  have hold : ∀ {k}, k < i → (s.calls ++ l)[k]? = s.calls[k]? :=
    fun hk => List.getElem?_append_left (Nat.lt_of_lt_of_le hk hi)
  cases o with
  | none => exact fun k hk t ht hlock => h k hk t ((hold hk).symm.trans ht) hlock
  | some m =>
    obtain ⟨hlt, ⟨t₁, ht₁, hlock₁⟩, hlatest⟩ := h
    exact ⟨hlt, ⟨t₁, (hold hlt).trans ht₁, hlock₁⟩,
      fun k hk t ht hlock => hlatest k hk t ((hold hk).symm.trans ht) hlock⟩

/-- A call that is made later under another lock does not matter. -/
theorem Browser.Awaits.succ (h : s.Awaits i lock o) (ht : s.calls[i]? = some t)
    (hne : t.request.lock ≠ lock) : s.Awaits (i + 1) lock o := by
  have hold : ∀ k < i + 1, ∀ t', s.calls[k]? = some t' → t'.request.lock = lock → k < i := by
    intro k hk t' ht' hlock
    refine Nat.lt_of_le_of_ne (Nat.le_of_lt_succ hk) ?_
    rintro rfl
    obtain rfl := Option.some.inj (ht.symm.trans ht')
    exact hne hlock
  cases o with
  | none => exact fun k hk t' ht' hlock => h k (hold k hk t' ht' hlock) t' ht' hlock
  | some m =>
    obtain ⟨hlt, hex, hlatest⟩ := h
    exact ⟨Nat.lt_succ_of_lt hlt, hex,
      fun k hk t' ht' hlock => hlatest k (hold k hk t' ht' hlock) t' ht' hlock⟩

theorem Browser.Queued.call (hq : s.Queued tab) (r : Request symbolic) : (s.call tab r).Queued tab where
  locks lock := by
    have hnew : (s.call tab r).calls[s.calls.length]? =
        some ⟨tab, r, s.locks (tab, r.lock), .queued⟩ := List.getElem?_concat_length
    simp only [Browser.call, List.length_append, List.length_singleton]
    by_cases hlock : lock = r.lock
    · subst hlock
      rw [Function.update_self]
      exact ⟨Nat.lt_succ_self _, ⟨_, hnew, rfl⟩, fun k hk _ _ _ => Nat.le_of_lt_succ hk⟩
    · rw [Function.update_of_ne fun h => hlock (Prod.mk.inj h).2]
      exact ((hq.locks lock).append (Nat.le_refl _)).succ hnew (Ne.symm hlock)
  awaits i t ht := by
    rcases getElem?_append_singleton.mp ht with ht | ⟨rfl, rfl⟩
    · exact (hq.awaits i t ht).append (Nat.le_of_lt (List.getElem?_eq_some_iff.mp ht).1)
    · exact (hq.locks r.lock).append (Nat.le_refl _)
  begun i t ht hwaiting := by
    rcases getElem?_append_singleton.mp ht with ht | ⟨rfl, rfl⟩
    · have hsettled := hq.begun i t ht hwaiting
      exact Browser.Awaits.append (o := none) hsettled (Nat.le_of_lt (List.getElem?_eq_some_iff.mp ht).1)
    · cases hwaiting

theorem Browser.Queued.of_calls (hq : s.Queued tab) {s' : Browser} (hcalls : s'.calls = s.calls)
    (hlocks : s'.locks = s.locks) : s'.Queued tab := by
  have hawaits : ∀ i lock o, s'.Awaits i lock o ↔ s.Awaits i lock o := by
    intro i lock o
    cases o <;> simp only [Browser.Awaits, Browser.Settled, Browser.Latest, hcalls]
  constructor
  · intro lock
    rw [hawaits, hcalls, hlocks]
    exact hq.locks lock
  · intro i t ht
    rw [hawaits]
    exact hq.awaits i t (hcalls ▸ ht)
  · intro i t ht hwaiting
    exact (hawaits i t.request.lock none).mpr (hq.begun i t (hcalls ▸ ht) hwaiting)

theorem Browser.load_calls (s : Browser) (i : Nat) (t : TabCall) (a : Answers symbolic) :
    ∃ phase, (s.load i t a).calls = s.calls.set i { t with phase } ∧ (s.load i t a).locks = s.locks := by
  unfold Browser.load
  dsimp only
  split <;> exact ⟨_, rfl, rfl⟩

theorem Browser.save_calls (s : Browser) (i : Nat) (hs : t.saving) :
    ∃ phase, (s.save i t).calls = s.calls.set i { t with phase } ∧ (s.save i t).locks = s.locks := by
  obtain ⟨tab, r, after, phase⟩ := t
  cases phase with
  | computed => exact ⟨_, rfl, rfl⟩
  | queued | distributed | ended => cases hs

theorem Browser.Queued.step (hq : s.Queued tab) {e : TabEvent} (hen : tabs.enabled s e)
    (hone : s.OneTab tab e) : (tabs.next s e).Queued tab := by
  have hnotOver : ∀ {t}, s.turn t ∨ t.saving → t.isOver → False := by
    intro t hrun hover
    cases hp : t.phase <;> simp [Browser.turn, TabCall.saving, TabCall.isOver, hp] at hrun hover
  have hsettled : ∀ {i : Nat} {t}, s.calls[i]? = some t → s.turn t ∨ t.saving → s.Settled i t.request.lock := by
    rintro i t ht (hturn | hsaving)
    · exact hq.settled ht hturn
    · refine hq.begun i t ht ?_
      cases hp : t.phase <;> simp [TabCall.saving, TabCall.waiting, hp] at hsaving ⊢
  cases e with
  | call tab' r =>
    obtain rfl := hone
    exact hq.call r
  | load i a =>
    obtain ⟨hturn, -⟩ := hen
    show (s.calls[i]?.elim s fun t => s.load i t a).Queued tab
    cases ht : s.calls[i]? with
    | none => exact hq
    | some t =>
      rw [ht] at hturn
      obtain ⟨phase, hcalls, hlocks⟩ := s.load_calls i t a
      refine (hq.set (x := { t with phase }) ht rfl rfl ?_ (hsettled ht (.inl hturn))).of_calls hcalls hlocks
      exact fun hover => (hnotOver (.inl hturn) hover).elim
  | save i =>
    replace hen : s.calls[i]?.any TabCall.saving := hen
    show (s.calls[i]?.elim s fun t => s.save i t).Queued tab
    cases ht : s.calls[i]? with
    | none => exact hq
    | some t =>
      rw [ht] at hen
      obtain ⟨phase, hcalls, hlocks⟩ := s.save_calls i hen
      refine (hq.set (x := { t with phase }) ht rfl rfl ?_ (hsettled ht (.inr hen))).of_calls hcalls hlocks
      exact fun hover => (hnotOver (.inr hen) hover).elim
  | reject i =>
    replace hen : s.calls[i]?.any fun t => s.turn t || t.saving := hen
    show (s.calls[i]?.elim s fun t => s.setPhase i t .ended).Queued tab
    cases ht : s.calls[i]? with
    | none => exact hq
    | some t =>
      rw [ht] at hen
      have hrun : s.turn t ∨ t.saving := Bool.or_eq_true_iff.mp hen
      exact hq.set ht rfl rfl (fun _ => rfl) (hsettled ht hrun)
  | clear tab' c =>
    obtain ⟨rfl, hidle⟩ := hone
    refine ⟨fun lock => ?_, hq.awaits, hq.begun⟩
    show s.Awaits _ lock (if tab' = tab' ∧ c.clears lock then none else s.locks (tab', lock))
    split
    · next hclears =>
      intro k _ t ht hlock
      exact hidle t (List.mem_of_getElem? ht) (hlock ▸ hclears.2)
    · exact hq.locks lock
  | delete d => exact hq.of_calls rfl rfl

theorem one_tab_queued (hs : (tabs.restrict fun s => s.OneTab tab).Reachable s) : s.Queued tab := by
  refine Machine.Reachable.invariant (I := fun s => s.Queued tab) ?_ ?_ hs
  · exact ⟨fun _ k hk => absurd hk (Nat.not_lt_zero k), fun _ _ ht => (nomatch ht),
      fun _ _ ht => (nomatch ht)⟩
  · rintro s e - hq ⟨hen, hone⟩
    exact hq.step hen hone

/-- **The locks keep calls apart** in a single tab, if its lock maps are only cleared when none of their
calls is left. -/
theorem one_tab_exclusive (hs : (tabs.restrict fun s => s.OneTab tab).Reachable s) :
    (tabs.restrict Browser.Apart).Reachable s := by
  induction hs with
  | init => exact .init
  | step hs he ih => exact ih.step ⟨he.1, (one_tab_queued hs).apart he.1⟩

end

end Vesper.Client
