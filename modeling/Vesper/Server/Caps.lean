import Vesper.Auth.Sessions
import Vesper.Lib.CappedTables
import Vesper.Lib.Interleaving
import Vesper.Server.DirectChats

/-!
# Caps on devices, sessions and pins

`register`, `issueTokens` and `addPinnedMessage` count rows, and create one in a later access to the
database if the count leaves room. Whether there still is room by then is not asked again.
-/

/-! ## Devices -/

namespace Vesper.Server

def MAX_DEVICES : Nat := 5

structure RegisteredDevice where
  id : DeviceId
  userId : UserId
  bundle : Text
  deviceName : Option Text
  createdAt : Time
  lastSeenAt : Time
  deriving DecidableEq, Repr

/-- What a call of `register` returned. -/
structure Registration where
  userId : UserId
  bundle : Text
  deviceId : DeviceId
  deriving DecidableEq, Repr

structure DeviceStore where
  devices : List RegisteredDevice
  nextDeviceId : DeviceId
  returned : List Registration
  deriving DecidableEq, Repr

inductive DeviceRequest
  | register (now : Time) (userId : UserId) (bundle : Text) (deviceName : Option Text)
  | remove (userId : UserId) (deviceId : DeviceId)
  | touch (now : Time) (deviceId : DeviceId)
  deriving DecidableEq, Repr

/-- A handler before its next access to the database. -/
inductive DeviceTask
  /-- The handler throws. -/
  | refused
  | findExisting (now : Time) (userId : UserId) (bundle : Text) (deviceName : Option Text)
  | seeAgain (now : Time) (id : DeviceId) (userId : UserId) (bundle : Text)
  | count (now : Time) (userId : UserId) (bundle : Text) (deviceName : Option Text)
  | create (now : Time) (userId : UserId) (bundle : Text) (deviceName : Option Text)
  | findDevice (userId : UserId) (deviceId : DeviceId)
  | delete (deviceId : DeviceId)
  | touch (now : Time) (deviceId : DeviceId)
  deriving DecidableEq, Repr

def DeviceRequest.start (verifyKeyBundle : Text → Bool) : DeviceRequest → DeviceTask
  | register now userId bundle deviceName =>
    if verifyKeyBundle bundle then .findExisting now userId bundle deviceName else .refused
  | remove userId deviceId => .findDevice userId deviceId
  | touch now deviceId => .touch now deviceId

namespace DeviceStore
variable (s : DeviceStore)

def device? (id : DeviceId) : Option RegisteredDevice := s.devices.find? (·.id = id)

/-- `update` of `lastSeenAt`. -/
def see (now : Time) (id : DeviceId) : DeviceStore :=
  { s with devices := s.devices.map fun d => if d.id = id then { d with lastSeenAt := now } else d }

def reply (userId : UserId) (bundle : Text) (deviceId : DeviceId) : DeviceStore :=
  { s with returned := s.returned ++ [⟨userId, bundle, deviceId⟩] }

def create (now : Time) (userId : UserId) (bundle : Text) (deviceName : Option Text) : DeviceStore :=
  { s with
    devices := s.devices ++ [⟨s.nextDeviceId, userId, bundle, deviceName, now, now⟩]
    nextDeviceId := s.nextDeviceId + 1 }

end DeviceStore

def DeviceTask.run : DeviceTask → DeviceStore → DeviceStore × Option DeviceTask
  | refused, s => (s, none)
  | findExisting now userId bundle deviceName, s =>
    match s.devices.find? fun d => d.userId = userId ∧ d.bundle = bundle with
    | some existing => (s, some (.seeAgain now existing.id userId bundle))
    | none => (s, some (.count now userId bundle deviceName))
  | seeAgain now id userId bundle, s =>
    if s.device? id = none then (s, none) else ((s.see now id).reply userId bundle id, none)
  | count now userId bundle deviceName, s =>
    (s, if MAX_DEVICES ≤ s.devices.countP (·.userId = userId) then none
      else some (.create now userId bundle deviceName))
  | create now userId bundle deviceName, s =>
    ((s.create now userId bundle deviceName).reply userId bundle s.nextDeviceId, none)
  | findDevice userId deviceId, s =>
    (s, if ∃ d ∈ s.device? deviceId, d.userId = userId then some (.delete deviceId) else none)
  | delete deviceId, s => ({ s with devices := s.devices.filter (·.id ≠ deviceId) }, none)
  | touch now deviceId, s => (s.see now deviceId, none)

def deviceHandlers (verifyKeyBundle : Text → Bool) : Handlers DeviceStore DeviceRequest DeviceTask where
  start := DeviceRequest.start verifyKeyBundle
  run := DeviceTask.run

def deviceMachine (verifyKeyBundle : Text → Bool) :
    Machine (Pool DeviceStore DeviceTask) (PoolEvent DeviceRequest) :=
  (deviceHandlers verifyKeyBundle).machine ⟨[], 1, []⟩

instance (verifyKeyBundle : Text → Bool) (p : Pool DeviceStore DeviceTask) (e : PoolEvent DeviceRequest) :
    Decidable ((deviceMachine verifyKeyBundle).enabled p e) := .isTrue trivial

namespace DeviceStore

/-- The cap holds, and registrations of one bundle return one device, unless it has been removed. -/
structure WithinCap (s : DeviceStore) : Prop where
  capped : Capped RegisteredDevice.userId MAX_DEVICES s.devices
  same : ∀ r ∈ s.returned, ∀ r' ∈ s.returned, r.userId = r'.userId → r.bundle = r'.bundle →
    s.device? r.deviceId ≠ none → s.device? r'.deviceId ≠ none → r.deviceId = r'.deviceId

/-- The table as the handlers know it: what was returned for a bundle is its row, as long as it exists. -/
structure Sound (s : DeviceStore) : Prop where
  ids : ∀ d ∈ s.devices, ∀ d' ∈ s.devices, d.id = d'.id → d = d'
  below : ∀ d ∈ s.devices, d.id < s.nextDeviceId
  logged : ∀ d ∈ s.devices, ⟨d.userId, d.bundle, d.id⟩ ∈ s.returned
  returned : ∀ r ∈ s.returned, r.deviceId < s.nextDeviceId ∧
    ∀ d ∈ s.devices, d.id = r.deviceId → d.userId = r.userId ∧ d.bundle = r.bundle

/-- A user has a bundle once. -/
def Unique (s : DeviceStore) : Prop :=
  ∀ d ∈ s.devices, ∀ d' ∈ s.devices, d.userId = d'.userId → d.bundle = d'.bundle → d = d'

section
variable {s : DeviceStore} {now : Time} {id : DeviceId} {u : UserId} {bundle : Text} {name : Option Text}

theorem device?_ne_none : s.device? id ≠ none ↔ ∃ d ∈ s.devices, d.id = id := by
  rw [← Option.isSome_iff_ne_none, device?, List.find?_isSome]
  simp

theorem Sound.same_iff (h : s.Sound) : s.WithinCap ↔
    Capped RegisteredDevice.userId MAX_DEVICES s.devices ∧ s.Unique := by
  constructor
  · rintro ⟨hcapped, hsame⟩
    refine ⟨hcapped, fun d hd d' hd' huser hbundle => h.ids d hd d' hd' ?_⟩
    exact hsame _ (h.logged d hd) _ (h.logged d' hd') huser hbundle
      (device?_ne_none.mpr ⟨d, hd, rfl⟩) (device?_ne_none.mpr ⟨d', hd', rfl⟩)
  · rintro ⟨hcapped, hunique⟩
    refine ⟨hcapped, fun r hr r' hr' huser hbundle hsome hsome' => ?_⟩
    obtain ⟨d, hd, hid⟩ := device?_ne_none.mp hsome
    obtain ⟨d', hd', hid'⟩ := device?_ne_none.mp hsome'
    obtain ⟨hu, hb⟩ := (h.returned r hr).2 d hd hid
    obtain ⟨hu', hb'⟩ := (h.returned r' hr').2 d' hd' hid'
    have heq := hunique d hd d' hd' (hu.trans (huser.trans hu'.symm)) (hb.trans (hbundle.trans hb'.symm))
    rw [← hid, ← hid', heq]

/-! ### What an operation does -/

theorem mem_see {d : RegisteredDevice} (hd : d ∈ (s.see now id).devices) :
    ∃ d₀ ∈ s.devices, d₀.id = d.id ∧ d₀.userId = d.userId ∧ d₀.bundle = d.bundle := by
  obtain ⟨d₀, hd₀, rfl⟩ := List.mem_map.mp hd
  refine ⟨d₀, hd₀, ?_⟩
  split <;> exact ⟨rfl, rfl, rfl⟩

theorem see_inj (h : s.Sound) {d d' : RegisteredDevice} (hd : d ∈ (s.see now id).devices)
    (hd' : d' ∈ (s.see now id).devices) (heq : d.id = d'.id) : d = d' := by
  obtain ⟨d₀, hd₀, rfl⟩ := List.mem_map.mp hd
  obtain ⟨d₀', hd₀', rfl⟩ := List.mem_map.mp hd'
  have hid : ∀ x : RegisteredDevice, (if x.id = id then { x with lastSeenAt := now } else x).id = x.id := by
    intro x
    split <;> rfl
  rw [hid, hid] at heq
  rw [h.ids d₀ hd₀ d₀' hd₀' heq]

theorem Sound.see (h : s.Sound) (now : Time) (id : DeviceId) : (s.see now id).Sound where
  ids d hd d' hd' := see_inj h hd hd'
  below d hd := by
    obtain ⟨d₀, hd₀, hid, -⟩ := mem_see hd
    exact hid ▸ h.below d₀ hd₀
  logged d hd := by
    obtain ⟨d₀, hd₀, hid, huser, hbundle⟩ := mem_see hd
    exact hid ▸ huser ▸ hbundle ▸ h.logged d₀ hd₀
  returned r hr := by
    refine ⟨(h.returned r hr).1, fun d hd heq => ?_⟩
    obtain ⟨d₀, hd₀, hid, huser, hbundle⟩ := mem_see hd
    exact huser ▸ hbundle ▸ (h.returned r hr).2 d₀ hd₀ (hid.trans heq)

theorem Unique.see (h : s.Sound) (hunique : s.Unique) : (s.see now id).Unique := by
  intro d hd d' hd' huser hbundle
  obtain ⟨d₀, hd₀, hid, hu, hb⟩ := mem_see hd
  obtain ⟨d₀', hd₀', hid', hu', hb'⟩ := mem_see hd'
  refine see_inj h hd hd' (hid.symm.trans (Eq.trans (congrArg RegisteredDevice.id ?_) hid'))
  exact hunique d₀ hd₀ d₀' hd₀' (hu.trans (huser.trans hu'.symm)) (hb.trans (hbundle.trans hb'.symm))

theorem capped_see (h : Capped RegisteredDevice.userId MAX_DEVICES s.devices) :
    Capped RegisteredDevice.userId MAX_DEVICES (s.see now id).devices :=
  h.map fun d _ => by split <;> rfl

theorem Sound.delete (h : s.Sound) (id : DeviceId) :
    ({ s with devices := s.devices.filter (·.id ≠ id) } : DeviceStore).Sound where
  ids d hd d' hd' := h.ids d (List.mem_of_mem_filter hd) d' (List.mem_of_mem_filter hd')
  below d hd := h.below d (List.mem_of_mem_filter hd)
  logged d hd := h.logged d (List.mem_of_mem_filter hd)
  returned r hr := ⟨(h.returned r hr).1, fun d hd => (h.returned r hr).2 d (List.mem_of_mem_filter hd)⟩

/-- The id of a row is returned for its bundle. -/
theorem Sound.reply (h : s.Sound) (hbelow : id < s.nextDeviceId)
    (hrow : ∀ d ∈ s.devices, d.id = id → d.userId = u ∧ d.bundle = bundle) : (s.reply u bundle id).Sound where
  ids := h.ids
  below := h.below
  logged d hd := List.mem_append_left _ (h.logged d hd)
  returned r hr := by
    obtain hr | hr := List.mem_append.mp hr
    · exact h.returned r hr
    · rw [List.mem_singleton.mp hr]
      exact ⟨hbelow, hrow⟩

theorem mem_create {d : RegisteredDevice} (hd : d ∈ (s.create now u bundle name).devices) :
    d ∈ s.devices ∨ d = ⟨s.nextDeviceId, u, bundle, name, now, now⟩ :=
  (List.mem_append.mp hd).imp_right List.mem_singleton.mp

theorem Sound.create (h : s.Sound) :
    ((s.create now u bundle name).reply u bundle s.nextDeviceId).Sound where
  ids d hd d' hd' heq := by
    obtain hd | rfl := mem_create hd <;> obtain hd' | rfl := mem_create hd'
    · exact h.ids d hd d' hd' heq
    · exact absurd heq (Nat.ne_of_lt (h.below d hd))
    · exact absurd heq.symm (Nat.ne_of_lt (h.below d' hd'))
    · rfl
  below d hd := by
    obtain hd | rfl := mem_create hd
    · exact Nat.lt_succ_of_lt (h.below d hd)
    · exact Nat.lt_succ_self _
  logged d hd := by
    obtain hd | rfl := mem_create hd
    · exact List.mem_append_left _ (h.logged d hd)
    · exact List.mem_append_right _ (List.mem_singleton_self _)
  returned r hr := by
    obtain hr | hr := List.mem_append.mp hr
    · obtain ⟨hlt, hrow⟩ := h.returned r hr
      refine ⟨Nat.lt_succ_of_lt hlt, fun d hd heq => ?_⟩
      obtain hd | rfl := mem_create hd
      · exact hrow d hd heq
      · exact absurd heq.symm (Nat.ne_of_lt hlt)
    · rw [List.mem_singleton.mp hr]
      refine ⟨Nat.lt_succ_self _, fun d hd heq => ?_⟩
      obtain hd | rfl := mem_create hd
      · exact absurd heq (Nat.ne_of_lt (h.below d hd))
      · exact ⟨rfl, rfl⟩

theorem unique_create_iff (h : s.Sound) (hunique : s.Unique) : (s.create now u bundle name).Unique ↔
    ∀ d ∈ s.devices, ¬(d.userId = u ∧ d.bundle = bundle) := by
  have hnew : (⟨s.nextDeviceId, u, bundle, name, now, now⟩ : RegisteredDevice) ∈
      (s.create now u bundle name).devices := List.mem_append_right _ (List.mem_singleton_self _)
  constructor
  · intro hcreated d hd hsame
    have heq := hcreated d (List.mem_append_left _ hd) _ hnew hsame.1 hsame.2
    exact absurd (congrArg RegisteredDevice.id heq) (Nat.ne_of_lt (h.below d hd))
  · intro hnone d hd d' hd' huser hbundle
    obtain hd | rfl := mem_create hd <;> obtain hd' | rfl := mem_create hd'
    · exact hunique d hd d' hd' huser hbundle
    · exact absurd ⟨huser, hbundle⟩ (hnone d hd)
    · exact absurd ⟨huser.symm, hbundle.symm⟩ (hnone d' hd')
    · rfl

end

end DeviceStore

namespace DeviceTask

/-- What a handler knows of the row that it found. -/
def Knows : DeviceTask → DeviceStore → Prop
  | seeAgain _ id userId bundle, s => id < s.nextDeviceId ∧
    ∀ d ∈ s.devices, d.id = id → d.userId = userId ∧ d.bundle = bundle
  | refused, _ | findExisting .., _ | count .., _ | create .., _ | findDevice .., _ | delete _, _
  | touch .., _ => True

/-- A device is created only if there still is room, and the bundle is not registered by then. -/
def FindsRoom : DeviceTask → DeviceStore → Prop
  | create _ userId bundle _, s => s.devices.countP (·.userId = userId) < MAX_DEVICES ∧
    ∀ d ∈ s.devices, ¬(d.userId = userId ∧ d.bundle = bundle)
  | refused, _ | findExisting .., _ | seeAgain .., _ | count .., _ | findDevice .., _ | delete _, _
  | touch .., _ => True

instance : (t : DeviceTask) → (s : DeviceStore) → Decidable (t.FindsRoom s)
  | .create .., _ => inferInstanceAs (Decidable (_ ∧ _))
  | .refused, _ | .findExisting .., _ | .seeAgain .., _ | .count .., _ | .findDevice .., _ | .delete _, _
  | .touch .., _ => .isTrue trivial

section
variable {s s' : DeviceStore} {t : DeviceTask} {verify : Text → Bool}

theorem run_findExisting_none {now : Time} {u : UserId} {bundle : Text} {name : Option Text}
    (hnone : (s.devices.find? fun d => d.userId = u ∧ d.bundle = bundle) = none) :
    (findExisting now u bundle name).run s = (s, some (.count now u bundle name)) := by
  simp only [run, hnone]

theorem run_findExisting_some {now : Time} {u : UserId} {bundle : Text} {name : Option Text}
    {existing : RegisteredDevice}
    (hsome : (s.devices.find? fun d => d.userId = u ∧ d.bundle = bundle) = some existing) :
    (findExisting now u bundle name).run s = (s, some (.seeAgain now existing.id u bundle)) := by
  simp only [run, hsome]

theorem run_seeAgain {now : Time} {id : DeviceId} {u : UserId} {bundle : Text} (hsome : s.device? id ≠ none) :
    (seeAgain now id u bundle).run s = ((s.see now id).reply u bundle id, none) :=
  if_neg hsome

theorem run_seeAgain_gone {now : Time} {id : DeviceId} {u : UserId} {bundle : Text}
    (hgone : s.device? id = none) : (seeAgain now id u bundle).run s = (s, none) :=
  if_pos hgone

/-- Rows with an old number stay what they are. -/
theorem Knows.mono (h : t.Knows s) (hnext : s.nextDeviceId ≤ s'.nextDeviceId)
    (hold : ∀ d ∈ s'.devices, d.id < s.nextDeviceId →
      ∃ d₀ ∈ s.devices, d₀.id = d.id ∧ d₀.userId = d.userId ∧ d₀.bundle = d.bundle) : t.Knows s' := by
  cases t with
  | seeAgain now id u bundle =>
    refine ⟨Nat.lt_of_lt_of_le h.1 hnext, fun d hd heq => ?_⟩
    obtain ⟨d₀, hd₀, hid, huser, hbundle⟩ := hold d hd (heq ▸ h.1)
    exact huser ▸ hbundle ▸ h.2 d₀ hd₀ (hid.trans heq)
  | refused | findExisting | count | create | findDevice | delete | touch => trivial

theorem stable_run (h : s.Sound) (hknows : t.Knows s) :
    (deviceHandlers verify).Stable DeviceStore.Sound Knows t s := by
  have hread : ∀ {t : DeviceTask} {next : Option DeviceTask}, t.run s = (s, next) →
      (∀ t' ∈ next, t'.Knows s) → (deviceHandlers verify).Stable DeviceStore.Sound Knows t s :=
    fun hrun hnext => .of_read hrun h hnext
  cases t with
  | refused => exact hread rfl nofun
  | findExisting now u bundle name =>
    cases hfind : s.devices.find? fun d => d.userId = u ∧ d.bundle = bundle with
    | none =>
      refine hread (run_findExisting_none hfind) fun t' ht' => ?_
      obtain rfl := Option.some.inj ht'
      trivial
    | some existing =>
      have hmem := List.mem_of_find?_eq_some hfind
      have htest : existing.userId = u ∧ existing.bundle = bundle := by simpa using List.find?_some hfind
      refine hread (run_findExisting_some hfind) fun t' ht' => ?_
      obtain rfl := Option.some.inj ht'
      refine ⟨h.below existing hmem, fun d hd heq => ?_⟩
      rw [h.ids d hd existing hmem heq]
      exact htest
  | seeAgain now id u bundle =>
    by_cases hgone : s.device? id = none
    · exact hread (run_seeAgain_gone hgone) nofun
    · refine .of_run (run_seeAgain hgone) ?_ nofun fun _ hu =>
        hu.mono (Nat.le_refl _) fun d hd _ => DeviceStore.mem_see hd
      refine (h.see now id).reply hknows.1 fun d hd heq => ?_
      obtain ⟨d₀, hd₀, hid, huser, hbundle⟩ := DeviceStore.mem_see hd
      exact huser ▸ hbundle ▸ hknows.2 d₀ hd₀ (hid.trans heq)
  | count now u bundle name =>
    refine hread rfl fun t' ht' => ?_
    split at ht'
    · cases ht'
    · obtain rfl := Option.some.inj ht'
      trivial
  | create now u bundle name =>
    refine .of_run rfl h.create nofun fun _ hu => hu.mono (Nat.le_succ _) fun d hd hlt => ?_
    obtain hd | rfl := DeviceStore.mem_create hd
    · exact ⟨d, hd, rfl, rfl, rfl⟩
    · exact absurd hlt (Nat.lt_irrefl _)
  | findDevice u id =>
    refine hread rfl fun t' ht' => ?_
    split at ht'
    · obtain rfl := Option.some.inj ht'
      trivial
    · cases ht'
  | delete id =>
    exact .of_run rfl (h.delete id) nofun fun _ hu => hu.mono (Nat.le_refl _) fun d hd _ =>
      ⟨d, List.mem_of_mem_filter hd, rfl, rfl, rfl⟩
  | touch now id =>
    exact .of_run rfl (h.see now id) nofun fun _ hu => hu.mono (Nat.le_refl _) fun d hd _ =>
      DeviceStore.mem_see hd

/-- Only the creation of a device can break the cap, or register a bundle twice. -/
theorem withinCap_run_iff (h : s.Sound) (hcap : s.WithinCap) (hknows : t.Knows s) :
    (t.run s).1.WithinCap ↔ t.FindsRoom s := by
  obtain ⟨hcapped, hunique⟩ := h.same_iff.mp hcap
  have hstable : (deviceHandlers fun _ => true).Stable DeviceStore.Sound Knows t s := stable_run h hknows
  have hsound : (t.run s).1.Sound := hstable.store
  rw [hsound.same_iff]
  cases t with
  | create now u bundle name =>
    exact and_congr hcapped.append_iff (DeviceStore.unique_create_iff h hunique)
  | findExisting now u bundle name =>
    refine iff_of_true ?_ trivial
    cases hfind : s.devices.find? fun d => d.userId = u ∧ d.bundle = bundle with
    | none =>
      rw [run_findExisting_none hfind]
      exact ⟨hcapped, hunique⟩
    | some existing =>
      rw [run_findExisting_some hfind]
      exact ⟨hcapped, hunique⟩
  | seeAgain now id u bundle =>
    refine iff_of_true ?_ trivial
    by_cases hgone : s.device? id = none
    · rw [run_seeAgain_gone hgone]
      exact ⟨hcapped, hunique⟩
    · rw [run_seeAgain hgone]
      exact ⟨DeviceStore.capped_see hcapped, hunique.see h⟩
  | delete id =>
    refine iff_of_true ⟨hcapped.filter _, fun d hd d' hd' => ?_⟩ trivial
    exact hunique d (List.mem_of_mem_filter hd) d' (List.mem_of_mem_filter hd')
  | touch now id => exact iff_of_true ⟨DeviceStore.capped_see hcapped, hunique.see h⟩ trivial
  | refused | count | findDevice => exact iff_of_true ⟨hcapped, hunique⟩ trivial

end

end DeviceTask

theorem devices_capped_iff (verifyKeyBundle : Text → Bool) (run : List (PoolEvent DeviceRequest)) :
    (deviceMachine verifyKeyBundle).Throughout (·.store.WithinCap) (deviceMachine verifyKeyBundle).init run ↔
      ((deviceMachine verifyKeyBundle).restrict fun p e => p.Meets DeviceTask.FindsRoom e).Allowed
        (deviceMachine verifyKeyBundle).init run := by
  have hsound : (deviceMachine verifyKeyBundle).init.store.Sound :=
    ⟨List.forall_mem_nil _, List.forall_mem_nil _, List.forall_mem_nil _, List.forall_mem_nil _⟩
  refine Handlers.throughout_iff (I := DeviceStore.Sound) (A := DeviceTask.Knows) (fun r s _ => ?_)
    (fun t s h hknows _ => DeviceTask.stable_run h hknows)
    (fun t s h hknows hcap => DeviceTask.withinCap_run_iff h hcap hknows) ⟨hsound, List.forall_mem_nil _⟩
    ⟨.nil, List.forall_mem_nil _⟩ run
  cases r with
  | register now u bundle name =>
    show (if verifyKeyBundle bundle then DeviceTask.findExisting now u bundle name else .refused).Knows s
    split <;> trivial
  | remove | touch => trivial

/-! ## Pins -/

inductive PinRequest
  | addPinnedMessage (now : Time) (userId : UserId) (conversationId : ConversationId) (messageId : MessageId)
  | removePinnedMessage (userId : UserId) (conversationId : ConversationId) (messageId : MessageId)
  deriving DecidableEq, Repr

/-- A handler before its next access to the database. -/
inductive PinTask
  | assertAdmin (now : Time) (userId : UserId) (conversationId : ConversationId) (messageId : MessageId)
  | findMessage (now : Time) (userId : UserId) (conversationId : ConversationId) (messageId : MessageId)
  | count (now : Time) (userId : UserId) (conversationId : ConversationId) (messageId : MessageId)
  | upsert (now : Time) (userId : UserId) (conversationId : ConversationId) (messageId : MessageId)
  | assertRemover (userId : UserId) (conversationId : ConversationId) (messageId : MessageId)
  | deleteMany (conversationId : ConversationId) (messageId : MessageId)
  deriving DecidableEq, Repr

def PinRequest.start : PinRequest → PinTask
  | addPinnedMessage now userId conversationId messageId =>
    .assertAdmin now userId conversationId messageId
  | removePinnedMessage userId conversationId messageId =>
    .assertRemover userId conversationId messageId

def Database.IsAdmin (db : Database) (userId : UserId) (conversationId : ConversationId) : Prop :=
  ∃ m ∈ db.member? conversationId userId, m.role ≠ .member

instance (db : Database) (userId : UserId) (conversationId : ConversationId) :
    Decidable (db.IsAdmin userId conversationId) :=
  inferInstanceAs (Decidable (∃ m ∈ db.member? conversationId userId, m.role ≠ .member))

/-- The message is one of the conversation, and not deleted. -/
def Database.Pinnable (db : Database) (conversationId : ConversationId) (messageId : MessageId) : Prop :=
  ∃ m ∈ db.message? messageId, m.conversationId = conversationId ∧ m.deletedAt = none

instance (db : Database) (conversationId : ConversationId) (messageId : MessageId) :
    Decidable (db.Pinnable conversationId messageId) :=
  inferInstanceAs (Decidable (∃ m ∈ db.message? messageId, _ ∧ _))

def Database.unpin (db : Database) (conversationId : ConversationId) (messageId : MessageId) : Database :=
  { db with
    pins := db.pins.filter fun pin => ¬(pin.conversationId = conversationId ∧ pin.messageId = messageId) }

/-- What the handlers do after their last write is only read. -/
def PinTask.run : PinTask → Database → Database × Option PinTask
  | assertAdmin now userId conversationId messageId, db =>
    (db, if db.IsAdmin userId conversationId then some (.findMessage now userId conversationId messageId)
      else none)
  | findMessage now userId conversationId messageId, db =>
    (db, if db.Pinnable conversationId messageId then some (.count now userId conversationId messageId)
      else none)
  | count now userId conversationId messageId, db =>
    (db, if MAX_PINNED_MESSAGES ≤ db.pins.countP (·.conversationId = conversationId) then none
      else some (.upsert now userId conversationId messageId))
  | upsert now userId conversationId messageId, db =>
    (((upsertPin now userId conversationId messageId).exec db).2, none)
  | assertRemover userId conversationId messageId, db =>
    (db, if db.IsAdmin userId conversationId then some (.deleteMany conversationId messageId) else none)
  | deleteMany conversationId messageId, db => (db.unpin conversationId messageId, none)

def pinHandlers : Handlers Database PinRequest PinTask where
  start := PinRequest.start
  run := PinTask.run

/-- Whatever the database holds, nothing is pinned at first. -/
def pinMachine (db : Database) : Machine (Pool Database PinTask) (PoolEvent PinRequest) :=
  pinHandlers.machine { db with pins := [] }

instance (db : Database) (p : Pool Database PinTask) (e : PoolEvent PinRequest) :
    Decidable ((pinMachine db).enabled p e) := .isTrue trivial

def Database.PinsCapped (db : Database) : Prop :=
  Capped PinnedMessage.conversationId MAX_PINNED_MESSAGES db.pins

/-- A pin is created only if there still is room. -/
def PinTask.FindsRoom : PinTask → Database → Prop
  | upsert _ _ conversationId messageId, db =>
    (∀ pin ∈ db.pins, ¬(pin.conversationId = conversationId ∧ pin.messageId = messageId)) →
      db.pins.countP (·.conversationId = conversationId) < MAX_PINNED_MESSAGES
  | assertAdmin .., _ | findMessage .., _ | count .., _ | assertRemover .., _ | deleteMany .., _ => True

instance : (t : PinTask) → (db : Database) → Decidable (t.FindsRoom db)
  | .upsert .., _ => inferInstanceAs (Decidable (_ → _))
  | .assertAdmin .., _ | .findMessage .., _ | .count .., _ | .assertRemover .., _ | .deleteMany .., _ =>
    .isTrue trivial

section
variable {db : Database} {now : Time} {u : UserId} {c : ConversationId} {m : MessageId}

theorem length_pinsOf : (db.pinsOf c).length = db.pins.countP (·.conversationId = c) := by
  rw [Database.pinsOf, List.length_insertionSort, List.countP_eq_length_filter]

theorem assertAdmin_exec : ((assertAdmin u c).exec db).2 = db ∧
    ((∃ member, ((assertAdmin u c).exec db).1 = .ok member) ↔ db.IsAdmin u c) := by
  unfold assertAdmin assertMember findMember Database.IsAdmin
  simp only [Program.exec_bind, Program.exec_reads, Program.exec_demand]
  cases hmember : db.member? c u with
  | none => simp [Program.orThrow]
  | some member => by_cases hrole : member.role = .member <;> simp [Program.orThrow, hrole]

/-- A handler with nothing in between does what `addPinnedMessage` does. -/
theorem addPinnedMessage_alone : pinHandlers.alone 4 (PinRequest.addPinnedMessage now u c m).start db =
    ((addPinnedMessage now u c m).exec db).2 := by
  obtain ⟨hkept, hadmin⟩ := @assertAdmin_exec db u c
  have hstart : (PinRequest.addPinnedMessage now u c m).start = .assertAdmin now u c m := rfl
  unfold addPinnedMessage
  rw [Program.exec_bind, hstart]
  rcases hexec : (assertAdmin u c).exec db with ⟨e | member, db'⟩ <;> rw [hexec] at hkept hadmin <;>
    obtain rfl : db' = db := hkept
  · have hnot : ¬db'.IsAdmin u c := fun hyes => by
      obtain ⟨_, hok⟩ := hadmin.mpr hyes
      cases hok
    exact Handlers.alone_finishes 3 (by simp only [pinHandlers, PinTask.run, if_neg hnot])
  have hyes := hadmin.mp ⟨member, rfl⟩
  rw [Handlers.alone_goes_on 3 (by simp only [pinHandlers, PinTask.run, if_pos hyes]; rfl)]
  simp only [findMessage, Program.exec_bind, Program.exec_reads]
  by_cases hpin : db'.Pinnable c m
  · rw [Handlers.alone_goes_on 2 (by simp only [pinHandlers, PinTask.run, if_pos hpin]; rfl)]
    obtain ⟨msg, hmsg, hconversation, hdeleted⟩ := hpin
    simp only [Option.mem_def.mp hmsg, Option.filter_some, hconversation, decide_true, if_true,
      Program.orThrow, Program.exec_pure, Program.exec_demand, hdeleted, length_pinsOf]
    by_cases hfull : MAX_PINNED_MESSAGES ≤ db'.pins.countP (·.conversationId = c)
    · rw [Handlers.alone_finishes 1 (by simp only [pinHandlers, PinTask.run, if_pos hfull]; rfl),
        if_neg (Nat.not_lt.mpr hfull)]
    · rw [Handlers.alone_goes_on 1 (by simp only [pinHandlers, PinTask.run, if_neg hfull]; rfl),
        if_pos (Nat.not_le.mp hfull), Handlers.alone_finishes 0 rfl]
      rfl
  · rw [Handlers.alone_finishes 2 (by simp only [pinHandlers, PinTask.run, if_neg hpin]; rfl)]
    cases hmsg : db'.message? m with
    | none => rfl
    | some msg =>
      by_cases hconversation : msg.conversationId = c
      · have hdeleted : msg.deletedAt ≠ none := fun hnone => hpin ⟨msg, hmsg, hconversation, hnone⟩
        simp [Option.filter_some, Program.orThrow, hconversation, hdeleted, Program.exec_demand]
      · simp [Option.filter_some, Program.orThrow, hconversation]

theorem upsertPin_pins : (((upsertPin now u c m).exec db).2).pins =
    if db.pins.any fun pin => pin.conversationId = c ∧ pin.messageId = m then
      db.pins.map fun pin => if decide (pin.conversationId = c ∧ pin.messageId = m) then
        { pin with pinnedAt := now, pinnedById := u } else pin
    else db.pins ++ [⟨db.nextPinId, c, m, u, now⟩] := by
  unfold upsertPin
  simp only [Program.exec_modify]
  split <;> rfl

/-- Only a new pin can break the cap. -/
theorem PinTask.pinsCapped_run_iff (hcapped : db.PinsCapped) (t : PinTask) :
    (t.run db).1.PinsCapped ↔ t.FindsRoom db := by
  cases t with
  | upsert now u c m =>
    show Capped _ _ ((upsertPin now u c m).exec db).2.pins ↔ (_ → _)
    rw [upsertPin_pins]
    split
    · rename_i hany
      refine iff_of_true (hcapped.map fun pin _ => by split <;> rfl) fun hnone => ?_
      obtain ⟨pin, hpin, hhere⟩ := List.any_eq_true.mp hany
      exact absurd (of_decide_eq_true hhere) (hnone pin hpin)
    · rename_i hany
      refine hcapped.append_iff.trans ⟨fun hroom _ => hroom, fun hroom => hroom fun pin hpin hhere => ?_⟩
      exact hany (List.any_eq_true.mpr ⟨pin, hpin, decide_eq_true hhere⟩)
  | deleteMany c m => exact iff_of_true (hcapped.filter _) trivial
  | assertAdmin | findMessage | count | assertRemover => exact iff_of_true hcapped trivial

end

theorem pins_capped_iff (db : Database) (run : List (PoolEvent PinRequest)) :
    (pinMachine db).Throughout (·.store.PinsCapped) (pinMachine db).init run ↔
      ((pinMachine db).restrict fun p e => p.Meets PinTask.FindsRoom e).Allowed (pinMachine db).init run := by
  have hnone : (pinMachine db).init.store.PinsCapped := Capped.nil
  exact Handlers.throughout_iff (h := pinHandlers) (P := Database.PinsCapped) (I := fun _ => True)
    (A := fun _ _ => True) (C := PinTask.FindsRoom) (fun _ _ _ => trivial)
    (fun _ _ _ _ _ => ⟨trivial, fun _ _ => trivial, fun _ _ => trivial⟩)
    (fun t _ _ _ hcapped => PinTask.pinsCapped_run_iff hcapped t) ⟨trivial, fun _ _ => trivial⟩ hnone run

/-! ## Sessions -/

end Vesper.Server

namespace Vesper.Auth
open Server (Time UserId)

/-- The user for whom `issueTokens` is under way. -/
def Call.issuesFor : Call → Option UserId
  | findExisting userId .. | countSessions userId .. | evict userId .. | createTokens userId ..
  | create userId .. => some userId
  | register .. | verifyEmail _ | verifyUpdate _ | login .. | refresh _ | rotateTokens .. | rotateCurrent ..
  | rotateUpdate .. | logout _ | logoutAll _ | forgotPassword _ | forgotUpdate .. | changePassword ..
  | resetPassword .. | revoke _ | commit .. => none

/-- A session is created only if there still is room. -/
def Call.FindsRoom (s : AuthServer) : Call → Prop
  | create userId .. => s.sessions.countP (·.userId = userId) < AuthServer.MAX_SESSIONS
  | _ => True

instance (s : AuthServer) : (call : Call) → Decidable (call.FindsRoom s)
  | .create .. => inferInstanceAs (Decidable (_ < _))
  | .register .. | .verifyEmail _ | .verifyUpdate _ | .login .. | .findExisting .. | .countSessions ..
  | .evict .. | .createTokens .. | .refresh _ | .rotateTokens .. | .rotateCurrent .. | .rotateUpdate ..
  | .logout _ | .logoutAll _ | .forgotPassword _ | .forgotUpdate .. | .changePassword .. | .resetPassword ..
  | .revoke _ | .commit .. => .isTrue trivial

namespace AuthServer

def SessionsCapped (s : AuthServer) : Prop := Capped Session.userId MAX_SESSIONS s.sessions

def FindsRoom (s : AuthServer) (e : Time × AuthInput) : Prop :=
  match e.2 with
  | .call _ => True
  | .resume j => ∀ call ∈ s.calls[j]?, call.FindsRoom s

instance (s : AuthServer) : (e : Time × AuthInput) → Decidable (s.FindsRoom e)
  | (_, .call _) => .isTrue trivial
  | (_, .resume _) => inferInstanceAs (Decidable (∀ call ∈ _, _))

/-- Users are numbered in the order in which they register. -/
structure Known (s : AuthServer) : Prop where
  users : ∀ user ∈ s.users, user.id < s.nextUserId
  sessions : ∀ session ∈ s.sessions, session.userId < s.nextUserId
  calls : ∀ call ∈ s.calls, ∀ userId ∈ call.issuesFor, userId < s.nextUserId

/-- What most calls do: the users stay below the next number, and nobody has more sessions. -/
structure Fewer (s t : AuthServer) : Prop where
  known : t.Known
  fewer : ∀ k, t.sessions.countP (·.userId = k) ≤ s.sessions.countP (·.userId = k)

section
variable {s t : AuthServer} {call : Call} {bcrypt : Bcrypt} {now : Time}

theorem Known.of_le (h : s.Known) (husers : t.users = s.users) (hsessions : t.sessions ⊆ s.sessions)
    (hcalls : t.calls ⊆ s.calls) (hnext : t.nextUserId = s.nextUserId) : t.Known where
  users user huser := by
    rw [hnext]
    exact h.users user (husers ▸ huser)
  sessions session hsession := by
    rw [hnext]
    exact h.sessions session (hsessions hsession)
  calls call hcall := by
    rw [hnext]
    exact h.calls call (hcalls hcall)

theorem Known.fewer (h : s.Known) : s.Fewer s := ⟨h, fun _ => Nat.le_refl _⟩

theorem Fewer.suspend (h : s.Fewer t) (hcall : ∀ userId ∈ call.issuesFor, userId < t.nextUserId) :
    s.Fewer (t.suspend call) := by
  refine ⟨⟨h.known.users, h.known.sessions, fun other hother => ?_⟩, h.fewer⟩
  obtain hold | hnew := List.mem_append.mp hother
  · exact h.known.calls other hold
  · exact List.mem_singleton.mp hnew ▸ hcall

theorem Fewer.answer (h : s.Fewer t) {reply : Reply} : s.Fewer (t.answer reply) :=
  ⟨h.known.of_le rfl (List.Subset.refl _) (List.Subset.refl _) rfl, h.fewer⟩

theorem Fewer.deleteSessions (h : s.Fewer t) {q : Session → Bool} : s.Fewer (t.deleteSessions q) :=
  ⟨h.known.of_le rfl (List.filter_subset_self _) (List.Subset.refl _) rfl, fun k =>
    (List.filter_sublist.countP_le).trans (h.fewer k)⟩

theorem Fewer.updateUser (h : s.Fewer t) {id : UserId} {data : User → User} (hdata : ∀ user, (data user).id = user.id) :
    s.Fewer (t.updateUser id data) := by
  refine ⟨⟨fun user huser => ?_, h.known.sessions, h.known.calls⟩, h.fewer⟩
  obtain ⟨user₀, huser₀, rfl⟩ := List.mem_map.mp huser
  split
  · rw [hdata]
    exact h.known.users user₀ huser₀
  · exact h.known.users user₀ huser₀

theorem Fewer.updateSession (h : s.Fewer t) {id : Nat} {data : Session → Session}
    (hdata : ∀ session, (data session).userId = session.userId) : s.Fewer (t.updateSession id data) := by
  have hkeep : ∀ session, (if session.id = id then data session else session).userId = session.userId := by
    intro session
    split
    · exact hdata session
    · rfl
  refine ⟨⟨h.known.users, fun session hsession => ?_, h.known.calls⟩, fun k => ?_⟩
  · obtain ⟨session₀, hsession₀, rfl⟩ := List.mem_map.mp hsession
    rw [hkeep]
    exact h.known.sessions session₀ hsession₀
  · exact Nat.le_trans (Nat.le_of_eq (Capped.countP_map (fun session _ => hkeep session) k)) (h.fewer k)

theorem Fewer.generateTokens (h : s.Fewer t) {userId : UserId} {rest : TokenPair → Call}
    (hrest : ∀ pair, ∀ v ∈ (rest pair).issuesFor, v < t.nextUserId) : s.Fewer (t.generateTokens userId rest) := by
  unfold AuthServer.generateTokens
  split
  · exact h.answer
  · have hmore : s.Fewer { t with tokens := t.tokens + 1 } :=
      ⟨h.known.of_le rfl (List.Subset.refl _) (List.Subset.refl _) rfl, h.fewer⟩
    exact hmore.suspend (hrest _)

/-- The calls that create no session. -/
def creates : Call → Bool
  | .register .. | .create .. => true
  | _ => false

/-- A call that creates no session. -/
theorem Known.run (h : s.Known) (hcall : ∀ userId ∈ call.issuesFor, userId < s.nextUserId)
    (hcreates : creates call = false) : s.Fewer (s.run bcrypt now call) := by
  have hself := h.fewer
  cases call with
  | register | create => cases hcreates
  | verifyEmail token =>
    rw [AuthServer.run]
    split
    · exact hself.answer
    · exact hself.suspend nofun
  | verifyUpdate userId =>
    refine (hself.updateUser ?_).answer
    exact fun _ => rfl
  | login email password userAgent =>
    rw [AuthServer.run]
    split
    · exact hself.answer
    rename_i user hfind
    split
    · exact hself.answer
    split
    · exact hself.answer
    · refine hself.suspend fun userId hid => ?_
      obtain rfl := Option.some.inj hid
      exact h.users user (List.mem_of_find?_eq_some hfind)
  | findExisting userId userAgent version =>
    rw [AuthServer.run]
    split
    · exact hself.suspend nofun
    · exact hself.suspend hcall
  | countSessions userId userAgent version =>
    rw [AuthServer.run]
    split_ifs
    · cases ((s.sessions.filter (·.userId = userId)).insertionSort (·.createdAt ≤ ·.createdAt)).head? with
      | none => exact hself
      | some oldest => exact hself.suspend hcall
    · exact hself.suspend hcall
  | evict userId userAgent version sessionId =>
    rw [AuthServer.run]
    split_ifs
    · exact hself.answer
    · exact hself.deleteSessions.suspend hcall
  | createTokens userId userAgent version => exact hself.generateTokens fun _ => hcall
  | refresh token =>
    rw [AuthServer.run]
    split
    · exact hself.answer
    · split_ifs
      · exact hself.answer
      · exact hself.suspend nofun
  | rotateTokens grounds sessionId userId => exact hself.generateTokens fun _ => nofun
  | rotateCurrent grounds sessionId pair => exact hself.suspend nofun
  | rotateUpdate grounds sessionId pair current =>
    rw [AuthServer.run]
    split
    · exact hself.answer
    · rename_i session hfind
      have hupdate : s.Fewer (s.updateSession sessionId ({ · with
          refreshToken := hashToken pair.refreshToken
          prevRefreshToken := current
          expiresAt := now + REFRESH_TOKEN_EXPIRY_MS
          basis := grounds.basis })) := hself.updateSession fun _ => rfl
      exact ⟨hupdate.known.of_le rfl (List.Subset.refl _) (List.Subset.refl _) rfl, hupdate.fewer⟩
  | logout token => exact hself.deleteSessions.answer
  | logoutAll userId => exact hself.deleteSessions.answer
  | forgotPassword email =>
    rw [AuthServer.run]
    split
    · exact hself.answer
    · split_ifs
      · have hmore : s.Fewer { s with tokens := s.tokens + 1 } :=
          ⟨h.of_le rfl (List.Subset.refl _) (List.Subset.refl _) rfl, hself.fewer⟩
        exact hmore.suspend nofun
      · exact hself.answer
  | forgotUpdate userId token expires =>
    refine (hself.updateUser ?_).answer
    exact fun _ => rfl
  | changePassword userId oldPass newPass =>
    rw [AuthServer.run]
    split
    · exact hself.answer
    · split_ifs
      · exact hself.suspend nofun
      · exact hself.answer
  | resetPassword token newPassword =>
    rw [AuthServer.run]
    split
    · exact hself.answer
    · exact hself.suspend nofun
  | revoke change => exact hself.suspend nofun
  | commit change ids =>
    have hchanged : s.Fewer (s.updateUser change.userId (changeUser change)) :=
      hself.updateUser fun user => by
        unfold changeUser
        split <;> rfl
    have hversion : ∀ version, s.Fewer { (s.updateUser change.userId (changeUser change)) with version } :=
      fun _ => ⟨hchanged.known.of_le rfl (List.Subset.refl _) (List.Subset.refl _) rfl, hchanged.fewer⟩
    exact (hversion _).deleteSessions.answer

theorem Known.createSession (h : s.Known) {userId : UserId} (hid : userId < s.nextUserId)
    {userAgent : Server.Text} {basis : Nat} {pair : TokenPair} :
    (s.createSession now userId userAgent basis pair).Known := by
  refine ⟨h.users, fun session hsession => ?_, h.calls⟩
  obtain hold | hnew := List.mem_append.mp hsession
  · exact h.sessions session hold
  · rw [List.mem_singleton.mp hnew]
    exact hid

/-- The number of a new user. -/
theorem Known.registerUser (h : s.Known) (bcrypt : Bcrypt) (now : Time) (dto : RegisterDto)
    (userAgent : Server.Text) :
    (s.registerUser bcrypt now dto userAgent).Known ∧
      (s.SessionsCapped → (s.registerUser bcrypt now dto userAgent).SessionsCapped) := by
  unfold AuthServer.registerUser
  split
  · exact ⟨h.fewer.answer.known, id⟩
  · constructor
    · refine Known.createSession ⟨fun user huser => ?_, fun session hsession => ?_, fun call hcall v hv => ?_⟩ ?_
      · obtain hold | hnew := List.mem_append.mp huser
        · exact Nat.lt_succ_of_lt (h.users user hold)
        · rw [List.mem_singleton.mp hnew]
          exact Nat.lt_succ_self _
      · exact Nat.lt_succ_of_lt (h.sessions session hsession)
      · exact Nat.lt_succ_of_lt (h.calls call hcall v hv)
      · exact Nat.lt_succ_self _
    · -- the new user has no session yet
      intro hcapped
      refine hcapped.append_iff.mpr ?_
      rw [List.countP_eq_zero.mpr fun session hsession => ?_]
      · exact Nat.succ_pos _
      · simpa using Nat.ne_of_lt (h.sessions session hsession)

/-- **The step lemma** of the cap. -/
theorem Known.run_capped (h : s.Known) (bcrypt : Bcrypt) (now : Time) (hcall : ∀ userId ∈ call.issuesFor, userId < s.nextUserId) :
    (s.run bcrypt now call).Known ∧
      (s.SessionsCapped → ((s.run bcrypt now call).SessionsCapped ↔ call.FindsRoom s)) := by
  cases hcreates : creates call with
  | false =>
    obtain ⟨hknown, hfewer⟩ : s.Fewer (s.run bcrypt now call) := h.run hcall hcreates
    refine ⟨hknown, fun hcapped => iff_of_true (hcapped.of_le hfewer) ?_⟩
    cases call <;> trivial
  | true =>
    cases call with
    | register dto userAgent =>
      rw [AuthServer.run]
      split
      · exact ⟨h.fewer.answer.known, fun hcapped => iff_of_true hcapped trivial⟩
      split
      · exact ⟨h.fewer.answer.known, fun hcapped => iff_of_true hcapped trivial⟩
      · obtain ⟨hknown, hkeeps⟩ := h.registerUser bcrypt now dto userAgent
        exact ⟨hknown, fun hcapped => iff_of_true (hkeeps hcapped) trivial⟩
    | create userId userAgent version pair =>
      exact ⟨h.createSession (hcall userId rfl), fun hcapped => hcapped.append_iff⟩
    | _ => cases hcreates

theorem Known.step (h : s.Known) {e : Time × AuthInput} (he : s.Enabled e.2) :
    (s.next bcrypt e).Known ∧ (s.SessionsCapped → ((s.next bcrypt e).SessionsCapped ↔ s.FindsRoom e)) := by
  obtain ⟨now, input⟩ := e
  cases input with
  | call call =>
    have hasked : call.request = true := he
    have hrequest : ∀ userId ∈ call.issuesFor, userId < s.nextUserId := by
      cases call <;> first | (intro _ hid; cases hid; done) | cases hasked
    have hkept : s.Fewer { s with reply := none } :=
      ⟨h.of_le rfl (List.Subset.refl _) (List.Subset.refl _) rfl, fun _ => Nat.le_refl _⟩
    exact ⟨(hkept.suspend hrequest).known, fun hcapped => iff_of_true hcapped trivial⟩
  | resume j =>
    obtain ⟨call, hget, -⟩ := he
    have hget : s.calls[j]? = some call := hget
    have hrest : ({ s with reply := none, calls := s.calls.eraseIdx j } : AuthServer).Known :=
      h.of_le rfl (List.Subset.refl _) (fun _ => List.mem_of_mem_eraseIdx) rfl
    have hnext : s.next bcrypt (now, .resume j) =
        ({ s with reply := none, calls := s.calls.eraseIdx j } : AuthServer).run bcrypt now call := by
      simp only [AuthServer.next, AuthServer.step, hget, Option.elim_some]
    rw [hnext]
    obtain ⟨hknown, hiff⟩ := hrest.run_capped bcrypt now (h.calls call (List.mem_of_getElem? hget))
    refine ⟨hknown, fun hcapped => (hiff hcapped).trans ?_⟩
    refine Iff.trans ?_ (⟨fun hroom other hother => ?_, fun hall => hall call hget⟩ : call.FindsRoom s ↔ _)
    · cases call <;> exact Iff.rfl
    · exact Option.some.inj (hget.symm.trans hother) ▸ hroom

end

end AuthServer

theorem sessions_capped_iff {bcrypt : Bcrypt} {es : List (Time × AuthInput)}
    (hes : (authServer bcrypt).Allowed .start es) :
    (authServer bcrypt).Throughout AuthServer.SessionsCapped .start es ↔
      ((authServer bcrypt).restrict AuthServer.FindsRoom).Allowed .start es := by
  have hknown : AuthServer.start.Known :=
    ⟨List.forall_mem_nil _, List.forall_mem_nil _, List.forall_mem_nil _⟩
  have hnone : AuthServer.start.SessionsCapped := Capped.nil
  exact Machine.throughout_iff (I := AuthServer.Known) (fun _ _ h he => (h.step he).1)
    (fun _ _ h hcapped he => (h.step he).2 hcapped) hknown hnone hes

end Vesper.Auth

namespace Vesper.Server
open Vesper.Auth (authServer AuthServer AuthInput Bcrypt)

/-! ## All three -/

/-- Throughout its runs a table stays within its cap, and registrations of one bundle return one device, if
and only if every row is created while there still is room for it, and no device while its bundle is
registered. -/
theorem caps_hold_iff (verifyKeyBundle : Text → Bool) (devices : List (PoolEvent DeviceRequest))
    (bcrypt : Bcrypt) (sessions : List (Time × AuthInput)) (db : Database) (pins : List (PoolEvent PinRequest))
    (hsessions : (authServer bcrypt).Allowed .start sessions) :
    ((deviceMachine verifyKeyBundle).Throughout (·.store.WithinCap) (deviceMachine verifyKeyBundle).init devices ↔
      ((deviceMachine verifyKeyBundle).restrict fun p e => p.Meets DeviceTask.FindsRoom e).Allowed
        (deviceMachine verifyKeyBundle).init devices) ∧
    ((authServer bcrypt).Throughout AuthServer.SessionsCapped .start sessions ↔
      ((authServer bcrypt).restrict AuthServer.FindsRoom).Allowed .start sessions) ∧
    ((pinMachine db).Throughout (·.store.PinsCapped) (pinMachine db).init pins ↔
      ((pinMachine db).restrict fun p e => p.Meets PinTask.FindsRoom e).Allowed (pinMachine db).init pins) :=
  ⟨devices_capped_iff verifyKeyBundle devices, Auth.sessions_capped_iff hsessions, pins_capped_iff db pins⟩

/-- A device registers, then again; she pins a message. -/
theorem caps_hold_in_turn :
    (deviceMachine fun _ => true).Throughout (·.store.WithinCap) (deviceMachine fun _ => true).init
        [.call (.register 0 1 [7] none), .resume 0, .resume 0, .resume 0, .call (.register 1 1 [7] none),
          .resume 0, .resume 0] ∧
      (authServer .plain).Throughout AuthServer.SessionsCapped .start Auth.registered ∧
      (pinMachine (.fresh [] [])).Throughout (·.store.PinsCapped) (pinMachine (.fresh [] [])).init
        [.call (.addPinnedMessage 0 1 1 1), .resume 0] := by
  obtain ⟨hdevices, hsessions, hpins⟩ := caps_hold_iff (fun _ => true)
    [.call (.register 0 1 [7] none), .resume 0, .resume 0, .resume 0, .call (.register 1 1 [7] none),
      .resume 0, .resume 0] .plain Auth.registered (.fresh [] [])
    [.call (.addPinnedMessage 0 1 1 1), .resume 0] (by decide)
  exact ⟨hdevices.mpr (by decide), hsessions.mpr (by decide), hpins.mpr (by decide)⟩

/-- As many handlers go on together for so many stretches, and finish. -/
def together {ρ : Type} (handlers stretches : Nat) : List (PoolEvent ρ) :=
  (List.replicate stretches ((List.range handlers).map PoolEvent.resume)).flatten ++
    List.replicate handlers (PoolEvent.resume 0)

/-- Six devices register at the same time. -/
def sixRegister : List (PoolEvent DeviceRequest) :=
  (List.range 6).map (fun (i : Nat) => .call (.register 0 1 [i.toUInt16] none)) ++ together 6 2

/-- One device registers twice at the same time. -/
def registersTwice : List (PoolEvent DeviceRequest) :=
  List.replicate 2 (.call (.register 0 1 [7] none)) ++ together 2 2

/-- She logs in from five more browsers at the same time. -/
def fiveLogins : List (Time × AuthInput) :=
  Auth.registered ++ ((List.range 5).map (fun (i : Nat) => AuthInput.call (.login [97] [1] [i.toUInt16 + 1])) ++
    List.replicate 25 (AuthInput.resume 0)).map (0, ·)

/-- A group with more messages than can be pinned. -/
def Database.manyMessages : Database :=
  { Database.fresh [⟨1, [], [], [], none, false, 0⟩] [] with
    conversations := [⟨1, .group, none, none, none, 1, 0, 0⟩]
    members := [⟨1, 1, .owner, 0, 0, none, false, false⟩]
    messages := (List.range 21).map fun i => Message.blank i 0 1 1 [] }

/-- All of them are pinned at the same time. -/
def allPinned : List (PoolEvent PinRequest) :=
  (List.range 21).map (fun (i : Nat) => .call (.addPinnedMessage 0 1 1 i)) ++ together 21 3

/-- Each cap is broken by calls that overlap, and so is the promise to return one device. -/
theorem caps_broken :
    (¬(deviceMachine fun _ => true).Throughout (·.store.WithinCap) (deviceMachine fun _ => true).init
      sixRegister) ∧
    (¬(deviceMachine fun _ => true).Throughout (·.store.WithinCap) (deviceMachine fun _ => true).init
      registersTwice) ∧
    ((authServer .plain).Allowed .start fiveLogins ∧
      ¬(authServer .plain).Throughout AuthServer.SessionsCapped .start fiveLogins) ∧
    ¬(pinMachine .manyMessages).Throughout (·.store.PinsCapped) (pinMachine .manyMessages).init allPinned := by
  refine ⟨fun hall => ?_, fun hall => ?_, ⟨by decide +kernel, fun hall => ?_⟩, fun hall => ?_⟩
  · exact absurd (hall.last.capped 1) (by decide +kernel)
  · exact absurd (hall.last.same ⟨1, [7], 1⟩ (by decide) ⟨1, [7], 2⟩ (by decide) rfl rfl) (by decide)
  · exact absurd (hall.last 1) (by decide +kernel)
  · exact absurd (hall.last 1) (by decide +kernel)

end Vesper.Server
