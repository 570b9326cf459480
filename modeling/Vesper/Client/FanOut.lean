import Vesper.Server.Database
import Mathlib.Data.List.Perm.Basic

/-!
# Fan-out to devices

A direct message is encrypted once, under a message key that every target device gets in an envelope
of its own. `encryptDirect` falls back to the session of the two users when there is no envelope.
-/

namespace Vesper.Client
open Server (UserId DeviceId Text)

/-- An answer to `/keys/v3/devices/:userId`: some devices of the user, each once. A device belongs to
one user. -/
def DeviceList (owner : DeviceId → UserId) (u : UserId) : Type :=
  { devices : List DeviceId // devices.Nodup ∧ ∀ d ∈ devices, owner d = u }

/-- The message key as `drDeviceEncrypt` wraps it for a device. -/
structure WrappedKey where
  deviceId : DeviceId
  messageKey : Nat
  deriving DecidableEq, Repr

structure KeyEnvelope where
  deviceId : DeviceId
  ciphertext : WrappedKey
  deriving DecidableEq, Repr

/-- A text under a message key. -/
structure V3Content where
  messageKey : Nat
  plaintext : Text
  deriving DecidableEq, Repr

/-- What one call meets: the answers to its requests, if they come, the outcome of every
`drDeviceEncrypt` and the order in which these settle. -/
structure FanOut (owner : DeviceId → UserId) where
  messageKey : Nat
  devices : (u : UserId) → Option (DeviceList owner u)
  drDeviceEncrypt : DeviceId → Bool
  settle : (targets : List DeviceId) → { settled : List DeviceId // settled.Perm targets }

/-- The variables of the module `useE2E`; identifiers that are not set are `none`. -/
structure E2E where
  identity : Bool
  myDeviceId : Option DeviceId
  currentUserId : Option UserId
  deriving DecidableEq, Repr

section
variable {owner : DeviceId → UserId}

namespace FanOut
variable (f : FanOut owner)

/-- `api.get(…).then(r => r.data).catch(() => [])` -/
def fetch (u : UserId) : List DeviceId :=
  match f.devices u with
  | some answer => answer.val
  | none => []

def ownDevices (currentUserId recipientUserId : UserId) : List DeviceId :=
  if recipientUserId ≠ currentUserId then f.fetch currentUserId else []

def targetDeviceIds (myDeviceId : DeviceId) (currentUserId recipientUserId : UserId) : List DeviceId :=
  f.fetch recipientUserId ++ (f.ownDevices currentUserId recipientUserId).filter (· ≠ myDeviceId)

def envelopes (myDeviceId : DeviceId) (currentUserId recipientUserId : UserId) : List KeyEnvelope :=
  (f.settle (f.targetDeviceIds myDeviceId currentUserId recipientUserId)).val.filterMap fun deviceId =>
    if f.drDeviceEncrypt deviceId then some ⟨deviceId, deviceId, f.messageKey⟩ else none

end FanOut

def encryptV3Internal (e : E2E) (f : FanOut owner) (plaintext : Text) (recipientUserId : UserId) :
    Option (V3Content × List KeyEnvelope) :=
  match e.identity, e.myDeviceId, e.currentUserId with
  | true, some myDeviceId, some currentUserId =>
    some (⟨f.messageKey, plaintext⟩, f.envelopes myDeviceId currentUserId recipientUserId)
  | _, _, _ => none

/-- What `encryptDirect` returns: content with envelopes, or what `encrypt` makes of the text for the
peer. -/
inductive DirectPayload
  | v3 (content : V3Content) (envelopes : List KeyEnvelope) (senderDeviceId : DeviceId)
  | v2 (content : Text) (otherUserId : Option UserId)
  deriving DecidableEq, Repr

/-- `hookDeviceId` is the device as the hook last returned it. -/
def encryptDirect (e : E2E) (hookDeviceId : Option DeviceId) (f : FanOut owner) (content : Text)
    (otherUserId : Option UserId) : DirectPayload :=
  match hookDeviceId, otherUserId with
  | some myDeviceId, some peer =>
    match encryptV3Internal e f content peer with
    | some (v3, envelopes) =>
      if 0 < envelopes.length then .v3 v3 envelopes myDeviceId else .v2 content otherUserId
    | none => .v2 content otherUserId
  | _, _ => .v2 content otherUserId

/-- `decryptV3Internal` on a device that can open what was wrapped for it. -/
def decryptV3Internal (myDeviceId : DeviceId) (content : V3Content) (envelopes : List KeyEnvelope) :
    Option Text := do
  let myEnvelope ← envelopes.find? (·.deviceId = myDeviceId)
  if myEnvelope.ciphertext = ⟨myDeviceId, content.messageKey⟩ then some content.plaintext else none

/-! ## Who gets an envelope -/

namespace FanOut
variable {f : FanOut owner} {me : DeviceId} {u peer : UserId} {d : DeviceId}

theorem fetch_nodup (f : FanOut owner) (u : UserId) : (f.fetch u).Nodup := by
  unfold fetch
  split
  · rename_i answer _
    exact answer.property.1
  · exact .nil

theorem owner_of_fetch (h : d ∈ f.fetch u) : owner d = u := by
  unfold fetch at h
  split at h
  · rename_i answer _
    exact answer.property.2 d h
  · cases h

theorem owner_of_ownDevices (h : d ∈ f.ownDevices u peer) : owner d = u ∧ peer ≠ u := by
  unfold ownDevices at h
  split at h
  · exact ⟨owner_of_fetch h, ‹_›⟩
  · cases h

/-- No device of the peer is one of the user's own. -/
theorem targetDeviceIds_nodup (f : FanOut owner) (me : DeviceId) (u peer : UserId) :
    (f.targetDeviceIds me u peer).Nodup := by
  have hown : (f.ownDevices u peer).Nodup := by
    unfold ownDevices
    split
    · exact f.fetch_nodup u
    · exact .nil
  refine (f.fetch_nodup peer).append (hown.filter _) fun d hpeer hfiltered => ?_
  obtain ⟨howner, hne⟩ := owner_of_ownDevices (List.mem_of_mem_filter hfiltered)
  exact hne ((owner_of_fetch hpeer).symm.trans howner)

theorem mem_envelopes {e : KeyEnvelope} : e ∈ f.envelopes me u peer ↔
    e.deviceId ∈ f.targetDeviceIds me u peer ∧ f.drDeviceEncrypt e.deviceId ∧
      e.ciphertext = ⟨e.deviceId, f.messageKey⟩ := by
  have hmem := fun d => (f.settle (f.targetDeviceIds me u peer)).property.mem_iff (a := d)
  simp only [envelopes, List.mem_filterMap, Option.ite_none_right_eq_some, Option.some.injEq]
  constructor
  · rintro ⟨d, hd, hencrypt, rfl⟩
    exact ⟨(hmem d).mp hd, hencrypt, rfl⟩
  · rintro ⟨hd, hencrypt, hciphertext⟩
    refine ⟨e.deviceId, (hmem _).mpr hd, hencrypt, ?_⟩
    rw [← hciphertext]

theorem envelopes_nodup (f : FanOut owner) (me : DeviceId) (u peer : UserId) :
    ((f.envelopes me u peer).map (·.deviceId)).Nodup := by
  have hmap : (f.envelopes me u peer).map (·.deviceId) =
      (f.settle (f.targetDeviceIds me u peer)).val.filter f.drDeviceEncrypt := by
    rw [envelopes, List.map_filterMap, ← List.filterMap_eq_filter]
    refine List.filterMap_congr fun d _ => ?_
    cases hencrypt : f.drDeviceEncrypt d <;> simp [Option.guard, hencrypt]
  rw [hmap]
  exact ((f.settle _).property.nodup_iff.mpr (f.targetDeviceIds_nodup me u peer)).filter _

/-- Who can read the message: the devices that have an envelope. -/
theorem decrypt_envelopes {content : Text} :
    decryptV3Internal d ⟨f.messageKey, content⟩ (f.envelopes me u peer) = some content ↔
      d ∈ f.targetDeviceIds me u peer ∧ f.drDeviceEncrypt d := by
  simp only [decryptV3Internal, Option.bind_eq_bind, Option.bind_eq_some_iff]
  constructor
  · rintro ⟨e, hfound, -⟩
    obtain ⟨htarget, hencrypt, -⟩ := mem_envelopes.mp (List.mem_of_find?_eq_some hfound)
    have hd : e.deviceId = d := by simpa using List.find?_some hfound
    exact hd ▸ ⟨htarget, hencrypt⟩
  · rintro ⟨htarget, hencrypt⟩
    have hmem : (⟨d, d, f.messageKey⟩ : KeyEnvelope) ∈ f.envelopes me u peer :=
      mem_envelopes.mpr ⟨htarget, hencrypt, rfl⟩
    obtain ⟨e, hfound⟩ := Option.isSome_iff_exists.mp
      (List.find?_isSome.mpr ⟨_, hmem, decide_eq_true rfl⟩ :
        ((f.envelopes me u peer).find? (·.deviceId = d)).isSome)
    have hd : e.deviceId = d := by simpa using List.find?_some hfound
    obtain ⟨-, -, hciphertext⟩ := mem_envelopes.mp (List.mem_of_find?_eq_some hfound)
    exact ⟨e, hfound, if_pos (by rw [hciphertext, hd])⟩

end FanOut

/-! ## Whether the peer is reached -/

/-- A message under `v3` has no device twice and can be read on a device of the peer; without `v3`, the
text goes to the peer's session. -/
def DirectPayload.Reaches (owner : DeviceId → UserId) (content : Text) (otherUserId : Option UserId) :
    DirectPayload → Prop
  | .v3 content' envelopes _ =>
    (∃ d, some (owner d) = otherUserId ∧ decryptV3Internal d content' envelopes = some content) ∧
      (envelopes.map (·.deviceId)).Nodup
  | .v2 text peer => text = content ∧ peer = otherUserId

/-- An envelope for the peer was made, or none at all. -/
def FanOut.ForPeer (f : FanOut owner) (me : DeviceId) (u peer : UserId) : Prop :=
  (∃ d ∈ f.fetch peer, f.drDeviceEncrypt d) ∨ ∀ d ∈ f.ownDevices u peer, d ≠ me → ¬f.drDeviceEncrypt d

theorem reaches_v3_iff {f : FanOut owner} {me sender : DeviceId} {u peer : UserId} {content : Text} :
    (DirectPayload.v3 ⟨f.messageKey, content⟩ (f.envelopes me u peer) sender).Reaches owner content
      (some peer) ↔ ∃ d ∈ f.fetch peer, f.drDeviceEncrypt d := by
  simp only [DirectPayload.Reaches, FanOut.decrypt_envelopes, f.envelopes_nodup, and_true,
    Option.some.injEq]
  constructor
  · rintro ⟨d, rfl, htarget, hencrypt⟩
    refine ⟨d, ?_, hencrypt⟩
    obtain hpeer | hown := List.mem_append.mp htarget
    · exact hpeer
    · obtain ⟨howner, hne⟩ := FanOut.owner_of_ownDevices (List.mem_of_mem_filter hown)
      exact absurd howner hne
  · rintro ⟨d, hd, hencrypt⟩
    exact ⟨d, FanOut.owner_of_fetch hd, List.mem_append_left _ hd, hencrypt⟩

theorem forPeer_of_none {f : FanOut owner} {me : DeviceId} {u peer : UserId}
    (h : ¬0 < (f.envelopes me u peer).length) : f.ForPeer me u peer := by
  refine .inr fun d hd hne hencrypt => h (List.length_pos_of_mem (a := ⟨d, d, f.messageKey⟩) ?_)
  refine FanOut.mem_envelopes.mpr ⟨List.mem_append_right _ ?_, hencrypt, rfl⟩
  exact List.mem_filter.mpr ⟨hd, decide_eq_true hne⟩

theorem forPeer_iff_of_some {f : FanOut owner} {me : DeviceId} {u peer : UserId}
    (h : 0 < (f.envelopes me u peer).length) :
    f.ForPeer me u peer ↔ ∃ d ∈ f.fetch peer, f.drDeviceEncrypt d := by
  constructor
  · rintro (hpeer | hown)
    · exact hpeer
    obtain ⟨e, he⟩ := List.exists_mem_of_length_pos h
    obtain ⟨htarget, hencrypt, -⟩ := FanOut.mem_envelopes.mp he
    obtain hpeer | hfiltered := List.mem_append.mp htarget
    · exact ⟨e.deviceId, hpeer, hencrypt⟩
    · obtain ⟨hd, hne⟩ := List.mem_filter.mp hfiltered
      exact absurd hencrypt (hown e.deviceId hd (of_decide_eq_true hne))
  · exact .inl

/-- The peer is reached if and only if no own device alone got an envelope. -/
theorem encryptDirect_reaches_iff (owner : DeviceId → UserId) (e : E2E) (hookDeviceId : Option DeviceId)
    (f : FanOut owner) (content : Text) (otherUserId : Option UserId) :
    (encryptDirect e hookDeviceId f content otherUserId).Reaches owner content otherUserId ↔
      ∀ me ∈ e.myDeviceId, ∀ u ∈ e.currentUserId, ∀ peer ∈ otherUserId,
        e.identity → hookDeviceId ≠ none → f.ForPeer me u peer := by
  have hv2 : (DirectPayload.v2 content otherUserId).Reaches owner content otherUserId := ⟨rfl, rfl⟩
  obtain ⟨identity, myDeviceId, currentUserId⟩ := e
  rcases hookDeviceId with _ | sender
  · exact iff_of_true hv2 fun _ _ _ _ _ _ _ hnone => absurd rfl hnone
  rcases otherUserId with _ | peer
  · exact iff_of_true hv2 fun _ _ _ _ _ hpeer => nomatch hpeer
  rcases identity with _ | _
  · exact iff_of_true hv2 fun _ _ _ _ _ _ hidentity => nomatch hidentity
  rcases myDeviceId with _ | me
  · exact iff_of_true hv2 fun _ hme => nomatch hme
  rcases currentUserId with _ | u
  · exact iff_of_true hv2 fun _ _ _ hu => nomatch hu
  have hcondition : (∀ me' ∈ some me, ∀ u' ∈ some u, ∀ peer' ∈ some peer,
      true → some sender ≠ none → f.ForPeer me' u' peer') ↔ f.ForPeer me u peer := by
    simp
  refine Iff.trans ?_ hcondition.symm
  simp only [encryptDirect, encryptV3Internal]
  split
  · rename_i hpos
    rw [reaches_v3_iff, forPeer_iff_of_some hpos]
  · rename_i hnone
    exact iff_of_true hv2 (forPeer_of_none hnone)

/-- User 1 has the devices 1 and 2, user 2 has device 3, for which no key bundle is found. -/
def unreachable : FanOut fun d => if d = 3 then 2 else 1 where
  messageKey := 7
  devices u := match u with
    | 1 => some ⟨[1, 2], by decide⟩
    | 2 => some ⟨[3], by decide⟩
    | _ => none
  drDeviceEncrypt d := d ≠ 3
  settle targets := ⟨targets, .refl targets⟩

/-- Only the sender's other device gets an envelope. -/
theorem encryptDirect_leaves_peer_out : ¬∀ (owner : DeviceId → UserId) (e : E2E)
    (hookDeviceId : Option DeviceId) (f : FanOut owner) (content : Text) (peer : UserId),
    (encryptDirect e hookDeviceId f content (some peer)).Reaches owner content (some peer) := by
  intro hall
  have hreaches := hall _ ⟨true, some 1, some 1⟩ (some 1) unreachable [104, 105] 2
  have hsome : ∃ d ∈ unreachable.fetch 2, unreachable.drDeviceEncrypt d :=
    (@reaches_v3_iff _ unreachable 1 1 1 2 [104, 105]).mp hreaches
  exact absurd hsome (by decide)

end

end Vesper.Client
