import Vesper.Client.Encoding
import Vesper.Crypto.PinKey
import Vesper.Lib.Machine

/-!
# Recovery of an identity with a PIN

`setupRecovery`, `unlockWithPin`, `resetToNewKeys` and the initialization of `useE2E.ts`, on the devices of any
users, against a server that answers as it likes. What a PIN unlocks is the identity of a device that has set up
its recovery with this PIN, all seven keys of it, and no device ever uses an identity that none has generated.
-/

namespace Vesper.Client.Recovery
open PinKey
open Unicode (Utf16 encode)

abbrev DeviceId := Nat

/-- `IdentityKeys` as the arrays that are stored. -/
structure IdentityArrays where
  ikDhSecret : Bytes
  ikSignSeed : Bytes
  spkSecret : Bytes
  ikDhPub : Bytes
  ikSignPub : Bytes
  spkPub : Bytes
  spkSig : Bytes
  deriving DecidableEq

/-- The lengths that `generateIdentityKeys` gives. -/
structure IdentityArrays.Sized (k : IdentityArrays) : Prop where
  ikDhSecret : k.ikDhSecret.length = 32
  ikSignSeed : k.ikSignSeed.length = 32
  spkSecret : k.spkSecret.length = 32
  ikDhPub : k.ikDhPub.length = 32
  ikSignPub : k.ikSignPub.length = 32
  spkPub : k.spkPub.length = 32
  spkSig : k.spkSig.length = 64

instance (k : IdentityArrays) : Decidable k.Sized :=
  decidable_of_iff (k.ikDhSecret.length = 32 ∧ k.ikSignSeed.length = 32 ∧ k.spkSecret.length = 32 ∧
    k.ikDhPub.length = 32 ∧ k.ikSignPub.length = 32 ∧ k.spkPub.length = 32 ∧ k.spkSig.length = 64)
    ⟨fun ⟨a, b, c, d, e, f, g⟩ => ⟨a, b, c, d, e, f, g⟩, fun ⟨a, b, c, d, e, f, g⟩ => ⟨a, b, c, d, e, f, g⟩⟩

/-! ## The blob -/

/-- `blob.set(array, offset)` -/
def setArray (blob array : Bytes) (offset : Nat) : Except Thrown Bytes :=
  if offset + array.length ≤ blob.length then
    .ok (blob.take offset ++ (array ++ blob.drop (offset + array.length)))
  else .error (.js "offset is out of bounds")

def pack (k : IdentityArrays) : Except Thrown Bytes := do
  let blob := List.replicate 256 0
  let blob ← setArray blob k.ikDhSecret 0
  let blob ← setArray blob k.ikSignSeed 32
  let blob ← setArray blob k.spkSecret 64
  let blob ← setArray blob k.ikDhPub 96
  let blob ← setArray blob k.ikSignPub 128
  let blob ← setArray blob k.spkPub 160
  setArray blob k.spkSig 192

def unpack (keyBytes : Bytes) : IdentityArrays where
  ikDhSecret := keyBytes.take 32
  ikSignSeed := (keyBytes.drop 32).take 32
  spkSecret := (keyBytes.drop 64).take 32
  ikDhPub := (keyBytes.drop 96).take 32
  ikSignPub := (keyBytes.drop 128).take 32
  spkPub := (keyBytes.drop 160).take 32
  spkSig := (keyBytes.drop 192).take 64

/-- An array is set on the zeros that are left. -/
theorem setArray_zeros {pre array : Bytes} {n : Nat} (m offset : Nat) (hpre : pre.length = offset)
    (hn : array.length = n) (hle : n ≤ m) : setArray (pre ++ List.replicate m 0) array offset =
      .ok (pre ++ array ++ List.replicate (m - n) 0) := by
  have hfits : offset + array.length ≤ (pre ++ List.replicate m (0 : UInt8)).length := by
    rw [List.length_append, List.length_replicate, hpre, hn]
    exact Nat.add_le_add_left hle _
  have hdrop : (pre ++ List.replicate m (0 : UInt8)).drop (offset + array.length) = List.replicate (m - n) 0 := by
    rw [List.drop_append, hpre, hn, Nat.add_sub_cancel_left, List.drop_eq_nil_of_le (by omega), List.nil_append,
      List.drop_replicate]
  rw [setArray, if_pos hfits, List.take_left' hpre, hdrop, List.append_assoc]

/-- The arrays one after the other. -/
def IdentityArrays.flat (k : IdentityArrays) : Bytes :=
  k.ikDhSecret ++ k.ikSignSeed ++ k.spkSecret ++ k.ikDhPub ++ k.ikSignPub ++ k.spkPub ++ k.spkSig

theorem pack_eq {k : IdentityArrays} (h : k.Sized) : pack k = .ok k.flat := by
  obtain ⟨h₁, h₂, h₃, h₄, h₅, h₆, h₇⟩ := h
  rw [pack]
  have hfirst : setArray ([] ++ List.replicate 256 0) k.ikDhSecret 0 = .ok ([] ++ k.ikDhSecret ++ _) :=
    setArray_zeros 256 0 rfl h₁ (by omega)
  refine bind_eq_ok.mpr ⟨_, hfirst, ?_⟩
  refine bind_eq_ok.mpr ⟨_, setArray_zeros 224 32 (by simp [h₁]) h₂ (by omega), ?_⟩
  refine bind_eq_ok.mpr ⟨_, setArray_zeros 192 64 (by simp [h₁, h₂]) h₃ (by omega), ?_⟩
  refine bind_eq_ok.mpr ⟨_, setArray_zeros 160 96 (by simp [h₁, h₂, h₃]) h₄ (by omega), ?_⟩
  refine bind_eq_ok.mpr ⟨_, setArray_zeros 128 128 (by simp [h₁, h₂, h₃, h₄]) h₅ (by omega), ?_⟩
  refine bind_eq_ok.mpr ⟨_, setArray_zeros 96 160 (by simp [h₁, h₂, h₃, h₄, h₅]) h₆ (by omega), ?_⟩
  refine (setArray_zeros 64 192 (by simp [h₁, h₂, h₃, h₄, h₅, h₆]) h₇ (by omega)).trans ?_
  exact congrArg Except.ok (List.append_nil _)

theorem IdentityArrays.slice_flat {k : IdentityArrays} (pre : Bytes) {array : Bytes} (rest : Bytes) {m n : Nat}
    (hflat : k.flat = pre ++ (array ++ rest)) (hpre : pre.length = m) (harray : array.length = n) :
    (k.flat.drop m).take n = array := by
  rw [hflat, List.drop_left' hpre, List.take_left' harray]

theorem unpack_flat {k : IdentityArrays} (h : k.Sized) : unpack k.flat = k := by
  obtain ⟨a, b, c, d, e, f, g⟩ := k
  obtain ⟨h₁, h₂, h₃, h₄, h₅, h₆, h₇⟩ := h
  have hflat : IdentityArrays.flat ⟨a, b, c, d, e, f, g⟩ = a ++ b ++ c ++ d ++ e ++ f ++ g := rfl
  rw [unpack, IdentityArrays.mk.injEq]
  refine ⟨?_, ?_, ?_, ?_, ?_, ?_, ?_⟩
  · exact IdentityArrays.slice_flat [] (b ++ c ++ d ++ e ++ f ++ g) (by simp [hflat]) rfl h₁
  · exact IdentityArrays.slice_flat a (c ++ d ++ e ++ f ++ g) (by simp [hflat]) h₁ h₂
  · exact IdentityArrays.slice_flat (a ++ b) (d ++ e ++ f ++ g) (by simp [hflat]) (by simp [*]) h₃
  · exact IdentityArrays.slice_flat (a ++ b ++ c) (e ++ f ++ g) (by simp [hflat]) (by simp [*]) h₄
  · exact IdentityArrays.slice_flat (a ++ b ++ c ++ d) (f ++ g) (by simp [hflat]) (by simp [*]) h₅
  · exact IdentityArrays.slice_flat (a ++ b ++ c ++ d ++ e) g (by simp [hflat]) (by simp [*]) h₆
  · exact IdentityArrays.slice_flat (a ++ b ++ c ++ d ++ e ++ f) [] (by simp [hflat]) (by simp [*]) h₇

/-! ## With the PIN -/

section
variable (P : PinPrimitives)

/-- What `setupRecovery` encrypts; `salt` and `nonce` are random. -/
def encryption (blob : Bytes) (pin : Utf16) (salt : Vector UInt8 16) (nonce : Vector UInt8 12) : Encryption :=
  ⟨blob, encode pin, .WASM, salt, nonce⟩

/-- The encryption and the `encryptedBlob` that is posted. -/
def protect (maxArgs : Nat) (k : IdentityArrays) (pin : Utf16) (salt : Vector UInt8 16) (nonce : Vector UInt8 12) :
    Except Thrown Utf16 := do
  let blob ← pack k
  let encBlob ← liftWasm ((encryption blob pin salt nonce).blob P)
  b64Enc maxArgs (serializeBlob encBlob)

/-- What `unlockWithPin` reads from `pendingRecoveryBlob`. -/
def openRecovery (pendingRecoveryBlob pin : Utf16) : Except Thrown IdentityArrays := do
  let data ← b64Dec pendingRecoveryBlob
  let keyBytes ← liftWasm (unlock P data (encode pin))
  return unpack keyBytes

end

/-! ## The devices -/

inductive E2EStatus
  | idle | ready | needsRecovery | needsSetup
  deriving DecidableEq, Repr

/-- What goes on in a device, from one request or write to the next. -/
inductive Task
  /-- The initialization awaits what the database has. -/
  | load (gen : Nat)
  /-- The initialization awaits `GET /keys/v2/recovery`, with the keys it has loaded. -/
  | fetch (gen : Nat) (keys : Option IdentityArrays)
  /-- The initialization awaits `POST /keys/v2` of keys it has generated. -/
  | publish (gen : Nat) (keys : IdentityArrays)
  /-- `unlockWithPin` awaits that the keys are saved. -/
  | save (keys : IdentityArrays)
  /-- `setupRecovery` awaits `POST /keys/v2/recovery`. -/
  | post (encryptedBlob : Utf16)
  /-- `resetToNewKeys` awaits that the keys are saved. -/
  | replace (keys : IdentityArrays)
  /-- `resetToNewKeys` awaits `POST /keys/v2`. -/
  | rotate (keys : IdentityArrays)
  deriving DecidableEq

structure Device where
  /-- The database. -/
  stored : Option IdentityArrays
  /-- Set together with `initialized`. -/
  identity : Option IdentityArrays
  /-- Whether there is a `currentUserId`. -/
  signedIn : Bool
  /-- Whether there is an `initPromise`. -/
  initializing : Bool
  initGeneration : Nat
  pendingRecoveryBlob : Option Utf16
  e2eStatus : E2EStatus
  tasks : List Task
  deriving DecidableEq

/-- What a request or a write comes to. -/
inductive Outcome
  | ok
  /-- `encryptedBlob`, as the server gives it. -/
  | found (encryptedBlob : Utf16)
  /-- 404, and what is generated then. -/
  | notFound (fresh : IdentityArrays)
  | failed
  deriving DecidableEq

inductive Event
  | init
  | unlockWithPin (pin : Utf16)
  | setupRecovery (pin : Utf16) (salt : Vector UInt8 16) (nonce : Vector UInt8 12)
  | resetToNewKeys (fresh : IdentityArrays)
  | resume (task : Nat) (outcome : Outcome)
  /-- The user is gone. -/
  | logout
  | clearAllKeyMaterial
  deriving DecidableEq

structure World where
  device : DeviceId → Device
  /-- Every identity that was generated; no step reads it. -/
  generated : List IdentityArrays
  /-- What was encrypted under which PIN; no step reads it. -/
  encrypted : List (IdentityArrays × Utf16 × Encryption)

namespace Device
variable (P : PinPrimitives) (x : Device)

def broadcastStatus (status : E2EStatus) : Device := { x with e2eStatus := status }
def await (task : Task) : Device := { x with tasks := x.tasks ++ [task] }
def use (keys : IdentityArrays) : Device := { x with identity := some keys }

/-- The end of the initialization: the keys are used unless they were reset meanwhile. -/
def conclude (gen : Nat) (keys : IdentityArrays) : Device :=
  if gen ≠ x.initGeneration then x
  else
    let x := x.use keys
    if x.e2eStatus = .needsSetup then x else x.broadcastStatus .ready

/-- `finally` -/
def finish : Device := { x with initializing := false }

def resume : Task → Outcome → Device
  | .load gen, _ => if gen ≠ x.initGeneration then x.finish else x.await (.fetch gen x.stored)
  | .fetch _ none, .found blob =>
    (({ x with pendingRecoveryBlob := some blob } : Device).broadcastStatus .needsRecovery).finish
  | .fetch gen none, .notFound fresh => ({ x with stored := some fresh } : Device).await (.publish gen fresh)
  | .fetch _ none, .ok | .fetch _ none, .failed => x.finish
  | .fetch gen (some keys), .found _ => (x.conclude gen keys).finish
  | .fetch gen (some keys), _ => ((x.broadcastStatus .needsSetup).conclude gen keys).finish
  | .publish gen keys, .ok => ((x.broadcastStatus .needsSetup).conclude gen keys).finish
  | .publish .., _ => x.finish
  | .save keys, .ok =>
    (({ x with stored := some keys, pendingRecoveryBlob := none } : Device).use keys).broadcastStatus .ready
  | .save _, _ => x
  | .post _, .ok => if x.e2eStatus = .needsSetup then x.broadcastStatus .ready else x
  | .post _, _ => x
  | .replace keys, .ok => ({ x with stored := some keys } : Device).await (.rotate keys)
  | .replace _, _ => x
  | .rotate keys, .ok => (x.use keys).broadcastStatus .needsSetup
  | .rotate _, _ => x

end Device

namespace World
variable (P : PinPrimitives) (maxArgs : Nat) (w : World)

def setDevice (d : DeviceId) (x : Device) : World := { w with device := Function.update w.device d x }

variable {w} in
theorem device_setDevice_self {d : DeviceId} {x : Device} : (w.setDevice d x).device d = x := Function.update_self ..

variable {w} in
theorem device_setDevice_of_ne {d d' : DeviceId} {x : Device} (h : d' ≠ d) :
    (w.setDevice d x).device d' = w.device d' := Function.update_of_ne h ..

def next : DeviceId × Event → World
  | (d, .init) =>
    let x := w.device d
    if x.initializing ∨ x.identity ≠ none then w
    else w.setDevice d (({ x with
      signedIn := true
      initializing := true
      initGeneration := x.initGeneration + 1 } : Device).broadcastStatus .idle |>.await
        (.load (x.initGeneration + 1)))
  | (d, .unlockWithPin pin) =>
    match (w.device d).pendingRecoveryBlob, (w.device d).signedIn with
    | some blob, true =>
      match openRecovery P blob pin with
      | .ok keys => w.setDevice d ((w.device d).await (.save keys))
      | .error _ => w
    | _, _ => w
  | (d, .setupRecovery pin salt nonce) =>
    match (w.device d).identity, (w.device d).signedIn with
    | some k, true =>
      match pack k with
      | .error _ => w
      | .ok blob =>
        let w := { w with encrypted := w.encrypted ++ [(k, pin, encryption blob pin salt nonce)] }
        match protect P maxArgs k pin salt nonce with
        | .ok encryptedBlob => w.setDevice d ((w.device d).await (.post encryptedBlob))
        | .error _ => w
    | _, _ => w
  | (d, .resetToNewKeys fresh) =>
    let x := w.device d
    { w.setDevice d (({ x with
        initializing := false
        initGeneration := x.initGeneration + 1 } : Device).await (.replace fresh)) with
      generated := w.generated ++ [fresh] }
  | (d, .resume i outcome) =>
    let x := w.device d
    match x.tasks[i]? with
    | none => w
    | some task =>
      let w := w.setDevice d (({ x with tasks := x.tasks.eraseIdx i } : Device).resume task outcome)
      match task, outcome with
      | .fetch _ none, .notFound fresh => { w with generated := w.generated ++ [fresh] }
      | _, _ => w
  | (d, .logout) => w.setDevice d { w.device d with
      identity := none, signedIn := false, initializing := false, pendingRecoveryBlob := none, e2eStatus := .idle }
  | (d, .clearAllKeyMaterial) => w.setDevice d { w.device d with stored := none }

/-- Whoever has what an encryption has made has it from there. -/
def Known (sealed : Set (AeadCall P.toPrimitives)) (encryptedBlob : Utf16) : Prop :=
  ∀ data, b64Dec encryptedBlob = .ok data → Produced P sealed data →
    ∃ q ∈ w.encrypted, ∃ blob, q.2.2.blob P = .ok blob ∧ serializeBlob blob = data

/-- Keys are generated with their lengths, encryptions are among those that are accounted for, and the server
may answer with any string, but for what has not been made yet. -/
def Enabled (sealed : Set (AeadCall P.toPrimitives)) : DeviceId × Event → Prop
  | (_, .init) | (_, .unlockWithPin _) | (_, .logout) | (_, .clearAllKeyMaterial) => True
  | (d, .setupRecovery pin salt nonce) => ∀ k blob, (w.device d).identity = some k → pack k = .ok blob →
    encryption blob pin salt nonce ∈ made P sealed
  | (_, .resetToNewKeys fresh) => fresh.Sized
  | (d, .resume i outcome) => i < (w.device d).tasks.length ∧
    match outcome with
    | .found encryptedBlob => w.Known P sealed encryptedBlob
    | .notFound fresh => fresh.Sized
    | .ok | .failed => True

def start : World := ⟨fun _ => ⟨none, none, false, false, 0, none, .idle, []⟩, [], []⟩

end World

def recovery (P : PinPrimitives) (maxArgs : Nat) (sealed : Set (AeadCall P.toPrimitives)) :
    Machine World (DeviceId × Event) where
  init := .start
  enabled w e := w.Enabled P sealed e
  next w e := w.next P maxArgs e

/-! ## What a PIN opens -/

section
variable {P : PinPrimitives} {sealed : Set (AeadCall P.toPrimitives)} {w : World}

def Task.keys : Task → Option IdentityArrays
  | load _ | post _ => none
  | fetch _ keys => keys
  | publish _ keys | save keys | replace keys | rotate keys => some keys

/-- The device has the keys, or is about to. -/
def Device.Holds (x : Device) (k : IdentityArrays) : Prop :=
  x.stored = some k ∨ x.identity = some k ∨ ∃ task ∈ x.tasks, task.keys = some k

/-- Every identity was generated, what is encrypted is an identity, and what is pending is known. -/
structure Genuine (P : PinPrimitives) (sealed : Set (AeadCall P.toPrimitives)) (w : World) : Prop where
  holds : ∀ d k, (w.device d).Holds k → k ∈ w.generated
  sized : ∀ k ∈ w.generated, k.Sized
  encrypted : ∀ q ∈ w.encrypted, q.1 ∈ w.generated ∧ q.2.2.keyBytes = q.1.flat ∧ q.2.2.pin = encode q.2.1 ∧
    q.2.2 ∈ made P sealed
  pending : ∀ d blob, (w.device d).pendingRecoveryBlob = some blob → w.Known P sealed blob

/-- What is pending opens with the PIN under which it was encrypted, and with no other. -/
theorem Genuine.openRecovery_eq_ok_iff (h : Genuine P sealed w) (hkdf : InjectiveKdf P)
    (haead : IdealAead P.toPrimitives sealed) {encryptedBlob pin : Utf16} (hknown : w.Known P sealed encryptedBlob)
    {k : IdentityArrays} :
    openRecovery P encryptedBlob pin = .ok k ↔ ∃ pin' e blob, (k, pin', e) ∈ w.encrypted ∧
      encode pin = encode pin' ∧ e.blob P = .ok blob ∧ b64Dec encryptedBlob = .ok (serializeBlob blob) := by
  constructor
  · intro hopen
    obtain ⟨data, hdata, hopen⟩ := bind_eq_ok.mp hopen
    obtain ⟨keyBytes, hunlock, hkeys⟩ := bind_eq_ok.mp hopen
    obtain rfl := pure_eq_ok.mp hkeys
    have hunlock := liftWasm_eq_ok.mp hunlock
    obtain ⟨e', he', blob', hblob', hdata', -, -⟩ := encryption_of_unlock haead hunlock
    obtain ⟨⟨k, pin', e⟩, hmem, blob, hblob, rfl⟩ := hknown data hdata ⟨e', he', blob', hblob', hdata'⟩
    obtain ⟨hgenerated, hflat, hpin, hmade⟩ := h.encrypted _ hmem
    have hsame := unlock_other_pin hkdf haead hmade hblob hunlock
    have hown := unlock_encryption haead hmade hblob
    rw [← hsame, hunlock] at hown
    have hkey : unpack keyBytes = k := by
      rw [Except.ok.inj hown]
      exact (congrArg unpack hflat).trans (unpack_flat (h.sized k hgenerated))
    rw [hkey]
    exact ⟨pin', e, blob, hmem, hsame.trans hpin, hblob, hdata⟩
  · rintro ⟨pin', e, blob, hmem, hencode, hblob, hdata⟩
    obtain ⟨hgenerated, hflat, hpin, hmade⟩ := h.encrypted _ hmem
    have hunlock : unlock P (serializeBlob blob) (encode pin) = .ok e.keyBytes := by
      rw [hencode, ← hpin]
      exact unlock_encryption haead hmade hblob
    refine bind_eq_ok.mpr ⟨_, hdata, bind_eq_ok.mpr ⟨_, liftWasm_eq_ok.mpr hunlock, pure_eq_ok.mpr ?_⟩⟩
    rw [hflat, unpack_flat (h.sized k hgenerated)]

end

/-! ## What a step does -/

namespace Device
variable {x : Device} {S : IdentityArrays → Prop} {keys : IdentityArrays} {gen : Nat} {task : Task}

/-- All the keys of a device are among these. -/
def Uses (x : Device) (S : IdentityArrays → Prop) : Prop := ∀ k, x.Holds k → S k

theorem Uses.await (h : x.Uses S) (htask : ∀ k, task.keys = some k → S k) : (x.await task).Uses S := by
  rintro k (hstored | hidentity | ⟨other, hmem, hkeys⟩)
  · exact h k (.inl hstored)
  · exact h k (.inr (.inl hidentity))
  · rcases List.mem_append.mp hmem with hmem | hmem
    · exact h k (.inr (.inr ⟨other, hmem, hkeys⟩))
    · cases List.mem_singleton.mp hmem
      exact htask k hkeys

theorem Uses.store (h : x.Uses S) (hkeys : S keys) : Uses { x with stored := some keys } S := by
  rintro k (hstored | hrest)
  · cases hstored
    exact hkeys
  · exact h k (.inr hrest)

theorem Uses.use (h : x.Uses S) (hkeys : S keys) : (x.use keys).Uses S := by
  rintro k (hstored | hidentity | htasks)
  · exact h k (.inl hstored)
  · cases hidentity
    exact hkeys
  · exact h k (.inr (.inr htasks))

theorem Uses.conclude (h : x.Uses S) (hkeys : S keys) : (x.conclude gen keys).Uses S := by
  rw [Device.conclude]
  split
  · exact h
  · dsimp only
    split
    · exact h.use hkeys
    · exact h.use hkeys

theorem Uses.resume (h : x.Uses S) (htask : ∀ k, task.keys = some k → S k) {outcome : Outcome}
    (hfresh : ∀ gen fresh, task = .fetch gen none → outcome = .notFound fresh → S fresh) :
    (x.resume task outcome).Uses S := by
  cases task with
  | load gen =>
    rw [Device.resume]
    split
    · exact h
    · exact h.await fun k hk => h k (.inl hk)
  | fetch gen keys =>
    cases keys with
    | none =>
      cases outcome with
      | found | ok | failed => exact h
      | notFound fresh =>
        have hkeys := hfresh gen fresh rfl rfl
        exact (h.store hkeys).await fun k hk => Option.some.inj hk ▸ hkeys
    | some keys =>
      have hkeys := htask keys rfl
      cases outcome with
      | found => exact h.conclude hkeys
      | ok | notFound | failed =>
        exact Uses.conclude (x := x.broadcastStatus .needsSetup) h hkeys
  | publish gen keys =>
    cases outcome with
    | ok => exact Uses.conclude (x := x.broadcastStatus .needsSetup) h (htask keys rfl)
    | found | notFound | failed => exact h
  | save keys =>
    cases outcome with
    | ok => exact (h.store (htask keys rfl)).use (htask keys rfl)
    | found | notFound | failed => exact h
  | post =>
    cases outcome with
    | ok =>
      rw [Device.resume]
      split <;> exact h
    | found | notFound | failed => exact h
  | replace keys =>
    cases outcome with
    | ok => exact (h.store (htask keys rfl)).await fun k hk => Option.some.inj hk ▸ htask keys rfl
    | found | notFound | failed => exact h
  | rotate keys =>
    cases outcome with
    | ok => exact h.use (htask keys rfl)
    | found | notFound | failed => exact h

theorem pending_conclude : (x.conclude gen keys).pendingRecoveryBlob = x.pendingRecoveryBlob := by
  rw [conclude]
  split
  · rfl
  · dsimp only
    split <;> rfl

theorem pending_resume {outcome : Outcome} {blob : Utf16}
    (h : (x.resume task outcome).pendingRecoveryBlob = some blob) :
    x.pendingRecoveryBlob = some blob ∨ outcome = .found blob := by
  cases task with
  | load =>
    rw [resume] at h
    split at h <;> exact .inl h
  | fetch gen keys =>
    cases keys with
    | none =>
      cases outcome with
      | found => exact .inr (congrArg Outcome.found (Option.some.inj h))
      | ok | notFound | failed => exact .inl h
    | some keys =>
      cases outcome with
      | found => exact .inl (pending_conclude.symm.trans h)
      | ok | notFound | failed =>
        exact .inl ((pending_conclude (x := x.broadcastStatus .needsSetup)).symm.trans h)
  | publish gen keys =>
    cases outcome with
    | ok => exact .inl ((pending_conclude (x := x.broadcastStatus .needsSetup)).symm.trans h)
    | found | notFound | failed => exact .inl h
  | save keys =>
    cases outcome with
    | ok => cases h
    | found | notFound | failed => exact .inl h
  | post =>
    cases outcome with
    | ok =>
      rw [resume] at h
      split at h <;> exact .inl h
    | found | notFound | failed => exact .inl h
  | replace keys | rotate keys => cases outcome <;> exact .inl h

end Device

section
variable {P : PinPrimitives} {sealed : Set (AeadCall P.toPrimitives)} {w : World} {d : DeviceId} {x : Device}

theorem Known.of_subset {w v : World} {encryptedBlob : Utf16} (h : w.Known P sealed encryptedBlob)
    (hsub : w.encrypted ⊆ v.encrypted) : v.Known P sealed encryptedBlob := fun data hdata hproduced => by
  obtain ⟨q, hq, hrest⟩ := h data hdata hproduced
  exact ⟨q, hsub hq, hrest⟩

theorem Genuine.setDevice (h : Genuine P sealed w) (huses : x.Uses (· ∈ w.generated))
    (hpending : ∀ blob, x.pendingRecoveryBlob = some blob → w.Known P sealed blob) :
    Genuine P sealed (w.setDevice d x) := by
  refine { h with holds := fun d' k hk => ?_, pending := fun d' blob hblob => ?_ }
  · by_cases hd : d' = d
    · subst hd
      rw [World.device_setDevice_self] at hk
      exact huses k hk
    · rw [World.device_setDevice_of_ne hd] at hk
      exact h.holds d' k hk
  · by_cases hd : d' = d
    · subst hd
      rw [World.device_setDevice_self] at hblob
      exact hpending blob hblob
    · rw [World.device_setDevice_of_ne hd] at hblob
      exact h.pending d' blob hblob

/-- The device has what it had, and awaits more. -/
theorem Genuine.await (h : Genuine P sealed w) {task : Task} (htask : ∀ k, task.keys = some k → k ∈ w.generated) :
    Genuine P sealed (w.setDevice d ((w.device d).await task)) :=
  h.setDevice (Device.Uses.await (h.holds d) htask) (h.pending d)

theorem Genuine.generate (h : Genuine P sealed w) {fresh : IdentityArrays} (hfresh : fresh.Sized) :
    Genuine P sealed { w with generated := w.generated ++ [fresh] } := by
  refine { h with
    holds := fun d k hk => List.mem_append_left _ (h.holds d k hk), sized := fun k hk => ?_,
    encrypted := fun q hq => (h.encrypted q hq).imp_left (List.mem_append_left _) }
  rcases List.mem_append.mp hk with hk | hk
  · exact h.sized k hk
  · cases List.mem_singleton.mp hk
    exact hfresh

theorem Genuine.encrypt (h : Genuine P sealed w) {k : IdentityArrays} (pin : Utf16) (e : Encryption)
    (hk : k ∈ w.generated) (hkey : e.keyBytes = k.flat) (hpin : e.pin = encode pin) (hmade : e ∈ made P sealed) :
    Genuine P sealed { w with encrypted := w.encrypted ++ [(k, pin, e)] } := by
  refine { h with
    encrypted := fun q hq => ?_,
    pending := fun d blob hblob => Known.of_subset (h.pending d blob hblob) (List.subset_append_left _ _) }
  rcases List.mem_append.mp hq with hq | hq
  · exact h.encrypted q hq
  · cases List.mem_singleton.mp hq
    exact ⟨hk, hkey, hpin, hmade⟩

/-- **The step lemma.** -/
theorem Genuine.next (h : Genuine P sealed w) (hkdf : InjectiveKdf P) (haead : IdealAead P.toPrimitives sealed)
    {maxArgs : Nat} {e : DeviceId × Event} (he : w.Enabled P sealed e) : Genuine P sealed (w.next P maxArgs e) := by
  obtain ⟨d, e⟩ := e
  cases e with
  | init =>
    rw [World.next]
    split
    · exact h
    · exact h.setDevice (Device.Uses.await (h.holds d) fun k hk => by cases hk) (h.pending d)
  | unlockWithPin pin =>
    rw [World.next]
    split
    · rename_i blob hblob _
      split
      · rename_i keys hopen
        refine h.await fun k hk => ?_
        obtain ⟨_, _, _, hmem, -⟩ := (h.openRecovery_eq_ok_iff hkdf haead (h.pending d blob hblob)).mp hopen
        cases hk
        exact (h.encrypted _ hmem).1
      · exact h
    · exact h
  | setupRecovery pin salt nonce =>
    rw [World.next]
    split
    · rename_i k hk _
      have hgenerated := h.holds d k (.inr (.inl hk))
      have hpack := pack_eq (h.sized k hgenerated)
      rw [hpack]
      have hencrypt := h.encrypt pin (encryption k.flat pin salt nonce) hgenerated rfl rfl
        (he k k.flat hk hpack)
      dsimp only
      split
      · exact hencrypt.await fun k hk => by cases hk
      · exact hencrypt
    · exact h
  | resetToNewKeys fresh =>
    have hgenerate := h.generate he
    refine hgenerate.setDevice (Device.Uses.await (hgenerate.holds d) fun k hk => ?_) (hgenerate.pending d)
    cases hk
    exact List.mem_append_right _ (List.mem_singleton.mpr rfl)
  | resume i outcome =>
    obtain ⟨hlt, hanswer⟩ := he
    obtain ⟨task, htask⟩ : ∃ task, (w.device d).tasks[i]? = some task := ⟨_, List.getElem?_eq_getElem hlt⟩
    have hmem := List.mem_of_getElem? htask
    have hrest : ({ w.device d with tasks := (w.device d).tasks.eraseIdx i } : Device).Uses (· ∈ w.generated) := by
      intro k hk
      refine h.holds d k (hk.imp_right fun hk => hk.imp_right fun hk => ?_)
      obtain ⟨other, hother, hkeys⟩ := hk
      exact ⟨other, List.mem_of_mem_eraseIdx hother, hkeys⟩
    have hkeys : ∀ k, task.keys = some k → k ∈ w.generated := fun k hk => h.holds d k (.inr (.inr ⟨task, hmem, hk⟩))
    have hpending : ∀ blob, (({ w.device d with tasks := (w.device d).tasks.eraseIdx i } : Device).resume task
        outcome).pendingRecoveryBlob = some blob → w.Known P sealed blob := by
      intro blob hblob
      rcases Device.pending_resume hblob with hblob | rfl
      · exact h.pending d blob hblob
      · exact hanswer
    rw [World.next]
    simp only [htask]
    split
    · rename_i fresh
      have hgenerate := h.generate hanswer
      refine hgenerate.setDevice (Device.Uses.resume (fun k hk => List.mem_append_left _ (hrest k hk))
        (fun k hk => by cases hk) fun gen fresh' _ heq => ?_) fun blob hblob => Known.of_subset (hpending blob hblob) (List.Subset.refl _)
      cases heq
      exact List.mem_append_right _ (List.mem_singleton.mpr rfl)
    · rename_i hother
      exact h.setDevice (Device.Uses.resume hrest hkeys fun gen fresh htask houtcome =>
        (hother gen fresh htask houtcome).elim) hpending
  | logout =>
    refine h.setDevice (fun k hk => h.holds d k ?_) fun blob hblob => by cases hblob
    exact hk.imp_right fun hk => .inr (hk.resolve_left fun hnone => by cases hnone)
  | clearAllKeyMaterial =>
    refine h.setDevice (fun k hk => h.holds d k ?_) (h.pending d)
    exact .inr (hk.resolve_left fun hnone => by cases hnone)

/-! ## All runs -/

theorem genuine_of_reachable (hkdf : InjectiveKdf P) (haead : IdealAead P.toPrimitives sealed) {maxArgs : Nat}
    (hw : (recovery P maxArgs sealed).Reachable w) : Genuine P sealed w := by
  refine Machine.Reachable.invariant (M := recovery P maxArgs sealed) (I := Genuine P sealed) ?_
    (fun w e _ h he => h.next hkdf haead he) hw
  refine ⟨fun d k hk => ?_, fun _ hk => absurd hk List.not_mem_nil, fun _ hq => absurd hq List.not_mem_nil,
    fun _ _ hblob => by cases hblob⟩
  rcases hk with hstored | hidentity | ⟨task, hmem, -⟩
  · cases hstored
  · cases hidentity
  · cases hmem

/-- What is posted opens with its PIN. -/
theorem openRecovery_protect (haead : IdealAead P.toPrimitives sealed) {maxArgs : Nat} {k : IdentityArrays}
    {pin encryptedBlob : Utf16} {salt : Vector UInt8 16} {nonce : Vector UInt8 12} (hk : k.Sized)
    (hmade : encryption k.flat pin salt nonce ∈ made P sealed)
    (h : protect P maxArgs k pin salt nonce = .ok encryptedBlob) : openRecovery P encryptedBlob pin = .ok k := by
  obtain ⟨flat, hflat, h⟩ := bind_eq_ok.mp h
  obtain rfl := Except.ok.inj (hflat.symm.trans (pack_eq hk))
  obtain ⟨blob, hblob, henc⟩ := bind_eq_ok.mp h
  have hunlock := unlock_encryption haead hmade (liftWasm_eq_ok.mp hblob)
  refine bind_eq_ok.mpr ⟨_, b64Dec_of_b64Enc henc, bind_eq_ok.mpr ⟨_, liftWasm_eq_ok.mpr hunlock, ?_⟩⟩
  exact pure_eq_ok.mpr (unpack_flat hk)

/-- **A PIN recovers the identity that was protected with it.** In every run of the devices, whatever the server
answers: every identity that a device has was generated by one; what a device has fetched opens with exactly the
PINs under which it was encrypted, to exactly the identity that was encrypted; and what `setupRecovery` posts
opens with its PIN to the identity of the device. -/
theorem recovery_returns_identity (hkdf : InjectiveKdf P) (haead : IdealAead P.toPrimitives sealed) {maxArgs : Nat}
    (hw : (recovery P maxArgs sealed).Reachable w) :
    (∀ d k, (w.device d).Holds k → k ∈ w.generated) ∧
      (∀ d encryptedBlob pin k, (w.device d).pendingRecoveryBlob = some encryptedBlob →
        (openRecovery P encryptedBlob pin = .ok k ↔ ∃ pin' e blob, (k, pin', e) ∈ w.encrypted ∧
          encode pin = encode pin' ∧ e.blob P = .ok blob ∧ b64Dec encryptedBlob = .ok (serializeBlob blob))) ∧
      ∀ d k pin salt nonce encryptedBlob, (w.device d).identity = some k →
        w.Enabled P sealed (d, .setupRecovery pin salt nonce) →
        protect P maxArgs k pin salt nonce = .ok encryptedBlob → openRecovery P encryptedBlob pin = .ok k := by
  have h := genuine_of_reachable hkdf haead hw
  refine ⟨h.holds, fun d blob pin k hblob => h.openRecovery_eq_ok_iff hkdf haead (h.pending d blob hblob),
    fun d k pin salt nonce blob hk he hprotect => ?_⟩
  have hsized := h.sized k (h.holds d k (.inr (.inl hk)))
  exact openRecovery_protect haead hsized (he k k.flat hk (pack_eq hsized)) hprotect

end

/-! ## Two devices -/

/-- A vault in which one encryption is made. -/
abbrev vaultPrimitives (e : Encryption) : PinPrimitives where
  __ := samplePrimitives
  openBox key nonce c aad :=
    if key = (e.pin, e.salt, e.params) ∧ nonce = e.nonce.toList ∧ c = e.keyBytes ++ List.replicate 16 0 ∧
      aad = buildAad e.params e.salt
    then some e.keyBytes else none

def vaultSealed (e : Encryption) : Set (AeadCall (vaultPrimitives e).toPrimitives) :=
  {⟨(e.pin, e.salt, e.params), e.nonce.toList, e.keyBytes, buildAad e.params e.salt⟩}

theorem idealAead_vault (e : Encryption) : IdealAead (vaultPrimitives e).toPrimitives (vaultSealed e) where
  opens_iff key nonce c aad plaintext := by
    constructor
    · intro h
      obtain ⟨⟨rfl, rfl, rfl, rfl⟩, hplain⟩ := Option.ite_none_right_eq_some.mp h
      obtain rfl := Option.some.inj hplain
      exact ⟨rfl, rfl⟩
    · rintro ⟨hmem, hseal⟩
      obtain ⟨rfl, rfl, rfl, rfl⟩ := AeadCall.mk.inj hmem
      obtain rfl := Option.some.inj hseal
      rw [Option.ite_none_right_eq_some]
      exact ⟨⟨rfl, rfl, rfl, rfl⟩, rfl⟩
  length key nonce plaintext aad c h := by
    obtain rfl := Option.some.inj h
    exact (List.length_append ..).trans rfl
  key_unique call hcall call' hcall' c _ _ := by
    obtain rfl : call = _ := hcall
    obtain rfl : call' = _ := hcall'
    rfl

def sampleKeys : IdentityArrays :=
  ⟨.replicate 32 1, .replicate 32 2, .replicate 32 3, .replicate 32 4, .replicate 32 5, .replicate 32 6,
    .replicate 64 7⟩

/-- The PIN is 42. -/
abbrev sampleProtection : Encryption := encryption sampleKeys.flat [52, 50] (.replicate 16 5) (.replicate 12 6)

abbrev sampleRecovery : Machine World (DeviceId × Event) :=
  recovery (vaultPrimitives sampleProtection) 1000 (vaultSealed sampleProtection)

/-- A device generates its identity and publishes it. -/
def generated : World :=
  sampleRecovery.exec .start [(0, .init), (0, .resume 0 .ok), (0, .resume 0 (.notFound sampleKeys)),
    (0, .resume 0 .ok)]

theorem generated_reachable : sampleRecovery.Reachable generated := by
  refine Machine.Reachable.init.exec ⟨trivial, ⟨?_, trivial⟩, ⟨?_, by decide⟩, ⟨?_, trivial⟩, trivial⟩
  · exact Nat.zero_lt_one
  · exact Nat.zero_lt_one
  · exact Nat.zero_lt_one

theorem sampleProtection_made :
    sampleProtection ∈ made (vaultPrimitives sampleProtection) (vaultSealed sampleProtection) := ⟨_, rfl, rfl⟩

/-- `setupRecovery` accounts for what it encrypts, and the other devices are as they were. -/
theorem next_setupRecovery (P : PinPrimitives) (maxArgs : Nat) {w : World} {d : DeviceId} {k : IdentityArrays}
    (pin : Utf16) (salt : Vector UInt8 16) (nonce : Vector UInt8 12) (hk : (w.device d).identity = some k)
    (hsigned : (w.device d).signedIn = true) (hsized : k.Sized) :
    (w.next P maxArgs (d, .setupRecovery pin salt nonce)).encrypted =
        w.encrypted ++ [(k, pin, encryption k.flat pin salt nonce)] ∧
      ∀ d', d' ≠ d → (w.next P maxArgs (d, .setupRecovery pin salt nonce)).device d' = w.device d' := by
  rw [World.next]
  simp only [hk, hsigned, pack_eq hsized]
  split
  · exact ⟨rfl, fun d' hd => World.device_setDevice_of_ne hd⟩
  · exact ⟨rfl, fun _ _ => rfl⟩

/-- A device that is new begins, -/
theorem next_init (P : PinPrimitives) (maxArgs : Nat) {w : World} {d : DeviceId}
    (hd : w.device d = World.start.device d) :
    (w.next P maxArgs (d, .init)).device d = ⟨none, none, true, true, 1, none, .idle, [.load 1]⟩ ∧
      (w.next P maxArgs (d, .init)).encrypted = w.encrypted := by
  rw [World.next]
  simp only [hd]
  exact ⟨World.device_setDevice_self, rfl⟩

/-- finds nothing in its database, -/
theorem next_load (P : PinPrimitives) (maxArgs : Nat) {w : World} {d : DeviceId}
    (hd : w.device d = ⟨none, none, true, true, 1, none, .idle, [.load 1]⟩) :
    (w.next P maxArgs (d, .resume 0 .ok)).device d = ⟨none, none, true, true, 1, none, .idle, [.fetch 1 none]⟩ ∧
      (w.next P maxArgs (d, .resume 0 .ok)).encrypted = w.encrypted := by
  rw [World.next]
  simp only [hd]
  exact ⟨World.device_setDevice_self, rfl⟩

/-- and is given a blob. -/
theorem next_found (P : PinPrimitives) (maxArgs : Nat) {w : World} {d : DeviceId} (blob : Utf16)
    (hd : w.device d = ⟨none, none, true, true, 1, none, .idle, [.fetch 1 none]⟩) :
    ((w.next P maxArgs (d, .resume 0 (.found blob))).device d).pendingRecoveryBlob = some blob ∧
      (w.next P maxArgs (d, .resume 0 (.found blob))).encrypted = w.encrypted := by
  rw [World.next]
  simp only [hd]
  exact ⟨congrArg Device.pendingRecoveryBlob World.device_setDevice_self, rfl⟩

/-- What one device has set up reaches another. -/
theorem exists_pending {P : PinPrimitives} {sealed : Set (AeadCall P.toPrimitives)} {w : World} {maxArgs : Nat}
    (hw : (recovery P maxArgs sealed).Reachable w) (d d' : DeviceId) {k : IdentityArrays} {pin : Utf16}
    {salt : Vector UInt8 16} {nonce : Vector UInt8 12} {blob : EncryptedKeyBlob}
    (hk : (w.device d).identity = some k) (hsigned : (w.device d).signedIn = true) (hsized : k.Sized)
    (hmade : encryption k.flat pin salt nonce ∈ made P sealed)
    (hblob : (encryption k.flat pin salt nonce).blob P = .ok blob) (hne : d' ≠ d)
    (hd : w.device d' = World.start.device d') :
    ∃ v encryptedBlob, (recovery P maxArgs sealed).Reachable v ∧
      (v.device d').pendingRecoveryBlob = some encryptedBlob ∧
      (k, pin, encryption k.flat pin salt nonce) ∈ v.encrypted ∧
      b64Dec encryptedBlob = .ok (serializeBlob blob) := by
  have hdec := b64Dec_map_urlChar (serializeBlob blob)
  generalize (Base64.toSextets (serializeBlob blob)).map urlChar = encryptedBlob at hdec
  obtain ⟨hencrypted, hother⟩ := next_setupRecovery P maxArgs pin salt nonce hk hsigned hsized
  have hsetup : (recovery P maxArgs sealed).Reachable (w.next P maxArgs (d, .setupRecovery pin salt nonce)) := by
    apply hw.step (e := (d, Event.setupRecovery pin salt nonce))
    intro k' flat hk' hflat
    obtain rfl := Option.some.inj (hk.symm.trans hk')
    obtain rfl := Except.ok.inj ((pack_eq hsized).symm.trans hflat)
    exact hmade
  generalize w.next P maxArgs (d, .setupRecovery pin salt nonce) = w₁ at hencrypted hother hsetup
  obtain ⟨hdevice, hsame⟩ := next_init P maxArgs ((hother d' hne).trans hd)
  have hinit : (recovery P maxArgs sealed).Reachable (w₁.next P maxArgs (d', .init)) :=
    hsetup.step (e := (d', Event.init)) trivial
  generalize w₁.next P maxArgs (d', .init) = w₂ at hdevice hsame hinit
  obtain ⟨hloaded, hsame₂⟩ := next_load P maxArgs hdevice
  have hload : (recovery P maxArgs sealed).Reachable (w₂.next P maxArgs (d', .resume 0 .ok)) := by
    apply hinit.step (e := (d', Event.resume 0 .ok))
    refine ⟨?_, trivial⟩
    rw [hdevice]
    exact Nat.zero_lt_one
  generalize w₂.next P maxArgs (d', .resume 0 .ok) = w₃ at hloaded hsame₂ hload
  have hmem : (k, pin, encryption k.flat pin salt nonce) ∈ w₃.encrypted := by
    rw [hsame₂, hsame, hencrypted]
    exact List.mem_append_right _ (List.mem_singleton.mpr rfl)
  obtain ⟨hpending, hsame₃⟩ := next_found P maxArgs encryptedBlob hloaded
  refine ⟨_, encryptedBlob, hload.step (e := (d', Event.resume 0 (.found encryptedBlob))) ⟨?_, ?_⟩, hpending,
    hsame₃ ▸ hmem, hdec⟩
  · rw [hloaded]
    exact Nat.zero_lt_one
  · intro data hdata _
    obtain rfl := Except.ok.inj (hdec.symm.trans hdata)
    exact ⟨_, hmem, blob, hblob, rfl⟩

/-- Another device begins, and the PIN gives it the identity. -/
theorem recovery_returns_identity_sample : ∃ w encryptedBlob, sampleRecovery.Reachable w ∧
    (w.device 1).pendingRecoveryBlob = some encryptedBlob ∧
    openRecovery (vaultPrimitives sampleProtection) encryptedBlob [52, 50] = .ok sampleKeys := by
  have hblob : sampleProtection.blob (vaultPrimitives sampleProtection) =
      .ok ⟨.WASM, .replicate 16 5, .replicate 12 6, sampleKeys.flat ++ List.replicate 16 0⟩ := rfl
  obtain ⟨w, encryptedBlob, hw, hpending, hmem, hdec⟩ := exists_pending generated_reachable 0 1 rfl rfl (by decide)
    sampleProtection_made hblob (by decide) rfl
  refine ⟨w, encryptedBlob, hw, hpending, ?_⟩
  have hkdf : InjectiveKdf (vaultPrimitives sampleProtection) := injectiveKdf_sample
  exact ((recovery_returns_identity hkdf (idealAead_vault sampleProtection) hw).2.1 1 encryptedBlob
    [52, 50] sampleKeys hpending).mpr ⟨[52, 50], sampleProtection, _, hmem, rfl, hblob, hdec⟩

end Vesper.Client.Recovery
