import Vesper.Crypto.X3dh
import Vesper.Ratchet.Session

/-!
# 1:1 sessions of a client

`drEncrypt`, `drDecrypt` and their per-device twins of `useE2E.ts`. A call loads the session of
the pair, runs the WASM core on it and saves what comes back; a call that throws saves nothing.
`sessionEncrypt` and `sessionDecrypt` are the bodies the twins share, on the loaded session.
-/

namespace Vesper.Client
open DoubleRatchet X3dh

/-- What a rejected promise carries: a fault of the core, or the text of an `Error`. -/
inductive Thrown where
  | wasm (fault : Fault)
  | js (message : String)
  deriving DecidableEq

/-- A wire: the bytes of the init message, present when `INIT_FLAG` is set, and the ratchet message,
present when there are enough bytes for its header. -/
structure Wire (P : Primitives) where
  init : Option Bytes
  dr : Option (MessageHeader × P.Cipher)

instance [DecidableEq P.Cipher] : DecidableEq (Wire P) := fun a b =>
  decidable_of_iff (a.init = b.init ∧ a.dr = b.dr) <| by cases a; cases b; simp

/-- `IdentityKeys`, the public halves left to the primitives. -/
structure IdentityKeys (P : Primitives) where
  ikDhSecret : P.Secret
  ikSignSeed : P.SigningKey
  spkSecret : P.Secret

/-- `DeviceKeyPair` -/
structure DeviceKeyPair (P : Primitives) where
  ikDhSecret : P.Secret
  spkSecret : P.Secret

variable {P : Primitives}

def buildBundle (k : IdentityKeys P) : X3dhBundle P where
  ikSign := P.verifyingKey k.ikSignSeed
  ikDh := P.publicKey k.ikDhSecret
  spk := P.publicKey k.spkSecret
  spkSig := P.sign k.ikSignSeed ((P.publicKey k.spkSecret).bytes.toList, none)
  opk := none

/-- The identity signing key signs the device's own DH keys. -/
def buildDeviceBundle (ikSignSeed : P.SigningKey) (dk : DeviceKeyPair P) : X3dhBundle P :=
  buildBundle { ikDhSecret := dk.ikDhSecret, ikSignSeed, spkSecret := dk.spkSecret }

/-! ## Init messages -/

/-- `ik_dh_pub(32) || ek_pub(32) || opk_used(1)` -/
def initBytes (init : X3dhInitMessage) : Bytes :=
  init.ikDh.bytes.toList ++ init.ek.bytes.toList ++ [if init.opkUsed then 1 else 0]

def parseInit (initMsg : Bytes) : Except Thrown X3dhInitMessage :=
  if h : initMsg.length < 65 then .error (.js "init message too short")
  else .ok {
    ikDh := ⟨to32 initMsg 0 (by omega)⟩
    ek := ⟨to32 initMsg 32 (by omega)⟩
    opkUsed := initMsg[64] ≠ 0 }

/-- What is packed on one side is parsed on the other. -/
@[simp] theorem parseInit_initBytes (init : X3dhInitMessage) :
    parseInit (initBytes init) = .ok init := by
  have hlen : (initBytes init).length = 65 := by simp [initBytes]
  obtain ⟨⟨ikDh⟩, ⟨ek⟩, opkUsed⟩ := init
  rw [parseInit, dif_neg (by omega)]
  simp only [Except.ok.injEq, X3dhInitMessage.mk.injEq, KeyAgreementPublicKey.mk.injEq]
  refine ⟨?_, ?_, ?_⟩
  · rw [← Vector.toArray_inj]
    simp [to32, initBytes, Vector.toList]
  · rw [← Vector.toArray_inj]
    simp [to32, initBytes, Vector.toList]
  · cases opkUsed <;> simp [initBytes]

/-! ## The core on a session -/

def liftWasm {α : Type} : Except Fault α → Except Thrown α := Except.mapError .wasm

def ratchetEncrypt (session : RatchetState P) (plaintext : Bytes) :
    Except Thrown (RatchetState P × MessageHeader × P.Cipher) :=
  match encrypt session plaintext [] with
  | (newSession, .ok message) => .ok (newSession, message)
  | (_, .error f) => .error (.wasm f)

def ratchetDecrypt (session : RatchetState P) (dr : Option (MessageHeader × P.Cipher))
    (fresh : P.Secret) : Except Thrown (RatchetState P × Bytes) :=
  match dr with
  | none => .error (.js "message too short")
  | some (header, ciphertext) =>
    match decrypt session header ciphertext [] fresh with
    | (newSession, .ok plaintext) => .ok (newSession, plaintext)
    | (_, .error f) => .error (.wasm f)

/-- A session from the peer's bundle, and the init message that goes with its first wire. -/
def initiate (ikDh : P.Secret) (peerBundle : X3dhBundle P) (ek fresh : P.Secret) :
    Except Thrown (RatchetState P × Bytes) := do
  let out ← liftWasm (x3dhSend ikDh peerBundle ek)
  let session ← liftWasm (initSender P out.sk peerBundle.spk fresh)
  return (session, initBytes out.init)

/-- The critical section of an encryption: the new session and the wire. `peerBundle` is what the
server answers, asked for only without a stored session. -/
def sessionEncrypt (ikDh : P.Secret) (peerBundle : Except Thrown (X3dhBundle P))
    (session : Option (RatchetState P)) (plaintext : Bytes) (ek fresh : P.Secret) :
    Except Thrown (RatchetState P × Wire P) := do
  let (session, init) ← match session with
    | some session => pure (session, none)
    | none => do
      let (session, init) ← initiate ikDh (← peerBundle) ek fresh
      pure (session, some init)
  let (newSession, message) ← ratchetEncrypt session plaintext
  return (newSession, { init, dr := some message })

/-- `wasm.x3dhReceive` without a one-time prekey. -/
def receiveInit (ikDh spk : P.Secret) (initMsg : Bytes) : Except Thrown P.Block := do
  let init ← parseInit initMsg
  liftWasm (x3dhReceive ikDh spk none init)

/-- A session from an init message. -/
def respond (ikDh spk : P.Secret) (initMsg : Bytes) (dr : Option (MessageHeader × P.Cipher))
    (fresh : P.Secret) : Except Thrown (RatchetState P × Bytes) := do
  let sk ← receiveInit ikDh spk initMsg
  ratchetDecrypt (initReceiver P sk spk) dr fresh

/-- The critical section of a decryption: the new session and the plaintext, or `null`. -/
def sessionDecrypt (ikDh spk : P.Secret) (session : Option (RatchetState P)) (wire : Wire P)
    (fresh : P.Secret) : Except Thrown (Option (RatchetState P × Bytes)) :=
  match wire.init, session with
  | some initMsg, some session =>
    -- an existing session is tried first, its failure is swallowed
    match ratchetDecrypt session wire.dr fresh with
    | .ok result => .ok (some result)
    | .error _ => (respond ikDh spk initMsg wire.dr fresh).map some
  | some initMsg, none => (respond ikDh spk initMsg wire.dr fresh).map some
  | none, some session => (ratchetDecrypt session wire.dr fresh).map some
  | none, none => .ok none

/-! ## What the critical sections do -/

variable {ikDh spk ek fresh : P.Secret} {session newSession : RatchetState P} {wire : Wire P}
  {plaintext : Bytes} {dr : Option (MessageHeader × P.Cipher)}

@[simp] theorem liftWasm_eq_ok {α : Type} {x : Except Fault α} {a : α} :
    liftWasm x = .ok a ↔ x = .ok a := mapError_eq_ok

theorem ratchetEncrypt_ok_iff {message : MessageHeader × P.Cipher} :
    ratchetEncrypt session plaintext = .ok (newSession, message) ↔
      encrypt session plaintext [] = (newSession, .ok message) := by
  unfold ratchetEncrypt
  rcases encrypt session plaintext [] with ⟨s, _ | _⟩ <;> simp

theorem ratchetDecrypt_ok_iff : ratchetDecrypt session dr fresh = .ok (newSession, plaintext) ↔
    ∃ header c, dr = some (header, c) ∧
      decrypt session header c [] fresh = (newSession, .ok plaintext) := by
  cases dr with
  | none => simp [ratchetDecrypt]
  | some message =>
    obtain ⟨header, c⟩ := message
    simp only [ratchetDecrypt, Option.some.injEq, Prod.mk.injEq]
    rcases h : decrypt session header c [] fresh with ⟨s, _ | _⟩
    · simp only [reduceCtorEq, false_iff]
      rintro ⟨_, _, ⟨rfl, rfl⟩, heq⟩
      rw [h] at heq
      cases heq
    · constructor
      · intro heq
        cases heq
        exact ⟨header, c, ⟨rfl, rfl⟩, h⟩
      · rintro ⟨_, _, ⟨rfl, rfl⟩, heq⟩
        rw [h] at heq
        cases heq
        rfl

theorem initiate_ok_iff {peerBundle : X3dhBundle P} {initMsg : Bytes} :
    initiate ikDh peerBundle ek fresh = .ok (session, initMsg) ↔
      ∃ out, x3dhSend ikDh peerBundle ek = .ok out ∧
        initSender P out.sk peerBundle.spk fresh = .ok session ∧ initBytes out.init = initMsg := by
  simp only [initiate, bind_eq_ok, liftWasm_eq_ok, pure_eq_ok, Prod.mk.injEq]
  refine exists_congr fun out => and_congr_right fun _ => ?_
  constructor
  · rintro ⟨_, h, rfl, hinit⟩
    exact ⟨h, hinit⟩
  · rintro ⟨h, hinit⟩
    exact ⟨_, h, rfl, hinit⟩

theorem sessionEncrypt_some {peerBundle : Except Thrown (X3dhBundle P)} :
    sessionEncrypt ikDh peerBundle (some session) plaintext ek fresh = .ok (newSession, wire) ↔
      ∃ message, encrypt session plaintext [] = (newSession, .ok message) ∧
        wire = { init := none, dr := some message } := by
  simp only [sessionEncrypt, pure_bind, bind_eq_ok, pure_eq_ok]
  constructor
  · rintro ⟨⟨s, message⟩, h, heq⟩
    cases heq
    exact ⟨message, ratchetEncrypt_ok_iff.mp h, rfl⟩
  · rintro ⟨message, h, rfl⟩
    exact ⟨(newSession, message), ratchetEncrypt_ok_iff.mpr h, rfl⟩

theorem sessionEncrypt_none {peerBundle : X3dhBundle P} :
    sessionEncrypt ikDh (.ok peerBundle) none plaintext ek fresh = .ok (newSession, wire) ↔
      ∃ session initMsg message, initiate ikDh peerBundle ek fresh = .ok (session, initMsg) ∧
        encrypt session plaintext [] = (newSession, .ok message) ∧
        wire = { init := some initMsg, dr := some message } := by
  simp only [sessionEncrypt, bind_eq_ok, pure_eq_ok, Except.ok.injEq, exists_eq_left']
  constructor
  · rintro ⟨⟨s, init⟩, hs, ⟨s', message⟩, h, heq⟩
    cases heq
    exact ⟨s, init, message, hs, ratchetEncrypt_ok_iff.mp h, rfl⟩
  · rintro ⟨s, init, message, hs, h, rfl⟩
    exact ⟨(s, init), hs, (newSession, message), ratchetEncrypt_ok_iff.mpr h, rfl⟩

theorem receiveInit_initBytes {init : X3dhInitMessage} {sk : P.Block} :
    receiveInit ikDh spk (initBytes init) = .ok sk ↔ x3dhReceive ikDh spk none init = .ok sk := by
  simp only [receiveInit, bind_eq_ok, parseInit_initBytes, Except.ok.injEq, exists_eq_left',
    liftWasm_eq_ok]

theorem respond_ok_iff {initMsg : Bytes} :
    respond ikDh spk initMsg dr fresh = .ok (newSession, plaintext) ↔
      ∃ sk header c, receiveInit ikDh spk initMsg = .ok sk ∧ dr = some (header, c) ∧
        decrypt (initReceiver P sk spk) header c [] fresh = (newSession, .ok plaintext) := by
  simp only [respond, bind_eq_ok, ratchetDecrypt_ok_iff, exists_and_left]

/-- A session that was built from an init message can be built from it again. -/
theorem respond_again {initMsg : Bytes}
    (h : respond ikDh spk initMsg dr fresh = .ok (newSession, plaintext)) (fresh' : P.Secret) :
    ∃ s, respond ikDh spk initMsg dr fresh' = .ok (s, plaintext) := by
  obtain ⟨sk, header, c, hsk, hdr, hdec⟩ := respond_ok_iff.mp h
  obtain ⟨mk, hadv, hopen⟩ := decrypt_ok_iff.mp (congrArg Prod.snd hdec)
  rw [advance_initReceiver sk spk fresh fresh'] at hadv
  exact ⟨_, respond_ok_iff.mpr ⟨sk, header, c, hsk, hdr,
    Prod.ext rfl (decrypt_ok_iff.mpr ⟨mk, hadv, hopen⟩)⟩⟩

/-- A wire is read with the stored session, or else with a new one from its init message. -/
theorem sessionDecrypt_some {stored : Option (RatchetState P)} :
    sessionDecrypt ikDh spk stored wire fresh = .ok (some (newSession, plaintext)) ↔
      (∃ s, stored = some s ∧ ratchetDecrypt s wire.dr fresh = .ok (newSession, plaintext)) ∨
      ∃ initMsg, wire.init = some initMsg ∧
        (∀ s, stored = some s → ∃ e, ratchetDecrypt s wire.dr fresh = .error e) ∧
        respond ikDh spk initMsg wire.dr fresh = .ok (newSession, plaintext) := by
  unfold sessionDecrypt
  cases wire.init with
  | none => cases stored <;> simp
  | some initMsg =>
    cases stored with
    | none => simp
    | some s =>
      cases h : ratchetDecrypt s wire.dr fresh with
      | ok result => simp [h]
      | error e => simp [h]

/-! ## The store -/

/-- The `ratchet` object store. -/
abbrev RatchetStore (P : Primitives) := String → Option (RatchetState P)

/-- `[a, b].sort()` compares numbers as strings. -/
def pairKey (a b : Nat) : String :=
  if toString a ≤ toString b then toString a ++ ":" ++ toString b
  else toString b ++ ":" ++ toString a

def devicePairKey (a b : Nat) : String :=
  "d" ++ toString (min a b) ++ ":d" ++ toString (max a b)

/-- Run a critical section of an encryption on the entry `ck`. -/
def encryptAt (store : RatchetStore P) (ck : String)
    (run : Option (RatchetState P) → Except Thrown (RatchetState P × Wire P)) :
    RatchetStore P × Except Thrown (Wire P) :=
  match run (store ck) with
  | .ok (newSession, wire) => (Function.update store ck (some newSession), .ok wire)
  | .error e => (store, .error e)

/-- Run a critical section of a decryption on the entry `ck`. -/
def decryptAt (store : RatchetStore P) (ck : String)
    (run : Option (RatchetState P) → Except Thrown (Option (RatchetState P × Bytes))) :
    RatchetStore P × Except Thrown (Option Bytes) :=
  match run (store ck) with
  | .ok (some (newSession, plaintext)) =>
    (Function.update store ck (some newSession), .ok (some plaintext))
  | .ok none => (store, .ok none)
  | .error e => (store, .error e)

def drEncrypt (identity : IdentityKeys P) (fetchBundle : Except Thrown (X3dhBundle P))
    (store : RatchetStore P) (myId peerId : Nat) (plaintext : Bytes) (ek fresh : P.Secret) :
    RatchetStore P × Except Thrown (Wire P) :=
  encryptAt store (pairKey myId peerId) fun session =>
    sessionEncrypt identity.ikDhSecret fetchBundle session plaintext ek fresh

def drDecrypt (identity : IdentityKeys P) (store : RatchetStore P) (myId senderId : Nat)
    (wire : Wire P) (fresh : P.Secret) : RatchetStore P × Except Thrown (Option Bytes) :=
  decryptAt store (pairKey myId senderId) fun session =>
    sessionDecrypt identity.ikDhSecret identity.spkSecret session wire fresh

/-- What `drDeviceEncrypt` does with the answer of `fetchDeviceBundle`. -/
def deviceBundle (recipientDeviceId : Nat) :
    Option (X3dhBundle P) → Except Thrown (X3dhBundle P)
  | some bundle => .ok bundle
  | none => .error (.js ("No bundle for device " ++ toString recipientDeviceId))

/-- The initiator's identity key is that of the account, also between devices. -/
def drDeviceEncrypt (identity : IdentityKeys P) (fetchDeviceBundle : Option (X3dhBundle P))
    (store : RatchetStore P) (senderDeviceId recipientDeviceId : Nat) (plaintext : Bytes)
    (ek fresh : P.Secret) : RatchetStore P × Except Thrown (Wire P) :=
  encryptAt store (devicePairKey senderDeviceId recipientDeviceId) fun session =>
    sessionEncrypt identity.ikDhSecret (deviceBundle recipientDeviceId fetchDeviceBundle) session
      plaintext ek fresh

def drDeviceDecrypt (deviceKeys : DeviceKeyPair P) (store : RatchetStore P)
    (senderDeviceId recipientDeviceId : Nat) (wire : Wire P) (fresh : P.Secret) :
    RatchetStore P × Except Thrown (Option Bytes) :=
  decryptAt store (devicePairKey senderDeviceId recipientDeviceId) fun session =>
    sessionDecrypt deviceKeys.ikDhSecret deviceKeys.spkSecret session wire fresh

/-- The session that a wire is read with when nothing goes wrong: the stored one, or without one
that of the wire's init message. -/
inductive ReadWith (ikDh spk : P.Secret) :
    Option (RatchetState P) → Option Bytes → RatchetState P → Prop
  | stored : ReadWith ikDh spk (some s) none s
  | first : receiveInit ikDh spk initMsg = .ok sk →
    ReadWith ikDh spk none (some initMsg) (initReceiver P sk spk)

theorem ReadWith.drDecrypt {identity : IdentityKeys P} {store : RatchetStore P}
    {myId senderId : Nat} {s s' : RatchetState P} {header : MessageHeader} {c : P.Cipher}
    (h : ReadWith identity.ikDhSecret identity.spkSecret (store (pairKey myId senderId)) wire.init s)
    (hdr : wire.dr = some (header, c)) (hdec : decrypt s header c [] fresh = (s', .ok plaintext)) :
    drDecrypt identity store myId senderId wire fresh =
      (Function.update store (pairKey myId senderId) (some s'), .ok (some plaintext)) := by
  have hratchet := ratchetDecrypt_ok_iff.mpr ⟨header, c, hdr, hdec⟩
  generalize hentry : store (pairKey myId senderId) = entry at h
  generalize hinit : wire.init = init at h
  cases h with
  | stored => simp only [Client.drDecrypt, decryptAt, hentry, sessionDecrypt, hinit, hratchet,
      Except.map]
  | first hsk =>
    have hresp := respond_ok_iff.mpr ⟨_, header, c, hsk, hdr, hdec⟩
    simp only [Client.drDecrypt, decryptAt, hentry, sessionDecrypt, hinit, hresp, Except.map]

/-! ## Sample clients -/

/-- Identity keys to try the clients with. -/
def sampleIdentity (b : UInt8) : IdentityKeys symbolic where
  ikDhSecret := keyPair b
  ikSignSeed := ⟨.replicate 32 b⟩
  spkSecret := keyPair (b + 1)

end Vesper.Client
