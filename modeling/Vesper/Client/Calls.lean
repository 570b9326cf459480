import Vesper.Client.Session
import Vesper.Crypto.SenderKey

/-!
# Calls under a lock

The calls of `useE2E.ts` that run under `withLock`, as critical sections: each reads one value of
the key database, runs the core on it and saves what comes back. What a call does is a function of
the value it reads, so the sections serve the atomic machine and the interleaved one alike.
-/

namespace Vesper.Client
open DoubleRatchet X3dh SenderKey
variable {P : Primitives}

/-! ## The key database -/

inductive StoreName where
  | identity | ratchet | groupSender | groupReceiver | msgPlaintext | mediaKeys
  deriving DecidableEq

/-- A stored value: a buffer with a ratchet session, with a sender state or with other bytes, or an
object, known by its JSON text. -/
inductive Content (P : Primitives) where
  | session (s : RatchetState P)
  | sender (s : SenderState P)
  | bytes (b : Bytes)
  | object (json : Bytes)

/-- An object store and a key of it. -/
abbrev Slot := StoreName × String

/-- `RatchetState::from_bytes` on what `loadRatchetSession` returns. -/
def loadedSession : Option (Content P) → Except Thrown (Option (RatchetState P))
  | none => .ok none
  | some (.session s) => .ok (some s)
  | some _ => .error (.wasm (.error .invalidCiphertext))

/-- `SenderState::from_bytes` on what `loadGroupSender` returns. -/
def loadedSender : Option (Content P) → Except Thrown (Option (SenderState P))
  | none => .ok none
  | some (.sender s) => .ok (some s)
  | some _ => .error (.wasm (.error .invalidCiphertext))

/-! ## Critical sections -/

/-- What a call finds outside the key database: the keys of the module, the answers of the server
and the values it draws at random. -/
structure Answers (P : Primitives) where
  identity : IdentityKeys P
  deviceKeys : DeviceKeyPair P
  peerBundle : Except Thrown (X3dhBundle P)
  posted : Bool
  ek : P.Secret
  fresh : P.Secret
  keyId : UInt32
  chainKey : Vector UInt8 32
  signingKey : P.SigningKey

/-- What a call saves, and the ciphertext that it hands out. -/
structure Outcome (P : Primitives) where
  saved : Option (Content P)
  released : Option P.Cipher

/-- A call that throws before it saves has no outcome. -/
abbrev CriticalSection (P : Primitives) := Option (Content P) → Except Thrown (Outcome P)

def encryptSection
    (run : Option (RatchetState P) → Except Thrown (RatchetState P × Wire P)) :
    CriticalSection P := fun stored => do
  let (newSession, wire) ← run (← loadedSession stored)
  return { saved := some (.session newSession), released := wire.dr.map Prod.snd }

def decryptSection
    (run : Option (RatchetState P) → Except Thrown (Option (RatchetState P × Bytes))) :
    CriticalSection P := fun stored => do
  let result ← run (← loadedSession stored)
  return { saved := result.map fun (newSession, _) => .session newSession, released := none }

def groupSenderEncrypt (sender : SenderState P) (plaintext : Bytes) : Except Thrown (Outcome P) :=
  match SenderKey.encrypt sender plaintext with
  | (newSender, .ok m) => .ok { saved := some (.sender newSender), released := some m.ciphertext }
  | (_, .error f) => .error (.wasm f)

def groupSenderGenerate (a : Answers P) : SenderState P := .generate a.keyId a.chainKey a.signingKey

/-- A new sender key is saved before it is sealed for the members and posted. -/
def doDistribute (a : Answers P) : Outcome P where
  saved := some (.sender (groupSenderGenerate a))
  released := none

/-- Without a sender key the content itself is returned, which is no ciphertext. -/
def groupSection (content : Bytes) : CriticalSection P := fun stored => do
  match ← loadedSender stored with
  | some sender => groupSenderEncrypt sender content
  | none => return { saved := none, released := none }

/-- A missing sender key is distributed first; what it saved stays when the rest fails. -/
def groupBinarySection (data : Bytes) (memberIds : List Nat) (a : Answers P) :
    CriticalSection P := fun stored => do
  match ← loadedSender stored with
  | some sender => groupSenderEncrypt sender data
  | none =>
    if memberIds = [] then return { saved := none, released := none }
    else if a.posted then
      match groupSenderEncrypt (groupSenderGenerate a) data with
      | .ok outcome => return outcome
      | .error _ => return doDistribute a
    else return doDistribute a

/-! ## The calls -/

inductive Request (P : Primitives) where
  | drEncrypt (myId peerId : Nat) (plaintext : Bytes)
  | drDecrypt (myId senderId : Nat) (wire : Wire P)
  | drDeviceEncrypt (senderDeviceId recipientDeviceId : Nat) (plaintext : Bytes)
  | drDeviceDecrypt (senderDeviceId recipientDeviceId : Nat) (wire : Wire P)
  | encryptForGroup (conversationId : Nat) (content : Bytes)
  | encryptBinaryForGroup (conversationId : Nat) (data : Bytes) (memberIds : List Nat)
  | distributeMySenderKey (conversationId : Nat)

/-- The value that the call loads and saves. -/
def Request.slot : Request P → Slot
  | .drEncrypt myId peerId _ => (.ratchet, pairKey myId peerId)
  | .drDecrypt myId senderId _ => (.ratchet, pairKey myId senderId)
  | .drDeviceEncrypt senderDeviceId recipientDeviceId _
  | .drDeviceDecrypt senderDeviceId recipientDeviceId _ =>
    (.ratchet, devicePairKey senderDeviceId recipientDeviceId)
  | .encryptForGroup conversationId _ | .encryptBinaryForGroup conversationId ..
  | .distributeMySenderKey conversationId => (.groupSender, toString conversationId)

def Request.run (a : Answers P) : Request P → CriticalSection P
  | .drEncrypt _ _ plaintext => encryptSection fun session =>
    sessionEncrypt a.identity.ikDhSecret a.peerBundle session plaintext a.ek a.fresh
  | .drDecrypt _ _ wire => decryptSection fun session =>
    sessionDecrypt a.identity.ikDhSecret a.identity.spkSecret session wire a.fresh
  | .drDeviceEncrypt _ recipientDeviceId plaintext => encryptSection fun session =>
    sessionEncrypt a.identity.ikDhSecret (deviceBundle recipientDeviceId a.peerBundle.toOption)
      session plaintext a.ek a.fresh
  | .drDeviceDecrypt _ _ wire => decryptSection fun session =>
    sessionDecrypt a.deviceKeys.ikDhSecret a.deviceKeys.spkSecret session wire a.fresh
  | .encryptForGroup _ content => groupSection content
  | .encryptBinaryForGroup _ data memberIds => groupBinarySection data memberIds a
  | .distributeMySenderKey _ => fun _ => .ok (doDistribute a)

end Vesper.Client
