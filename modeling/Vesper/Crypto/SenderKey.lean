import Vesper.Crypto.Primitives
import Std.Data.ExtTreeMap

/-!
# Sender keys

`group/sender_key.rs`, `group/mod.rs` and `group/distribution.rs`. A function that takes
`&mut SenderState` or `&mut ReceiverState` returns the state it leaves behind next to its result.
-/

namespace Vesper.SenderKey

def MAX_SKIP : UInt32 := 2000

variable (P : Primitives)

/-- The new chain key and the message key. -/
def advance (chainKey : P.Block) : P.Block × P.Block :=
  (P.hmacSha256 chainKey [0x02], P.hmacSha256 chainKey [0x01])

/-- 4-byte BE iteration || 8 zero bytes. -/
def iterationNonce (n : UInt32) : Bytes := be32 n ++ List.replicate 8 0

/-- One per conversation in which the local user sends. -/
structure SenderState where
  keyId : UInt32
  iteration : UInt32
  chainKey : P.Block
  signingKey : P.SigningKey

structure SenderKeyMessage where
  keyId : UInt32
  iteration : UInt32
  ciphertext : P.Cipher
  signature : P.Signature

/-- One per other member of a group. -/
structure ReceiverState where
  keyId : UInt32
  iteration : UInt32
  chainKey : P.Block
  signingPub : IdentityPublicKey
  skipped : Std.ExtTreeMap UInt32 P.Block

variable {P}

/-- `SenderState::generate`, its random values given. -/
def SenderState.generate (keyId : UInt32) (chainKey : Vector UInt8 32) (signingKey : P.SigningKey) :
    SenderState P :=
  { keyId, iteration := 0, chainKey := P.block chainKey, signingKey }

/-- Advance the chain by one step; the message key and its nonce. -/
def SenderState.nextMessageKey (s : SenderState P) : SenderState P × P.Block × Bytes :=
  let nonce := iterationNonce s.iteration
  let (newCk, messageKey) := advance P s.chainKey
  ({ s with chainKey := newCk, iteration := s.iteration + 1 }, messageKey, nonce)

def messageAad (keyId iteration : UInt32) : Bytes := be32 keyId ++ be32 iteration

def signedPayload (keyId iteration : UInt32) (ciphertext : P.Cipher) : Bytes × Option P.Cipher :=
  (be32 keyId ++ be32 iteration, some ciphertext)

def encrypt (state : SenderState P) (plaintext : Bytes) :
    SenderState P × Except Fault (SenderKeyMessage P) :=
  let keyId := state.keyId
  let iteration := state.iteration
  let (state, mk, nonce) := state.nextMessageKey
  match aeadEncrypt P mk nonce plaintext (messageAad keyId iteration) with
  | .error e => (state, .error e)
  | .ok ciphertext =>
    let signature := P.sign state.signingKey (signedPayload keyId iteration ciphertext)
    (state, .ok { keyId, iteration, ciphertext, signature })

/-- `k` rounds of the `while self.iteration < target` loop of `message_key_for`: the chain key, the
iteration and the cache after them. -/
def skipLoop : Nat → P.Block → UInt32 → Std.ExtTreeMap UInt32 P.Block →
    P.Block × UInt32 × Std.ExtTreeMap UInt32 P.Block
  | 0, chainKey, iteration, skipped => (chainKey, iteration, skipped)
  | k + 1, chainKey, iteration, skipped =>
    let (newCk, mk) := advance P chainKey
    skipLoop k newCk (iteration + 1) (skipped.insert iteration mk)

/-- The message key of iteration `target`, taken from the cache or drawn from the chain. -/
def ReceiverState.messageKeyFor (s : ReceiverState P) (target : UInt32) :
    ReceiverState P × Except Fault P.Block :=
  match s.skipped[target]? with
  | some copy => ({ s with skipped := s.skipped.erase target }, .ok copy)
  | none =>
    -- key already consumed and not in the cache: a replay or too large a gap
    if target < s.iteration then (s, .error (.error .decryptionFailed))
    else
      let gap := target - s.iteration
      if MAX_SKIP < gap then (s, .error (.error .skipLimitExceeded))
      else
        let (chainKey, iteration, skipped) := skipLoop gap.toNat s.chainKey s.iteration s.skipped
        let (newCk, messageKey) := advance P chainKey
        ({ s with chainKey := newCk, iteration := iteration + 1, skipped }, .ok messageKey)

/-- The signature is verified before a key is derived. -/
def decrypt (state : ReceiverState P) (msg : SenderKeyMessage P) :
    ReceiverState P × Except Fault Bytes :=
  let payload := signedPayload msg.keyId msg.iteration msg.ciphertext
  match state.signingPub.verify P payload msg.signature with
  | .error e => (state, .error e)
  | .ok () =>
    match state.messageKeyFor msg.iteration with
    | (state, .error e) => (state, .error e)
    | (state, .ok mk) =>
      (state, aeadDecrypt P mk (iterationNonce msg.iteration) msg.ciphertext
        (messageAad msg.keyId msg.iteration))

/-! ## Distribution -/

variable (P) in
structure SenderKeyDistributionMessage where
  keyId : UInt32
  iteration : UInt32
  chainKey : P.Block
  signingPub : IdentityPublicKey

/-- A snapshot of the sender's current state. -/
def createDistributionMessage (state : SenderState P) : SenderKeyDistributionMessage P where
  keyId := state.keyId
  iteration := state.iteration
  chainKey := state.chainKey
  signingPub := P.verifyingKey state.signingKey

def processDistributionMessage (msg : SenderKeyDistributionMessage P) : ReceiverState P where
  keyId := msg.keyId
  iteration := msg.iteration
  chainKey := msg.chainKey
  signingPub := msg.signingPub
  skipped := ∅

def u32Be (b : Bytes) : UInt32 := .ofNat (b.foldl (fun n x => 256 * n + x.toNat) 0)

theorem u32Be_be32 (n : UInt32) : u32Be (be32 n) = n := by
  have hn := n.toNat_lt
  apply UInt32.toNat_inj.mp
  simp only [u32Be, be32, List.foldl_cons, List.foldl_nil, UInt8.toNat_ofNat', UInt32.toNat_ofNat']
  omega

theorem be32_u32Be {b : Bytes} (h : b.length = 4) : be32 (u32Be b) = b := by
  match b, h with
  | [w, x, y, z], _ =>
    have hw := w.toNat_lt
    have hx := x.toNat_lt
    have hy := y.toNat_lt
    have hz := z.toNat_lt
    simp only [u32Be, be32, List.foldl_cons, List.foldl_nil, UInt32.toNat_ofNat', List.cons.injEq, and_true,
      ← UInt8.toNat_inj, UInt8.toNat_ofNat']
    omega

/-- `key_id(4) || iteration(4) || chain_key(32) || signing_pub(32)`, or nothing when too short. -/
def receiverFromDist (distMsg : Bytes) : Option (ReceiverState P) :=
  if h : distMsg.length < 72 then none
  else some {
    keyId := u32Be (distMsg.take 4)
    iteration := u32Be ((distMsg.drop 4).take 4)
    chainKey := P.block (to32 distMsg 8 (by omega))
    signingPub := ⟨to32 distMsg 40 (by omega)⟩
    skipped := ∅ }

/-- Every message long enough makes a receiver: nothing in it is authenticated. -/
theorem receiverFromDist_isSome {distMsg : Bytes} (h : 72 ≤ distMsg.length) :
    (receiverFromDist (P := P) distMsg).isSome := by
  rw [receiverFromDist, dif_neg (by omega)]
  rfl

/-- **The parts of a distribution message** are read back. -/
theorem receiverFromDist_append (keyId iteration : UInt32) (chainKey signingPub : Vector UInt8 32) :
    receiverFromDist (P := P)
        (be32 keyId ++ (be32 iteration ++ (chainKey.toList ++ signingPub.toList))) =
      some { keyId, iteration, chainKey := P.block chainKey, signingPub := ⟨signingPub⟩, skipped := ∅ } := by
  have hlength : (be32 keyId ++ (be32 iteration ++ (chainKey.toList ++ signingPub.toList))).length = 72 := by
    simp
  rw [receiverFromDist, dif_neg (by omega)]
  congr 2
  · rw [List.take_left' (be32_length _), u32Be_be32]
  · rw [List.drop_left' (be32_length _), List.take_left' (be32_length _), u32Be_be32]
  · exact congrArg P.block (to32_append (a := be32 keyId ++ be32 iteration) (List.append_assoc ..).symm rfl _)
  · refine congrArg IdentityPublicKey.mk
      (to32_append (a := be32 keyId ++ be32 iteration ++ chainKey.toList) (c := []) ?_ ?_ _)
    · simp
    · simp

end Vesper.SenderKey
