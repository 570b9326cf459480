import Vesper.Crypto.Primitives
import Std.Data.ExtTreeMap
import Mathlib.Tactic.Common

/-!
# Double Ratchet

`double_ratchet.rs`: the state of one side of a session, its two initialisations, and `encrypt` and
`decrypt`. A function that takes `&mut RatchetState` returns the state it leaves behind next to its
result, also when it fails. Counters are `u32` and wrap as in the release build;
`KeyAgreementKeyPair::generate` is the argument `fresh`.
-/

namespace Vesper.DoubleRatchet

/-- Maximum messages buffered ahead per chain step. -/
def MAX_SKIP : UInt32 := 1000

structure MessageHeader where
  dh : KeyAgreementPublicKey
  pn : UInt32
  n : UInt32
  deriving DecidableEq

def encodeHeader (h : MessageHeader) : Bytes := h.dh.bytes.toList ++ (be32 h.pn ++ be32 h.n)

def messageNonce (n : UInt32) : Bytes := be32 n ++ List.replicate 8 0

def buildAad (header : MessageHeader) (extra : Bytes) : Bytes := extra ++ encodeHeader header

/-- Keys of the skipped-message cache: `(dh_pub_bytes, message_n)`. -/
abbrev SkippedKey := Bytes × UInt32

instance : Ord SkippedKey := lexOrd

instance : Std.TransOrd SkippedKey :=
  inferInstanceAs (Std.TransCmp (compareLex (compareOn Prod.fst) (compareOn Prod.snd)))

abbrev Skipped (P : Primitives) := Std.ExtTreeMap SkippedKey P.Block

structure RatchetState (P : Primitives) where
  dhs : P.Secret
  dhr : Option KeyAgreementPublicKey
  rk : P.Block
  cks : Option P.Block
  ckr : Option P.Block
  ns : UInt32
  nr : UInt32
  pn : UInt32
  mkskipped : Skipped P

variable (P : Primitives)

/-- `"DR_RK"` -/
def rkInfo : Bytes := [68, 82, 95, 82, 75]

def kdfRk (rk dhOut : P.Block) : Except Fault (P.Block × P.Block) := do
  let prk := P.hkdfExtract (some rk) [dhOut]
  let buf ← hkdfExpand P prk rkInfo 2
  return (buf[0], buf[1])

/-- The next chain key and the message key. -/
def kdfCk (ck : P.Block) : P.Block × P.Block := (P.hmacSha256 ck [0x02], P.hmacSha256 ck [0x01])

def initSender (sk : P.Block) (bobDhPub : KeyAgreementPublicKey) (fresh : P.Secret) :
    Except Fault (RatchetState P) := do
  let (rk, cks) ← kdfRk P sk (P.diffieHellman fresh bobDhPub)
  return { dhs := fresh, dhr := some bobDhPub, rk, cks := some cks, ckr := none,
           ns := 0, nr := 0, pn := 0, mkskipped := ∅ }

def initReceiver (sk : P.Block) (ourDhPair : P.Secret) : RatchetState P where
  dhs := ourDhPair
  dhr := none
  rk := sk
  cks := none
  ckr := none
  ns := 0
  nr := 0
  pn := 0
  mkskipped := ∅

variable {P}

def dhRatchet (state : RatchetState P) (dhrNew : KeyAgreementPublicKey) (fresh : P.Secret) :
    RatchetState P × Except Fault Unit :=
  let state := { state with pn := state.ns, ns := 0, nr := 0, dhr := some dhrNew }
  match kdfRk P state.rk (P.diffieHellman state.dhs dhrNew) with
  | .error e => (state, .error e)
  | .ok (rk1, ckr) =>
    let state := { state with rk := rk1, ckr := some ckr, dhs := fresh }
    match kdfRk P state.rk (P.diffieHellman state.dhs dhrNew) with
    | .error e => (state, .error e)
    | .ok (rk2, cks) => ({ state with rk := rk2, cks := some cks }, .ok ())

/-- `u32::saturating_add` -/
def saturatingAdd (a b : UInt32) : UInt32 := .ofNat (min (a.toNat + b.toNat) (2 ^ 32 - 1))

/-- `k` rounds of the `while state.nr < until` loop of `skip_message_keys`: the chain key, the
counter and the cache after them. -/
def skipLoop (dhrKey : Bytes) : Nat → P.Block → UInt32 → Skipped P → P.Block × UInt32 × Skipped P
  | 0, ckr, nr, skipped => (ckr, nr, skipped)
  | k + 1, ckr, nr, skipped =>
    let (newCk, mk) := kdfCk P ckr
    skipLoop dhrKey k newCk (nr + 1) (skipped.insert (dhrKey, nr) mk)

def skipMessageKeys (state : RatchetState P) (upto : UInt32) :
    RatchetState P × Except Fault Unit :=
  if upto ≤ state.nr then (state, .ok ())
  else if saturatingAdd state.nr MAX_SKIP < upto then (state, .error (.error .skipLimitExceeded))
  else match state.ckr with
    | none => (state, .ok ())
    | some ckrInit =>
      match state.dhr with
      | none => (state, .error (.panic "receive chain key exists but remote DH key is missing"))
      | some dhr =>
        -- each round adds one to `nr`, so the loop runs `upto - nr` times
        let (ckr, nr, mkskipped) := skipLoop dhr.bytes.toList (upto.toNat - state.nr.toNat)
          ckrInit state.nr state.mkskipped
        ({ state with ckr := some ckr, nr, mkskipped }, .ok ())

def encrypt (state : RatchetState P) (plaintext aad : Bytes) :
    RatchetState P × Except Fault (MessageHeader × P.Cipher) :=
  match state.cks with
  | none => (state, .error (.error .invalidKey))
  | some cks =>
    let (newCks, mk) := kdfCk P cks
    let header := { dh := P.publicKey state.dhs, pn := state.pn, n := state.ns }
    let state := { state with cks := some newCks, ns := state.ns + 1 }
    let ct := aeadEncrypt P mk (messageNonce header.n) plaintext (buildAad header aad)
    (state, ct.map fun c => (header, c))

def decryptWithMk (mk : P.Block) (header : MessageHeader) (ciphertext : P.Cipher) (aad : Bytes) :
    Except Fault Bytes :=
  aeadDecrypt P mk (messageNonce header.n) ciphertext (buildAad header aad)

def remoteKeyChanged (state : RatchetState P) (header : MessageHeader) : Bool :=
  match state.dhr with
  | none => true
  | some dhr => dhr ≠ header.dh

/-- The part of `decrypt` under `if remote_key_changed`. -/
def ratchetIfChanged (state : RatchetState P) (header : MessageHeader) (fresh : P.Secret) :
    RatchetState P × Except Fault Unit :=
  if remoteKeyChanged state header then
    match skipMessageKeys state header.pn with
    | (state, .error e) => (state, .error e)
    | (state, .ok ()) => dhRatchet state header.dh fresh
  else (state, .ok ())

def decrypt (state : RatchetState P) (header : MessageHeader) (ciphertext : P.Cipher)
    (aad : Bytes) (fresh : P.Secret) : RatchetState P × Except Fault Bytes :=
  let cacheKey := (header.dh.bytes.toList, header.n)
  match state.mkskipped[cacheKey]? with
  | some mk =>
    ({ state with mkskipped := state.mkskipped.erase cacheKey },
      decryptWithMk mk header ciphertext aad)
  | none =>
    match ratchetIfChanged state header fresh with
    | (state, .error e) => (state, .error e)
    | (state, .ok ()) =>
      -- buffer the messages before this one in the receive chain
      match skipMessageKeys state header.n with
      | (state, .error e) => (state, .error e)
      | (state, .ok ()) =>
        match state.ckr with
        | none => (state, .error (.error .invalidKey))
        | some ckr =>
          let (newCkr, mk) := kdfCk P ckr
          ({ state with ckr := some newCkr, nr := state.nr + 1 },
            decryptWithMk mk header ciphertext aad)

end Vesper.DoubleRatchet
