import Mathlib.Algebra.Group.Nat.Defs
import Vesper.Lib.Fallible

/-!
# Primitives of the crypto core

The functions of `utils.rs` and `identity.rs` over a structure `Primitives` that stands for the
crates they call (X25519, Ed25519, HKDF, HMAC, AES-GCM). Every 32-byte secret string of the source
is a `Block`. What the results assume of the crates is said by `DhCommutes` and `AeadInverts`.
-/

namespace Vesper

/-! ## Bytes, keys and faults -/

abbrev Bytes := List UInt8

inductive CryptoError where
  | invalidKey
  | signatureVerification
  | decryptionFailed
  | keyDerivation
  | invalidCiphertext
  | skipLimitExceeded
  deriving DecidableEq, Repr

/-- How a call of the core fails: it returns an error, or it panics. -/
inductive Fault where
  | error (e : CryptoError)
  | panic (message : String)
  deriving DecidableEq, Repr

structure KeyAgreementPublicKey where
  bytes : Vector UInt8 32
  deriving DecidableEq

theorem dhKey_inj {a b : KeyAgreementPublicKey} : a.bytes.toList = b.bytes.toList ↔ a = b := by
  cases a; cases b; simp [Vector.toList_inj]

structure IdentityPublicKey where
  bytes : Vector UInt8 32
  deriving DecidableEq

/-- Big-endian bytes of a `u32`. -/
def be32 (n : UInt32) : Bytes :=
  [.ofNat (n.toNat / 2 ^ 24), .ofNat (n.toNat / 2 ^ 16), .ofNat (n.toNat / 2 ^ 8), .ofNat n.toNat]

@[simp] theorem be32_length (n : UInt32) : (be32 n).length = 4 := rfl

theorem be32_inj {m n : UInt32} : be32 m = be32 n ↔ m = n := by
  refine ⟨fun h => UInt32.toNat_inj.mp ?_, congrArg _⟩
  simp only [be32, List.cons.injEq, and_true, ← UInt8.toNat_inj, UInt8.toNat_ofNat'] at h
  have hm := m.toNat_lt
  have hn := n.toNat_lt
  omega

/-- The 32 bytes from position `i`. -/
def to32 (b : Bytes) (i : Nat) (h : i + 32 ≤ b.length) : Vector UInt8 32 :=
  ⟨((b.drop i).take 32).toArray, by simp; omega⟩

/-- The 32 bytes that stand after `i` others. -/
theorem to32_append {a b c : Bytes} {i : Nat} {v : Vector UInt8 32}
    (hb : b = a ++ (v.toList ++ c)) (hi : a.length = i) (h : i + 32 ≤ b.length) :
    to32 b i h = v := by
  subst hb hi
  rw [← Vector.toArray_inj]
  simp [to32, Vector.toList]

/-! ## The primitives -/

/-- The third-party primitives. `Cipher` is the type of AES-GCM outputs, `cipherLen` their length
in bytes; a signature covers bytes and possibly a ciphertext after them. -/
structure Primitives where
  Secret : Type
  Block : Type
  Cipher : Type
  SigningKey : Type
  Signature : Type
  publicKey : Secret → KeyAgreementPublicKey
  diffieHellman : Secret → KeyAgreementPublicKey → Block
  block : Vector UInt8 32 → Block
  hmacSha256 : Block → Bytes → Block
  hkdfExtract : Option Block → List Block → Block
  hkdfBlock : Block → Bytes → Nat → Block
  sealBox : Block → Bytes → Bytes → Bytes → Option Cipher
  openBox : Block → Bytes → Cipher → Bytes → Option Bytes
  cipherLen : Cipher → Nat
  verifyingKey : SigningKey → IdentityPublicKey
  validKey : IdentityPublicKey → Bool
  sign : SigningKey → Bytes × Option Cipher → Signature
  checkSignature : IdentityPublicKey → Bytes × Option Cipher → Signature → Bool

variable (P : Primitives)

/-- HKDF-Expand to `n` blocks of 32 bytes; the crate refuses more than 255. -/
def hkdfExpand (prk : P.Block) (info : Bytes) (n : Nat) : Except Fault (Vector P.Block n) :=
  if n ≤ 255 then .ok (.ofFn fun i => P.hkdfBlock prk info i)
  else .error (.error .keyDerivation)

/-- The one-block `hkdf::<32>`. -/
def hkdf (salt : Option P.Block) (ikm : List P.Block) (info : Bytes) : Except Fault P.Block :=
  (hkdfExpand P (P.hkdfExtract salt ikm) info 1).map (·[0])

def aeadEncrypt (key : P.Block) (nonce plaintext aad : Bytes) : Except Fault P.Cipher :=
  match P.sealBox key nonce plaintext aad with
  | some c => .ok c
  | none => .error (.error .decryptionFailed)

def aeadDecrypt (key : P.Block) (nonce : Bytes) (ciphertext : P.Cipher) (aad : Bytes) :
    Except Fault Bytes :=
  if P.cipherLen ciphertext < 16 then .error (.error .invalidCiphertext)
  else match P.openBox key nonce ciphertext aad with
    | some p => .ok p
    | none => .error (.error .decryptionFailed)

def IdentityPublicKey.verify (key : IdentityPublicKey) (message : Bytes × Option P.Cipher)
    (signature : P.Signature) : Except Fault Unit :=
  if !P.validKey key then .error (.error .invalidKey)
  else if P.checkSignature key message signature then .ok ()
  else .error (.error .signatureVerification)

/-- Diffie-Hellman is commutative. -/
def DhCommutes : Prop :=
  ∀ a b, P.diffieHellman a (P.publicKey b) = P.diffieHellman b (P.publicKey a)

/-- `aead_decrypt` inverts `aead_encrypt` under the same key, nonce and associated data. -/
def AeadInverts : Prop :=
  ∀ key nonce plaintext aad c, aeadEncrypt P key nonce plaintext aad = .ok c →
    aeadDecrypt P key nonce c aad = .ok plaintext

/-- A signature verifies under the key it was made with. -/
def SignatureVerifies : Prop :=
  ∀ key message, (P.verifyingKey key).verify P message (P.sign key message) = .ok ()

variable {P}

@[simp] theorem hkdf_eq (salt : Option P.Block) (ikm : List P.Block) (info : Bytes) :
    hkdf P salt ikm info = .ok (P.hkdfBlock (P.hkdfExtract salt ikm) info 0) := by
  simp [hkdf, hkdfExpand, Except.map]

theorem aeadDecrypt_ok_iff {key : P.Block} {nonce : Bytes} {c : P.Cipher} {aad p : Bytes} :
    aeadDecrypt P key nonce c aad = .ok p ↔
      16 ≤ P.cipherLen c ∧ P.openBox key nonce c aad = some p := by
  unfold aeadDecrypt
  split
  · simp; omega
  · cases P.openBox key nonce c aad <;> simp; omega

end Vesper
