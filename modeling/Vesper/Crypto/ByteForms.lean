import Vesper.Lib.ByteReader
import Vesper.Crypto.Primitives
import Mathlib.Logic.Equiv.Defs

/-!
# Keys, signatures and ciphertexts as bytes

In the source every secret is an array of 32 bytes, a signature one of 64, a ciphertext a byte vector.
`ByteForms` says so of the abstract types of `Primitives`: what the codecs of the core and of the WASM
bindings read and write is taken through it.
-/

namespace Vesper
open ByteReader

/-- What the values of the primitives are in the source. -/
structure ByteForms (P : Primitives) where
  secret : P.Secret ≃ Vector UInt8 32
  block : P.Block ≃ Vector UInt8 32
  /-- `IdentityKeyPair::to_bytes` and `from_bytes`: the seed. -/
  signingKey : P.SigningKey ≃ Vector UInt8 32
  signature : P.Signature ≃ Vector UInt8 64
  cipher : P.Cipher ≃ Bytes
  block_apply : ∀ v, block (P.block v) = v
  length_cipher : ∀ c, (cipher c).length = P.cipherLen c

/-- AES-GCM appends a tag of 16 bytes to as many bytes as there are in the plaintext. -/
def AppendsTag (P : Primitives) : Prop :=
  ∀ key nonce plaintext aad c, P.sealBox key nonce plaintext aad = some c →
    P.cipherLen c = plaintext.length + 16

theorem AppendsTag.length {P : Primitives} (h : AppendsTag P) {key : P.Block} {nonce plaintext aad : Bytes}
    {c : P.Cipher} (hc : aeadEncrypt P key nonce plaintext aad = .ok c) :
    P.cipherLen c = plaintext.length + 16 := by
  unfold aeadEncrypt at hc
  split at hc
  · rename_i c' hseal
    obtain rfl := Except.ok.inj hc
    exact h key nonce plaintext aad c' hseal
  · cases hc

/-- The error of every read of a stored state that fails. -/
def invalid : Fault := .error .invalidCiphertext

section
variable {ε : Type} {e : ε}

theorem be32_eq (n : UInt32) : be32 n = beBytes 4 n.toNat := by
  simp [be32, beBytes]

theorem reads_be32 (n : UInt32) : Reads (u32 e) (be32 n) n := be32_eq n ▸ reads_u32 n

/-- Big-endian bytes of a `u16`. -/
def be16 (n : UInt16) : Bytes := [.ofNat (n.toNat / 2 ^ 8), .ofNat n.toNat]

theorem be16_eq (n : UInt16) : be16 n = beBytes 2 n.toNat := by
  simp [be16, beBytes]

theorem reads_be16 (n : UInt16) : Reads (u16 e) (be16 n) n := be16_eq n ▸ reads_u16 n

end

/-- The `n` bytes from position `i`. -/
def slice (n : Nat) (b : Bytes) (i : Nat) (h : i + n ≤ b.length) : Vector UInt8 n :=
  ⟨((b.drop i).take n).toArray, by simp; omega⟩

/-- The bytes that stand after `i` others. -/
theorem slice_append {n i : Nat} {a b c : Bytes} {v : Vector UInt8 n}
    (hb : b = a ++ (v.toList ++ c)) (hi : a.length = i) (h : i + n ≤ b.length) : slice n b i h = v := by
  subst hb hi
  rw [← Vector.toArray_inj]
  simp [slice, Vector.toList]

/-- A public key for each number. -/
def numberedKey (i : Nat) : KeyAgreementPublicKey := ⟨⟨(beBytes 32 i).toArray, by simp⟩⟩

theorem numberedKey_inj {i j : Nat} (hi : i < 256 ^ 32) (hj : j < 256 ^ 32)
    (h : numberedKey i = numberedKey j) : i = j := by
  have hbytes : beBytes 32 i = beBytes 32 j := congrArg (fun key => key.bytes.toArray.toList) h
  rw [← beValue_beBytes hi, ← beValue_beBytes hj, hbytes]

/-! ## Primitives that hide nothing -/

/-- Primitives on plain bytes, to evaluate the formats with: a key agreement is the exclusive or, a chain
never moves, a ciphertext is the plaintext with an empty tag, and every signature is good. -/
def plainPrimitives : Primitives where
  Secret := Vector UInt8 32
  Block := Vector UInt8 32
  Cipher := Bytes
  SigningKey := Vector UInt8 32
  Signature := Vector UInt8 64
  publicKey s := ⟨s⟩
  diffieHellman s key := s.zipWith (· ^^^ ·) key.bytes
  block := id
  hmacSha256 k _ := k
  hkdfExtract _ ikm := ikm.headD (.replicate 32 0)
  hkdfBlock prk _ _ := prk
  sealBox _ _ p _ := some (p ++ List.replicate 16 0)
  openBox _ _ c _ := some (c.take (c.length - 16))
  cipherLen := List.length
  verifyingKey seed := ⟨seed⟩
  validKey _ := true
  sign _ _ := .replicate 64 0
  checkSignature _ _ _ := true

def plainForms : ByteForms plainPrimitives where
  secret := .refl _
  block := .refl _
  signingKey := .refl _
  signature := .refl _
  cipher := .refl _
  block_apply _ := rfl
  length_cipher _ := rfl

theorem aeadInverts_plain : AeadInverts plainPrimitives := by
  intro key nonce plaintext aad c hc
  obtain rfl : plaintext ++ List.replicate 16 0 = c := Except.ok.inj hc
  refine aeadDecrypt_ok_iff.mpr ⟨?_, ?_⟩
  · simp [plainPrimitives]
  · simp [plainPrimitives]

theorem appendsTag_plain : AppendsTag plainPrimitives := by
  intro key nonce plaintext aad c hc
  obtain rfl : plaintext ++ List.replicate 16 0 = c := Option.some.inj hc
  show (plaintext ++ List.replicate 16 0).length = _
  rw [List.length_append, List.length_replicate]

theorem signatureVerifies_plain : SignatureVerifies plainPrimitives := fun _ _ => rfl

theorem dhCommutes_plain : DhCommutes plainPrimitives := by
  intro a b
  exact Vector.zipWith_comm_of_comm fun x y => UInt8.xor_comm x y

end Vesper
