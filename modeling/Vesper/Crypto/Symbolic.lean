import Vesper.Crypto.Primitives
import Vesper.Lib.SymbolicTerms
import Std.Data.ExtTreeMap

/-!
# The symbolic primitives

The instance of `Primitives` over free terms and ideal authenticated encryption. A secret key is
the name of its key pair, which is also its public key: knowing it is what `Derives` calls a
broken name.
-/

namespace Vesper
open Symbolic

instance : Ord KeyAgreementPublicKey where
  compare a b := compare a.bytes b.bytes

instance : Std.TransOrd KeyAgreementPublicKey where
  eq_swap := Std.OrientedOrd.eq_swap (α := Vector UInt8 32)
  isLE_trans := Std.TransOrd.isLE_trans (α := Vector UInt8 32)

instance : Std.LawfulEqOrd KeyAgreementPublicKey where
  compare_self := Std.ReflOrd.compare_self (α := Vector UInt8 32)
  eq_of_compare {a b} h := by
    cases a; cases b
    exact congrArg _ (Std.LawfulEqOrd.eq_of_compare (α := Vector UInt8 32) h)

/-- A key pair of the symbolic model. -/
structure KeyName where
  name : KeyAgreementPublicKey
  deriving DecidableEq

/-- Length of a ciphertext: AES-GCM appends a 16-byte tag. -/
def sealedLength : Sealed KeyAgreementPublicKey → Nat
  | .box _ _ plain _ => plain.length + 16
  | .raw b => b.length

abbrev symbolic : Primitives where
  Secret := KeyName
  Block := Term KeyAgreementPublicKey
  Cipher := Sealed KeyAgreementPublicKey
  SigningKey := IdentityPublicKey
  Signature := IdentityPublicKey × Bytes × Option (Sealed KeyAgreementPublicKey)
  publicKey a := a.name
  diffieHellman a b := .shared a.name b
  block b := .bytes b.toList
  hmacSha256 := .hmac
  hkdfExtract salt ikm := .extract (salt.getD .nil) (.cats ikm)
  hkdfBlock := .expand
  sealBox key nonce plain aad := some (.box key nonce plain aad)
  openBox key nonce c aad := c.opened key nonce aad
  cipherLen := sealedLength
  verifyingKey := id
  validKey _ := true
  sign key message := (key, message)
  checkSignature key message signature := signature = (key, message)

theorem symbolic_dhCommutes : DhCommutes symbolic := fun _ _ => Term.shared_comm _ _

theorem symbolic_signatureVerifies : SignatureVerifies symbolic := by
  intro key message
  simp [IdentityPublicKey.verify]

theorem symbolic_aeadInverts : AeadInverts symbolic := by
  rintro key nonce plain aad c h
  cases h
  rw [aeadDecrypt_ok_iff]
  exact ⟨Nat.le_add_left .., Sealed.opened_eq_some_iff.mpr rfl⟩

theorem symbolic_aeadDecrypt_ok_iff {key nonce aad c p} :
    aeadDecrypt symbolic key nonce c aad = .ok p ↔ c = .box key nonce p aad := by
  rw [aeadDecrypt_ok_iff, Sealed.opened_eq_some_iff]
  refine ⟨And.right, ?_⟩
  rintro rfl
  exact ⟨Nat.le_add_left .., rfl⟩

end Vesper
