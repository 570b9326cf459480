import Vesper.Crypto.ByteForms
import Vesper.Crypto.SenderKey

/-!
# Keys under a PIN

`pin_key.rs`: a key is encrypted under what Argon2id makes of a PIN, and stored together with the parameters.
With an ideal cipher and an injective Argon2id nothing opens but what was encrypted, and only with its PIN.
-/

namespace Vesper.PinKey
open SenderKey (u32Be u32Be_be32 be32_u32Be)

def BLOB_VERSION : UInt8 := 0x01

structure EncryptParams where
  /-- Memory in KiB. -/
  mCost : UInt32
  /-- Passes. -/
  tCost : UInt32
  /-- Parallelism. -/
  pCost : UInt32
  deriving DecidableEq

def EncryptParams.WASM : EncryptParams := { mCost := 32768, tCost := 2, pCost := 1 }

structure EncryptedKeyBlob where
  params : EncryptParams
  salt : Vector UInt8 16
  nonce : Vector UInt8 12
  ciphertext : Bytes
  deriving DecidableEq

/-- The primitives with Argon2id, which refuses some parameters and some lengths. The output of AES-GCM is
bytes. -/
structure PinPrimitives extends Primitives where
  argon2id : Bytes → Vector UInt8 16 → EncryptParams → Option Block
  cipherBytes : Cipher ≃ Bytes
  length_cipherBytes : ∀ c, (cipherBytes c).length = cipherLen c

variable (P : PinPrimitives)

/-! ## Encryption -/

/-- The 29 bytes that the tag covers: version, parameters and salt. -/
def buildAad (params : EncryptParams) (salt : Vector UInt8 16) : Bytes :=
  [BLOB_VERSION] ++ (be32 params.mCost ++ (be32 params.tCost ++ (be32 params.pCost ++ salt.toList)))

def deriveAesKey (pin : Bytes) (salt : Vector UInt8 16) (params : EncryptParams) :
    Except Fault P.Block :=
  match P.argon2id pin salt params with
  | some key => .ok key
  | none => .error (.error .keyDerivation)

/-- `salt` and `nonce` are random. -/
def encryptKeyWithPin (keyBytes pin : Bytes) (params : EncryptParams) (salt : Vector UInt8 16)
    (nonce : Vector UInt8 12) : Except Fault EncryptedKeyBlob := do
  let aesKey ← deriveAesKey P pin salt params
  let aad := buildAad params salt
  let ciphertext ← aeadEncrypt P.toPrimitives aesKey nonce.toList keyBytes aad
  return { params, salt, nonce, ciphertext := P.cipherBytes ciphertext }

def decryptKeyWithPin (blob : EncryptedKeyBlob) (pin : Bytes) : Except Fault Bytes :=
  if blob.ciphertext.length < 16 then .error (.error .invalidCiphertext)
  else do
    let aesKey ← deriveAesKey P pin blob.salt blob.params
    let aad := buildAad blob.params blob.salt
    aeadDecrypt P.toPrimitives aesKey blob.nonce.toList (P.cipherBytes.symm blob.ciphertext) aad

/-! ## The stored form -/

def serializeBlob (blob : EncryptedKeyBlob) : Bytes :=
  buildAad blob.params blob.salt ++ (blob.nonce.toList ++ blob.ciphertext)

def deserializeBlob (data : Bytes) : Except Fault EncryptedKeyBlob :=
  -- header, nonce and tag
  if h : data.length < 29 + 12 + 16 then .error (.error .invalidCiphertext)
  else if data[0] ≠ BLOB_VERSION then .error (.error .invalidKey)
  else .ok {
    params := {
      mCost := u32Be ((data.drop 1).take 4)
      tCost := u32Be ((data.drop 5).take 4)
      pCost := u32Be ((data.drop 9).take 4) }
    salt := slice 16 data 13 (by omega)
    nonce := slice 12 data 29 (by omega)
    ciphertext := data.drop 41 }

/-- The binding's `decryptKeyWithPin`. -/
def unlock (data pin : Bytes) : Except Fault Bytes := do
  let blob ← deserializeBlob data
  decryptKeyWithPin P blob pin

@[simp] theorem length_buildAad (params : EncryptParams) (salt : Vector UInt8 16) :
    (buildAad params salt).length = 29 := by
  simp [buildAad]

theorem deserializeBlob_serializeBlob {blob : EncryptedKeyBlob}
    (h : 16 ≤ blob.ciphertext.length) :
    deserializeBlob (serializeBlob blob) = .ok blob := by
  have hlength : ¬ (serializeBlob blob).length < 29 + 12 + 16 := by
    simp [serializeBlob]
    omega
  have hpos : 0 < (serializeBlob blob).length := by omega
  have hversion : (serializeBlob blob)[0] = BLOB_VERSION := rfl
  have hm : ((serializeBlob blob).drop 1).take 4 = be32 blob.params.mCost := rfl
  have ht : ((serializeBlob blob).drop 5).take 4 = be32 blob.params.tCost := rfl
  have hp : ((serializeBlob blob).drop 9).take 4 = be32 blob.params.pCost := rfl
  have hsalt : slice 16 (serializeBlob blob) 13 (by omega) = blob.salt := by
    refine slice_append (a := [BLOB_VERSION] ++ (be32 blob.params.mCost ++ (be32 blob.params.tCost ++
      be32 blob.params.pCost))) (c := blob.nonce.toList ++ blob.ciphertext) ?_ rfl _
    simp [serializeBlob, buildAad]
  have hnonce : slice 12 (serializeBlob blob) 29 (by omega) = blob.nonce :=
    slice_append rfl (length_buildAad ..) _
  have hciphertext : (serializeBlob blob).drop 41 = blob.ciphertext := by
    rw [serializeBlob, ← List.append_assoc, List.drop_left' (by simp)]
  rw [deserializeBlob, dif_neg hlength, if_neg (not_not_intro hversion), hm, ht, hp, hsalt, hnonce, hciphertext,
    u32Be_be32, u32Be_be32, u32Be_be32]

theorem serializeBlob_of_deserializeBlob {data : Bytes} {blob : EncryptedKeyBlob}
    (h : deserializeBlob data = .ok blob) :
    serializeBlob blob = data ∧ 16 ≤ blob.ciphertext.length := by
  rw [deserializeBlob] at h
  split at h
  · cases h
  rename_i hlength
  split at h
  · cases h
  rename_i hversion
  obtain rfl := Except.ok.inj h
  have hfield : ∀ i, i + 4 ≤ data.length → be32 (u32Be ((data.drop i).take 4)) = (data.drop i).take 4 := by
    intro i hi
    refine be32_u32Be ?_
    rw [List.length_take, List.length_drop]
    omega
  have hjoin : ∀ i n, (data.drop i).take n ++ data.drop (i + n) = data.drop i := by
    intro i n
    rw [← List.drop_drop, List.take_append_drop]
  have hsalt : (slice 16 data 13 (by omega)).toList = (data.drop 13).take 16 := rfl
  have hnonce : (slice 12 data 29 (by omega)).toList = (data.drop 29).take 12 := rfl
  have hfirst : [BLOB_VERSION] ++ data.drop 1 = data := by
    rw [← not_ne_iff.mp hversion]
    exact List.getElem_cons_drop (i := 0) (by omega)
  constructor
  · rw [serializeBlob, buildAad]
    dsimp only
    rw [hfield 1 (by omega), hfield 5 (by omega), hfield 9 (by omega), hsalt, hnonce]
    simp only [List.append_assoc]
    rw [hjoin 29 12, hjoin 13 16, hjoin 9 4, hjoin 5 4, hjoin 1 4]
    exact hfirst
  · rw [List.length_drop]
    omega

/-- Blobs and accepted byte strings are the same. -/
theorem deserializeBlob_eq_ok_iff {data : Bytes} {blob : EncryptedKeyBlob} :
    deserializeBlob data = .ok blob ↔
      serializeBlob blob = data ∧ 16 ≤ blob.ciphertext.length := by
  refine ⟨serializeBlob_of_deserializeBlob, ?_⟩
  rintro ⟨rfl, h⟩
  exact deserializeBlob_serializeBlob h

/-! ## What is assumed -/

/-- The inputs of AES-GCM. -/
structure AeadCall (P : Primitives) where
  key : P.Block
  nonce : Bytes
  plaintext : Bytes
  aad : Bytes

def AeadCall.output {P : Primitives} (call : AeadCall P) : Option P.Cipher :=
  P.sealBox call.key call.nonce call.plaintext call.aad

/-- What was sealed opens, and nothing else; a ciphertext has one key. -/
structure IdealAead (P : Primitives) (sealed : Set (AeadCall P)) : Prop where
  opens_iff : ∀ key nonce c aad plaintext, P.openBox key nonce c aad = some plaintext ↔
    ⟨key, nonce, plaintext, aad⟩ ∈ sealed ∧ P.sealBox key nonce plaintext aad = some c
  length : ∀ key nonce plaintext aad c, P.sealBox key nonce plaintext aad = some c →
    P.cipherLen c = plaintext.length + 16
  key_unique : ∀ call ∈ sealed, ∀ call' ∈ sealed, ∀ c,
    call.output = some c → call'.output = some c → call.key = call'.key

def InjectiveKdf : Prop := ∀ pin salt params pin' salt' params' key,
  P.argon2id pin salt params = some key → P.argon2id pin' salt' params' = some key →
    pin = pin' ∧ salt = salt' ∧ params = params'

/-- A call of `encrypt_key_with_pin` with its random values. -/
structure Encryption where
  keyBytes : Bytes
  pin : Bytes
  params : EncryptParams
  salt : Vector UInt8 16
  nonce : Vector UInt8 12
  deriving DecidableEq

def Encryption.blob (e : Encryption) : Except Fault EncryptedKeyBlob :=
  encryptKeyWithPin P e.keyBytes e.pin e.params e.salt e.nonce

/-- Its call of AES-GCM, unless Argon2id refuses. -/
def Encryption.call (e : Encryption) : Option (AeadCall P.toPrimitives) :=
  (P.argon2id e.pin e.salt e.params).map fun key =>
    ⟨key, e.nonce.toList, e.keyBytes, buildAad e.params e.salt⟩

/-- The encryptions that took place. -/
def made (sealed : Set (AeadCall P.toPrimitives)) : Set Encryption :=
  {e | ∃ call ∈ sealed, e.call P = some call}

/-- A byte string that an encryption has produced. -/
def Produced (sealed : Set (AeadCall P.toPrimitives)) (data : Bytes) : Prop :=
  ∃ e ∈ made P sealed, ∃ blob, e.blob P = .ok blob ∧ serializeBlob blob = data

/-! ## What opens -/

section
variable {P} {sealed : Set (AeadCall P.toPrimitives)}

theorem encryption_call {e : Encryption} {blob : EncryptedKeyBlob} (h : e.blob P = .ok blob) :
    ∃ call, e.call P = some call ∧ ∃ c, call.output = some c ∧
      blob = ⟨e.params, e.salt, e.nonce, P.cipherBytes c⟩ := by
  rw [Encryption.blob, encryptKeyWithPin, deriveAesKey] at h
  rw [Encryption.call]
  cases hkey : P.argon2id e.pin e.salt e.params with
  | none => rw [hkey] at h; cases h
  | some key =>
    rw [hkey] at h
    obtain ⟨_, hok, hrest⟩ := bind_eq_ok.mp h
    obtain rfl := Except.ok.inj hok
    obtain ⟨c, hc, hblob⟩ := bind_eq_ok.mp hrest
    refine ⟨_, rfl, c, ?_, (pure_eq_ok.mp hblob).symm⟩
    rw [aeadEncrypt] at hc
    rw [AeadCall.output]
    split at hc
    · rename_i c' hseal
      rw [hseal, Except.ok.inj hc]
    · cases hc

theorem decryptKeyWithPin_eq_ok_iff {blob : EncryptedKeyBlob} {pin keyBytes : Bytes} :
    decryptKeyWithPin P blob pin = .ok keyBytes ↔ 16 ≤ blob.ciphertext.length ∧
      ∃ key, P.argon2id pin blob.salt blob.params = some key ∧
        P.openBox key blob.nonce.toList (P.cipherBytes.symm blob.ciphertext)
          (buildAad blob.params blob.salt) = some keyBytes := by
  have hlength : P.cipherLen (P.cipherBytes.symm blob.ciphertext) = blob.ciphertext.length := by
    rw [← P.length_cipherBytes, P.cipherBytes.apply_symm_apply]
  rw [decryptKeyWithPin]
  split
  · exact iff_of_false nofun (by omega)
  rw [deriveAesKey]
  cases P.argon2id pin blob.salt blob.params with
  | none => exact iff_of_false nofun (by simp)
  | some key =>
    change aeadDecrypt P.toPrimitives key _ _ _ = .ok keyBytes ↔ _
    rw [aeadDecrypt_ok_iff, hlength]
    simp

theorem unlock_eq_ok_iff {data pin keyBytes : Bytes} : unlock P data pin = .ok keyBytes ↔
    ∃ blob, serializeBlob blob = data ∧ decryptKeyWithPin P blob pin = .ok keyBytes := by
  rw [unlock, bind_eq_ok]
  refine exists_congr fun blob => ?_
  rw [deserializeBlob_eq_ok_iff, and_assoc]
  refine and_congr_right fun _ => and_iff_right_of_imp fun h => ?_
  exact (decryptKeyWithPin_eq_ok_iff.mp h).1

theorem mem_sealed_of_made {e : Encryption} (he : e ∈ made P sealed) {call : AeadCall P.toPrimitives}
    (hcall : e.call P = some call) : call ∈ sealed := by
  obtain ⟨call', hmem, hcall'⟩ := he
  rwa [Option.some.inj (hcall.symm.trans hcall')]

/-- An encryption opens with its own PIN. -/
theorem unlock_encryption (haead : IdealAead P.toPrimitives sealed) {e : Encryption} (he : e ∈ made P sealed)
    {blob : EncryptedKeyBlob} (hblob : e.blob P = .ok blob) :
    unlock P (serializeBlob blob) e.pin = .ok e.keyBytes := by
  obtain ⟨call, hcall, c, hc, rfl⟩ := encryption_call hblob
  have hmem := mem_sealed_of_made he hcall
  rw [Encryption.call] at hcall
  obtain ⟨key, hkey, rfl⟩ := Option.map_eq_some_iff.mp hcall
  refine unlock_eq_ok_iff.mpr ⟨_, rfl, decryptKeyWithPin_eq_ok_iff.mpr ⟨?_, key, hkey, ?_⟩⟩
  · rw [P.length_cipherBytes, haead.length _ _ _ _ _ hc]
    omega
  · rw [P.cipherBytes.symm_apply_apply]
    exact (haead.opens_iff ..).mpr ⟨hmem, hc⟩

/-- What opens was encrypted, with this PIN. -/
theorem encryption_of_unlock (haead : IdealAead P.toPrimitives sealed) {data pin keyBytes : Bytes}
    (h : unlock P data pin = .ok keyBytes) :
    ∃ e ∈ made P sealed, ∃ blob, e.blob P = .ok blob ∧ serializeBlob blob = data ∧ e.pin = pin ∧
      e.keyBytes = keyBytes := by
  obtain ⟨blob, rfl, hopen⟩ := unlock_eq_ok_iff.mp h
  obtain ⟨-, key, hkey, hbox⟩ := decryptKeyWithPin_eq_ok_iff.mp hopen
  obtain ⟨hmem, hseal⟩ := (haead.opens_iff ..).mp hbox
  refine ⟨⟨keyBytes, pin, blob.params, blob.salt, blob.nonce⟩, ⟨_, hmem, ?_⟩, blob, ?_, rfl, rfl, rfl⟩
  · rw [Encryption.call, hkey]
    rfl
  · rw [Encryption.blob, encryptKeyWithPin, deriveAesKey, hkey]
    dsimp only [bind, Except.bind]
    rw [aeadEncrypt, hseal]
    dsimp only
    rw [P.cipherBytes.apply_symm_apply]
    rfl

/-- A stored blob opens with no other PIN. -/
theorem unlock_other_pin (hkdf : InjectiveKdf P) (haead : IdealAead P.toPrimitives sealed)
    {e : Encryption} (he : e ∈ made P sealed) {blob : EncryptedKeyBlob} (hblob : e.blob P = .ok blob)
    {pin keyBytes : Bytes}
    (h : unlock P (serializeBlob blob) pin = .ok keyBytes) : pin = e.pin := by
  obtain ⟨call, hcall, c, hc, rfl⟩ := encryption_call hblob
  have hmem := mem_sealed_of_made he hcall
  rw [Encryption.call] at hcall
  obtain ⟨key, hkey, rfl⟩ := Option.map_eq_some_iff.mp hcall
  obtain ⟨blob', hblob', hopen⟩ := unlock_eq_ok_iff.mp h
  obtain ⟨hlength, key', hkey', hbox⟩ := decryptKeyWithPin_eq_ok_iff.mp hopen
  have hsame : blob' = ⟨e.params, e.salt, e.nonce, P.cipherBytes c⟩ := by
    have hback := deserializeBlob_serializeBlob hlength
    rw [hblob', deserializeBlob_serializeBlob] at hback
    · exact (Except.ok.inj hback).symm
    · dsimp only
      rw [P.length_cipherBytes, haead.length _ _ _ _ _ hc]
      omega
  subst hsame
  rw [P.cipherBytes.symm_apply_apply] at hbox
  obtain ⟨hmem', hseal⟩ := (haead.opens_iff ..).mp hbox
  obtain rfl : key = key' := haead.key_unique _ hmem _ hmem' c hc hseal
  exact (hkdf _ _ _ _ _ _ _ hkey' hkey).1

end

/-- **PIN vault integrity**: what an encryption stored opens with its PIN and with no other, stored blobs are
the byte strings that `deserialize_blob` takes, and what no encryption produced opens with no PIN. -/
theorem vault_integrity {sealed : Set (AeadCall P.toPrimitives)} (hkdf : InjectiveKdf P)
    (haead : IdealAead P.toPrimitives sealed) :
    (∀ e ∈ made P sealed, ∀ blob, e.blob P = .ok blob →
      unlock P (serializeBlob blob) e.pin = .ok e.keyBytes ∧
        ∀ pin, pin ≠ e.pin → ∃ fault, unlock P (serializeBlob blob) pin = .error fault) ∧
    (∀ data blob, deserializeBlob data = .ok blob ↔
      serializeBlob blob = data ∧ 16 ≤ blob.ciphertext.length) ∧
    ∀ data, ¬Produced P sealed data → ∀ pin, ∃ fault, unlock P data pin = .error fault := by
  refine ⟨fun e he blob hblob => ⟨unlock_encryption haead he hblob, fun pin hpin => ?_⟩,
    fun data blob => deserializeBlob_eq_ok_iff, fun data hdata pin => ?_⟩
  · cases h : unlock P (serializeBlob blob) pin with
    | error fault => exact ⟨fault, rfl⟩
    | ok keyBytes => exact absurd (unlock_other_pin hkdf haead he hblob h) hpin
  · cases h : unlock P data pin with
    | error fault => exact ⟨fault, rfl⟩
    | ok keyBytes =>
      obtain ⟨e, he, blob, hblob, heq, -⟩ := encryption_of_unlock haead h
      exact absurd ⟨e, he, blob, hblob, heq⟩ hdata

/-! ## A vault with one blob -/

/-- What the Argon2id crate takes as parameters. -/
def EncryptParams.Accepted (params : EncryptParams) : Prop :=
  8 ≤ params.mCost.toNat ∧ 8 * params.pCost.toNat ≤ params.mCost.toNat ∧ 1 ≤ params.tCost.toNat ∧
    1 ≤ params.pCost.toNat ∧ params.pCost.toNat < 2 ^ 24

instance (params : EncryptParams) : Decidable params.Accepted :=
  inferInstanceAs (Decidable (_ ∧ _))

def sampleEncryption : Encryption where
  keyBytes := [1, 2, 3]
  pin := [52, 50]
  params := .WASM
  salt := .replicate 16 5
  nonce := .replicate 12 6

/-- A key is what Argon2id is given, and a ciphertext the plaintext and an empty tag; one blob opens. -/
abbrev samplePrimitives : PinPrimitives where
  Secret := Unit
  Block := Bytes × Vector UInt8 16 × EncryptParams
  Cipher := Bytes
  SigningKey := Unit
  Signature := Unit
  publicKey _ := ⟨.replicate 32 0⟩
  diffieHellman _ _ := ([], .replicate 16 0, .WASM)
  block _ := ([], .replicate 16 0, .WASM)
  hmacSha256 k _ := k
  hkdfExtract _ _ := ([], .replicate 16 0, .WASM)
  hkdfBlock prk _ _ := prk
  sealBox _ _ p _ := some (p ++ List.replicate 16 0)
  openBox key nonce c aad :=
    if key = (sampleEncryption.pin, sampleEncryption.salt, sampleEncryption.params) ∧
      nonce = sampleEncryption.nonce.toList ∧ c = sampleEncryption.keyBytes ++ List.replicate 16 0 ∧
        aad = buildAad sampleEncryption.params sampleEncryption.salt
    then some sampleEncryption.keyBytes else none
  cipherLen := List.length
  verifyingKey _ := ⟨.replicate 32 0⟩
  validKey _ := true
  sign _ _ := ()
  checkSignature _ _ _ := true
  argon2id pin salt params := if params.Accepted then some (pin, salt, params) else none
  cipherBytes := .refl _
  length_cipherBytes _ := rfl

/-- The one encryption. -/
def sampleSealed : Set (AeadCall samplePrimitives.toPrimitives) :=
  {⟨(sampleEncryption.pin, sampleEncryption.salt, sampleEncryption.params), sampleEncryption.nonce.toList,
    sampleEncryption.keyBytes, buildAad sampleEncryption.params sampleEncryption.salt⟩}

theorem argon2id_sample {pin : Bytes} {salt : Vector UInt8 16} {params : EncryptParams}
    {key : samplePrimitives.Block} : samplePrimitives.argon2id pin salt params = some key ↔
      params.Accepted ∧ (pin, salt, params) = key := by
  rw [Option.ite_none_right_eq_some, Option.some_inj]

theorem injectiveKdf_sample : InjectiveKdf samplePrimitives := by
  intro pin salt params pin' salt' params' key h h'
  obtain ⟨-, rfl⟩ := argon2id_sample.mp h
  obtain ⟨-, heq⟩ := argon2id_sample.mp h'
  obtain ⟨rfl, hrest⟩ := Prod.mk.inj heq
  obtain ⟨rfl, rfl⟩ := Prod.mk.inj hrest
  exact ⟨rfl, rfl, rfl⟩

theorem idealAead_sample : IdealAead samplePrimitives.toPrimitives sampleSealed where
  opens_iff key nonce c aad plaintext := by
    constructor
    · intro h
      obtain ⟨⟨rfl, rfl, rfl, rfl⟩, hplain⟩ := Option.ite_none_right_eq_some.mp h
      obtain rfl := Option.some.inj hplain
      exact ⟨rfl, rfl⟩
    · rintro ⟨hmem, hseal⟩
      obtain ⟨rfl, rfl, rfl, rfl⟩ := AeadCall.mk.inj hmem
      obtain rfl := Option.some.inj hseal
      rw [Option.ite_none_right_eq_some]
      exact ⟨⟨rfl, rfl, rfl, rfl⟩, rfl⟩
  length key nonce plaintext aad c h := by
    obtain rfl := Option.some.inj h
    exact (List.length_append ..).trans rfl
  key_unique call hcall call' hcall' c _ _ := by
    obtain rfl : call = _ := hcall
    obtain rfl : call' = _ := hcall'
    rfl

theorem vault_sample : ∃ blob, sampleEncryption.blob samplePrimitives = .ok blob ∧
    unlock samplePrimitives (serializeBlob blob) sampleEncryption.pin = .ok sampleEncryption.keyBytes := by
  have haccepted : EncryptParams.WASM.Accepted := by decide
  have hkey : samplePrimitives.argon2id sampleEncryption.pin sampleEncryption.salt sampleEncryption.params =
      some (sampleEncryption.pin, sampleEncryption.salt, sampleEncryption.params) :=
    argon2id_sample.mpr ⟨haccepted, rfl⟩
  have hmade : sampleEncryption ∈ made samplePrimitives sampleSealed := by
    refine ⟨_, rfl, ?_⟩
    rw [Encryption.call, hkey]
    rfl
  have hblob : sampleEncryption.blob samplePrimitives = .ok ⟨sampleEncryption.params, sampleEncryption.salt,
      sampleEncryption.nonce, sampleEncryption.keyBytes ++ List.replicate 16 0⟩ := by
    rw [Encryption.blob, encryptKeyWithPin, deriveAesKey, hkey]
    rfl
  exact ⟨_, hblob, ((vault_integrity samplePrimitives injectiveKdf_sample idealAead_sample).1 _ hmade _
    hblob).1⟩

/-- Argon2id refuses no memory at all, so that there is no blob to open. -/
theorem encryption_refused : InjectiveKdf samplePrimitives ∧
    IdealAead samplePrimitives.toPrimitives sampleSealed ∧
    ∃ e : Encryption, e.params.mCost = 0 ∧
      (do unlock samplePrimitives (serializeBlob (← e.blob samplePrimitives)) e.pin) ≠ .ok e.keyBytes := by
  let e : Encryption := { sampleEncryption with params := { mCost := 0, tCost := 2, pCost := 1 } }
  have hrefused : ¬ e.params.Accepted := by decide
  have hkey : samplePrimitives.argon2id e.pin e.salt e.params = none :=
    Option.eq_none_iff_forall_ne_some.mpr fun _ h => hrefused (argon2id_sample.mp h).1
  refine ⟨injectiveKdf_sample, idealAead_sample, e, rfl, ?_⟩
  rw [Encryption.blob, encryptKeyWithPin, deriveAesKey, hkey]
  exact nofun

end Vesper.PinKey
