import Vesper.Crypto.Symbolic

/-!
# Chunks and manifests of a device sync

`device_sync.rs` over the primitives and the other crates it calls. A chunk is sealed under its sequence
number and nothing else: whether it holds a record or the manifest is not part of what is authenticated.
-/

namespace Vesper

/-- LZ4 frames, SHA-256, and the tag bytes of HMAC. -/
structure SyncCrates (P : Primitives) where
  lz4Compress : Bytes → Option Bytes
  lz4Decompress : Bytes → Option Bytes
  sha256 : Bytes → Vector UInt8 32
  hmacTag : P.Block → Bytes → Vector UInt8 32

/-- What was compressed is decompressed. -/
def SyncCrates.Lz4Inverts {P : Primitives} (C : SyncCrates P) : Prop :=
  ∀ plain compressed, C.lz4Compress plain = some compressed → C.lz4Decompress compressed = some plain

structure SyncKeys (P : Primitives) where
  chunkKey : P.Block
  macKey : P.Block

/-- `CryptoError`, with the two variants that only a sync uses. -/
inductive SyncError where
  | core (fault : Fault)
  | decompressionFailed
  | manifestTampered

/-- `nonce(12) || ciphertext+tag` -/
structure SealedChunk (P : Primitives) where
  nonce : Vector UInt8 12
  ct : P.Cipher

section
variable {P : Primitives} (C : SyncCrates P)

/-! ## Chunks -/

/-- The nonce is drawn anew for each chunk. -/
def sealChunk (keys : SyncKeys P) (seq : UInt32) (plaintext : Bytes) (nonce : Vector UInt8 12) :
    Except SyncError (SealedChunk P) :=
  match C.lz4Compress plaintext with
  | none => .error .decompressionFailed
  | some compressed =>
    match aeadEncrypt P keys.chunkKey nonce.toList compressed (be32 seq) with
    | .error fault => .error (.core fault)
    | .ok ct => .ok ⟨nonce, ct⟩

/-- `none` is data too short to hold a nonce and a tag. -/
def openChunk (keys : SyncKeys P) (seq : UInt32) : Option (SealedChunk P) → Except SyncError Bytes
  | none => .error (.core (.error .invalidCiphertext))
  | some chunk =>
    match aeadDecrypt P keys.chunkKey chunk.nonce.toList chunk.ct (be32 seq) with
    | .error fault => .error (.core fault)
    | .ok compressed =>
      match C.lz4Decompress compressed with
      | none => .error .decompressionFailed
      | some plain => .ok plain

variable {C} {keys : SyncKeys P} {seq : UInt32} {plain : Bytes} {nonce : Vector UInt8 12}
  {chunk : SealedChunk P}

theorem sealChunk_ok_iff : sealChunk C keys seq plain nonce = .ok chunk ↔
    ∃ compressed ct, C.lz4Compress plain = some compressed ∧
      aeadEncrypt P keys.chunkKey nonce.toList compressed (be32 seq) = .ok ct ∧ chunk = ⟨nonce, ct⟩ := by
  unfold sealChunk
  cases C.lz4Compress plain with
  | none => simp
  | some compressed =>
    cases hct : aeadEncrypt P keys.chunkKey nonce.toList compressed (be32 seq) with
    | error fault => simp [hct]
    | ok ct => simp [hct, eq_comm]

theorem openChunk_ok_iff {data : Option (SealedChunk P)} : openChunk C keys seq data = .ok plain ↔
    ∃ chunk compressed, data = some chunk ∧
      aeadDecrypt P keys.chunkKey chunk.nonce.toList chunk.ct (be32 seq) = .ok compressed ∧
      C.lz4Decompress compressed = some plain := by
  cases data with
  | none => simp [openChunk]
  | some chunk =>
    rw [openChunk]
    cases haead : aeadDecrypt P keys.chunkKey chunk.nonce.toList chunk.ct (be32 seq) with
    | error fault => simp [haead]
    | ok compressed => cases hlz4 : C.lz4Decompress compressed <;> simp [haead, hlz4]

/-- What was sealed is opened under the same number. -/
theorem openChunk_sealChunk (haead : AeadInverts P) (hlz4 : C.Lz4Inverts)
    (h : sealChunk C keys seq plain nonce = .ok chunk) : openChunk C keys seq (some chunk) = .ok plain := by
  obtain ⟨compressed, ct, hcompressed, hct, rfl⟩ := sealChunk_ok_iff.mp h
  exact openChunk_ok_iff.mpr
    ⟨_, compressed, rfl, haead _ _ _ _ _ hct, hlz4 _ _ hcompressed⟩

end

/-! ## Manifests -/

structure ManifestEntry where
  id : UInt64
  hash : Vector UInt8 32
  deriving DecidableEq

def be64 (n : UInt64) : Bytes := be32 (.ofNat (n.toNat / 2 ^ 32)) ++ be32 (.ofNat n.toNat)

/-- The number that big-endian bytes stand for. -/
def beNat (b : Bytes) : Nat := b.foldl (fun n byte => n * 0x100 + byte.toNat) 0

def ManifestEntry.toBytes (e : ManifestEntry) : Bytes := be64 e.id ++ e.hash.toList

/-- The first `n` entries of packed bytes. -/
def readEntries : Nat → Bytes → List ManifestEntry
  | 0, _ => []
  | n + 1, b =>
    ⟨.ofNat (beNat (b.take 8)), .ofFn fun i => (b.drop 8).getD i 0⟩ :: readEntries n (b.drop 40)

section
variable {P : Primitives} (C : SyncCrates P) (macKey : P.Block)

/-- `version(1) || count(4 BE) || [id(8 BE) || sha256(32)] × count` -/
def manifestBody (entries : List ManifestEntry) : Bytes :=
  1 :: be32 (.ofNat entries.length) ++ entries.flatMap ManifestEntry.toBytes

def buildManifest (entries : List ManifestEntry) : Bytes :=
  let body := manifestBody entries
  body ++ (C.hmacTag macKey body).toList

def verifyManifest (data : Bytes) : Except SyncError (List ManifestEntry) :=
  if data.length < 37 then .error (.core (.error .invalidCiphertext))
  else
    let body := data.take (data.length - 32)
    let macBytes := data.drop (data.length - 32)
    if (C.hmacTag macKey body).toList ≠ macBytes then .error .manifestTampered
    else if body.getD 0 0 ≠ 1 then .error (.core (.error .invalidCiphertext))
    else
      let count := beNat ((body.drop 1).take 4)
      if body.length ≠ 5 + count * 40 then .error (.core (.error .invalidCiphertext))
      else .ok (readEntries count (body.drop 5))

theorem beNat_be32 (n : UInt32) : beNat (be32 n) = n.toNat := by
  have := n.toNat_lt
  simp only [beNat, be32, List.foldl_cons, List.foldl_nil, UInt8.toNat_ofNat']
  omega

theorem beNat_be64 (n : UInt64) : beNat (be64 n) = n.toNat := by
  have := n.toNat_lt
  simp only [beNat, be64, be32, List.cons_append, List.nil_append, List.foldl_cons, List.foldl_nil,
    UInt8.toNat_ofNat', UInt32.toNat_ofNat']
  omega

@[simp] theorem be64_length (n : UInt64) : (be64 n).length = 8 := by
  rw [be64, List.length_append, be32_length, be32_length]

@[simp] theorem toBytes_length (e : ManifestEntry) : e.toBytes.length = 40 := by
  rw [ManifestEntry.toBytes, List.length_append, be64_length, Vector.length_toList]

theorem readEntries_toBytes (entries : List ManifestEntry) :
    readEntries entries.length (entries.flatMap ManifestEntry.toBytes) = entries := by
  induction entries with
  | nil => rfl
  | cons e entries ih =>
    have hid : (e.toBytes ++ entries.flatMap ManifestEntry.toBytes).take 8 = be64 e.id := by
      rw [ManifestEntry.toBytes, List.append_assoc, List.take_left' (be64_length e.id)]
    have hhash : (.ofFn fun i : Fin 32 =>
        ((e.toBytes ++ entries.flatMap ManifestEntry.toBytes).drop 8).getD i 0) = e.hash := by
      rw [ManifestEntry.toBytes, List.append_assoc, List.drop_left' (be64_length e.id)]
      ext i hi
      have hlt : i < e.hash.toList.length := by simpa using hi
      simp [List.getElem?_append_left hlt, hi]
    rw [List.flatMap_cons, List.length_cons, readEntries, List.drop_left' (toBytes_length e), ih, hid, hhash,
      beNat_be64, UInt64.ofNat_toNat]

theorem manifestBody_length (entries : List ManifestEntry) :
    (manifestBody entries).length = 5 + entries.length * 40 := by
  simp only [manifestBody, List.cons_append, List.length_cons, List.length_append, be32_length,
    List.length_flatMap, toBytes_length, List.map_const', List.sum_replicate_nat]
  omega

/-- **Manifests**: the entries of a manifest are read back. -/
theorem verifyManifest_buildManifest {entries : List ManifestEntry} (h : entries.length < 2 ^ 32) :
    verifyManifest C macKey (buildManifest C macKey entries) = .ok entries := by
  have hcount : beNat (((manifestBody entries).drop 1).take 4) = entries.length := by
    rw [manifestBody, List.cons_append, List.drop_one, List.tail_cons, List.take_left' (be32_length _),
      beNat_be32, UInt32.toNat_ofNat', Nat.mod_eq_of_lt h]
  have hentries : (manifestBody entries).drop 5 = entries.flatMap ManifestEntry.toBytes := by
    rw [manifestBody, List.cons_append, List.drop_succ_cons, List.drop_left' (be32_length _)]
  have hlength : (buildManifest C macKey entries).length - 32 = (manifestBody entries).length := by
    simp [buildManifest]
  have hlong : ¬ (buildManifest C macKey entries).length < 37 := by
    simp only [buildManifest, List.length_append, Vector.length_toList, manifestBody_length]
    omega
  have hversion : (manifestBody entries).getD 0 0 = 1 := rfl
  rw [verifyManifest, if_neg hlong, hlength]
  dsimp only
  rw [buildManifest, List.take_left, List.drop_left, if_neg (not_not_intro rfl), hversion,
    if_neg (not_not_intro rfl), hcount, if_neg (not_not_intro (manifestBody_length entries)), hentries,
    readEntries_toBytes]

end

end Vesper
