import Vesper.Crypto.SyncChunks
import Vesper.Lib.SymbolicKnowledge

/-!
# Sessions of a device sync

`derive_sync_keys` on both sides, and what the keys of one session say about those of another. A chunk
opens only in the session and at the number for which it was sealed.
-/

namespace Vesper
open Symbolic

/-- `"vesper-sync-v1"` -/
def HKDF_SALT_CTX : Bytes := [118, 101, 115, 112, 101, 114, 45, 115, 121, 110, 99, 45, 118, 49]

/-- `"vesper-sync-v1-chunk-key"` -/
def HKDF_INFO_CHUNK : Bytes :=
  [118, 101, 115, 112, 101, 114, 45, 115, 121, 110, 99, 45, 118, 49, 45, 99, 104, 117, 110, 107, 45, 107, 101, 121]

/-- `"vesper-sync-v1-mac-key"` -/
def HKDF_INFO_MAC : Bytes :=
  [118, 101, 115, 112, 101, 114, 45, 115, 121, 110, 99, 45, 118, 49, 45, 109, 97, 99, 45, 107, 101, 121]

/-- `otp(16) || HKDF_SALT_CTX`, and two of the zeros with which HMAC fills up a key. -/
def syncSalt (otp : Vector UInt8 16) : Vector UInt8 32 :=
  ⟨(otp.toList ++ (HKDF_SALT_CTX ++ [0, 0])).toArray, by simp [HKDF_SALT_CTX]⟩

theorem syncSalt_inj {otp otp' : Vector UInt8 16} : syncSalt otp = syncSalt otp' ↔ otp = otp' := by
  refine ⟨fun h => ?_, congrArg _⟩
  have happend : otp.toList ++ (HKDF_SALT_CTX ++ [0, 0]) = otp'.toList ++ (HKDF_SALT_CTX ++ [0, 0]) :=
    congrArg Vector.toList h
  exact Vector.toList_inj.mp (List.append_cancel_right happend)

variable (P : Primitives)

def deriveSyncKeys (secret : P.Secret) (peerPub : KeyAgreementPublicKey) (otp : Vector UInt8 16) :
    Except Fault (SyncKeys P) := do
  let dh := P.diffieHellman secret peerPub
  let salt := P.block (syncSalt otp)
  let chunkKey ← hkdf P (some salt) [dh] HKDF_INFO_CHUNK
  let macKey ← hkdf P (some salt) [dh] HKDF_INFO_MAC
  return { chunkKey, macKey }

/-- What one device puts into `derive_sync_keys`. -/
structure SyncEnd where
  secret : P.Secret
  peerPub : KeyAgreementPublicKey
  otp : Vector UInt8 16

variable {P}

/-- The key for one purpose. -/
def SyncEnd.key (e : SyncEnd P) (info : Bytes) : P.Block :=
  P.hkdfBlock (P.hkdfExtract (some (P.block (syncSalt e.otp))) [P.diffieHellman e.secret e.peerPub]) info 0

def SyncEnd.keys (e : SyncEnd P) : SyncKeys P := ⟨e.key HKDF_INFO_CHUNK, e.key HKDF_INFO_MAC⟩

theorem deriveSyncKeys_eq (e : SyncEnd P) : deriveSyncKeys P e.secret e.peerPub e.otp = .ok e.keys := by
  simp [deriveSyncKeys, SyncEnd.keys, SyncEnd.key, bind, Except.bind, pure, Except.pure]

/-- Both sides derive the same keys. -/
theorem deriveSyncKeys_comm (hcomm : DhCommutes P) (a b : P.Secret) (otp : Vector UInt8 16) :
    deriveSyncKeys P a (P.publicKey b) otp = deriveSyncKeys P b (P.publicKey a) otp := by
  simp only [deriveSyncKeys, hcomm a b]

/-! ## Keys of different sessions -/

/-- The same password, and the same two key pairs in either order. -/
def SyncEnd.Matches (e f : SyncEnd symbolic) : Prop :=
  e.otp = f.otp ∧
    ((e.secret.name = f.secret.name ∧ e.peerPub = f.peerPub) ∨
      (e.secret.name = f.peerPub ∧ e.peerPub = f.secret.name))

variable {e f : SyncEnd symbolic} {info info' : Bytes} {broken : KeyAgreementPublicKey → Prop}
  {known : Term KeyAgreementPublicKey → Prop}

theorem SyncEnd.key_eq_iff : e.key info = f.key info' ↔ info = info' ∧ e.Matches f := by
  have hsalt : (syncSalt e.otp).toList = (syncSalt f.otp).toList ↔ e.otp = f.otp := by
    rw [Vector.toList_inj, syncSalt_inj]
  simp only [SyncEnd.key, Term.expand.injEq, Term.extract.injEq, Option.getD_some, Term.bytes.injEq,
    Term.cats_inj, List.cons.injEq, Term.shared_eq_iff, hsalt, and_true, SyncEnd.Matches]
  exact and_comm

theorem SyncEnd.keys_inj : e.keys = f.keys ↔ e.keys.chunkKey = f.keys.chunkKey := by
  refine ⟨congrArg _, fun h => ?_⟩
  have hmatches := (key_eq_iff.mp h).2
  rw [keys, keys, key_eq_iff.mpr ⟨rfl, hmatches⟩, key_eq_iff.mpr ⟨rfl, hmatches⟩]

/-- The chunk key and the MAC key of a session. -/
def SyncKeys.Has (keys : SyncKeys P) (key : P.Block) : Prop := key = keys.chunkKey ∨ key = keys.macKey

theorem SyncEnd.size_key : (e.key info).size = 6 := by
  have hshared : (Term.shared e.secret.name e.peerPub).size = 1 := by
    unfold Term.shared
    split <;> rfl
  simp [key, Term.size, Term.cats, hshared]

theorem SyncEnd.part_key (h : (e.key info).Part (f.key info')) : e.key info = f.key info' :=
  h.eq_of_size_le (Nat.le_of_eq (size_key.trans size_key.symm))

/-- No sync key goes into another: those of one session are of no use for those of another. -/
theorem SyncEnd.unrelated (h : ¬ e.Matches f) (hkey : ∀ t, known t → t.IsKey) {key}
    (hf : f.keys.Has key) (hdeduces : Deduces broken (fun t => known t ∨ e.keys.Has t) key) :
    Deduces broken known key := by
  have hkey' : ∀ t, (known t ∨ e.keys.Has t) → t.IsKey := by
    rintro t (ht | rfl | rfl)
    · exact hkey t ht
    · trivial
    · trivial
  obtain ⟨info, rfl⟩ : ∃ info, key = f.key info := by
    rcases hf with rfl | rfl
    · exact ⟨_, rfl⟩
    · exact ⟨_, rfl⟩
  refine ((hdeduces.composed hkey').without fun k hk hpart => ?_).deduces
  rcases hk with hk | rfl | rfl
  · exact hk
  · exact absurd (key_eq_iff.mp (part_key hpart)).2 h
  · exact absurd (key_eq_iff.mp (part_key hpart)).2 h

/-- **Secrecy of a session**: the keys of all others tell nothing, if the two key pairs are not broken. -/
theorem SyncEnd.key_secret (hsecret : ¬ broken e.secret.name) (hpeer : ¬ broken e.peerPub)
    (hknown : ∀ t, known t → ∃ f : SyncEnd symbolic, ¬ f.Matches e ∧ f.keys.Has t) :
    ¬ Deduces broken known (e.key info) := by
  intro h
  have hkey : ∀ t, known t → ∃ (f : SyncEnd symbolic) (info' : Bytes), ¬ f.Matches e ∧ t = f.key info' := by
    intro t ht
    obtain ⟨f, hf, rfl | rfl⟩ := hknown t ht
    · exact ⟨f, _, hf, rfl⟩
    · exact ⟨f, _, hf, rfl⟩
  have hisKey : ∀ t, known t → t.IsKey := by
    intro t ht
    obtain ⟨f, info', -, rfl⟩ := hkey t ht
    trivial
  have hprk := (h.composed hisKey).resolve_left fun ht => by
    obtain ⟨f, info', hf, heq⟩ := hkey _ ht
    exact hf (key_eq_iff.mp heq.symm).2
  have hshared := hprk.resolve_left fun ht => by
    obtain ⟨f, info', -, heq⟩ := hkey _ ht
    cases heq
  rcases hshared.2.1.broken_of_shared fun ht => not_isKey_shared (hisKey _ ht) with hbroken | hbroken
  · exact hsecret hbroken
  · exact hpeer hbroken

/-! ## Sealed chunks -/

/-- A chunk that a device sealed. -/
structure SealCall (C : SyncCrates symbolic) where
  sender : SyncEnd symbolic
  seq : UInt32
  plaintext : Bytes
  nonce : Vector UInt8 12
  chunk : SealedChunk symbolic
  made : sealChunk C sender.keys seq plaintext nonce = .ok chunk

/-- **Sealed chunks**: what opens was sealed under the same keys at the same number, and is what was
sealed there. -/
theorem openChunk_iff_sealed {C : SyncCrates symbolic} (hlz4 : C.Lz4Inverts) (log : List (SealCall C))
    (hsecret : ¬ Deduces broken known e.keys.chunkKey) {seq : UInt32}
    {data : Option (SealedChunk symbolic)} {plain : Bytes}
    (hmade : ∀ chunk, data = some chunk →
      Sealed.Makeable broken known (fun c => ∃ call ∈ log, call.chunk.ct = c) chunk.ct) :
    openChunk C e.keys seq data = .ok plain ↔
      ∃ call ∈ log, call.sender.keys = e.keys ∧ call.seq = seq ∧ data = some call.chunk ∧
        call.plaintext = plain := by
  constructor
  · intro hopen
    obtain ⟨⟨nonce, ct⟩, compressed, rfl, haead, hplain⟩ := openChunk_ok_iff.mp hopen
    obtain rfl : ct = .box e.keys.chunkKey nonce.toList compressed (be32 seq) :=
      symbolic_aeadDecrypt_ok_iff.mp haead
    obtain ⟨call, hcall, hct⟩ : ∃ call ∈ log,
        call.chunk.ct = .box e.keys.chunkKey nonce.toList compressed (be32 seq) := by
      cases hmade _ rfl with
      | seen h => exact h
      | box h => exact absurd h hsecret
    obtain ⟨compressed', ct', hcompressed, hct', hchunk⟩ := sealChunk_ok_iff.mp call.made
    cases hct'
    rw [hchunk] at hct
    obtain ⟨hkey, hnonce, rfl, hseq⟩ := Sealed.box.inj hct
    refine ⟨call, hcall, SyncEnd.keys_inj.mpr hkey, be32_inj.mp hseq, ?_, ?_⟩
    · rw [hchunk, Vector.toList_inj.mp hnonce, hkey, hseq]
    · exact Option.some.inj ((hlz4 _ _ hcompressed).symm.trans hplain)
  · rintro ⟨call, -, hkeys, rfl, rfl, rfl⟩
    exact openChunk_sealChunk symbolic_aeadInverts hlz4 (hkeys ▸ call.made)

/-- **Sessions of a device sync**: both sides derive the same keys; the keys of two sessions are the same
only if the password and the key pairs are, and otherwise those of one are of no use for those of the
other; and where neither key pair of a session is broken, a chunk opens under its keys at a number only if
it was sealed under them at that number, and is then what was sealed. -/
theorem syncSessions :
    (∀ (P : Primitives), DhCommutes P → ∀ (a b : P.Secret) (otp : Vector UInt8 16), ∃ keys,
      deriveSyncKeys P a (P.publicKey b) otp = .ok keys ∧ deriveSyncKeys P b (P.publicKey a) otp = .ok keys) ∧
    (∀ e f : SyncEnd symbolic, (e.Matches f → e.keys = f.keys) ∧
      (¬ e.Matches f → ∀ k k', e.keys.Has k → f.keys.Has k' → k ≠ k' ∧
        ∀ broken known, (∀ t, known t → t.IsKey) →
          Deduces broken (fun t => known t ∨ e.keys.Has t) k' → Deduces broken known k')) ∧
    ∀ (C : SyncCrates symbolic), C.Lz4Inverts → ∀ (log : List (SealCall C)) (e : SyncEnd symbolic)
      (broken : KeyAgreementPublicKey → Prop) (known : Term KeyAgreementPublicKey → Prop),
      ¬ broken e.secret.name → ¬ broken e.peerPub →
      (∀ t, known t → ∃ f : SyncEnd symbolic, ¬ f.Matches e ∧ f.keys.Has t) →
      ∀ (seq : UInt32) (data : Option (SealedChunk symbolic)) (plain : Bytes),
        (∀ chunk, data = some chunk →
          Sealed.Makeable broken known (fun c => ∃ call ∈ log, call.chunk.ct = c) chunk.ct) →
        (openChunk C e.keys seq data = .ok plain ↔
          ∃ call ∈ log, call.sender.keys = e.keys ∧ call.seq = seq ∧ data = some call.chunk ∧
            call.plaintext = plain) := by
  refine ⟨fun P hcomm a b otp => ?_, fun e f => ⟨fun h => ?_, fun h k k' hk hk' => ⟨?_, ?_⟩⟩, ?_⟩
  · exact ⟨_, deriveSyncKeys_eq ⟨a, P.publicKey b, otp⟩,
      deriveSyncKeys_comm hcomm b a otp ▸ deriveSyncKeys_eq ⟨a, P.publicKey b, otp⟩⟩
  · exact SyncEnd.keys_inj.mpr (SyncEnd.key_eq_iff.mpr ⟨rfl, h⟩)
  · rintro rfl
    rcases hk with rfl | rfl <;> rcases hk' with heq | heq <;> exact h (SyncEnd.key_eq_iff.mp heq).2
  · exact fun broken known hkey => SyncEnd.unrelated h hkey hk'
  · intro C hlz4 log e broken known hsecret hpeer hknown seq data plain
    exact openChunk_iff_sealed hlz4 log (SyncEnd.key_secret hsecret hpeer hknown)

/-- The LZ4 frame of no bytes at all: a header and the end mark. -/
def emptyCrates : SyncCrates symbolic where
  lz4Compress plain := if plain = [] then some [0x04, 0x22, 0x4D, 0x18, 0x60, 0x40, 0x82, 0, 0, 0, 0] else none
  lz4Decompress _ := some []
  sha256 _ := .replicate 32 0
  hmacTag _ _ := .replicate 32 0

def sampleSource : SyncEnd symbolic := ⟨⟨⟨.replicate 32 1⟩⟩, ⟨.replicate 32 2⟩, .replicate 16 3⟩

def sampleTarget : SyncEnd symbolic := ⟨⟨⟨.replicate 32 2⟩⟩, ⟨.replicate 32 1⟩, .replicate 16 3⟩

def sampleCall : SealCall emptyCrates where
  sender := sampleSource
  seq := 0
  plaintext := []
  nonce := .replicate 12 4
  chunk := _
  made := rfl

/-- An empty chunk opens at the target, at its own number only. -/
theorem syncSessions_sample : openChunk emptyCrates sampleTarget.keys 0 (some sampleCall.chunk) = .ok [] ∧
    ∀ plain, openChunk emptyCrates sampleTarget.keys 1 (some sampleCall.chunk) ≠ .ok plain := by
  have hlz4 : emptyCrates.Lz4Inverts := by
    intro plain compressed h
    exact congrArg some (Option.ite_none_right_eq_some.mp h).1.symm
  have hopen := fun seq plain => syncSessions.2.2 emptyCrates hlz4 [sampleCall] sampleTarget (fun _ => False)
    (fun _ => False) id id (fun _ => False.elim) seq (some sampleCall.chunk) plain fun chunk hchunk =>
      .seen ⟨sampleCall, .head _, congrArg SealedChunk.ct (Option.some.inj hchunk)⟩
  constructor
  · refine (hopen 0 []).mpr ⟨sampleCall, .head _, ?_, rfl, rfl, rfl⟩
    exact (syncSessions.2.1 sampleSource sampleTarget).1 ⟨rfl, .inr ⟨rfl, rfl⟩⟩
  · intro plain h
    obtain ⟨call, hcall, -, hseq, -⟩ := (hopen 1 plain).mp h
    rw [List.mem_singleton.mp hcall] at hseq
    exact absurd hseq (by decide)

end Vesper
