import Vesper.Client.SyncRecords
import Vesper.Crypto.SyncChunks

/-!
# Frames of a device sync

`runSourceTransfer` and `runTargetReceive` of `useDeviceSync.ts` at the two ends of a data channel that
an attacker controls. Chunks and the manifest are sealed alike, and the type byte of a frame is outside
the seal: the target takes the one for the other when the byte is changed, and only then does it pass on
what the source did not seal as such.
-/

namespace Vesper.Client
open Symbolic

/-! ## Frames -/

def msgChunk : UInt8 := 1

def msgManifest : UInt8 := 2

/-- `type(1) || seq(4 BE) || payload` -/
structure Frame (P : Primitives) where
  type : UInt8
  seq : UInt32
  data : Option (SealedChunk P)

section
variable {P : Primitives} (C : SyncCrates P) (keys : SyncKeys P)

/-! ## The source -/

/-- `runSourceTransfer` between two messages: the payloads that are left, the number of records that was
counted, the manifest so far, and what went out. What was sealed, and as what, is noted beside it. -/
structure Source (P : Primitives) where
  left : List Bytes
  total : Nat
  entries : List ManifestEntry
  sent : List (Frame P)
  finished : Bool
  chunks : List (UInt32 × Bytes)
  manifests : List Bytes

def Source.start (records : List Bytes) (total : Nat) : Source P := ⟨records, total, [], [], false, [], []⟩

def Source.seq (s : Source P) : UInt32 := .ofNat s.entries.length

/-- `manifestIds.set` throws as soon as there are more records than were counted. -/
def Source.sendChunk (s : Source P) (nonce : Vector UInt8 12) : Source P :=
  match s.finished, s.left with
  | false, payload :: left =>
    if s.total ≤ s.entries.length then { s with finished := true }
    else
      match sealChunk C keys s.seq payload nonce with
      | .error _ => { s with finished := true }
      | .ok chunk =>
        { s with
          left
          entries := s.entries ++ [⟨s.seq.toUInt64, C.sha256 payload⟩]
          sent := s.sent ++ [⟨msgChunk, s.seq, some chunk⟩]
          chunks := s.chunks ++ [(s.seq, payload)] }
  | _, _ => s

/-- After the last record. -/
def Source.sendManifest (s : Source P) (nonce : Vector UInt8 12) : Source P :=
  match s.finished, s.left with
  | false, [] =>
    let manifest := buildManifest C keys.macKey s.entries
    match sealChunk C keys s.seq manifest nonce with
    | .error _ => { s with finished := true }
    | .ok chunk =>
      { s with
        sent := s.sent ++ [⟨msgManifest, s.seq, some chunk⟩]
        finished := true
        manifests := s.manifests ++ [manifest] }
  | _, _ => s

/-! ## The target -/

/-- What `safeReject` is called with. -/
inductive Rejection where
  | aborted
  | core (e : SyncError)
  | importing (e : ImportError)
  | count (expected received : Nat)
  | integrity (seq : UInt32)
  | failed
  | channelError
  | channelClosed

/-- The errors that `runTargetReceive` makes itself. -/
def Rejection.message : Rejection → Option String
  | .aborted => some "aborted"
  | .count expected received =>
    some ("Маніфест: очікували " ++ toString expected ++ " записів, отримали " ++ toString received)
  | .integrity seq => some ("Порушення цілісності на записі " ++ toString seq)
  | .channelError => some "DataChannel помилка"
  | .channelClosed => some "DataChannel закрито передчасно"
  | .core _ | .importing _ | .failed => none

/-- An `onmessage` handler at one of its awaits. -/
inductive FrameHandler (P : Primitives) where
  | opening (frame : Frame P)
  | hashing (seq : UInt32) (plain : Bytes)
  | importing (seq : UInt32) (plain : Bytes)
  | verifying (rawManifest : Bytes)

/-- `runTargetReceive` and the stores. Beside them it is noted which payloads were passed to
`importSyncRecord` and to `syncVerifyManifest`, which were put, and the manifest that was accepted. -/
structure Target (P : Primitives) where
  aborted : Bool
  settled : Option (Except Rejection Unit)
  receivedHashes : AList fun _ : UInt32 => Vector UInt8 32
  handlers : Nat → Option (FrameHandler P)
  arrived : Nat
  db : KeyDb
  passed : List (UInt32 × Bytes)
  checked : List Bytes
  written : List (UInt32 × Bytes)
  accepted : Option (List ManifestEntry)

def Target.start (db : KeyDb) : Target P := ⟨false, none, ∅, fun _ => none, 0, db, [], [], [], none⟩

/-- `safeResolve` and `safeReject` -/
def Target.settle (t : Target P) (outcome : Except Rejection Unit) : Target P :=
  { t with settled := t.settled.or (some outcome) }

def Target.await (t : Target P) (id : Nat) (h : FrameHandler P) : Target P :=
  { t with handlers := Function.update t.handlers id (some h) }

/-- A frame arrives; `none` is too short for a header. -/
def Target.message (t : Target P) : Option (Frame P) → Target P
  | frame =>
    if t.aborted then t.settle (.error .aborted)
    else
      match frame with
      | none => t
      | some frame =>
        if frame.type = msgChunk ∨ frame.type = msgManifest then
          { t.await t.arrived (.opening frame) with arrived := t.arrived + 1 }
        else t

/-- `u64BEToSeq` -/
def entrySeq (e : ManifestEntry) : UInt32 := e.id.toUInt32

/-- The records received against those that the manifest names. -/
def Target.check (t : Target P) (entries : List ManifestEntry) : Except Rejection Unit :=
  if t.receivedHashes.entries.length ≠ entries.length then
    .error (.count entries.length t.receivedHashes.entries.length)
  else
    match entries.find? fun e => t.receivedHashes.lookup (entrySeq e) ≠ some e.hash with
    | some e => .error (.integrity (entrySeq e))
    | none => .ok ()

def Target.opened (t : Target P) (id : Nat) (frame : Frame P) : Target P :=
  match openChunk C keys frame.seq frame.data with
  | .error e => t.settle (.error (.core e))
  | .ok plain =>
    if frame.type = msgChunk then t.await id (.hashing frame.seq plain)
    else { t.await id (.verifying plain) with checked := t.checked ++ [plain] }

def Target.hashed (t : Target P) (id : Nat) (seq : UInt32) (plain : Bytes) : Target P :=
  { t.await id (.importing seq plain) with
    receivedHashes := t.receivedHashes.insert seq (C.sha256 plain)
    passed := t.passed ++ [(seq, plain)] }

/-- The awaits of `importSyncRecord` are taken as one. -/
def Target.imported (t : Target P) (seq : UInt32) (plain : Bytes) : Target P :=
  match importSyncRecord t.db plain with
  | .error e => t.settle (.error (.importing e))
  | .ok db => { t with db, written := t.written ++ [(seq, plain)] }

def Target.verified (t : Target P) (rawManifest : Bytes) : Target P :=
  match verifyManifest C keys.macKey rawManifest with
  | .error e => t.settle (.error (.core e))
  | .ok entries =>
    match t.check entries with
    | .error e => t.settle (.error e)
    | .ok () => { t.settle (.ok ()) with accepted := t.accepted.or (some entries) }

/-- A handler goes on, or what it waits for fails. -/
def Target.resume (t : Target P) (id : Nat) (works : Bool) : Target P :=
  match t.handlers id with
  | none => t
  | some h =>
    let t := { t with handlers := Function.update t.handlers id none }
    if !works then t.settle (.error .failed)
    else
      match h with
      | .opening frame => t.opened C keys id frame
      | .hashing seq plain => t.hashed C id seq plain
      | .importing seq plain => t.imported seq plain
      | .verifying rawManifest => t.verified C keys rawManifest

inductive TargetEvent (P : Primitives) where
  | message (frame : Option (Frame P))
  | resume (id : Nat) (works : Bool)
  | abort
  | error
  | close

def Target.step (t : Target P) : TargetEvent P → Target P
  | .message frame => t.message frame
  | .resume id works => t.resume C keys id works
  | .abort => { t with aborted := true }
  | .error => t.settle (.error .channelError)
  | .close => if t.aborted then t else t.settle (.error .channelClosed)

/-! ## What the target takes for genuine -/

variable (chunk : UInt32 → Bytes → Prop) (manifest : Bytes → Prop)

/-- A frame that, if it opens, opens to what its type byte announces. -/
def Frame.Fits (frame : Frame P) : Prop :=
  ∀ plain, openChunk C keys frame.seq frame.data = .ok plain →
    (frame.type = msgChunk → chunk frame.seq plain) ∧ (frame.type = msgManifest → manifest plain)

def FrameHandler.Genuine : FrameHandler P → Prop
  | .opening frame => (frame.type = msgChunk ∨ frame.type = msgManifest) ∧ frame.Fits C keys chunk manifest
  | .hashing seq plain | .importing seq plain => chunk seq plain
  | .verifying rawManifest => manifest rawManifest

/-- All that a target holds or has passed on is genuine. -/
structure Target.Genuine (t : Target P) : Prop where
  handlers : ∀ id h, t.handlers id = some h → h.Genuine C keys chunk manifest
  passed : ∀ seq plain, (seq, plain) ∈ t.passed → chunk seq plain
  checked : ∀ rawManifest ∈ t.checked, manifest rawManifest

variable {C keys chunk manifest} {t : Target P} {id : Nat} {h : FrameHandler P}

theorem Target.Genuine.start (db : KeyDb) : (Target.start (P := P) db).Genuine C keys chunk manifest :=
  ⟨nofun, nofun, nofun⟩

theorem Target.Genuine.settle (ht : t.Genuine C keys chunk manifest) (outcome : Except Rejection Unit) :
    (t.settle outcome).Genuine C keys chunk manifest :=
  ⟨ht.handlers, ht.passed, ht.checked⟩

theorem Target.Genuine.await (ht : t.Genuine C keys chunk manifest) (hh : h.Genuine C keys chunk manifest) :
    (t.await id h).Genuine C keys chunk manifest where
  handlers id' h' hid' := by
    dsimp only [Target.await] at hid'
    rw [Function.update_apply] at hid'
    split at hid'
    · cases hid'
      exact hh
    · exact ht.handlers id' h' hid'
  passed := ht.passed
  checked := ht.checked

theorem Target.Genuine.drop (ht : t.Genuine C keys chunk manifest) (id : Nat) :
    ({ t with handlers := Function.update t.handlers id none } : Target P).Genuine C keys chunk manifest where
  handlers id' h' hid' := by
    dsimp only at hid'
    rw [Function.update_apply] at hid'
    split at hid'
    · cases hid'
    · exact ht.handlers id' h' hid'
  passed := ht.passed
  checked := ht.checked

theorem Target.Genuine.message (ht : t.Genuine C keys chunk manifest) {frame : Option (Frame P)}
    (hfits : ∀ f, frame = some f → f.Fits C keys chunk manifest) :
    (t.message frame).Genuine C keys chunk manifest := by
  unfold Target.message
  split
  · exact ht.settle _
  cases frame with
  | none => exact ht
  | some f =>
    dsimp only
    split
    · next htype =>
      have hawait : (t.await t.arrived (.opening f)).Genuine C keys chunk manifest :=
        ht.await ⟨htype, hfits f rfl⟩
      exact ⟨hawait.handlers, hawait.passed, hawait.checked⟩
    · exact ht

theorem Target.Genuine.opened (ht : t.Genuine C keys chunk manifest) {frame : Frame P}
    (hh : (FrameHandler.opening frame).Genuine C keys chunk manifest) :
    (t.opened C keys id frame).Genuine C keys chunk manifest := by
  unfold Target.opened
  cases hopen : openChunk C keys frame.seq frame.data with
  | error e => exact ht.settle _
  | ok plain =>
    obtain ⟨hchunk, hmanifest⟩ := hh.2 plain hopen
    dsimp only
    split
    · next htype => exact ht.await (h := .hashing frame.seq plain) (hchunk htype)
    · next htype =>
      have hraw := hmanifest (hh.1.resolve_left htype)
      have hawait : (t.await id (.verifying plain)).Genuine C keys chunk manifest := ht.await hraw
      refine ⟨hawait.handlers, hawait.passed, fun raw hmem => ?_⟩
      rcases List.mem_append.mp hmem with hmem | hmem
      · exact ht.checked raw hmem
      · rw [List.mem_singleton.mp hmem]
        exact hraw

theorem Target.Genuine.hashed (ht : t.Genuine C keys chunk manifest) {seq : UInt32} {plain : Bytes}
    (hh : chunk seq plain) : (t.hashed C id seq plain).Genuine C keys chunk manifest := by
  have hawait : (t.await id (.importing seq plain)).Genuine C keys chunk manifest := ht.await hh
  refine ⟨hawait.handlers, fun seq' plain' hmem => ?_, hawait.checked⟩
  rcases List.mem_append.mp hmem with hmem | hmem
  · exact ht.passed seq' plain' hmem
  · cases List.mem_singleton.mp hmem
    exact hh

theorem Target.Genuine.imported (ht : t.Genuine C keys chunk manifest) (seq : UInt32) (plain : Bytes) :
    (t.imported seq plain).Genuine C keys chunk manifest := by
  unfold Target.imported
  split
  · exact ht.settle _
  · exact ⟨ht.handlers, ht.passed, ht.checked⟩

theorem Target.Genuine.verified (ht : t.Genuine C keys chunk manifest) (rawManifest : Bytes) :
    (t.verified C keys rawManifest).Genuine C keys chunk manifest := by
  unfold Target.verified
  split
  · exact ht.settle _
  split
  · exact ht.settle _
  · exact ⟨ht.handlers, ht.passed, ht.checked⟩

theorem Target.Genuine.resume (ht : t.Genuine C keys chunk manifest) (id : Nat) (works : Bool) :
    (t.resume C keys id works).Genuine C keys chunk manifest := by
  unfold Target.resume
  cases hid : t.handlers id with
  | none => exact ht
  | some h =>
    have hh := ht.handlers id h hid
    have hdrop := ht.drop id
    dsimp only
    split
    · exact hdrop.settle _
    · cases h with
      | opening frame => exact hdrop.opened hh
      | hashing seq plain => exact hdrop.hashed hh
      | importing seq plain => exact hdrop.imported seq plain
      | verifying rawManifest => exact hdrop.verified rawManifest

/-- **One step of the target**: if the frames that arrive fit, all stays genuine. -/
theorem Target.Genuine.step (ht : t.Genuine C keys chunk manifest) {e : TargetEvent P}
    (hfits : ∀ f, e = .message (some f) → f.Fits C keys chunk manifest) :
    (t.step C keys e).Genuine C keys chunk manifest := by
  cases e with
  | message frame => exact ht.message fun f hf => hfits f (by rw [hf])
  | resume id works => exact ht.resume id works
  | abort => exact ⟨ht.handlers, ht.passed, ht.checked⟩
  | error => exact ht.settle _
  | close =>
    rw [Target.step]
    split
    · exact ht
    · exact ht.settle _

theorem Target.Genuine.mono {chunk' : UInt32 → Bytes → Prop} {manifest' : Bytes → Prop}
    (ht : t.Genuine C keys chunk manifest) (hchunk : ∀ seq plain, chunk seq plain → chunk' seq plain)
    (hmanifest : ∀ raw, manifest raw → manifest' raw) : t.Genuine C keys chunk' manifest' where
  handlers id h hid := by
    have hh := ht.handlers id h hid
    cases h with
    | opening frame =>
      refine ⟨hh.1, fun plain hopen => ?_⟩
      obtain ⟨hc, hm⟩ := hh.2 plain hopen
      exact ⟨fun htype => hchunk _ _ (hc htype), fun htype => hmanifest _ (hm htype)⟩
    | hashing seq plain | importing seq plain => exact hchunk _ _ hh
    | verifying rawManifest => exact hmanifest _ hh
  passed seq plain hmem := hchunk _ _ (ht.passed seq plain hmem)
  checked raw hmem := hmanifest _ (ht.checked raw hmem)

/-! ## What the source seals -/

/-- A frame is sealed as what was noted, under its own number. -/
def Source.Sealed (C : SyncCrates P) (keys : SyncKeys P) (s : Source P) (g : Frame P) : Prop :=
  ∃ plain nonce chunk, sealChunk C keys g.seq plain nonce = .ok chunk ∧ g.data = some chunk ∧
    (g.type = msgChunk ∧ (g.seq, plain) ∈ s.chunks ∨ g.type = msgManifest ∧ plain ∈ s.manifests)

/-- The entry of the manifest for a chunk. -/
def chunkEntry (C : SyncCrates P) (chunk : UInt32 × Bytes) : ManifestEntry :=
  ⟨chunk.1.toUInt64, C.sha256 chunk.2⟩

/-- The chunks are the records one after the other, and the manifest names them all. -/
structure Source.Kept (C : SyncCrates P) (keys : SyncKeys P) (records : List Bytes) (s : Source P) : Prop where
  sent : ∀ g ∈ s.sent, s.Sealed C keys g
  records : s.chunks.map Prod.snd ++ s.left = records
  seqs : s.chunks.map Prod.fst = (List.range s.entries.length).map UInt32.ofNat
  entries : s.entries = s.chunks.map (chunkEntry C)
  manifests : ∀ m ∈ s.manifests, s.finished = true ∧ s.left = [] ∧ m = buildManifest C keys.macKey s.entries

variable {records : List Bytes} {s : Source P} {nonce : Vector UInt8 12}

theorem Source.Kept.start (records : List Bytes) (total : Nat) :
    (Source.start (P := P) records total).Kept C keys records :=
  ⟨nofun, rfl, rfl, rfl, nofun⟩

theorem Source.Sealed.mono {s' : Source P} {g : Frame P} (h : s.Sealed C keys g) (hchunks : s.chunks ⊆ s'.chunks)
    (hmanifests : s.manifests ⊆ s'.manifests) : s'.Sealed C keys g := by
  obtain ⟨plain, nonce, chunk, hseal, hdata, hnoted⟩ := h
  exact ⟨plain, nonce, chunk, hseal, hdata,
    hnoted.imp (And.imp_right fun h => hchunks h) (And.imp_right fun h => hmanifests h)⟩

theorem Source.Kept.sendChunk (hs : s.Kept C keys records) (nonce : Vector UInt8 12) :
    (s.sendChunk C keys nonce).Kept C keys records := by
  unfold Source.sendChunk
  split
  · next payload left hfinished hleft =>
    have hnone : ∀ m, m ∉ s.manifests := fun m hm => by
      rw [(hs.manifests m hm).1] at hfinished
      cases hfinished
    split
    · exact ⟨hs.sent, hs.records, hs.seqs, hs.entries, fun m hm => absurd hm (hnone m)⟩
    cases hseal : sealChunk C keys s.seq payload nonce with
    | error e => exact ⟨hs.sent, hs.records, hs.seqs, hs.entries, fun m hm => absurd hm (hnone m)⟩
    | ok chunk =>
      refine ⟨fun g hg => ?_, ?_, ?_, ?_, fun m hm => absurd hm (hnone m)⟩
      · rcases List.mem_append.mp hg with hg | hg
        · exact (hs.sent g hg).mono (List.subset_append_left ..) (List.Subset.refl _)
        · cases List.mem_singleton.mp hg
          exact ⟨payload, nonce, chunk, hseal, rfl,
            .inl ⟨rfl, List.mem_append_right _ (List.mem_singleton.mpr rfl)⟩⟩
      · rw [← hs.records, hleft, List.map_append, List.append_assoc]
        rfl
      · rw [List.map_append, hs.seqs, List.length_append, List.length_singleton, List.range_succ,
          List.map_append]
        rfl
      · rw [List.map_append, ← hs.entries]
        rfl
  · exact hs

theorem Source.Kept.sendManifest (hs : s.Kept C keys records) (nonce : Vector UInt8 12) :
    (s.sendManifest C keys nonce).Kept C keys records := by
  unfold Source.sendManifest
  split
  · next hfinished hleft =>
    have hnone : ∀ m, m ∉ s.manifests := fun m hm => by
      rw [(hs.manifests m hm).1] at hfinished
      cases hfinished
    dsimp only
    cases hseal : sealChunk C keys s.seq (buildManifest C keys.macKey s.entries) nonce with
    | error e => exact ⟨hs.sent, hs.records, hs.seqs, hs.entries, fun m hm => absurd hm (hnone m)⟩
    | ok chunk =>
      refine ⟨fun g hg => ?_, hs.records, hs.seqs, hs.entries, fun m hm => ?_⟩
      · rcases List.mem_append.mp hg with hg | hg
        · exact (hs.sent g hg).mono (List.Subset.refl _) (List.subset_append_left ..)
        · cases List.mem_singleton.mp hg
          exact ⟨_, nonce, chunk, hseal, rfl,
            .inr ⟨rfl, List.mem_append_right _ (List.mem_singleton.mpr rfl)⟩⟩
      · rcases List.mem_append.mp hm with hm | hm
        · exact absurd hm (hnone m)
        · exact ⟨rfl, hleft, List.mem_singleton.mp hm⟩
  · exact hs

/-- A chunk holds the record of its number. -/
theorem Source.Kept.mem_chunks (hs : s.Kept C keys records) {seq : UInt32} {plain : Bytes}
    (h : (seq, plain) ∈ s.chunks) : ∃ i, records[i]? = some plain ∧ seq = .ofNat i := by
  obtain ⟨i, hi⟩ := List.mem_iff_getElem?.mp h
  refine ⟨i, ?_, ?_⟩
  · have hlt : i < (s.chunks.map Prod.snd).length := by
      rw [List.length_map]
      exact (List.getElem?_eq_some_iff.mp hi).1
    rw [← hs.records, List.getElem?_append_left hlt, List.getElem?_map, hi]
    rfl
  · have hseq := congrArg (·[i]?) hs.seqs
    simp only [List.getElem?_map, hi, Option.map_some] at hseq
    obtain ⟨j, hj, heq⟩ := Option.map_eq_some_iff.mp hseq.symm
    obtain ⟨hlt, rfl⟩ := List.getElem?_eq_some_iff.mp hj
    rw [← heq, List.getElem_range]

end

/-! ## The channel -/

/-- Both ends. -/
structure SyncChannel where
  source : Source symbolic
  target : Target symbolic

inductive ChannelEvent where
  | sendChunk (nonce : Vector UInt8 12)
  | sendManifest (nonce : Vector UInt8 12)
  | target (e : TargetEvent symbolic)

/-- The ciphertexts on the wire. -/
def Source.Seen (s : Source symbolic) (ct : symbolic.Cipher) : Prop :=
  ∃ g ∈ s.sent, ∃ chunk, g.data = some chunk ∧ chunk.ct = ct

section
variable (C : SyncCrates symbolic) (keys : SyncKeys symbolic) (broken : KeyAgreementPublicKey → Prop)
  (records : List Bytes) (total : Nat) (db : KeyDb)

/-- What arrives is up to the attacker: any type byte, any number, and any data that can be made of what
was sent. -/
def syncChannel : Machine SyncChannel ChannelEvent where
  init := ⟨.start records total, .start db⟩
  enabled s
    | .target (.message (some frame)) =>
      ∀ chunk, frame.data = some chunk → Sealed.Forgeable broken s.source.Seen chunk.ct
    | _ => True
  next s
    | .sendChunk nonce => { s with source := s.source.sendChunk C keys nonce }
    | .sendManifest nonce => { s with source := s.source.sendManifest C keys nonce }
    | .target e => { s with target := s.target.step C keys e }

/-- What the target passes on as a record or as the manifest, the source sealed as that. -/
def SyncChannel.Authentic (s : SyncChannel) : Prop :=
  (∀ seq plain, (seq, plain) ∈ s.target.passed → (seq, plain) ∈ s.source.chunks) ∧
  ∀ rawManifest ∈ s.target.checked, rawManifest ∈ s.source.manifests

/-- A frame of the source does not arrive as a frame of the other type. -/
def SyncChannel.Unretyped (s : SyncChannel) : ChannelEvent → Prop
  | .target (.message (some frame)) =>
    ∀ g ∈ s.source.sent, g.seq = frame.seq → g.data = frame.data →
      frame.type = msgChunk ∨ frame.type = msgManifest → frame.type = g.type
  | _ => True

variable {C keys broken records total db}

/-- Whatever opens was sealed by the source, and is what its type byte announces unless that was changed. -/
theorem fits_of_forgeable {s : SyncChannel} {frame : Frame symbolic} (hlz4 : C.Lz4Inverts)
    (hkey : ¬ Derives broken keys.chunkKey) (hs : s.source.Kept C keys records)
    (hforge : ∀ chunk, frame.data = some chunk → Sealed.Forgeable broken s.source.Seen chunk.ct)
    (htype : s.Unretyped (.target (.message (some frame)))) :
    frame.Fits C keys (fun seq plain => (seq, plain) ∈ s.source.chunks) (· ∈ s.source.manifests) := by
  intro plain hopen
  obtain ⟨⟨nonce, ct⟩, compressed, hdata, haead, hplain⟩ := openChunk_ok_iff.mp hopen
  have hbox : ct = .box keys.chunkKey nonce.toList compressed (be32 frame.seq) :=
    symbolic_aeadDecrypt_ok_iff.mp haead
  subst hbox
  have hseen : s.source.Seen (.box keys.chunkKey nonce.toList compressed (be32 frame.seq)) := by
    cases hforge _ hdata with
    | seen h => exact h
    | box h => exact absurd h hkey
  obtain ⟨g, hg, chunk, hgdata, hgct⟩ := hseen
  obtain ⟨plain', nonce', chunk', hseal, hgdata', hnoted⟩ := hs.sent g hg
  obtain rfl : chunk = chunk' := Option.some.inj (hgdata.symm.trans hgdata')
  obtain ⟨compressed', ct', hcompressed, hct', rfl⟩ := sealChunk_ok_iff.mp hseal
  obtain ⟨-, hnonce, rfl, hseq⟩ : keys.chunkKey = keys.chunkKey ∧ nonce'.toList = nonce.toList ∧
      compressed' = compressed ∧ be32 g.seq = be32 frame.seq := by
    cases hct'
    exact Sealed.box.inj hgct
  obtain rfl : nonce' = nonce := Vector.toList_inj.mp hnonce
  have hsame : frame.type = msgChunk ∨ frame.type = msgManifest → frame.type = g.type :=
    htype g hg (be32_inj.mp hseq) (by rw [hgdata, hdata, ← hgct])
  obtain rfl : plain' = plain := Option.some.inj ((hlz4 _ _ hcompressed).symm.trans hplain)
  rw [← be32_inj.mp hseq]
  rcases hnoted with ⟨hgtype, hmem⟩ | ⟨hgtype, hmem⟩
  · refine ⟨fun _ => hmem, fun hmanifest => ?_⟩
    rw [← hsame (.inr hmanifest), hmanifest] at hgtype
    exact absurd hgtype (by decide)
  · refine ⟨fun hchunk => ?_, fun _ => hmem⟩
    rw [← hsame (.inl hchunk), hchunk] at hgtype
    exact absurd hgtype (by decide)

/-- The source goes by its records, and the target holds nothing but what the source sealed. -/
structure SyncChannel.Kept (C : SyncCrates symbolic) (keys : SyncKeys symbolic) (records : List Bytes)
    (s : SyncChannel) : Prop where
  source : s.source.Kept C keys records
  target : s.target.Genuine C keys (fun seq plain => (seq, plain) ∈ s.source.chunks) (· ∈ s.source.manifests)

theorem chunks_sendChunk (s : Source symbolic) (nonce : Vector UInt8 12) :
    s.chunks ⊆ (s.sendChunk C keys nonce).chunks ∧ (s.sendChunk C keys nonce).manifests = s.manifests := by
  unfold Source.sendChunk
  split
  · split
    · exact ⟨List.Subset.refl _, rfl⟩
    split
    · exact ⟨List.Subset.refl _, rfl⟩
    · exact ⟨List.subset_append_left .., rfl⟩
  · exact ⟨List.Subset.refl _, rfl⟩

theorem manifests_sendManifest (s : Source symbolic) (nonce : Vector UInt8 12) :
    (s.sendManifest C keys nonce).chunks = s.chunks ∧ s.manifests ⊆ (s.sendManifest C keys nonce).manifests := by
  unfold Source.sendManifest
  split
  · dsimp only
    split
    · exact ⟨rfl, List.Subset.refl _⟩
    · exact ⟨rfl, List.subset_append_left ..⟩
  · exact ⟨rfl, List.Subset.refl _⟩

/-- **One step of the channel**: as long as no frame is retyped, all stays as it was sealed. -/
theorem SyncChannel.Kept.next {s : SyncChannel} {e : ChannelEvent} (hlz4 : C.Lz4Inverts)
    (hkey : ¬ Derives broken keys.chunkKey) (hs : s.Kept C keys records)
    (he : (syncChannel C keys broken records total db).enabled s e) (htype : s.Unretyped e) :
    ((syncChannel C keys broken records total db).next s e).Kept C keys records := by
  cases e with
  | sendChunk nonce =>
    obtain ⟨hchunks, hmanifests⟩ := @chunks_sendChunk C keys s.source nonce
    refine ⟨hs.source.sendChunk nonce, hs.target.mono (fun _ _ h => hchunks h) fun _ h => ?_⟩
    exact (congrArg _ hmanifests).mpr h
  | sendManifest nonce =>
    obtain ⟨hchunks, hmanifests⟩ := @manifests_sendManifest C keys s.source nonce
    refine ⟨hs.source.sendManifest nonce, hs.target.mono (fun _ _ h => ?_) fun _ h => hmanifests h⟩
    exact (congrArg _ hchunks).mpr h
  | target e =>
    refine ⟨hs.source, hs.target.step fun f hf => ?_⟩
    subst hf
    exact fits_of_forgeable hlz4 hkey hs.source he htype

/-- **Authentic transfers**: as long as no frame of the source arrives as one of the other type, the target
passes on nothing but what the source sealed, as a record under its number or as the manifest. -/
theorem authentic_of_unretyped {s : SyncChannel} (hlz4 : C.Lz4Inverts) (hkey : ¬ Derives broken keys.chunkKey)
    (h : ((syncChannel C keys broken records total db).restrict SyncChannel.Unretyped).Reachable s) :
    s.Authentic := by
  have hkept : s.Kept C keys records := by
    induction h with
    | init => exact ⟨.start records total, .start db⟩
    | step _ he ih => exact ih.next hlz4 hkey he.1 he.2
  exact ⟨hkept.target.passed, hkept.target.checked⟩

/-- A chunk that arrives as a manifest is passed to `syncVerifyManifest`. -/
theorem checked_of_retyped {s : SyncChannel} {seq : UInt32} {plain : Bytes} {chunk : SealedChunk symbolic}
    (haborted : s.target.aborted = false) (hopen : openChunk C keys seq (some chunk) = .ok plain) :
    plain ∈ ((syncChannel C keys broken records total db).exec s
      [.target (.message (some ⟨msgManifest, seq, some chunk⟩)),
        .target (.resume s.target.arrived true)]).target.checked := by
  have hmessage : s.target.message (some ⟨msgManifest, seq, some chunk⟩) =
      { s.target.await s.target.arrived (.opening ⟨msgManifest, seq, some chunk⟩) with
        arrived := s.target.arrived + 1 } := by
    simp [Target.message, haborted]
  show plain ∈ ((s.target.message _).resume C keys s.target.arrived true).checked
  rw [hmessage]
  simp [Target.resume, Target.await, Target.opened, hopen, msgManifest, msgChunk]

end

/-! ## A sync of one record -/

/-- The LZ4 frame of a short text that does not compress: one block, stored as it is. -/
def storedFrame (plain : Bytes) : Bytes :=
  [0x04, 0x22, 0x4D, 0x18, 0x60, 0x40, 0x82, .ofNat plain.length, .ofNat (plain.length / 0x100), 0, 0x80] ++
    plain ++ [0, 0, 0, 0]

def sampleCrates : SyncCrates symbolic where
  lz4Compress plain := if plain.length < 0x10000 then some (storedFrame plain) else none
  lz4Decompress frame := some ((frame.drop 11).take (frame.length - 15))
  sha256 _ := #v[135, 172, 201, 218, 43, 32, 217, 191, 153, 160, 10, 43, 216, 154, 254, 224, 51, 86, 213, 244,
    116, 76, 40, 205, 131, 221, 193, 152, 22, 153, 30, 5]
  hmacTag _ _ := #v[178, 126, 53, 35, 30, 192, 32, 68, 64, 52, 24, 8, 17, 15, 92, 170, 65, 114, 151, 215, 65,
    153, 50, 56, 28, 220, 3, 1, 238, 53, 144, 88]

theorem sampleCrates_lz4Inverts : sampleCrates.Lz4Inverts := by
  intro plain frame h
  obtain ⟨-, heq⟩ := Option.ite_none_right_eq_some.mp h
  cases heq
  simp [sampleCrates, storedFrame]

def sampleSyncKeys : SyncKeys symbolic := ⟨.atom 0, .bytes (List.replicate 32 0x11)⟩

/-- A session under the key `3:7`. -/
def samplePayload : Bytes := [2, 0, 3, 51, 58, 55, 1, 2, 3]

def sampleNonce : Vector UInt8 12 := .replicate 12 7

def sampleChunk : SealedChunk symbolic :=
  ⟨sampleNonce, .box (.atom 0) sampleNonce.toList (storedFrame samplePayload) (be32 0)⟩

def sampleChannel : Machine SyncChannel ChannelEvent :=
  syncChannel sampleCrates sampleSyncKeys (fun _ => False) [samplePayload] 1 fun _ => ∅

/-- The chunk on the wire can be sent again under any type. -/
theorem sampleChunk_forgeable : ∀ chunk, some sampleChunk = some chunk → Sealed.Forgeable (fun _ => False)
    (sampleChannel.exec sampleChannel.init [.sendChunk sampleNonce]).source.Seen chunk.ct := by
  rintro chunk ⟨⟩
  exact .seen ⟨⟨msgChunk, 0, some sampleChunk⟩, List.mem_singleton.mpr rfl, sampleChunk, rfl, rfl⟩

/-- The record arrives. -/
def sampleDelivery : List ChannelEvent :=
  [.sendChunk sampleNonce, .target (.message (some ⟨msgChunk, 0, some sampleChunk⟩)), .target (.resume 0 true),
    .target (.resume 0 true)]

theorem authentic_sampleDelivery :
    (sampleChannel.exec sampleChannel.init sampleDelivery).Authentic ∧
    (sampleChannel.exec sampleChannel.init sampleDelivery).target.passed = [(0, samplePayload)] := by
  have hallowed : (sampleChannel.restrict SyncChannel.Unretyped).Allowed sampleChannel.init sampleDelivery := by
    refine ⟨⟨trivial, trivial⟩, ⟨sampleChunk_forgeable, fun g hg _ _ _ => ?_⟩, ⟨trivial, trivial⟩,
      ⟨trivial, trivial⟩, trivial⟩
    rw [List.mem_singleton.mp hg]
  have hreach := Machine.Reachable.init.exec hallowed
  exact ⟨authentic_of_unretyped sampleCrates_lz4Inverts Derives.not_atom hreach, rfl⟩

/-- The manifest of the one record. -/
def sampleManifest : Bytes :=
  buildManifest sampleCrates sampleSyncKeys.macKey [chunkEntry sampleCrates (0, samplePayload)]

def sampleManifestChunk : SealedChunk symbolic :=
  ⟨sampleNonce, .box (.atom 0) sampleNonce.toList (storedFrame sampleManifest) (be32 1)⟩

/-- The manifest arrives as a record: it is imported into `identity`, whose number is that of its version. -/
theorem retyped_not_authentic :
    ∃ es, sampleChannel.Allowed sampleChannel.init es ∧
      ¬ (sampleChannel.exec sampleChannel.init es).Authentic ∧
      (1, sampleManifest) ∈ (sampleChannel.exec sampleChannel.init es).target.written := by
  refine ⟨[.sendChunk sampleNonce, .sendManifest sampleNonce,
    .target (.message (some ⟨msgChunk, 1, some sampleManifestChunk⟩)), .target (.resume 0 true),
    .target (.resume 0 true), .target (.resume 0 true)], ?_, fun hauthentic => ?_, ?_⟩
  · refine ⟨trivial, trivial, ?_, trivial, trivial, trivial, trivial⟩
    rintro chunk ⟨⟩
    exact .seen ⟨⟨msgManifest, 1, some sampleManifestChunk⟩, List.mem_cons_of_mem _ (List.mem_singleton.mpr rfl),
      sampleManifestChunk, rfl, rfl⟩
  · have hmem := hauthentic.1 1 sampleManifest (List.mem_singleton.mpr rfl)
    have hchunk : ((1 : UInt32), sampleManifest) = (0, samplePayload) := List.mem_singleton.mp hmem
    exact absurd (Prod.mk.inj hchunk).1 (by decide)
  · exact List.mem_singleton.mpr rfl

end Vesper.Client
