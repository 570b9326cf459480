import Mathlib.Algebra.GroupWithZero.Nat
import Vesper.Lib.Machine
import Vesper.Client.SyncTransfer

/-!
# The stores under a running export

`runSourceTransfer` with `countSyncRecords` and `exportSyncRecords`, while others write the stores: each store
is counted in a transaction of its own, and read in another one once the generator has come to it. The
buffers of the manifest have room for what was counted.
-/

namespace Vesper.Client
open Unicode

variable {P : Primitives} (C : SyncCrates P) (keys : SyncKeys P)

/-- The pairs that `cursorIterator` reads in one transaction. -/
def SyncStore.snapshot (m : SyncStore) (db : KeyDb) : List SyncRecord :=
  (db m.name).entries.map fun entry => ⟨m, entry.1, entry.2⟩

/-- Without other writers the snapshots are the export. -/
theorem flatMap_snapshot (db : KeyDb) : syncStores.flatMap (·.snapshot db) = exportSyncRecords db := rfl

/-- Both `manifestIds.set` and `manifestHashes.set` stay inside their buffers. -/
def Source.WritesInside (s : Source P) : Prop :=
  s.entries.length * 8 + 8 ≤ s.total * 8 ∧ s.entries.length * 32 + 32 ≤ s.total * 32

instance (s : Source P) : Decidable s.WritesInside := inferInstanceAs (Decidable (_ ∧ _))

theorem Source.writesInside_iff {s : Source P} : s.WritesInside ↔ s.entries.length < s.total := by
  unfold Source.WritesInside
  omega

/-- The stores, what was counted of each, the stores that the generator has not come to, and the loop once its
buffers are allocated. Beside them it is noted what was read, and whether a write was outside. -/
structure Transfer (P : Primitives) where
  db : KeyDb
  counts : StoreName → Option Nat
  unread : List SyncStore
  source : Option (Source P)
  aborted : Bool
  read : List Bytes
  outside : Bool

def Transfer.start (db : KeyDb) : Transfer P := ⟨db, fun _ => none, syncStores, none, false, [], false⟩

inductive TransferEvent
  /-- A transaction of another writer leaves a store with these records. -/
  | written (name : StoreName) (records : AList fun _ : Utf16 => Stored)
  | count (name : StoreName)
  | allocate
  | snapshot
  | send (nonce : Vector UInt8 12)
  | manifest (nonce : Vector UInt8 12)
  | abort

namespace Transfer
variable (t : Transfer P)

/-- The sum of the counts. -/
def total : Nat := (syncStores.map fun m => (t.counts m.name).getD 0).sum

def Enabled : TransferEvent → Prop
  | .written _ _ | .abort => True
  | .count name => t.counts name = none
  | .allocate => t.source.isNone ∧ ∀ m ∈ syncStores, (t.counts m.name).isSome
  | .snapshot => t.unread ≠ [] ∧ ∃ s ∈ t.source, s.finished = false ∧ s.left = []
  | .send _ => t.aborted = false ∧ ∃ s ∈ t.source, s.finished = false ∧ s.left ≠ []
  | .manifest _ => t.aborted = false ∧ t.unread = [] ∧ ∃ s ∈ t.source, s.finished = false ∧ s.left = []

instance : (e : TransferEvent) → Decidable (t.Enabled e)
  | .written _ _ | .abort => .isTrue trivial
  | .count _ => inferInstanceAs (Decidable (_ = none))
  | .allocate => inferInstanceAs (Decidable (_ ∧ _))
  | .snapshot => inferInstanceAs (Decidable (_ ∧ ∃ s ∈ t.source, s.finished = false ∧ s.left = []))
  | .send _ => inferInstanceAs (Decidable (_ ∧ ∃ s ∈ t.source, s.finished = false ∧ s.left ≠ []))
  | .manifest _ => inferInstanceAs (Decidable (_ ∧ _ ∧ ∃ s ∈ t.source, s.finished = false ∧ s.left = []))

/-- The generator reads the next store. -/
def readStore : Transfer P :=
  match t.unread, t.source with
  | m :: unread, some s =>
    let payloads := (m.snapshot t.db).map SyncRecord.payload
    { t with unread, source := some { s with left := s.left ++ payloads }, read := t.read ++ payloads }
  | _, _ => t

def step : TransferEvent → Transfer P
  | .written name records => { t with db := Function.update t.db name records }
  | .count name => { t with counts := Function.update t.counts name (some (t.db name).entries.length) }
  | .allocate => { t with source := some (.start [] t.total) }
  | .snapshot => t.readStore
  | .send nonce =>
    { t with
      source := t.source.map (·.sendChunk C keys nonce)
      outside := t.outside || t.source.any fun s => ¬ s.WritesInside }
  | .manifest nonce => { t with source := t.source.map (·.sendManifest C keys nonce) }
  | .abort => { t with aborted := true }

end Transfer

/-- All runs from stores with any content. -/
def transfer (db : KeyDb) : Machine (Transfer P) TransferEvent where
  init := .start db
  enabled t e := t.Enabled e
  next t e := t.step C keys e

instance (db : KeyDb) (t : Transfer P) (e : TransferEvent) : Decidable ((transfer C keys db).enabled t e) :=
  inferInstanceAs (Decidable (t.Enabled e))

/-! ## What was read and what was sent -/

variable {C keys} {s : Source P} {records more : List Bytes} {nonce : Vector UInt8 12}

/-- More is read while nothing is finished. -/
theorem Source.Kept.read (hs : s.Kept C keys records) (hfinished : s.finished = false) (more : List Bytes) :
    ({ s with left := s.left ++ more } : Source P).Kept C keys (records ++ more) where
  sent := hs.sent
  records := by rw [← hs.records, List.append_assoc]
  seqs := hs.seqs
  entries := hs.entries
  manifests m hm := by
    rw [(hs.manifests m hm).1] at hfinished
    cases hfinished

/-- What was read is in the manifest or left. -/
theorem Source.Kept.length_read (hs : s.Kept C keys records) : records.length = s.entries.length + s.left.length := by
  rw [← hs.records, hs.entries, List.length_append, List.length_map, List.length_map]

/-- The numbers of the chunks that went out. -/
def Source.sentSeqs (s : Source P) : List UInt32 := (s.sent.filter (·.type = msgChunk)).map (·.seq)

theorem Source.sentSeqs_sendChunk (h : s.sentSeqs = s.chunks.map Prod.fst) :
    (s.sendChunk C keys nonce).sentSeqs = (s.sendChunk C keys nonce).chunks.map Prod.fst := by
  unfold Source.sendChunk
  split
  · split
    · exact h
    · split
      · exact h
      · rw [Source.sentSeqs, List.filter_append, List.map_append, List.map_append]
        exact congrArg (· ++ _) h
  · exact h

theorem Source.sentSeqs_sendManifest (h : s.sentSeqs = s.chunks.map Prod.fst) :
    (s.sendManifest C keys nonce).sentSeqs = (s.sendManifest C keys nonce).chunks.map Prod.fst := by
  unfold Source.sendManifest
  split
  · dsimp only
    split
    · exact h
    · rw [Source.sentSeqs, List.filter_append, List.map_append]
      exact (List.append_nil _).trans h
  · exact h

theorem Source.total_sendChunk : (s.sendChunk C keys nonce).total = s.total := by
  unfold Source.sendChunk
  split
  · split
    · rfl
    · split <;> rfl
  · rfl

theorem Source.room_sendChunk (h : s.entries.length ≤ s.total) :
    (s.sendChunk C keys nonce).entries.length ≤ (s.sendChunk C keys nonce).total := by
  unfold Source.sendChunk
  split
  · split
    · exact h
    · rename_i hroom
      split
      · exact h
      · rw [List.length_append]
        exact Nat.lt_of_not_le hroom
  · exact h

theorem Source.room_sendManifest (h : s.entries.length ≤ s.total) :
    (s.sendManifest C keys nonce).entries.length ≤ (s.sendManifest C keys nonce).total := by
  unfold Source.sendManifest
  split
  · dsimp only
    split <;> exact h
  · exact h

theorem Source.total_sendManifest : (s.sendManifest C keys nonce).total = s.total := by
  unfold Source.sendManifest
  split
  · dsimp only
    split <;> rfl
  · rfl

namespace Transfer
variable {t : Transfer P} {e : TransferEvent} {db : KeyDb}

/-- Every record read is sent or left, in order, the frames are those of the chunks, and the manifest has grown
inside its buffers. -/
structure Sound (C : SyncCrates P) (keys : SyncKeys P) (t : Transfer P) : Prop where
  none : t.source = none → t.read = []
  kept : ∀ s ∈ t.source, s.Kept C keys t.read
  seqs : ∀ s ∈ t.source, s.sentSeqs = s.chunks.map Prod.fst
  room : ∀ s ∈ t.source, s.entries.length ≤ s.total

/-- The frames are sealed chunks under their numbers and at most a manifest, which names just these chunks. -/
def Lists (C : SyncCrates P) (keys : SyncKeys P) (t : Transfer P) : Prop :=
  ∀ s ∈ t.source, (∀ g ∈ s.sent, s.Sealed C keys g) ∧ s.sentSeqs = s.chunks.map Prod.fst ∧
    ∀ m ∈ s.manifests, m = buildManifest C keys.macKey (s.chunks.map (chunkEntry C))

theorem Sound.lists (h : t.Sound C keys) : t.Lists C keys := fun s hs =>
  ⟨(h.kept s hs).sent, h.seqs s hs, fun m hm => by
    rw [← (h.kept s hs).entries]
    exact ((h.kept s hs).manifests m hm).2.2⟩

theorem Sound.start (db : KeyDb) : (Transfer.start (P := P) db).Sound C keys  :=
  ⟨fun _ => rfl, nofun, nofun, nofun⟩

theorem Sound.step (h : t.Sound C keys) (he : t.Enabled e) : (t.step C keys e).Sound C keys := by
  cases e with
  | written name records => exact ⟨h.none, h.kept, h.seqs, h.room⟩
  | count name => exact ⟨h.none, h.kept, h.seqs, h.room⟩
  | allocate =>
    have hread : t.read = [] := h.none (Option.isNone_iff_eq_none.mp he.1)
    refine ⟨nofun, fun s hs => ?_, fun s hs => ?_, fun s hs => ?_⟩
    · cases hs
      change Source.Kept C keys t.read _
      rw [hread]
      exact .start [] t.total
    · cases hs
      rfl
    · cases hs
      exact Nat.zero_le _
  | snapshot =>
    obtain ⟨-, s, hs, hfinished, -⟩ := he
    have hkept := h.kept s hs
    have hseqs := h.seqs s hs
    have hroom := h.room s hs
    change t.readStore.Sound C keys
    unfold readStore
    split
    · next hsource =>
      obtain rfl := Option.some.inj (hsource.symm.trans hs)
      refine ⟨nofun, fun s' hs' => ?_, fun s' hs' => ?_, fun s' hs' => ?_⟩
      · cases hs'
        exact hkept.read hfinished _
      · cases hs'
        exact hseqs
      · cases hs'
        exact hroom
    · exact h
  | send nonce =>
    obtain ⟨-, s, hs, -⟩ := he
    rw [Option.mem_def] at hs
    refine ⟨fun hnone => ?_, fun s' hs' => ?_, fun s' hs' => ?_, fun s' hs' => ?_⟩
    · rw [Transfer.step, hs] at hnone
      cases hnone
    · rw [Transfer.step, hs] at hs'
      cases hs'
      exact (h.kept s hs).sendChunk nonce
    · rw [Transfer.step, hs] at hs'
      cases hs'
      exact Source.sentSeqs_sendChunk (h.seqs s hs)
    · rw [Transfer.step, hs] at hs'
      cases hs'
      exact Source.room_sendChunk (h.room s hs)
  | manifest nonce =>
    obtain ⟨-, -, s, hs, -⟩ := he
    rw [Option.mem_def] at hs
    refine ⟨fun hnone => ?_, fun s' hs' => ?_, fun s' hs' => ?_, fun s' hs' => ?_⟩
    · rw [Transfer.step, hs] at hnone
      cases hnone
    · rw [Transfer.step, hs] at hs'
      cases hs'
      exact (h.kept s hs).sendManifest nonce
    · rw [Transfer.step, hs] at hs'
      cases hs'
      exact Source.sentSeqs_sendManifest (h.seqs s hs)
    · rw [Transfer.step, hs] at hs'
      cases hs'
      exact Source.room_sendManifest (h.room s hs)
  | abort => exact ⟨h.none, h.kept, h.seqs, h.room⟩

/-! ## Room for what is read -/

/-- Not more was read than counted. -/
def Fits (t : Transfer P) : Prop := ∀ s ∈ t.source, t.read.length ≤ s.total

/-- A store is read together with which the stores read before hold no more records than were counted. -/
def SnapshotFits (t : Transfer P) : TransferEvent → Prop
  | .snapshot => ∀ m ∈ t.unread.head?, ∀ s ∈ t.source, t.read.length + (t.db m.name).entries.length ≤ s.total
  | _ => True

theorem Sound.fits_step (h : t.Sound C keys) (hfits : t.Fits) (he : t.Enabled e) :
    (t.step C keys e).Fits ↔ t.SnapshotFits e := by
  cases e with
  | written name records => exact iff_of_true hfits trivial
  | count name => exact iff_of_true hfits trivial
  | allocate =>
    have hread : t.read = [] := h.none (Option.isNone_iff_eq_none.mp he.1)
    refine iff_of_true (fun s hs => ?_) trivial
    change t.read.length ≤ s.total
    rw [hread]
    exact Nat.zero_le _
  | snapshot =>
    obtain ⟨hunread, s, hs, -⟩ := he
    obtain ⟨m, unread, hm⟩ := List.exists_cons_of_ne_nil hunread
    rw [Option.mem_def] at hs
    simp only [Fits, SnapshotFits, Transfer.step, readStore, hm, hs, List.head?_cons, Option.mem_def,
      Option.some.injEq, forall_eq', List.length_append, List.length_map, SyncStore.snapshot]
  | send nonce =>
    refine iff_of_true (fun s' hs' => ?_) trivial
    obtain ⟨s, hs, rfl⟩ := Option.map_eq_some_iff.mp hs'
    rw [Source.total_sendChunk]
    exact hfits s hs
  | manifest nonce =>
    refine iff_of_true (fun s' hs' => ?_) trivial
    obtain ⟨s, hs, rfl⟩ := Option.map_eq_some_iff.mp hs'
    rw [Source.total_sendManifest]
    exact hfits s hs
  | abort => exact iff_of_true hfits trivial

/-- While not more was read than counted, no write is outside. -/
theorem Sound.inside_step (h : t.Sound C keys) (hfits : t.Fits) (he : t.Enabled e) (hinside : t.outside = false) :
    (t.step C keys e).outside = false := by
  cases e with
  | written name records => exact hinside
  | count name => exact hinside
  | allocate => exact hinside
  | snapshot =>
    change t.readStore.outside = false
    unfold readStore
    split <;> exact hinside
  | send nonce =>
    obtain ⟨-, s, hs, -, hleft⟩ := he
    have hread := (h.kept s hs).length_read
    have hroom := hfits s hs
    have hpos : 0 < s.left.length := List.length_pos_iff.mpr hleft
    have hwrites : s.WritesInside := Source.writesInside_iff.mpr (by omega)
    rw [Option.mem_def] at hs
    simp only [Transfer.step, hs, hinside, Option.any_some, Bool.false_or, decide_eq_false_iff_not, not_not]
    exact hwrites
  | manifest nonce => exact hinside
  | abort => exact hinside

/-- What is read stays read, and the buffers keep their size. -/
theorem fits_of_step (he : t.Enabled e) (h : (t.step C keys e).Fits) : t.Fits := by
  cases e with
  | written name records => exact h
  | count name => exact h
  | allocate =>
    intro s hs
    rw [Option.isNone_iff_eq_none.mp he.1] at hs
    cases hs
  | snapshot =>
    obtain ⟨hunread, s, hs, -⟩ := he
    obtain ⟨m, unread, hm⟩ := List.exists_cons_of_ne_nil hunread
    rw [Option.mem_def] at hs
    simp only [Fits, Transfer.step, readStore, hm, hs, Option.mem_def, Option.some.injEq, forall_eq',
      List.length_append] at h ⊢
    exact Nat.le_trans (Nat.le_add_right ..) h
  | send nonce =>
    intro s hs
    have htotal := h (s.sendChunk C keys nonce) (Option.map_eq_some_iff.mpr ⟨s, hs, rfl⟩)
    rwa [Source.total_sendChunk] at htotal
  | manifest nonce =>
    intro s hs
    have htotal := h (s.sendManifest C keys nonce) (Option.map_eq_some_iff.mpr ⟨s, hs, rfl⟩)
    rwa [Source.total_sendManifest] at htotal
  | abort => exact h

theorem throughout_fits {run : List TransferEvent} (hrun : (transfer C keys db).Allowed t run)
    (h : ((transfer C keys db).exec t run).Fits) : (transfer C keys db).Throughout Fits t run := by
  induction run generalizing t with
  | nil => exact h
  | cons e run ih =>
    have hrest := ih hrun.2 h
    have hnext : (t.step C keys e).Fits := by
      cases run with
      | nil => exact hrest
      | cons e' run => exact hrest.1
    exact ⟨fits_of_step hrun.1 hnext, hrest⟩

/-- Once the manifest is sent, everything that was read is in it. -/
theorem Sound.fits_of_manifest (h : t.Sound C keys) {s : Source P} (hs : s ∈ t.source) (hsent : s.manifests ≠ []) :
    t.Fits := by
  obtain ⟨m, hm⟩ := List.exists_mem_of_ne_nil _ hsent
  have hread := (h.kept s hs).length_read
  rw [((h.kept s hs).manifests m hm).2.1, List.length_nil, Nat.add_zero] at hread
  intro s' hs'
  obtain rfl := Option.some.inj (hs'.symm.trans hs)
  rw [hread]
  exact h.room _ hs

theorem throughout_inside {run : List TransferEvent} (h : t.Sound C keys) (hfits : t.Fits)
    (hinside : t.outside = false) (hrun : ((transfer C keys db).restrict SnapshotFits).Allowed t run) :
    (transfer C keys db).Throughout (fun t => t.outside = false ∧ t.Lists C keys) t run := by
  refine Machine.throughout_restrict.mp (Machine.throughout_of_invariant
    (I := fun t => t.Sound C keys ∧ t.Fits ∧ t.outside = false) ?_ ?_ ⟨h, hfits, hinside⟩ hrun)
  · rintro t e ⟨h, hfits, hinside⟩ ⟨he, hsnapshot⟩
    exact ⟨h.step he, (h.fits_step hfits he).mpr hsnapshot, h.inside_step hfits he hinside⟩
  · exact fun t ht => ⟨ht.2.2, ht.1.lists⟩

end Transfer

/-- **The buffers of the manifest**: in a run whose snapshots never hold more records together than were counted,
every write is inside and the manifest names just the records sent; and a run in which a snapshot exceeds the
count sends no manifest. -/
theorem transfer_inside (C : SyncCrates P) (keys : SyncKeys P) (db : KeyDb) (run : List TransferEvent)
    (hrun : (transfer C keys db).Allowed (.start db) run) :
    (((transfer C keys db).restrict Transfer.SnapshotFits).Allowed (.start db) run →
      (transfer C keys db).Throughout (fun t => t.outside = false ∧ t.Lists C keys) (.start db) run) ∧
    (∀ s ∈ ((transfer C keys db).exec (.start db) run).source, s.manifests ≠ [] →
      ((transfer C keys db).restrict Transfer.SnapshotFits).Allowed (.start db) run) := by
  refine ⟨Transfer.throughout_inside (.start db) nofun rfl, fun s hs hsent => ?_⟩
  have hsound := hrun.invariant (I := Transfer.Sound C keys) (fun t e h he => h.step he) (.start db)
  have hfits := hsound.fits_of_manifest hs hsent
  refine (Machine.throughout_iff (I := Transfer.Sound C keys) (fun t e h he => h.step he)
    (fun t e h hfits he => h.fits_step hfits he) (.start db) nofun hrun).mp ?_
  exact Transfer.throughout_fits hrun hfits

/-! ## Runs -/

/-- A stored session. -/
def sampleSession : AList fun _ : Utf16 => Stored := .singleton [0x37] (.leaf [1, 2, 3])

def sampleStores : KeyDb := Function.update (fun _ => ∅) .ratchet sampleSession

def countAll : List TransferEvent :=
  [.count .identity, .count .ratchet, .count .groupSender, .count .groupReceiver, .count .msgPlaintext,
    .count .mediaKeys, .allocate]

instance (t : Transfer P) (e : TransferEvent) : Decidable (t.SnapshotFits e) := by
  unfold Transfer.SnapshotFits
  split <;> infer_instance

/-- A record is counted, read and sent, although it is deleted meanwhile. -/
def quietRun : List TransferEvent :=
  countAll ++ [.snapshot, .snapshot, .written .ratchet ∅, .send sampleNonce, .snapshot, .snapshot, .snapshot,
    .snapshot, .manifest sampleNonce]

theorem transfer_inside_quiet : (transfer sampleCrates sampleSyncKeys sampleStores).Throughout
    (fun t => t.outside = false ∧ t.Lists sampleCrates sampleSyncKeys) (.start sampleStores) quietRun :=
  (transfer_inside sampleCrates sampleSyncKeys sampleStores quietRun (by decide +kernel)).1 (by decide +kernel)

/-- A message arrives between the count and the reading of its store. -/
def lateRun : List TransferEvent :=
  countAll ++ [.written .msgPlaintext sampleSession, .snapshot, .snapshot, .snapshot, .snapshot, .snapshot,
    .send sampleNonce]

theorem late_outside : ∃ t, (transfer sampleCrates sampleSyncKeys fun _ => ∅).Reachable t ∧ t.outside = true :=
  ⟨_, Machine.reachable_iff.mpr ⟨lateRun, by decide +kernel, rfl⟩, by decide +kernel⟩

end Vesper.Client
