import Vesper.Client.SyncExport
import Vesper.Client.SyncOutcome

/-!
# The copy that a device sync makes

`runSourceTransfer` at one device, whose stores others write meanwhile, `runTargetReceive` at another, and an
attacker on the channel between them. A sync that has resolved leaves on the target what each store of the source
held when it was read, over what the target had before.
-/

namespace Vesper.Client
open Unicode Symbolic

/-! ## What the target has taken -/

section
variable {P : Primitives} {C : SyncCrates P} {keys : SyncKeys P} {chunk : UInt32 → Bytes → Prop}
  {manifest : Bytes → Prop} {db : KeyDb} {t : Target P} {id : Nat} {h : FrameHandler P}

/-- As long as the sync is not rejected, a record whose hash is noted was put or is on its way, and an acceptance
has found the hashes of all that a manifest names. -/
structure Target.Progress (C : SyncCrates P) (keys : SyncKeys P) (chunk : UInt32 → Bytes → Prop)
    (manifest : Bytes → Prop) (db : KeyDb) (t : Target P) : Prop where
  ids : ∀ id, t.arrived ≤ id → t.handlers id = none
  imported : importSyncRecords db (t.written.map Prod.snd) = .ok t.db
  put : ∀ seq plain, (seq, plain) ∈ t.written → chunk seq plain
  noted : (∀ r, t.settled ≠ some (.error r)) → ∀ seq, (t.receivedHashes.lookup seq).isSome →
    ∃ plain, chunk seq plain ∧ ((seq, plain) ∈ t.written ∨ ∃ id, t.handlers id = some (.importing seq plain))
  complete : t.settled = some (.ok ()) → ∃ raw entries, manifest raw ∧
    verifyManifest C keys.macKey raw = .ok entries ∧ ∀ e ∈ entries, (t.receivedHashes.lookup (entrySeq e)).isSome

/-- A hash is noted, and stays so. -/
theorem isSome_lookup_insert {hashes : AList fun _ : UInt32 => Vector UInt8 32} {seq seq' : UInt32}
    {hash : Vector UInt8 32} :
    ((hashes.insert seq' hash).lookup seq).isSome ↔ seq = seq' ∨ (hashes.lookup seq).isSome := by
  by_cases hseq : seq = seq'
  · subst hseq
    rw [AList.lookup_insert]
    exact iff_of_true rfl (.inl rfl)
  · rw [AList.lookup_insert_ne hseq]
    exact (or_iff_right hseq).symm

namespace Target.Progress

theorem start (db : KeyDb) : (Target.start (P := P) db).Progress C keys chunk manifest db where
  ids _ _ := rfl
  imported := rfl
  put _ _ hmem := absurd hmem List.not_mem_nil
  noted _ seq hseq := by
    rw [Target.start, AList.lookup_empty] at hseq
    cases hseq
  complete hok := by cases hok

theorem mono {chunk' : UInt32 → Bytes → Prop} {manifest' : Bytes → Prop} (ht : t.Progress C keys chunk manifest db)
    (hchunk : ∀ seq plain, chunk seq plain → chunk' seq plain) (hmanifest : ∀ raw, manifest raw → manifest' raw) :
    t.Progress C keys chunk' manifest' db where
  ids := ht.ids
  imported := ht.imported
  put seq plain hmem := hchunk _ _ (ht.put seq plain hmem)
  noted herror seq hseq := by
    obtain ⟨plain, hplain, hrest⟩ := ht.noted herror seq hseq
    exact ⟨plain, hchunk _ _ hplain, hrest⟩
  complete hok := by
    obtain ⟨raw, entries, hraw, hrest⟩ := ht.complete hok
    exact ⟨raw, entries, hmanifest _ hraw, hrest⟩

/-- The handlers that are still to come, when another one ends. -/
theorem free (ht : t.Progress C keys chunk manifest db) (id id' : Nat) (hid' : t.arrived ≤ id') :
    Function.update t.handlers id none id' = none := by
  rw [Function.update_apply]
  split
  · rfl
  · exact ht.ids id' hid'

/-- A rejection, in which a handler may end that puts nothing into an accepted sync. -/
theorem reject (ht : t.Progress C keys chunk manifest db) (id : Nat)
    (hid : t.settled = some (.ok ()) → ∀ seq plain, t.handlers id ≠ some (.importing seq plain)) (r : Rejection) :
    (({ t with handlers := Function.update t.handlers id none } : Target P).settle (.error r)).Progress C keys chunk
      manifest db where
  ids := ht.free id
  imported := ht.imported
  put := ht.put
  noted herror seq hseq := by
    obtain ⟨outcome, hsettled⟩ : ∃ outcome, t.settled = some outcome := by
      cases hsettled : t.settled with
      | none => exact absurd (settle_settled_of_none hsettled (.error r)) (herror r)
      | some outcome => exact ⟨outcome, rfl⟩
    have hsame : (t.settle (.error r)).settled = t.settled := congrArg Target.settled (settle_of_some hsettled _)
    obtain ⟨plain, hplain, hmem | ⟨id', hid'⟩⟩ := ht.noted (fun r' hr' => herror r' (hsame.trans hr')) seq hseq
    · exact ⟨plain, hplain, .inl hmem⟩
    · refine ⟨plain, hplain, .inr ⟨id', (Function.update_of_ne ?_ ..).trans hid'⟩⟩
      rintro rfl
      cases outcome with
      | error r' => exact herror r' (hsame.trans hsettled)
      | ok => exact hid hsettled seq plain hid'
  complete hok := by
    apply ht.complete
    cases hsettled : t.settled with
    | none => cases (settle_settled_of_none hsettled (.error r)).symm.trans hok
    | some outcome => exact hsettled.symm.trans ((congrArg Target.settled (settle_of_some hsettled _)).symm.trans hok)

theorem settle_error (ht : t.Progress C keys chunk manifest db) (r : Rejection) :
    (t.settle (.error r)).Progress C keys chunk manifest db := by
  have hfree := ht.ids t.arrived le_rfl
  have hrejected := ht.reject t.arrived (fun _ seq plain himporting => by cases hfree.symm.trans himporting) r
  rwa [← hfree, Function.update_eq_self] at hrejected

/-- A handler goes from one await to the next. -/
theorem await (ht : t.Progress C keys chunk manifest db) (hid : id < t.arrived)
    (hold : ∀ seq plain, t.handlers id ≠ some (.importing seq plain)) (h : FrameHandler P) :
    (t.await id h).Progress C keys chunk manifest db where
  ids id' hid' := (Function.update_of_ne (Nat.ne_of_gt (Nat.lt_of_lt_of_le hid hid')) ..).trans (ht.ids id' hid')
  imported := ht.imported
  put := ht.put
  noted herror seq hseq := by
    obtain ⟨plain, hplain, hmem | ⟨id', hid'⟩⟩ := ht.noted herror seq hseq
    · exact ⟨plain, hplain, .inl hmem⟩
    · refine ⟨plain, hplain, .inr ⟨id', (Function.update_of_ne ?_ ..).trans hid'⟩⟩
      rintro rfl
      exact hold seq plain hid'
  complete := ht.complete

theorem drop (ht : t.Progress C keys chunk manifest db)
    (hold : ∀ seq plain, t.handlers id ≠ some (.importing seq plain)) :
    ({ t with handlers := Function.update t.handlers id none } : Target P).Progress C keys chunk manifest db where
  ids := ht.free id
  imported := ht.imported
  put := ht.put
  noted herror seq hseq := by
    obtain ⟨plain, hplain, hmem | ⟨id', hid'⟩⟩ := ht.noted herror seq hseq
    · exact ⟨plain, hplain, .inl hmem⟩
    · refine ⟨plain, hplain, .inr ⟨id', (Function.update_of_ne ?_ ..).trans hid'⟩⟩
      rintro rfl
      exact hold seq plain hid'
  complete := ht.complete

theorem message (ht : t.Progress C keys chunk manifest db) (frame : Option (Frame P)) :
    (t.message frame).Progress C keys chunk manifest db := by
  unfold Target.message
  split
  · exact ht.settle_error _
  cases frame with
  | none => exact ht
  | some frame =>
    dsimp only
    split
    · have hmore : ({ t with arrived := t.arrived + 1 } : Target P).Progress C keys chunk manifest db :=
        ⟨fun id hid => ht.ids id (Nat.le_of_succ_le hid), ht.imported, ht.put, ht.noted, ht.complete⟩
      have hfree := ht.ids t.arrived le_rfl
      exact hmore.await (Nat.lt_succ_self _) (fun _ _ himporting => by cases hfree.symm.trans himporting) _
    · exact ht

theorem opened (ht : t.Progress C keys chunk manifest db) (hid : id < t.arrived) (hfree : t.handlers id = none)
    (frame : Frame P) : (t.opened C keys id frame).Progress C keys chunk manifest db := by
  have hold : ∀ seq plain, t.handlers id ≠ some (.importing seq plain) := fun _ _ himporting => by
    cases hfree.symm.trans himporting
  rw [Target.opened]
  split
  · exact ht.settle_error _
  · rename_i plain _
    split
    · exact ht.await hid hold _
    · have hawait := ht.await hid hold (.verifying plain)
      exact ⟨hawait.ids, hawait.imported, hawait.put, hawait.noted, hawait.complete⟩

theorem hashed (ht : t.Progress C keys chunk manifest db) (hid : id < t.arrived) (hfree : t.handlers id = none)
    {seq : UInt32} {plain : Bytes} (hplain : chunk seq plain) :
    (t.hashed C id seq plain).Progress C keys chunk manifest db := by
  have hawait := ht.await hid (fun _ _ himporting => by cases hfree.symm.trans himporting) (.importing seq plain)
  refine ⟨hawait.ids, hawait.imported, hawait.put, fun herror seq' hseq' => ?_, fun hok => ?_⟩
  · rcases isSome_lookup_insert.mp hseq' with rfl | hseq'
    · exact ⟨plain, hplain, .inr ⟨id, Function.update_self ..⟩⟩
    · exact hawait.noted herror seq' hseq'
  · obtain ⟨raw, entries, hraw, hverify, hall⟩ := ht.complete hok
    exact ⟨raw, entries, hraw, hverify, fun e he => isSome_lookup_insert.mpr (.inr (hall e he))⟩

/-- A record that is on its way is put. -/
theorem put_record (ht : t.Progress C keys chunk manifest db) {seq : UInt32} {plain : Bytes}
    (hid : t.handlers id = some (.importing seq plain)) (hplain : chunk seq plain) {db' : KeyDb}
    (himport : importSyncRecord t.db plain = .ok db') :
    (({ t with handlers := Function.update t.handlers id none } : Target P).imported seq plain).Progress C keys chunk
      manifest db := by
  have himported : importSyncRecords db ((t.written ++ [(seq, plain)]).map Prod.snd) = .ok db' := by
    rw [List.map_append, importSyncRecords, List.foldlM_append]
    refine bind_eq_ok.mpr ⟨t.db, ht.imported, ?_⟩
    exact bind_eq_ok.mpr ⟨db', himport, rfl⟩
  rw [Target.imported]
  dsimp only
  rw [himport]
  refine ⟨ht.free id, himported, fun seq' plain' hmem => ?_, fun herror seq' hseq' => ?_, ht.complete⟩
  · rcases List.mem_append.mp hmem with hmem | hmem
    · exact ht.put seq' plain' hmem
    · cases List.mem_singleton.mp hmem
      exact hplain
  · obtain ⟨plain', hplain', hmem | ⟨id', hid'⟩⟩ := ht.noted herror seq' hseq'
    · exact ⟨plain', hplain', .inl (List.mem_append_left _ hmem)⟩
    · by_cases hsame : id' = id
      · subst hsame
        cases hid.symm.trans hid'
        exact ⟨plain, hplain, .inl (List.mem_append_right _ (List.mem_singleton.mpr rfl))⟩
      · exact ⟨plain', hplain', .inr ⟨id', (Function.update_of_ne hsame ..).trans hid'⟩⟩

theorem verified (ht : t.Progress C keys chunk manifest db) {raw : Bytes} (hraw : manifest raw) :
    (t.verified C keys raw).Progress C keys chunk manifest db := by
  rw [Target.verified]
  split
  · exact ht.settle_error _
  rename_i entries hverify
  split
  · exact ht.settle_error _
  rename_i hcheck
  refine ⟨ht.ids, ht.imported, ht.put, fun herror => ht.noted fun r hr => herror r ?_, fun hok => ?_⟩
  · exact (congrArg Target.settled (settle_of_some hr (.ok ()))).trans hr
  · cases hsettled : t.settled with
    | none => exact ⟨raw, entries, hraw, hverify, fun e he => lookup_of_check hcheck he ▸ rfl⟩
    | some outcome =>
      have hsame : (t.settle (.ok ())).settled = t.settled := congrArg Target.settled (settle_of_some hsettled _)
      exact ht.complete (hsame.symm.trans hok)

/-- A handler goes on. -/
theorem resume (ht : t.Progress C keys chunk manifest db) (hgenuine : t.Genuine C keys chunk manifest)
    (himports : ∀ seq plain, chunk seq plain → ∀ db, ∃ db', importSyncRecord db plain = .ok db') {works : Bool}
    (hlasting : works = false → t.settled = some (.ok ()) → ∀ seq plain,
      t.handlers id ≠ some (.importing seq plain)) :
    (t.resume C keys id works).Progress C keys chunk manifest db := by
  rw [Target.resume]
  cases hid : t.handlers id with
  | none => exact ht
  | some h =>
    have hh := hgenuine.handlers id h hid
    have hlt : id < t.arrived := by
      refine Nat.lt_of_not_le fun hle => ?_
      cases hid.symm.trans (ht.ids id hle)
    have hfree : Function.update t.handlers id none id = none := Function.update_self ..
    have hdrop (hne : ∀ seq plain, h ≠ .importing seq plain) :
        ({ t with handlers := Function.update t.handlers id none } : Target P).Progress C keys chunk manifest db :=
      ht.drop fun seq plain himporting => hne seq plain (Option.some.inj (hid.symm.trans himporting))
    cases works with
    | false => exact ht.reject id (hlasting rfl) .failed
    | true =>
      cases h with
      | opening frame => exact (hdrop fun _ _ heq => by cases heq).opened hlt hfree frame
      | hashing seq plain => exact (hdrop fun _ _ heq => by cases heq).hashed hlt hfree hh
      | importing seq plain =>
        obtain ⟨db', himport⟩ := himports seq plain hh t.db
        exact ht.put_record hid hh himport
      | verifying raw => exact (hdrop fun _ _ heq => by cases heq).verified hh

/-- **One step of the target.** -/
theorem step (ht : t.Progress C keys chunk manifest db) (hgenuine : t.Genuine C keys chunk manifest)
    (himports : ∀ seq plain, chunk seq plain → ∀ db, ∃ db', importSyncRecord db plain = .ok db') {e : TargetEvent P}
    (hlasting : ∀ id, e = .resume id false → t.settled = some (.ok ()) → ∀ seq plain,
      t.handlers id ≠ some (.importing seq plain)) : (t.step C keys e).Progress C keys chunk manifest db := by
  cases e with
  | message frame => exact ht.message frame
  | resume id works => exact ht.resume hgenuine himports fun hworks => hlasting id (congrArg _ hworks)
  | abort => exact ⟨ht.ids, ht.imported, ht.put, ht.noted, ht.complete⟩
  | error => exact ht.settle_error _
  | close =>
    rw [Target.step]
    split
    · exact ht
    · exact ht.settle_error _

end Target.Progress

end

/-! ## What the payloads leave behind -/

/-- The stores after some payloads of a snapshot: nothing else was put, and each record whose payload is among
them is there. -/
theorem lookup_importSyncRecords {snapshot : KeyDb} (harrive : ∀ r ∈ exportSyncRecords snapshot, r.Arrives)
    {payloads : List Bytes} (hpayloads : ∀ p ∈ payloads, ∃ r ∈ exportSyncRecords snapshot, r.payload = p)
    {db target : KeyDb} (h : importSyncRecords db payloads = .ok target) :
    (∀ name key, (target name).lookup key = (db name).lookup key ∨
      ∃ value, (snapshot name).lookup key = some value ∧ (target name).lookup key = some value) ∧
    ∀ r ∈ exportSyncRecords snapshot, r.payload ∈ payloads → (target r.store.name).lookup r.key = some r.value := by
  induction payloads generalizing db with
  | nil =>
    cases h
    exact ⟨fun _ _ => .inl rfl, fun r _ hmem => absurd hmem List.not_mem_nil⟩
  | cons p payloads ih =>
    rw [importSyncRecords, List.foldlM_cons] at h
    obtain ⟨db', hp, hrest⟩ := bind_eq_ok.mp h
    obtain ⟨hany, hall⟩ := ih (fun q hq => hpayloads q (.tail _ hq)) hrest
    have hput : ∀ r ∈ exportSyncRecords snapshot, r.payload = p → db' = db.put r.store.name r.key r.value := by
      rintro r hr rfl
      exact Except.ok.inj (hp.symm.trans ((harrive r hr).import db))
    refine ⟨fun name key => ?_, fun r hr hmem => ?_⟩
    · obtain ⟨r, hr, hpayload⟩ := hpayloads p (.head _)
      rcases hany name key with hsame | hfound
      · rw [hput r hr hpayload, lookup_put] at hsame
        split at hsame
        · rename_i hslot
          obtain ⟨rfl, rfl⟩ := hslot
          exact .inr ⟨r.value, (mem_exportSyncRecords.mp hr).2, hsame⟩
        · exact .inl hsame
      · exact .inr hfound
    · rcases List.mem_cons.mp hmem with hpayload | hmem
      · rcases hany r.store.name r.key with hsame | ⟨value, hvalue, hfound⟩
        · rwa [hput r hr hpayload, lookup_put, if_pos ⟨rfl, rfl⟩] at hsame
        · rwa [(mem_exportSyncRecords.mp hr).2.symm.trans hvalue]
      · exact hall r hr hmem

theorem flatMap_snapshot_congr {stores : List SyncStore} {db db' : KeyDb}
    (h : ∀ m ∈ stores, db m.name = db' m.name) : stores.flatMap (·.snapshot db) = stores.flatMap (·.snapshot db') := by
  induction stores with
  | nil => rfl
  | cons m stores ih =>
    have hm : m.snapshot db = m.snapshot db' := by rw [SyncStore.snapshot, SyncStore.snapshot, h m (.head _)]
    rw [List.flatMap_cons, List.flatMap_cons, hm, ih fun m hm => h m (.tail _ hm)]

theorem flatMap_snapshot_eq_nil {stores : List SyncStore} {db : KeyDb} (h : ∀ m ∈ stores, db m.name = ∅) :
    stores.flatMap (·.snapshot db) = [] := by
  refine List.flatMap_eq_nil_iff.mpr fun m hm => ?_
  rw [SyncStore.snapshot, h m hm]
  rfl

/-- The next store is read. -/
theorem exportSyncRecords_update {done unread : List SyncStore} {m : SyncStore}
    (hstores : done ++ m :: unread = syncStores) {snapshot : KeyDb} (hempty : ∀ m' ∈ m :: unread, snapshot m'.name = ∅)
    (db : KeyDb) : exportSyncRecords (Function.update snapshot m.name (db m.name)) =
      exportSyncRecords snapshot ++ m.snapshot db := by
  have hdistinct := pairwise_syncStores
  rw [← hstores] at hdistinct
  obtain ⟨-, hrest, hbefore⟩ := List.pairwise_append.mp hdistinct
  have hafter := (List.pairwise_cons.mp hrest).1
  have hdone : done.flatMap (·.snapshot (Function.update snapshot m.name (db m.name))) =
      done.flatMap (·.snapshot snapshot) :=
    flatMap_snapshot_congr fun m' hm' => Function.update_of_ne (hbefore m' hm' m (.head _)) ..
  have hunread : unread.flatMap (·.snapshot (Function.update snapshot m.name (db m.name))) = [] := by
    refine flatMap_snapshot_eq_nil fun m' hm' => ?_
    rw [Function.update_of_ne (hafter m' hm').symm]
    exact hempty m' (.tail _ hm')
  have hm : m.snapshot (Function.update snapshot m.name (db m.name)) = m.snapshot db := by
    rw [SyncStore.snapshot, SyncStore.snapshot, Function.update_self]
  rw [← flatMap_snapshot, ← flatMap_snapshot, ← hstores, List.flatMap_append, List.flatMap_append, List.flatMap_cons,
    hdone, hunread, hm, flatMap_snapshot_eq_nil hempty, List.append_nil, List.append_nil]

/-! ## Both devices -/

structure SyncRun where
  source : Transfer symbolic
  target : Target symbolic
  /-- What each store held when it was read; no step reads it. -/
  snapshot : KeyDb

inductive SyncEvent
  | source (e : TransferEvent)
  | target (e : TargetEvent symbolic)

/-- The loop of the source, which has sent nothing before its buffers are allocated. -/
def Transfer.sent (t : Transfer symbolic) : Source symbolic := t.source.getD (.start [] 0)

def SyncRun.noted (s : SyncRun) : TransferEvent → KeyDb
  | .snapshot =>
    match s.source.unread with
    | m :: _ => Function.update s.snapshot m.name (s.source.db m.name)
    | [] => s.snapshot
  | _ => s.snapshot

section
variable (C : SyncCrates symbolic) (keys : SyncKeys symbolic) (broken : KeyAgreementPublicKey → Prop)
  (here there : KeyDb)

/-- The source with other writers, and the target with whatever an attacker can make of the frames. -/
def syncRun : Machine SyncRun SyncEvent where
  init := ⟨.start here, .start there, fun _ => ∅⟩
  enabled s
    | .source e => s.source.Enabled e
    | .target (.message (some frame)) =>
      ∀ chunk, frame.data = some chunk → Sealed.Forgeable broken s.source.sent.Seen chunk.ct
    | .target _ => True
  next s
    | .source e => { s with source := s.source.step C keys e, snapshot := s.noted e }
    | .target e => { s with target := s.target.step C keys e }

/-- No frame of the source arrives as one of the other type, the records that are read can be transported and
have numbers, and no import fails in an accepted sync. -/
structure SyncRun.Fair (s : SyncRun) (e : SyncEvent) : Prop where
  unretyped : ∀ frame, e = .target (.message (some frame)) → ∀ g ∈ s.source.sent.sent, g.seq = frame.seq →
    g.data = frame.data → frame.type = msgChunk ∨ frame.type = msgManifest → frame.type = g.type
  readable : e = .source .snapshot → ∀ m ∈ s.source.unread.head?, (∀ r ∈ m.snapshot s.source.db, r.Arrives) ∧
    s.source.read.length + (m.snapshot s.source.db).length < 2 ^ 32
  lasting : ∀ id, e = .target (.resume id false) → s.target.settled = some (.ok ()) → ∀ seq plain,
    s.target.handlers id ≠ some (.importing seq plain)

/-- What was read are the records of the snapshot, and the target has nothing but what was sealed of them. -/
structure SyncRun.Copied (s : SyncRun) : Prop where
  sound : s.source.Sound C keys
  stores : ∃ done, done ++ s.source.unread = syncStores ∧ ∀ m ∈ s.source.unread, s.snapshot m.name = ∅
  read : s.source.read = (exportSyncRecords s.snapshot).map SyncRecord.payload
  arrives : ∀ r ∈ exportSyncRecords s.snapshot, r.Arrives
  small : s.source.read.length < 2 ^ 32
  ended : s.source.sent.manifests ≠ [] → s.source.unread = []
  genuine : s.target.Genuine C keys (fun seq plain => (seq, plain) ∈ s.source.sent.chunks)
    (· ∈ s.source.sent.manifests)
  progress : s.target.Progress C keys (fun seq plain => (seq, plain) ∈ s.source.sent.chunks)
    (· ∈ s.source.sent.manifests) there

variable {C keys broken here there} {t : Transfer symbolic} {s : SyncRun} {e : SyncEvent}

theorem Transfer.Sound.kept_sent (h : t.Sound C keys) : t.sent.Kept C keys t.read := by
  rw [Transfer.sent]
  cases hsource : t.source with
  | none =>
    rw [h.none hsource]
    exact .start [] 0
  | some source => exact h.kept source hsource

variable (C keys) in
/-- What was sealed stays sealed. -/
theorem Transfer.sent_grows {e : TransferEvent} (he : t.Enabled e) :
    t.sent.chunks ⊆ (t.step C keys e).sent.chunks ∧ t.sent.manifests ⊆ (t.step C keys e).sent.manifests := by
  cases e with
  | written | count | abort => exact ⟨List.Subset.refl _, List.Subset.refl _⟩
  | allocate =>
    have hnone := Option.isNone_iff_eq_none.mp he.1
    rw [Transfer.sent, hnone]
    exact ⟨List.nil_subset _, List.nil_subset _⟩
  | snapshot =>
    rw [Transfer.step, Transfer.readStore]
    split
    · rename_i hsource
      rw [Transfer.sent, hsource]
      exact ⟨List.Subset.refl _, List.Subset.refl _⟩
    · exact ⟨List.Subset.refl _, List.Subset.refl _⟩
  | send nonce =>
    obtain ⟨-, source, hsource, -⟩ := he
    obtain ⟨hchunks, hmanifests⟩ := chunks_sendChunk (C := C) source nonce
    rw [Transfer.sent, Transfer.sent, Transfer.step, Option.mem_def.mp hsource]
    exact ⟨hchunks, (congrArg (source.manifests ⊆ ·) hmanifests).mpr (List.Subset.refl _)⟩
  | manifest nonce =>
    obtain ⟨-, -, source, hsource, -⟩ := he
    obtain ⟨hchunks, hmanifests⟩ := manifests_sendManifest (C := C) source nonce
    rw [Transfer.sent, Transfer.sent, Transfer.step, Option.mem_def.mp hsource]
    exact ⟨(congrArg (source.chunks ⊆ ·) hchunks).mpr (List.Subset.refl _), hmanifests⟩

variable (C keys t) in
/-- Only a snapshot changes what was read. -/
theorem Transfer.step_of_ne_snapshot {e : TransferEvent} (h : e ≠ .snapshot) :
    (t.step C keys e).unread = t.unread ∧ (t.step C keys e).read = t.read := by
  cases e with
  | snapshot => exact absurd rfl h
  | written | count | abort | allocate | send | manifest => exact ⟨rfl, rfl⟩

/-- The manifest is sealed when all stores have been read. -/
theorem Transfer.ended_step {e : TransferEvent} (he : t.Enabled e) (hended : t.sent.manifests ≠ [] → t.unread = [])
    (h : e ≠ .snapshot) (hmanifests : (t.step C keys e).sent.manifests ≠ []) : t.unread = [] := by
  cases e with
  | snapshot => exact absurd rfl h
  | written | count | abort => exact hended hmanifests
  | allocate => exact absurd rfl hmanifests
  | send nonce =>
    obtain ⟨-, source, hsource, -⟩ := he
    rw [Transfer.sent, Transfer.step, Option.mem_def.mp hsource] at hmanifests
    apply hended
    rw [Transfer.sent, Option.mem_def.mp hsource]
    exact fun hnil => hmanifests ((chunks_sendChunk (C := C) source nonce).2.trans hnil)
  | manifest => exact he.2.1

namespace SyncRun.Copied

theorem kept (h : s.Copied C keys there) : s.source.sent.Kept C keys s.source.read := h.sound.kept_sent

/-- What was sealed as a record is one of the snapshot. -/
theorem record (h : s.Copied C keys there) {seq : UInt32} {plain : Bytes} (hmem : (seq, plain) ∈ s.source.sent.chunks) :
    ∃ r ∈ exportSyncRecords s.snapshot, r.payload = plain := by
  obtain ⟨i, hi, -⟩ := h.kept.mem_chunks hmem
  have hread := List.mem_of_getElem? hi
  rw [h.read] at hread
  exact List.mem_map.mp hread

theorem imports (h : s.Copied C keys there) (seq : UInt32) (plain : Bytes)
    (hmem : (seq, plain) ∈ s.source.sent.chunks) (db : KeyDb) : ∃ db', importSyncRecord db plain = .ok db' := by
  obtain ⟨r, hr, rfl⟩ := h.record hmem
  exact ⟨_, (h.arrives r hr).import db⟩

/-- A step of the source by which the stores that are read stay the same. -/
theorem source_step (h : s.Copied C keys there) {e : TransferEvent} (he : s.source.Enabled e) {snapshot : KeyDb}
    (hstores : ∃ done, done ++ (s.source.step C keys e).unread = syncStores ∧
      ∀ m ∈ (s.source.step C keys e).unread, snapshot m.name = ∅)
    (hread : (s.source.step C keys e).read = (exportSyncRecords snapshot).map SyncRecord.payload)
    (harrives : ∀ r ∈ exportSyncRecords snapshot, r.Arrives) (hsmall : (s.source.step C keys e).read.length < 2 ^ 32)
    (hended : (s.source.step C keys e).sent.manifests ≠ [] → (s.source.step C keys e).unread = []) :
    SyncRun.Copied C keys there { s with source := s.source.step C keys e, snapshot } := by
  obtain ⟨hchunks, hmanifests⟩ := Transfer.sent_grows C keys he
  exact ⟨h.sound.step he, hstores, hread, harrives, hsmall, hended,
    h.genuine.mono (fun _ _ hmem => hchunks hmem) fun _ hmem => hmanifests hmem,
    h.progress.mono (fun _ _ hmem => hchunks hmem) fun _ hmem => hmanifests hmem⟩

theorem snapshot (h : s.Copied C keys there) (he : s.source.Enabled .snapshot)
    (hreadable : ∀ m ∈ s.source.unread.head?, (∀ r ∈ m.snapshot s.source.db, r.Arrives) ∧
      s.source.read.length + (m.snapshot s.source.db).length < 2 ^ 32) :
    SyncRun.Copied C keys there
      { s with source := s.source.step C keys .snapshot, snapshot := s.noted .snapshot } := by
  obtain ⟨hunread, source, hsource, hfinished, -⟩ := id he
  obtain ⟨m, unread, hm⟩ := List.exists_cons_of_ne_nil hunread
  rw [Option.mem_def] at hsource
  rw [hm] at hreadable
  obtain ⟨harrive, hsmall⟩ := hreadable m rfl
  obtain ⟨done, hdone, hempty⟩ := h.stores
  rw [hm] at hdone hempty
  have hstep : s.source.step C keys .snapshot = { s.source with
      unread, source := some { source with left := source.left ++ (m.snapshot s.source.db).map SyncRecord.payload },
      read := s.source.read ++ (m.snapshot s.source.db).map SyncRecord.payload } := by
    rw [Transfer.step, Transfer.readStore, hm, hsource]
  have hnoted : s.noted .snapshot = Function.update s.snapshot m.name (s.source.db m.name) := by
    rw [SyncRun.noted, hm]
  have hexport := exportSyncRecords_update hdone hempty s.source.db
  have hnames : ∀ m' ∈ unread, m'.name ≠ m.name := by
    have hdistinct := pairwise_syncStores
    rw [← hdone] at hdistinct
    obtain ⟨-, hrest, -⟩ := List.pairwise_append.mp hdistinct
    exact fun m' hm' => ((List.pairwise_cons.mp hrest).1 m' hm').symm
  apply h.source_step he
  · rw [hstep, hnoted]
    refine ⟨done ++ [m], by rw [List.append_assoc]; exact hdone, fun m' hm' => ?_⟩
    rw [Function.update_of_ne (hnames m' hm')]
    exact hempty m' (.tail _ hm')
  · rw [hstep, hnoted, hexport, List.map_append, ← h.read]
  · intro r hr
    rw [hnoted, hexport] at hr
    exact (List.mem_append.mp hr).elim (h.arrives r) (harrive r)
  · rw [hstep, List.length_append, List.length_map]
    exact hsmall
  · intro hmanifests
    refine absurd (List.exists_mem_of_ne_nil _ hmanifests) ?_
    rintro ⟨raw, hraw⟩
    rw [hstep, Transfer.sent, Option.getD_some] at hraw
    have hkept := h.sound.kept source hsource
    exact Bool.false_ne_true (hfinished.symm.trans (hkept.manifests raw hraw).1)

/-- **One step of the sync.** -/
theorem next (h : s.Copied C keys there) (hlz4 : C.Lz4Inverts) (hkey : ¬ Derives broken keys.chunkKey)
    (he : (syncRun C keys broken here there).enabled s e) (hfair : s.Fair e) :
    ((syncRun C keys broken here there).next s e).Copied C keys there := by
  cases e with
  | source e =>
    by_cases hsnapshot : e = .snapshot
    · subst hsnapshot
      exact h.snapshot he (hfair.readable rfl)
    · obtain ⟨hunread, hread⟩ := Transfer.step_of_ne_snapshot C keys s.source hsnapshot
      have hnoted : s.noted e = s.snapshot := by
        cases e with
        | snapshot => exact absurd rfl hsnapshot
        | written | count | abort | allocate | send | manifest => rfl
      show SyncRun.Copied C keys there { s with source := s.source.step C keys e, snapshot := s.noted e }
      rw [hnoted]
      refine h.source_step he (by rw [hunread]; exact h.stores) (hread.trans h.read) h.arrives
        (by rw [hread]; exact h.small) fun hmanifests => ?_
      exact hunread.trans (Transfer.ended_step he h.ended hsnapshot hmanifests)
  | target e =>
    have hfits : ∀ frame, e = .message (some frame) → frame.Fits C keys
        (fun seq plain => (seq, plain) ∈ s.source.sent.chunks) (· ∈ s.source.sent.manifests) := by
      rintro frame rfl
      exact fits_of_forgeable (s := ⟨s.source.sent, s.target⟩) hlz4 hkey h.kept he (hfair.unretyped frame rfl)
    exact { h with
      genuine := h.genuine.step hfits
      progress := h.progress.step h.genuine h.imports fun id hid => hfair.lasting id (congrArg _ hid) }

theorem init : SyncRun.Copied C keys there ⟨.start here, .start there, fun _ => ∅⟩ where
  sound := .start here
  stores := ⟨[], rfl, fun _ _ => rfl⟩
  read := rfl
  arrives r hr := by
    rw [← flatMap_snapshot, flatMap_snapshot_eq_nil fun _ _ => rfl] at hr
    cases hr
  small := by
    show (0 : Nat) < 2 ^ 32
    omega
  ended hmanifests := absurd rfl hmanifests
  genuine := .start there
  progress := .start there

/-- What the target has put is of the snapshot. -/
theorem written (h : s.Copied C keys there) :
    ∀ p ∈ s.target.written.map Prod.snd, ∃ r ∈ exportSyncRecords s.snapshot, r.payload = p := by
  intro p hp
  obtain ⟨⟨seq, plain⟩, hmem, rfl⟩ := List.mem_map.mp hp
  exact h.record (h.progress.put seq plain hmem)

/-- In a sync that was accepted, all is put that is not on its way. -/
theorem all_written (h : s.Copied C keys there) (hok : s.target.settled = some (.ok ()))
    (hdone : ∀ id seq plain, s.target.handlers id ≠ some (.importing seq plain)) {r : SyncRecord}
    (hr : r ∈ exportSyncRecords s.snapshot) : r.payload ∈ s.target.written.map Prod.snd := by
  obtain ⟨raw, entries, hraw, hverify, hall⟩ := h.progress.complete hok
  obtain ⟨-, hleft, rfl⟩ := h.kept.manifests raw hraw
  have hread := h.kept.records
  rw [hleft, List.append_nil] at hread
  have hlength : s.source.sent.entries.length = s.source.read.length := by
    rw [h.kept.entries, List.length_map, ← hread, List.length_map]
  rw [verifyManifest_buildManifest C keys.macKey (hlength ▸ h.small)] at hverify
  obtain rfl := Except.ok.inj hverify
  have hmem : r.payload ∈ s.source.sent.chunks.map Prod.snd := by
    rw [hread, h.read]
    exact List.mem_map_of_mem hr
  obtain ⟨⟨seq, plain⟩, hchunk, hplain⟩ := List.mem_map.mp hmem
  have hentry : chunkEntry C (seq, plain) ∈ s.source.sent.entries := by
    rw [h.kept.entries]
    exact List.mem_map_of_mem hchunk
  have hnoted := hall _ hentry
  rw [entrySeq_chunkEntry] at hnoted
  have herror : ∀ e, s.target.settled ≠ some (.error e) := fun e he => by cases hok.symm.trans he
  obtain ⟨plain', hplain', hput | ⟨id, hid⟩⟩ := h.progress.noted herror seq hnoted
  · have hsame : some plain' = some plain :=
      (h.kept.record_of_mem h.small hplain').symm.trans (h.kept.record_of_mem h.small hchunk)
    obtain rfl := Option.some.inj hsame
    exact hplain ▸ List.mem_map_of_mem hput
  · exact absurd hid (hdone id seq plain')

end SyncRun.Copied

/-- **A device sync copies the stores.** In every fair run, whatever other writers do at the source and an attacker
on the channel, each entry of the target is one that it had or one that a store of the source had when it was read;
and once the sync has resolved and no import is under way any more, all six stores have been read, and each store
of the target has what it had, overwritten with all that the store of the source had. -/
theorem sync_copies (hlz4 : C.Lz4Inverts) (hkey : ¬ Derives broken keys.chunkKey)
    (hs : ((syncRun C keys broken here there).restrict SyncRun.Fair).Reachable s) :
    (∀ name key, (s.target.db name).lookup key = (there name).lookup key ∨
      ∃ value, (s.snapshot name).lookup key = some value ∧ (s.target.db name).lookup key = some value) ∧
    (s.target.settled = some (.ok ()) → (∀ id seq plain, s.target.handlers id ≠ some (.importing seq plain)) →
      s.source.unread = [] ∧
        ∀ name key, (s.target.db name).lookup key = ((s.snapshot name).lookup key).or ((there name).lookup key)) := by
  have h : s.Copied C keys there := by
    induction hs with
    | init => exact .init
    | step _ he ih => exact ih.next hlz4 hkey he.1 he.2
  obtain ⟨hany, hall⟩ := lookup_importSyncRecords h.arrives h.written h.progress.imported
  refine ⟨hany, fun hok hdone => ⟨?_, fun name key => ?_⟩⟩
  · obtain ⟨raw, -, hraw, -⟩ := h.progress.complete hok
    exact h.ended (List.ne_nil_of_mem hraw)
  · cases hlookup : (s.snapshot name).lookup key with
    | none =>
      rcases hany name key with hsame | ⟨value, hvalue, -⟩
      · exact hsame
      · cases hlookup.symm.trans hvalue
    | some value =>
      obtain ⟨m, hm, rfl⟩ := exists_syncStore name
      have hr : (⟨m, key, value⟩ : SyncRecord) ∈ exportSyncRecords s.snapshot :=
        mem_exportSyncRecords.mpr ⟨hm, hlookup⟩
      exact hall _ hr (h.all_written hok hdone hr)

end

/-! ## A sync of one session -/

/-- A step of the source that reads nothing is fair. -/
theorem fair_other {s : SyncRun} {e : TransferEvent} (he : e ≠ .snapshot) : s.Fair (.source e) :=
  ⟨fun _ h => (by cases h), fun h => absurd (SyncEvent.source.inj h) he, fun _ h => (by cases h)⟩

theorem fair_empty {s : SyncRun} {m : SyncStore} (hm : s.source.unread.head? = some m)
    (hempty : m.snapshot s.source.db = []) (hsmall : s.source.read.length < 2 ^ 32) : s.Fair (.source .snapshot) := by
  refine ⟨fun _ h => (by cases h), fun _ m' hm' => ?_, fun _ h => (by cases h)⟩
  obtain rfl := Option.some.inj (hm.symm.trans hm')
  rw [hempty]
  exact ⟨fun r hr => absurd hr List.not_mem_nil, hsmall⟩

/-- The session under the key `7`. -/
def sampleRecord : SyncRecord := ⟨⟨.ratchet, 2, true⟩, [0x37], .leaf [1, 2, 3]⟩

theorem sampleRecord_arrives : sampleRecord.Arrives :=
  ⟨.tail _ (.head _), transportable_ascii (by simp [sampleRecord]) (by simp [sampleRecord]), rfl, by decide⟩

def sampleRun : Machine SyncRun SyncEvent :=
  syncRun sampleCrates sampleSyncKeys (fun _ => False) sampleStores fun _ => ∅

def sourceRun : List SyncEvent := quietRun.map .source

/-- The only record that is read can be transported. -/
theorem fair_sample {s : SyncRun} {m : SyncStore} (hm : s.source.unread.head? = some m)
    (hrecord : m.snapshot s.source.db = [sampleRecord]) (hread : s.source.read = []) : s.Fair (.source .snapshot) := by
  refine ⟨fun _ h => (by cases h), fun _ m' hm' => ?_, fun _ h => (by cases h)⟩
  obtain rfl := Option.some.inj (hm.symm.trans hm')
  rw [hrecord, hread]
  refine ⟨fun r hr => ?_, by decide⟩
  rw [List.mem_singleton.mp hr]
  exact sampleRecord_arrives

theorem sourceRun_allowed : (sampleRun.restrict SyncRun.Fair).Allowed sampleRun.init sourceRun := by
  have hother : ∀ {s : SyncRun} {e : TransferEvent}, s.source.Enabled e → e ≠ .snapshot →
      (sampleRun.restrict SyncRun.Fair).enabled s (.source e) := fun he hne => ⟨he, fair_other hne⟩
  have hempty : ∀ {s : SyncRun} {m : SyncStore}, s.source.Enabled .snapshot → s.source.unread.head? = some m →
      m.snapshot s.source.db = [] → s.source.read.length < 2 ^ 32 →
      (sampleRun.restrict SyncRun.Fair).enabled s (.source .snapshot) :=
    fun he hm hnil hsmall => ⟨he, fair_empty hm hnil hsmall⟩
  have hsample : ∀ {s : SyncRun} {m : SyncStore}, s.source.Enabled .snapshot → s.source.unread.head? = some m →
      m.snapshot s.source.db = [sampleRecord] → s.source.read = [] →
      (sampleRun.restrict SyncRun.Fair).enabled s (.source .snapshot) :=
    fun he hm hrecord hread => ⟨he, fair_sample hm hrecord hread⟩
  refine ⟨hother ?_ ?_, hother ?_ ?_, hother ?_ ?_, hother ?_ ?_, hother ?_ ?_, hother ?_ ?_, hother ?_ ?_,
    hempty ?_ rfl rfl ?_, hsample ?_ rfl rfl rfl, hother ?_ ?_, hother ?_ ?_, hempty ?_ rfl rfl ?_,
    hempty ?_ rfl rfl ?_, hempty ?_ rfl rfl ?_, hempty ?_ rfl rfl ?_, hother ?_ ?_, trivial⟩
  all_goals first | exact fun h => (by cases h) | decide

def recordChunk : SealedChunk symbolic :=
  ⟨sampleNonce, .box (.atom 0) sampleNonce.toList (storedFrame sampleRecord.payload) (be32 0)⟩

def recordManifest : Bytes :=
  buildManifest sampleCrates sampleSyncKeys.macKey [chunkEntry sampleCrates (0, sampleRecord.payload)]

def recordManifestChunk : SealedChunk symbolic :=
  ⟨sampleNonce, .box (.atom 0) sampleNonce.toList (storedFrame recordManifest) (be32 1)⟩

theorem sourceRun_sent : (sampleRun.exec sampleRun.init sourceRun).source.sent.sent =
    [⟨msgChunk, 0, some recordChunk⟩, ⟨msgManifest, 1, some recordManifestChunk⟩] := rfl

/-- The record is imported, and the manifest accepted. -/
def targetRun : List SyncEvent :=
  [.target (.message (some ⟨msgChunk, 0, some recordChunk⟩)), .target (.resume 0 true), .target (.resume 0 true),
    .target (.resume 0 true), .target (.message (some ⟨msgManifest, 1, some recordManifestChunk⟩)),
    .target (.resume 1 true), .target (.resume 1 true)]

theorem targetRun_allowed {s : SyncRun} (hsent : s.source.sent.sent =
      [⟨msgChunk, 0, some recordChunk⟩, ⟨msgManifest, 1, some recordManifestChunk⟩]) :
    (sampleRun.restrict SyncRun.Fair).Allowed s targetRun := by
  have hresume : ∀ (v : SyncRun) (id : Nat), (sampleRun.restrict SyncRun.Fair).enabled v (.target (.resume id true)) :=
    fun v id => ⟨trivial, fun _ h => (by cases h), fun h => (by cases h), fun _ h => (by cases h)⟩
  have hframe : ∀ (v : SyncRun) (g : Frame symbolic), v.source.sent.sent = s.source.sent.sent → g ∈ s.source.sent.sent →
      (sampleRun.restrict SyncRun.Fair).enabled v (.target (.message (some g))) := by
    intro v g hv hg
    refine ⟨fun chunk hchunk => .seen ⟨g, hv ▸ hg, chunk, hchunk, rfl⟩, fun frame hframe g' hg' hseq _ _ => ?_,
      fun h => (by cases h), fun _ h => (by cases h)⟩
    obtain rfl := Option.some.inj (TargetEvent.message.inj (SyncEvent.target.inj hframe))
    rw [hv, hsent, List.mem_pair] at hg'
    rw [hsent, List.mem_pair] at hg
    rcases hg with rfl | rfl <;> rcases hg' with rfl | rfl
    · rfl
    · exact absurd hseq (by decide)
    · exact absurd hseq (by decide)
    · rfl
  refine ⟨hframe _ _ rfl ?_, hresume _ _, hresume _ _, hresume _ _, hframe _ _ rfl ?_, hresume _ _, hresume _ _,
    trivial⟩
  · exact hsent ▸ .head _
  · exact hsent ▸ .tail _ (.head _)

/-- The session arrives, although another writer deletes it at the source meanwhile. -/
theorem sync_copies_sample : ∃ s : SyncRun, s.target.settled = some (.ok ()) ∧
    (s.source.db .ratchet).lookup [0x37] = none ∧ (s.target.db .ratchet).lookup [0x37] = some (.leaf [1, 2, 3]) := by
  have hsource := Machine.Reachable.init.exec sourceRun_allowed
  have hreach := hsource.exec (targetRun_allowed sourceRun_sent)
  have hsettled : (sampleRun.exec (sampleRun.exec sampleRun.init sourceRun) targetRun).target.settled =
      some (.ok ()) := rfl
  refine ⟨_, hsettled, rfl, ((sync_copies sampleCrates_lz4Inverts Derives.not_atom hreach).2 hsettled ?_).2 .ratchet
    [0x37]⟩
  intro id seq plain hid
  rcases id with _ | _ | id <;> cases hid

end Vesper.Client
