import Vesper.Client.SyncTransfer

/-!
# The outcome of a device sync

`runTargetReceive` imports each record as it arrives and compares hashes with the manifest at the end.
So a rejection comes after records have been put, and an acceptance before they are: the hash of a record
is noted when its import begins. What is left of all or nothing is that a run rejects before anything is
put, puts nothing after that, and accepts while no import is under way.
-/

namespace Vesper.Client

section
variable {P : Primitives} (C : SyncCrates P) (keys : SyncKeys P) (records : UInt32 → Option Bytes) (db : KeyDb)

/-- Frames arrive in any order and handlers go on in any order. -/
def syncTarget : Machine (Target P) (TargetEvent P) where
  init := .start db
  enabled _ _ := True
  next t e := t.step C keys e

def SameStores (db db' : KeyDb) : Prop := ∀ name key, (db name).lookup key = (db' name).lookup key

/-- The records that were put are those that the manifest names, with the hashes that it gives. -/
def Target.Matches (t : Target P) (entries : List ManifestEntry) : Prop :=
  (∀ e ∈ entries, ∃ plain, (entrySeq e, plain) ∈ t.written ∧ C.sha256 plain = e.hash) ∧
  ∀ seq plain, (seq, plain) ∈ t.written → ∃ e ∈ entries, entrySeq e = seq ∧ C.sha256 plain = e.hash

/-- All or nothing, where the stores hold what they held before and what was put. -/
def Target.AllOrNothing (t : Target P) : Prop :=
  importSyncRecords db (t.written.map Prod.snd) = .ok t.db ∧
  (∀ r, t.settled = some (.error r) → SameStores t.db db) ∧
  (t.settled = some (.ok ()) → ∃ entries, t.accepted = some entries ∧ t.Matches C entries)

/-- A manifest that verifies only if it names the records and no others. -/
def Names (rawManifest : Bytes) : Prop :=
  ∀ entries, verifyManifest C keys.macKey rawManifest = .ok entries →
    (∀ e ∈ entries, ∃ plain, records (entrySeq e) = some plain ∧ C.sha256 plain = e.hash) ∧
    ∀ seq plain, records seq = some plain → ∃ e ∈ entries, entrySeq e = seq

/-- A frame that opens is what the source sealed under its type and number, nothing is put before a
rejection or changed after it, and no import is under way at an acceptance. -/
structure Target.Careful (t : Target P) (e : TargetEvent P) : Prop where
  fits : ∀ f, e = .message (some f) → f.Fits C keys (fun seq plain => records seq = some plain) (Names C keys records)
  rejects : t.settled = none → ∀ r, (t.step C keys e).settled = some (.error r) → SameStores t.db db
  rejected : ∀ r, t.settled = some (.error r) → SameStores (t.step C keys e).db t.db
  accepts : t.settled = none → (t.step C keys e).settled = some (.ok ()) →
    ∀ id seq plain, t.handlers id ≠ some (.importing seq plain)

/-! ## What a careful run keeps -/

/-- What was put, and what follows from how the run was settled. -/
structure Target.Books (t : Target P) : Prop where
  genuine : t.Genuine C keys (fun seq plain => records seq = some plain) (Names C keys records)
  ids : ∀ id, t.arrived ≤ id → t.handlers id = none
  imported : importSyncRecords db (t.written.map Prod.snd) = .ok t.db
  put : ∀ seq plain, (seq, plain) ∈ t.written → records seq = some plain
  unchanged : ∀ r, t.settled = some (.error r) → SameStores t.db db
  complete : t.settled = some (.ok ()) → ∃ entries, t.accepted = some entries ∧
    (∀ e ∈ entries, ∃ plain, (entrySeq e, plain) ∈ t.written ∧ C.sha256 plain = e.hash) ∧
    ∀ seq plain, records seq = some plain → ∃ e ∈ entries, entrySeq e = seq
  fresh : t.settled = none → t.accepted = none

/-- While the run goes on, a record whose hash is noted was put or is on its way. -/
def Target.Tracked (t : Target P) : Prop :=
  t.settled = none → ∀ seq hash, t.receivedHashes.lookup seq = some hash →
    ∃ plain, records seq = some plain ∧ C.sha256 plain = hash ∧
      ((seq, plain) ∈ t.written ∨ ∃ id, t.handlers id = some (.importing seq plain))

variable {C keys records db} {t : Target P} {id : Nat} {h : FrameHandler P}

theorem Target.Books.allOrNothing (ht : t.Books C keys records db) : t.AllOrNothing C db := by
  refine ⟨ht.imported, ht.unchanged, fun hok => ?_⟩
  obtain ⟨entries, haccepted, hwritten, hnamed⟩ := ht.complete hok
  refine ⟨entries, haccepted, hwritten, fun seq plain hmem => ?_⟩
  obtain ⟨e, he, hseq⟩ := hnamed seq plain (ht.put seq plain hmem)
  obtain ⟨plain', hmem', hhash⟩ := hwritten e he
  have hsame : records seq = some plain' := hseq ▸ ht.put _ _ hmem'
  rw [ht.put seq plain hmem] at hsame
  cases hsame
  exact ⟨e, he, hseq, hhash⟩

theorem settle_settled_of_none (hnone : t.settled = none) (outcome : Except Rejection Unit) :
    (t.settle outcome).settled = some outcome := by
  rw [Target.settle, hnone, Option.none_or]

theorem settle_of_some {outcome : Except Rejection Unit} (hsome : t.settled = some outcome)
    (outcome' : Except Rejection Unit) : t.settle outcome' = t := by
  rw [Target.settle, hsome, Option.some_or, ← hsome]

theorem Target.Tracked.settle (outcome : Except Rejection Unit) : (t.settle outcome).Tracked C records := by
  intro hnone
  cases hsettled : t.settled with
  | none =>
    rw [settle_settled_of_none hsettled] at hnone
    cases hnone
  | some outcome' =>
    rw [settle_of_some hsettled, hsettled] at hnone
    cases hnone

/-- A rejection while nothing has changed. -/
theorem Target.Books.fail (ht : t.Books C keys records db) (hsame : t.settled = none → SameStores t.db db)
    (r : Rejection) : (t.settle (.error r)).Books C keys records db := by
  cases hsettled : t.settled with
  | none =>
    have hsettle := settle_settled_of_none hsettled (.error r)
    refine ⟨ht.genuine.settle _, ht.ids, ht.imported, ht.put, fun _ _ => hsame hsettled, fun hok => ?_, fun hnone => ?_⟩
    · rw [hsettle] at hok
      cases hok
    · rw [hsettle] at hnone
      cases hnone
  | some outcome =>
    rw [settle_of_some hsettled]
    exact ht

theorem Target.Books.drop (ht : t.Books C keys records db) (id : Nat) :
    ({ t with handlers := Function.update t.handlers id none } : Target P).Books C keys records db where
  genuine := ht.genuine.drop id
  ids id' hid' := by
    dsimp only
    rw [Function.update_apply]
    split
    · rfl
    · exact ht.ids id' hid'
  imported := ht.imported
  put := ht.put
  unchanged := ht.unchanged
  complete := ht.complete
  fresh := ht.fresh

theorem Target.Books.await (ht : t.Books C keys records db) (hid : id < t.arrived)
    (hh : h.Genuine C keys (fun seq plain => records seq = some plain) (Names C keys records)) :
    (t.await id h).Books C keys records db where
  genuine := ht.genuine.await hh
  ids id' hid' := by
    dsimp only [Target.await] at hid' ⊢
    rw [Function.update_of_ne (by omega)]
    exact ht.ids id' hid'
  imported := ht.imported
  put := ht.put
  unchanged := ht.unchanged
  complete := ht.complete
  fresh := ht.fresh

theorem Target.Tracked.drop (ht : t.Tracked C records) (hid : ∀ seq plain, t.handlers id ≠ some (.importing seq plain)) :
    ({ t with handlers := Function.update t.handlers id none } : Target P).Tracked C records := by
  intro hnone seq hash hlookup
  obtain ⟨plain, hrecord, hhash, hmem | ⟨id', hid'⟩⟩ := ht hnone seq hash hlookup
  · exact ⟨plain, hrecord, hhash, .inl hmem⟩
  · refine ⟨plain, hrecord, hhash, .inr ⟨id', ?_⟩⟩
    dsimp only
    rw [Function.update_of_ne]
    · exact hid'
    · rintro rfl
      exact hid seq plain hid'

theorem Target.Tracked.await (ht : t.Tracked C records) (hid : t.handlers id = none) (h : FrameHandler P) :
    (t.await id h).Tracked C records := by
  intro hnone seq hash hlookup
  obtain ⟨plain, hrecord, hhash, hmem | ⟨id', hid'⟩⟩ := ht hnone seq hash hlookup
  · exact ⟨plain, hrecord, hhash, .inl hmem⟩
  · refine ⟨plain, hrecord, hhash, .inr ⟨id', ?_⟩⟩
    dsimp only [Target.await]
    rw [Function.update_of_ne]
    · exact hid'
    · rintro rfl
      rw [hid] at hid'
      cases hid'

/-! ## One step -/

/-- What a careful run keeps. -/
structure Target.Kept (C : SyncCrates P) (keys : SyncKeys P) (records : UInt32 → Option Bytes) (db : KeyDb)
    (t : Target P) : Prop where
  books : t.Books C keys records db
  tracked : t.Tracked C records

theorem Target.Kept.start : (Target.start (P := P) db).Kept C keys records db where
  books := ⟨.start db, fun _ _ => rfl, rfl, nofun, nofun, nofun, fun _ => rfl⟩
  tracked _ seq hash hlookup := by
    dsimp only [Target.start] at hlookup
    rw [AList.lookup_empty] at hlookup
    cases hlookup

theorem Target.Kept.fail (ht : t.Kept C keys records db) (hsame : t.settled = none → SameStores t.db db)
    (r : Rejection) : (t.settle (.error r)).Kept C keys records db :=
  ⟨ht.books.fail hsame r, .settle _⟩

theorem Target.Kept.message (ht : t.Kept C keys records db) {frame : Option (Frame P)}
    (hc : t.Careful C keys records db (.message frame)) : (t.message frame).Kept C keys records db := by
  have hrejects := hc.rejects
  rw [Target.step] at hrejects
  unfold Target.message at hrejects ⊢
  split
  · next haborted =>
    refine ht.fail (fun hnone => hrejects hnone .aborted ?_) _
    rw [if_pos haborted]
    exact settle_settled_of_none hnone _
  cases frame with
  | none => exact ht
  | some f =>
    dsimp only
    split
    · next htype =>
      have hbooks := ht.books
      have hfree := hbooks.ids t.arrived (Nat.le_refl _)
      have hnext : ({ t with arrived := t.arrived + 1 } : Target P).Books C keys records db :=
        ⟨⟨hbooks.genuine.handlers, hbooks.genuine.passed, hbooks.genuine.checked⟩,
          fun id hid => hbooks.ids id (Nat.le_of_succ_le hid), hbooks.imported, hbooks.put, hbooks.unchanged,
          hbooks.complete, hbooks.fresh⟩
      exact ⟨hnext.await (Nat.lt_succ_self t.arrived) (h := .opening f) ⟨htype, hc.fits f rfl⟩,
        ht.tracked.await hfree (.opening f)⟩
    · exact ht

theorem Target.Kept.opened (ht : t.Kept C keys records db) {frame : Frame P} (hid : t.handlers id = none)
    (hlt : id < t.arrived)
    (hh : (FrameHandler.opening frame).Genuine C keys (fun seq plain => records seq = some plain) (Names C keys records))
    (hsame : t.settled = none → ∀ r, (t.opened C keys id frame).settled = some (.error r) → SameStores t.db db) :
    (t.opened C keys id frame).Kept C keys records db := by
  have hgenuine : (t.opened C keys id frame).Genuine C keys _ _ := ht.books.genuine.opened hh
  unfold Target.opened at hsame hgenuine ⊢
  cases hopen : openChunk C keys frame.seq frame.data with
  | error e =>
    rw [hopen] at hsame
    exact ht.fail (fun hnone => hsame hnone _ (settle_settled_of_none hnone _)) _
  | ok plain =>
    obtain ⟨hchunk, hmanifest⟩ := hh.2 plain hopen
    rw [hopen] at hgenuine
    dsimp only at hgenuine ⊢
    split
    · next htype =>
      exact ⟨ht.books.await hlt (h := .hashing frame.seq plain) (hchunk htype), ht.tracked.await hid _⟩
    · next htype =>
      rw [if_neg htype] at hgenuine
      have hbooks := ht.books.await hlt (h := .verifying plain) (hmanifest (hh.1.resolve_left htype))
      exact ⟨⟨hgenuine, hbooks.ids, hbooks.imported, hbooks.put, hbooks.unchanged, hbooks.complete, hbooks.fresh⟩,
        ht.tracked.await hid (.verifying plain)⟩

theorem Target.Kept.hashed (ht : t.Kept C keys records db) {seq : UInt32} {plain : Bytes}
    (hid : t.handlers id = none) (hlt : id < t.arrived) (hrecord : records seq = some plain) :
    (t.hashed C id seq plain).Kept C keys records db := by
  have hbooks := ht.books.await hlt (h := .importing seq plain) hrecord
  refine ⟨⟨ht.books.genuine.hashed hrecord, hbooks.ids, hbooks.imported, hbooks.put, hbooks.unchanged,
    hbooks.complete, hbooks.fresh⟩, fun hnone seq' hash hlookup => ?_⟩
  dsimp only [Target.hashed] at hlookup
  by_cases hseq : seq' = seq
  · subst hseq
    rw [AList.lookup_insert] at hlookup
    cases hlookup
    exact ⟨plain, hrecord, rfl, .inr ⟨id, Function.update_self ..⟩⟩
  · rw [AList.lookup_insert_ne hseq] at hlookup
    exact ht.tracked.await hid (.importing seq plain) hnone seq' hash hlookup

/-- An import that ends takes its record from those under way to those that were put. -/
theorem Target.Kept.imported (ht : t.Kept C keys records db) {seq : UInt32} {plain : Bytes}
    (hid : t.handlers id = some (.importing seq plain))
    (hrejects : t.settled = none → ∀ r,
      (({ t with handlers := Function.update t.handlers id none } : Target P).imported seq plain).settled =
        some (.error r) → SameStores t.db db)
    (hrejected : ∀ r, t.settled = some (.error r) →
      SameStores (({ t with handlers := Function.update t.handlers id none } : Target P).imported seq plain).db t.db) :
    (({ t with handlers := Function.update t.handlers id none } : Target P).imported seq plain).Kept C keys records db := by
  have hdrop := ht.books.drop id
  have hrecord : records seq = some plain := ht.books.genuine.handlers id _ hid
  unfold Target.imported at hrejects hrejected ⊢
  dsimp only at hrejects hrejected ⊢
  cases himport : importSyncRecord t.db plain with
  | error e =>
    rw [himport] at hrejects
    exact ⟨hdrop.fail (fun hnone => hrejects hnone _ (settle_settled_of_none hnone _)) _, .settle _⟩
  | ok db' =>
    rw [himport] at hrejected
    refine ⟨⟨⟨hdrop.genuine.handlers, hdrop.genuine.passed, hdrop.genuine.checked⟩, hdrop.ids, ?_, ?_, ?_, ?_,
      hdrop.fresh⟩, ?_⟩
    · have hbefore := ht.books.imported
      rw [importSyncRecords] at hbefore
      rw [List.map_append, importSyncRecords, List.foldlM_append, hbefore]
      show (importSyncRecord t.db plain >>= fun db => pure db) = _
      rw [bind_pure, himport]
    · intro seq' plain' hmem
      rcases List.mem_append.mp hmem with hmem | hmem
      · exact ht.books.put seq' plain' hmem
      · cases List.mem_singleton.mp hmem
        exact hrecord
    · intro r hr name key
      exact (hrejected r hr name key).trans (ht.books.unchanged r hr name key)
    · intro hok
      obtain ⟨entries, haccepted, hwritten, hnamed⟩ := ht.books.complete hok
      refine ⟨entries, haccepted, fun e he => ?_, hnamed⟩
      obtain ⟨plain', hmem, hhash⟩ := hwritten e he
      exact ⟨plain', List.mem_append_left _ hmem, hhash⟩
    · intro hnone seq' hash hlookup
      obtain ⟨plain', hrecord', hhash, hmem | ⟨id', hid'⟩⟩ := ht.tracked hnone seq' hash hlookup
      · exact ⟨plain', hrecord', hhash, .inl (List.mem_append_left _ hmem)⟩
      · refine ⟨plain', hrecord', hhash, ?_⟩
        by_cases hsame : id' = id
        · subst hsame
          rw [hid] at hid'
          cases hid'
          exact .inl (List.mem_append_right _ (List.mem_singleton.mpr rfl))
        · refine .inr ⟨id', ?_⟩
          dsimp only
          rw [Function.update_of_ne hsame]
          exact hid'

theorem lookup_of_check {entries : List ManifestEntry} (h : t.check entries = .ok ()) {e : ManifestEntry}
    (he : e ∈ entries) : t.receivedHashes.lookup (entrySeq e) = some e.hash := by
  unfold Target.check at h
  split at h
  · cases h
  split at h
  · cases h
  · next hnone =>
    have hfound := List.find?_eq_none.mp hnone e he
    simpa using hfound

/-- A manifest that is accepted finds all its records put. -/
theorem Target.Kept.verified (ht : t.Kept C keys records db) {rawManifest : Bytes}
    (hnames : Names C keys records rawManifest)
    (hrejects : t.settled = none → ∀ r, (t.verified C keys rawManifest).settled = some (.error r) → SameStores t.db db)
    (haccepts : t.settled = none → (t.verified C keys rawManifest).settled = some (.ok ()) →
      ∀ id seq plain, t.handlers id ≠ some (.importing seq plain)) :
    (t.verified C keys rawManifest).Kept C keys records db := by
  unfold Target.verified at hrejects haccepts ⊢
  cases hverify : verifyManifest C keys.macKey rawManifest with
  | error e =>
    rw [hverify] at hrejects
    exact ht.fail (fun hnone => hrejects hnone _ (settle_settled_of_none hnone _)) _
  | ok entries =>
    rw [hverify] at hrejects haccepts
    dsimp only at hrejects haccepts ⊢
    cases hcheck : t.check entries with
    | error r =>
      rw [hcheck] at hrejects
      exact ht.fail (fun hnone => hrejects hnone _ (settle_settled_of_none hnone _)) _
    | ok =>
      rw [hcheck] at haccepts
      have hbooks := ht.books
      cases hsettled : t.settled with
      | some outcome =>
        rw [settle_of_some hsettled]
        refine ⟨⟨⟨hbooks.genuine.handlers, hbooks.genuine.passed, hbooks.genuine.checked⟩, hbooks.ids,
          hbooks.imported, hbooks.put, hbooks.unchanged, fun hok => ?_, fun hnone => ?_⟩, ht.tracked⟩
        · obtain ⟨entries', haccepted, hrest⟩ := hbooks.complete hok
          exact ⟨entries', by rw [haccepted, Option.some_or], hrest⟩
        · rw [hsettled] at hnone
          cases hnone
      | none =>
        have hsettle := settle_settled_of_none hsettled (.ok ())
        have hdone := haccepts hsettled hsettle
        obtain ⟨hentries, hall⟩ := hnames entries hverify
        refine ⟨⟨⟨hbooks.genuine.handlers, hbooks.genuine.passed, hbooks.genuine.checked⟩, hbooks.ids,
          hbooks.imported, hbooks.put, fun r hr => ?_, fun _ => ⟨entries, ?_, fun e he => ?_, hall⟩,
          fun hnone => ?_⟩, .settle _⟩
        · rw [hsettle] at hr
          cases hr
        · rw [hbooks.fresh hsettled, Option.none_or]
        · obtain ⟨plain, hrecord, hhash, hmem | ⟨id, hid⟩⟩ := ht.tracked hsettled _ _ (lookup_of_check hcheck he)
          · exact ⟨plain, hmem, hhash⟩
          · exact absurd hid (hdone id _ plain)
        · rw [hsettle] at hnone
          cases hnone

theorem Target.Kept.resume (ht : t.Kept C keys records db) {id : Nat} {works : Bool}
    (hc : t.Careful C keys records db (.resume id works)) : (t.resume C keys id works).Kept C keys records db := by
  have hrejects := hc.rejects
  have hrejected := hc.rejected
  have haccepts := hc.accepts
  rw [Target.step] at hrejects haccepts
  simp only [Target.step] at hrejected
  unfold Target.resume at hrejects hrejected haccepts ⊢
  cases hid : t.handlers id with
  | none => exact ht
  | some h =>
    rw [hid] at hrejects hrejected haccepts
    dsimp only at hrejects hrejected haccepts ⊢
    have hh := ht.books.genuine.handlers id h hid
    have hlt : id < t.arrived := by
      by_contra hge
      rw [ht.books.ids id (Nat.le_of_not_lt hge)] at hid
      cases hid
    have hfree : (Function.update t.handlers id none) id = none := Function.update_self ..
    have hdrop (hne : ∀ seq plain, h ≠ .importing seq plain) :
        ({ t with handlers := Function.update t.handlers id none } : Target P).Kept C keys records db :=
      ⟨ht.books.drop id, ht.tracked.drop fun seq plain heq => hne seq plain (Option.some.inj (hid.symm.trans heq))⟩
    cases works with
    | false =>
      simp only [Bool.not_false, if_true] at hrejects ⊢
      exact ⟨(ht.books.drop id).fail (fun hnone => hrejects hnone _ (settle_settled_of_none hnone _)) _, .settle _⟩
    | true =>
      simp only [Bool.not_true, Bool.false_eq_true, if_false] at hrejects hrejected haccepts ⊢
      cases h with
      | importing seq plain => exact ht.imported hid hrejects hrejected
      | opening frame =>
        exact (hdrop fun _ _ heq => by cases heq).opened hfree hlt hh hrejects
      | hashing seq plain =>
        exact (hdrop fun _ _ heq => by cases heq).hashed hfree hlt hh
      | verifying rawManifest =>
        refine (hdrop fun _ _ heq => by cases heq).verified hh hrejects fun hnone hok id' seq plain hother => ?_
        dsimp only at hother
        rw [Function.update_apply] at hother
        split at hother
        · cases hother
        · exact haccepts hnone hok id' seq plain hother

/-- **One step**: whatever a careful step does, the books stay right. -/
theorem Target.Kept.step (ht : t.Kept C keys records db) {e : TargetEvent P}
    (hc : t.Careful C keys records db e) : (t.step C keys e).Kept C keys records db := by
  cases e with
  | message frame => exact ht.message hc
  | resume id works => exact ht.resume hc
  | abort =>
    have hbooks := ht.books
    exact ⟨⟨⟨hbooks.genuine.handlers, hbooks.genuine.passed, hbooks.genuine.checked⟩, hbooks.ids, hbooks.imported,
      hbooks.put, hbooks.unchanged, hbooks.complete, hbooks.fresh⟩, ht.tracked⟩
  | error => exact ht.fail (fun hnone => hc.rejects hnone _ (settle_settled_of_none hnone _)) _
  | close =>
    have hrejects := hc.rejects
    rw [Target.step] at hrejects ⊢
    split
    · exact ht
    · next haborted =>
      refine ht.fail (fun hnone => hrejects hnone .channelClosed ?_) _
      rw [if_neg haborted]
      exact settle_settled_of_none hnone _

theorem entrySeq_chunkEntry (chunk : UInt32 × Bytes) : entrySeq (chunkEntry C chunk) = chunk.1 :=
  UInt32.toUInt32_toUInt64 chunk.1

section
variable {s : Source P} {sent : List Bytes}

theorem Source.Kept.record_of_mem (hs : s.Kept C keys sent) (hlt : sent.length < 2 ^ 32) {seq : UInt32}
    {plain : Bytes} (h : (seq, plain) ∈ s.chunks) : sent[seq.toNat]? = some plain := by
  obtain ⟨i, hi, rfl⟩ := hs.mem_chunks h
  have hi' : i < sent.length := (List.getElem?_eq_some_iff.mp hi).1
  rw [DoubleRatchet.toNat_ofNat_of_lt (Nat.lt_trans hi' hlt)]
  exact hi

theorem Source.Kept.mem_of_record (hs : s.Kept C keys sent) (hleft : s.left = []) {seq : UInt32} {plain : Bytes}
    (h : sent[seq.toNat]? = some plain) : (seq, plain) ∈ s.chunks := by
  have hsnd := hs.records
  rw [hleft, List.append_nil] at hsnd
  rw [← hsnd, List.getElem?_map] at h
  obtain ⟨⟨seq', plain'⟩, hi, rfl⟩ := Option.map_eq_some_iff.mp h
  have hseq := congrArg (·[seq.toNat]?) hs.seqs
  simp only [List.getElem?_map, hi, Option.map_some] at hseq
  obtain ⟨j, hj, heq⟩ := Option.map_eq_some_iff.mp hseq.symm
  obtain ⟨hlt, rfl⟩ := List.getElem?_eq_some_iff.mp hj
  rw [List.getElem_range, UInt32.ofNat_toNat] at heq
  subst heq
  exact List.mem_of_getElem? hi

/-- The manifest of a source names its records. -/
theorem Source.Kept.names (hs : s.Kept C keys sent) (hlt : sent.length < 2 ^ 32) (hleft : s.left = []) :
    Names C keys (fun seq => sent[seq.toNat]?) (buildManifest C keys.macKey s.entries) := by
  have hlength : s.entries.length = sent.length := by
    have hsnd := hs.records
    rw [hleft, List.append_nil] at hsnd
    rw [hs.entries, List.length_map, ← hsnd, List.length_map]
  intro entries hverify
  rw [verifyManifest_buildManifest C keys.macKey (hlength ▸ hlt)] at hverify
  cases hverify
  rw [hs.entries]
  refine ⟨fun e he => ?_, fun seq plain hrecord => ?_⟩
  · obtain ⟨chunk, hchunk, rfl⟩ := List.mem_map.mp he
    rw [entrySeq_chunkEntry]
    exact ⟨chunk.2, hs.record_of_mem hlt hchunk, rfl⟩
  · exact ⟨_, List.mem_map.mpr ⟨_, hs.mem_of_record hleft hrecord, rfl⟩, entrySeq_chunkEntry _⟩

/-- A frame that fits what a source has sealed fits its records. -/
theorem Frame.Fits.of_source {f : Frame P} (hs : s.Kept C keys sent) (hlt : sent.length < 2 ^ 32)
    (hfits : f.Fits C keys (fun seq plain => (seq, plain) ∈ s.chunks) (· ∈ s.manifests)) :
    f.Fits C keys (fun seq plain => sent[seq.toNat]? = some plain) (Names C keys fun seq => sent[seq.toNat]?) := by
  intro plain hopen
  obtain ⟨hchunk, hmanifest⟩ := hfits plain hopen
  refine ⟨fun htype => hs.record_of_mem hlt (hchunk htype), fun htype => ?_⟩
  obtain ⟨-, hleft, rfl⟩ := hs.manifests plain (hmanifest htype)
  exact hs.names hlt hleft

end

end

/-! ## A sync of one record -/

def sampleTarget : Machine (Target symbolic) (TargetEvent symbolic) :=
  syncTarget sampleCrates sampleSyncKeys fun _ => ∅

def sampleRecords (seq : UInt32) : Option Bytes := [samplePayload][seq.toNat]?

def chunkFrame : Frame symbolic := ⟨msgChunk, 0, some sampleChunk⟩

def manifestFrame : Frame symbolic := ⟨msgManifest, 1, some sampleManifestChunk⟩

/-- The source of both frames. -/
def sampleSource : Source symbolic :=
  ((Source.start [samplePayload] 1).sendChunk sampleCrates sampleSyncKeys sampleNonce).sendManifest
    sampleCrates sampleSyncKeys sampleNonce

theorem sampleSource_kept : sampleSource.Kept sampleCrates sampleSyncKeys [samplePayload] :=
  ((Source.Kept.start _ _).sendChunk _).sendManifest _

theorem chunkFrame_fits : chunkFrame.Fits sampleCrates sampleSyncKeys (fun seq plain => sampleRecords seq = some plain)
    (Names sampleCrates sampleSyncKeys sampleRecords) := by
  refine Frame.Fits.of_source sampleSource_kept (by decide) fun plain hopen => ?_
  have hplain : openChunk sampleCrates sampleSyncKeys chunkFrame.seq chunkFrame.data = .ok samplePayload := rfl
  rw [hplain] at hopen
  cases hopen
  exact ⟨fun _ => List.mem_singleton.mpr rfl, fun htype => absurd htype (by decide)⟩

theorem manifestFrame_fits : manifestFrame.Fits sampleCrates sampleSyncKeys
    (fun seq plain => sampleRecords seq = some plain) (Names sampleCrates sampleSyncKeys sampleRecords) := by
  refine Frame.Fits.of_source sampleSource_kept (by decide) fun plain hopen => ?_
  have hplain : openChunk sampleCrates sampleSyncKeys manifestFrame.seq manifestFrame.data = .ok sampleManifest := rfl
  rw [hplain] at hopen
  cases hopen
  exact ⟨fun htype => absurd htype (by decide), fun _ => List.mem_singleton.mpr rfl⟩

/-- The record is imported before the manifest arrives. -/
def inOrder : List (TargetEvent symbolic) :=
  [.message (some chunkFrame), .resume 0 true, .resume 0 true, .resume 0 true, .message (some manifestFrame),
    .resume 1 true, .resume 1 true]

/-- The manifest is verified while the import is under way. -/
def acceptedEarly : List (TargetEvent symbolic) :=
  [.message (some chunkFrame), .resume 0 true, .resume 0 true, .message (some manifestFrame), .resume 1 true,
    .resume 1 true]

/-- A frame is corrupted after the record was imported. -/
def rejectedLate : List (TargetEvent symbolic) :=
  [.message (some chunkFrame), .resume 0 true, .resume 0 true, .resume 0 true,
    .message (some ⟨msgManifest, 1, some ⟨sampleNonce, .raw (List.replicate 40 0)⟩⟩), .resume 1 true]

/-- A step that neither settles the run nor puts anything is careful, whatever it may be about. -/
theorem careful_of_quiet {t : Target symbolic} {e : TargetEvent symbolic}
    (hfits : ∀ f, e = .message (some f) → f.Fits sampleCrates sampleSyncKeys
      (fun seq plain => sampleRecords seq = some plain) (Names sampleCrates sampleSyncKeys sampleRecords))
    (hbefore : t.settled = none) (hafter : (t.step sampleCrates sampleSyncKeys e).settled = none) :
    t.Careful sampleCrates sampleSyncKeys sampleRecords (fun _ => ∅) e where
  fits := hfits
  rejects _ r hr := by
    rw [hafter] at hr
    cases hr
  rejected r hr := by
    rw [hbefore] at hr
    cases hr
  accepts _ hok := by
    rw [hafter] at hok
    cases hok

theorem allowed_inOrder : (sampleTarget.restrict
    (Target.Careful sampleCrates sampleSyncKeys sampleRecords fun _ => ∅)).Allowed sampleTarget.init inOrder := by
  refine ⟨⟨trivial, careful_of_quiet (fun f hf => ?_) rfl rfl⟩, ⟨trivial, careful_of_quiet nofun rfl rfl⟩,
    ⟨trivial, careful_of_quiet nofun rfl rfl⟩, ⟨trivial, careful_of_quiet nofun rfl rfl⟩,
    ⟨trivial, careful_of_quiet (fun f hf => ?_) rfl rfl⟩, ⟨trivial, careful_of_quiet nofun rfl rfl⟩,
    ⟨trivial, ⟨nofun, fun _ r hr => ?_, fun r hr => ?_, fun _ _ id seq plain hid => ?_⟩⟩, trivial⟩
  · cases hf
    exact chunkFrame_fits
  · cases hf
    exact manifestFrame_fits
  · cases hr
  · cases hr
  · rcases id with _ | _ | id <;> cases hid

end Vesper.Client
