import Mathlib.Algebra.Order.BigOperators.Group.List
import Mathlib.Algebra.Order.Group.Nat
import Mathlib.Data.List.AList
import Vesper.Client.DeviceSync
import Vesper.Lib.Json

/-!
# The records of a device sync

`exportSyncRecords` and `importSyncRecord` of `cryptoDb.ts`, byte for byte. The exporter asks whether a
value is a buffer, the importer whether its store is binary, and for `identity` the answers differ: what
it holds are objects of two buffers, and they arrive as the text `{"enc":{},"pub":{}}`. Every other
record arrives as it was if its key has a UTF-8 form that tells it from the others.
-/

namespace Vesper.Client
open Unicode Json

/-! ## Stores -/

/-- A stored value, whose leaves are the buffers. -/
abbrev Stored := Json.Value Bytes

/-- `IDBDatabase`: the values of each object store by their keys. -/
abbrev KeyDb := StoreName → AList fun _ : Utf16 => Stored

structure SyncStore where
  name : StoreName
  id : UInt8
  binary : Bool

/-- `SYNC_STORES` -/
def syncStores : List SyncStore :=
  [⟨.identity, 1, true⟩, ⟨.ratchet, 2, true⟩, ⟨.groupSender, 3, true⟩, ⟨.groupReceiver, 4, true⟩,
    ⟨.msgPlaintext, 5, false⟩, ⟨.mediaKeys, 6, true⟩]

theorem find?_syncStores : ∀ m ∈ syncStores, syncStores.find? (·.id = m.id) = some m := by
  unfold syncStores
  simp

theorem exists_syncStore (name : StoreName) : ∃ m ∈ syncStores, m.name = name := by
  cases name <;> simp [syncStores]

theorem pairwise_syncStores : syncStores.Pairwise fun m m' => m.name ≠ m'.name := by
  unfold syncStores
  simp

/-! ## Export -/

/-- What `cursorIterator` yields of a record. -/
structure SyncRecord where
  store : SyncStore
  key : Utf16
  value : Stored

def SyncStore.valueBytes (m : SyncStore) (value : Stored) : Bytes :=
  match m.binary, value with
  | true, .leaf b => b
  | _, value => encode (stringify value)

/-- `STORE_ID(1) || KEY_LEN(2 BE) || KEY_UTF8 || VALUE_BYTES` -/
def SyncRecord.payload (r : SyncRecord) : Bytes :=
  let keyBytes := encode r.key
  r.store.id :: .ofNat (keyBytes.length / 0x100) :: .ofNat keyBytes.length ::
    (keyBytes ++ r.store.valueBytes r.value)

def exportSyncRecords (db : KeyDb) : List SyncRecord :=
  syncStores.flatMap fun m => (db m.name).entries.map fun entry => ⟨m, entry.1, entry.2⟩

/-! ## Import -/

inductive ImportError where
  | error (message : String)
  | syntaxError

def SyncStore.decodeValue (m : SyncStore) (rawValue : Bytes) : Except ImportError Stored :=
  if m.binary then .ok (.leaf rawValue)
  else
    match parse (decode rawValue) with
    | some value => .ok value
    | none => .error .syntaxError

def KeyDb.put (db : KeyDb) (name : StoreName) (key : Utf16) (value : Stored) : KeyDb :=
  Function.update db name ((db name).insert key value)

def importSyncRecord (db : KeyDb) (payload : Bytes) : Except ImportError KeyDb :=
  if payload.length < 4 then .error (.error "sync record too short")
  else
    let storeId := payload.getD 0 0
    let keyLen := (payload.getD 1 0).toNat * 0x100 + (payload.getD 2 0).toNat
    if payload.length < 3 + keyLen then .error (.error "sync record truncated")
    else
      let key := decode ((payload.drop 3).take keyLen)
      let rawValue := payload.drop (3 + keyLen)
      match syncStores.find? (·.id = storeId) with
      | none => .error (.error ("unknown store id: " ++ toString storeId))
      | some m => do return db.put m.name key (← m.decodeValue rawValue)

def importSyncRecords (db : KeyDb) (payloads : List Bytes) : Except ImportError KeyDb :=
  payloads.foldlM importSyncRecord db

/-! ## What the client writes and loads -/

/-- `{ enc, pub }` -/
def identityRecord (enc pub : Bytes) : Stored := .obj [(units "enc", .leaf enc), (units "pub", .leaf pub)]

/-- `{ content, isLegacy }` -/
def plaintextRecord (content : Utf16) (isLegacy : Bool) : Stored :=
  .obj [(units "content", .str content), (units "isLegacy", .bool isLegacy)]

/-- The values that the functions of `cryptoDb.ts` put into a store. -/
def StoreName.Writes : StoreName → Stored → Prop
  | .identity, value => ∃ enc pub, value = identityRecord enc pub
  | .msgPlaintext, value => ∃ content isLegacy, value = plaintextRecord content isLegacy
  | .ratchet, value | .groupSender, value | .groupReceiver, value | .mediaKeys, value => ∃ b, value = .leaf b

def ClientWritten (db : KeyDb) : Prop :=
  ∀ name key value, (db name).lookup key = some value → name.Writes value

/-- `rec[name]` -/
def field? (value : Stored) (name : Utf16) : Option Stored :=
  match value with
  | .obj fields => fields.lookup name
  | _ => none

/-- `new Uint8Array(value)`, which is empty if `value` is no buffer. -/
def asBytes : Option Stored → Bytes
  | some (.leaf b) => b
  | _ => []

def loadRatchetSession (db : KeyDb) (convKey : Utf16) : Option Bytes :=
  ((db .ratchet).lookup convKey).map fun buf => asBytes (some buf)

def loadGroupSender (db : KeyDb) (convId : Utf16) : Option Bytes :=
  ((db .groupSender).lookup convId).map fun buf => asBytes (some buf)

def loadGroupReceiver (db : KeyDb) (key : Utf16) : Option Bytes :=
  ((db .groupReceiver).lookup key).map fun buf => asBytes (some buf)

def loadPlaintext (db : KeyDb) (msgId : Utf16) : Option Stored := (db .msgPlaintext).lookup msgId

/-- The key and the initialisation vector. -/
def loadMediaKey (db : KeyDb) (messageId : Utf16) : Option (Bytes × Bytes) :=
  ((db .mediaKeys).lookup messageId).map fun buf =>
    ((asBytes (some buf)).take 32, ((asBytes (some buf)).drop 32).take 12)

/-- `IdentityKeys` of `cryptoDb.ts` -/
structure IdentityKeyBytes where
  ikSignSeed : Bytes
  ikSignPub : Bytes
  ikDhSecret : Bytes
  ikDhPub : Bytes
  spkSecret : Bytes
  spkPub : Bytes
  spkSig : Bytes
  deriving DecidableEq

/-- `bytes.slice(from, to)` -/
def sliceBytes (bytes : Bytes) (start stop : Nat) : Bytes := (bytes.drop start).take (stop - start)

/-- The vault decrypts the private half or throws. -/
def loadIdentityKeys (vaultDecrypt : Utf16 → Bytes → Option Bytes) (db : KeyDb) (userId : Utf16) :
    Option IdentityKeyBytes := do
  let stored ← (db .identity).lookup userId
  let priv ← vaultDecrypt userId (asBytes (field? stored (units "enc")))
  let pubArr := asBytes (field? stored (units "pub"))
  return {
    ikDhSecret := sliceBytes priv 0 32
    ikSignSeed := sliceBytes priv 32 64
    spkSecret := sliceBytes priv 64 96
    ikSignPub := sliceBytes pubArr 0 32
    ikDhPub := sliceBytes pubArr 32 64
    spkPub := sliceBytes pubArr 64 96
    spkSig := sliceBytes pubArr 96 160 }

/-- Importing all payloads into empty stores gives the same stores, out of which the same is loaded. -/
def Reproduces (db : KeyDb) : Prop :=
  ∃ target, importSyncRecords (fun _ => ∅) ((exportSyncRecords db).map SyncRecord.payload) = .ok target ∧
    (∀ name key, (target name).lookup key = (db name).lookup key) ∧
    ∀ key, (∀ vaultDecrypt, loadIdentityKeys vaultDecrypt target key = loadIdentityKeys vaultDecrypt db key) ∧
      loadRatchetSession target key = loadRatchetSession db key ∧
      loadGroupSender target key = loadGroupSender db key ∧
      loadGroupReceiver target key = loadGroupReceiver db key ∧
      loadPlaintext target key = loadPlaintext db key ∧
      loadMediaKey target key = loadMediaKey db key

/-! ## One record -/

/-- The key under which a record arrives. The length of its UTF-8 form is counted modulo 2¹⁶. -/
def transported (key : Utf16) : Utf16 := decode ((encode key).take ((encode key).length % 0x10000))

/-- The bytes after the key, as the importer counts them. -/
def SyncRecord.rawValue (r : SyncRecord) : Bytes :=
  (encode r.key).drop ((encode r.key).length % 0x10000) ++ r.store.valueBytes r.value

/-- What a payload says to the importer. -/
theorem importSyncRecord_payload {r : SyncRecord} (hstore : r.store ∈ syncStores) (db : KeyDb) :
    importSyncRecord db r.payload =
      if encode r.key ++ r.store.valueBytes r.value = [] then .error (.error "sync record too short")
      else do return db.put r.store.name (transported r.key) (← r.store.decodeValue r.rawValue) := by
  have hkeyLen : (UInt8.ofNat ((encode r.key).length / 0x100)).toNat * 0x100 +
      (UInt8.ofNat (encode r.key).length).toNat = (encode r.key).length % 0x10000 := by
    rw [UInt8.toNat_ofNat', UInt8.toNat_ofNat']
    omega
  have hle := Nat.mod_le (encode r.key).length 0x10000
  unfold importSyncRecord SyncRecord.payload
  simp only [List.length_cons, List.getD_cons_zero, List.getD_cons_succ, hkeyLen, List.drop_succ_cons,
    List.drop_zero, Nat.add_comm 3, find?_syncStores _ hstore]
  split
  · next hshort =>
    rw [if_pos (List.length_eq_zero_iff.mp (by omega))]
  · next hlong =>
    have hfull : ¬ (encode r.key ++ r.store.valueBytes r.value).length + 1 + 1 + 1 <
        (encode r.key).length % 0x10000 + 3 := by
      rw [List.length_append]
      omega
    have hne : encode r.key ++ r.store.valueBytes r.value ≠ [] := by
      rw [← List.length_pos_iff]
      omega
    rw [if_neg hfull, if_neg hne, transported, SyncRecord.rawValue, List.take_append_of_le_length hle,
      List.drop_append_of_le_length hle]

/-- A key that survives its UTF-8 form. -/
structure Transportable (key : Utf16) : Prop where
  wellFormed : WellFormed key
  noBom : key.head? ≠ some bom
  short : (encode key).length < 0x10000

theorem Transportable.transported_eq {key : Utf16} (h : Transportable key) : transported key = key := by
  rw [transported, Nat.mod_eq_of_lt h.short, List.take_length, decode_encode h.wellFormed h.noBom]

theorem plain_plaintextRecord (content : Utf16) (isLegacy : Bool) : Plain (plaintextRecord content isLegacy) := by
  refine ⟨⟨trivial, trivial, trivial⟩, ?_⟩
  show [units "content", units "isLegacy"].Nodup
  decide

theorem decodeValue_text {m : SyncStore} {value : Stored} (hbinary : m.binary = false)
    (hparse : parse (decode (encode (stringify value))) = some value) :
    m.decodeValue (m.valueBytes value) = .ok value := by
  have hbytes : m.valueBytes value = encode (stringify value) := by simp [SyncStore.valueBytes, hbinary]
  rw [hbytes, SyncStore.decodeValue, hbinary, if_neg Bool.false_ne_true]
  simp only [hparse]

/-- Outside of `identity`, exporter and importer agree about a value that the client wrote. -/
theorem decodeValue_valueBytes {m : SyncStore} {value : Stored} (hstore : m ∈ syncStores)
    (hname : m.name ≠ .identity) (hwrites : m.name.Writes value) :
    m.decodeValue (m.valueBytes value) = .ok value := by
  simp only [syncStores, List.mem_cons, List.not_mem_nil, or_false] at hstore
  rcases hstore with rfl | rfl | rfl | rfl | rfl | rfl
  · exact absurd rfl hname
  · obtain ⟨b, rfl⟩ := hwrites
    rfl
  · obtain ⟨b, rfl⟩ := hwrites
    rfl
  · obtain ⟨b, rfl⟩ := hwrites
    rfl
  · obtain ⟨content, isLegacy, rfl⟩ := hwrites
    exact decodeValue_text rfl (parse_decode (plain_plaintextRecord content isLegacy))
  · obtain ⟨b, rfl⟩ := hwrites
    rfl

/-- A record that arrives as it was. -/
structure SyncRecord.Arrives (r : SyncRecord) : Prop where
  store : r.store ∈ syncStores
  key : Transportable r.key
  value : r.store.decodeValue (r.store.valueBytes r.value) = .ok r.value
  nonempty : encode r.key ++ r.store.valueBytes r.value ≠ []

theorem SyncRecord.Arrives.import {r : SyncRecord} (h : r.Arrives) (db : KeyDb) :
    importSyncRecord db r.payload = .ok (db.put r.store.name r.key r.value) := by
  have hraw : r.rawValue = r.store.valueBytes r.value := by
    rw [SyncRecord.rawValue, Nat.mod_eq_of_lt h.key.short, List.drop_length, List.nil_append]
  rw [importSyncRecord_payload h.store, if_neg h.nonempty, hraw, h.value, h.key.transported_eq]
  rfl

/-! ## All records -/

theorem lookup_put (db : KeyDb) (name name' : StoreName) (key key' : Utf16) (value : Stored) :
    ((db.put name key value) name').lookup key' =
      if name' = name ∧ key' = key then some value else (db name').lookup key' := by
  unfold KeyDb.put
  by_cases hname : name' = name
  · subst hname
    rw [Function.update_self]
    by_cases hkey : key' = key
    · subst hkey
      rw [AList.lookup_insert, if_pos ⟨rfl, rfl⟩]
    · rw [AList.lookup_insert_ne hkey, if_neg fun h => hkey h.2]
  · rw [Function.update_of_ne hname, if_neg fun h => hname h.1]

/-- Two records of one slot. -/
def SyncRecord.SameSlot (r r' : SyncRecord) : Prop := r.store.name = r'.store.name ∧ r.key = r'.key

/-- Records of different slots that arrive as they were are found as they were. -/
theorem import_all {rs : List SyncRecord} (harrive : ∀ r ∈ rs, r.Arrives)
    (hdistinct : rs.Pairwise fun r r' => ¬ r.SameSlot r') (db : KeyDb) :
    ∃ target, importSyncRecords db (rs.map SyncRecord.payload) = .ok target ∧
      (∀ r ∈ rs, (target r.store.name).lookup r.key = some r.value) ∧
      ∀ name key, (∀ r ∈ rs, ¬ (r.store.name = name ∧ r.key = key)) →
        (target name).lookup key = (db name).lookup key := by
  induction rs generalizing db with
  | nil => exact ⟨db, rfl, nofun, fun _ _ _ => rfl⟩
  | cons r rs ih =>
    obtain ⟨hr, hrs⟩ := List.pairwise_cons.mp hdistinct
    obtain ⟨target, himport, hfound, hother⟩ :=
      ih (fun r' hr' => harrive r' (List.mem_cons_of_mem _ hr')) hrs (db.put r.store.name r.key r.value)
    refine ⟨target, ?_, ?_, ?_⟩
    · rw [List.map_cons, importSyncRecords, List.foldlM_cons, (harrive r List.mem_cons_self).import]
      exact himport
    · intro r' hr'
      rcases List.mem_cons.mp hr' with rfl | hr'
      · rw [hother _ _ fun r' hr' hsame => hr r' hr' ⟨hsame.1.symm, hsame.2.symm⟩, lookup_put,
          if_pos ⟨rfl, rfl⟩]
      · exact hfound r' hr'
    · intro name key hnone
      rw [hother name key fun r' hr' => hnone r' (List.mem_cons_of_mem _ hr'), lookup_put, if_neg]
      exact fun hsame => hnone r List.mem_cons_self ⟨hsame.1.symm, hsame.2.symm⟩

theorem mem_exportSyncRecords {db : KeyDb} {r : SyncRecord} :
    r ∈ exportSyncRecords db ↔ r.store ∈ syncStores ∧ (db r.store.name).lookup r.key = some r.value := by
  rw [exportSyncRecords, List.mem_flatMap]
  constructor
  · rintro ⟨m, hm, hr⟩
    obtain ⟨entry, hentry, rfl⟩ := List.mem_map.mp hr
    exact ⟨hm, AList.mem_lookup_iff.mpr hentry⟩
  · rintro ⟨hm, hlookup⟩
    exact ⟨r.store, hm, List.mem_map.mpr ⟨⟨r.key, r.value⟩, AList.mem_lookup_iff.mp hlookup, rfl⟩⟩

theorem distinct_exportSyncRecords (db : KeyDb) :
    (exportSyncRecords db).Pairwise fun r r' => ¬ r.SameSlot r' := by
  rw [exportSyncRecords, List.pairwise_flatMap]
  refine ⟨fun m _ => ?_, pairwise_syncStores.imp fun hne r hr r' hr' hsame => ?_⟩
  · rw [List.pairwise_map]
    exact (List.nodupKeys_iff_pairwise.mp (db m.name).nodupKeys).imp fun hne hsame => hne hsame.2
  · obtain ⟨entry, -, rfl⟩ := List.mem_map.mp hr
    obtain ⟨entry', -, rfl⟩ := List.mem_map.mp hr'
    exact hne hsame.1

/-- What is loaded depends on what is found. -/
theorem reproduces_of_lookup {db target : KeyDb}
    (himport : importSyncRecords (fun _ => ∅) ((exportSyncRecords db).map SyncRecord.payload) = .ok target)
    (hlookup : ∀ name key, (target name).lookup key = (db name).lookup key) : Reproduces db := by
  refine ⟨target, himport, hlookup, fun key => ⟨fun vaultDecrypt => ?_, ?_, ?_, ?_, ?_, ?_⟩⟩
  · rw [loadIdentityKeys, hlookup]
    rfl
  · rw [loadRatchetSession, hlookup]
    rfl
  · rw [loadGroupSender, hlookup]
    rfl
  · rw [loadGroupReceiver, hlookup]
    rfl
  · exact hlookup .msgPlaintext key
  · rw [loadMediaKey, hlookup]
    rfl

/-- Stores of which every record arrives are reproduced. -/
theorem reproduces_of_arrives {db : KeyDb} (h : ∀ r ∈ exportSyncRecords db, r.Arrives) : Reproduces db := by
  obtain ⟨target, himport, hfound, hother⟩ :=
    import_all h (distinct_exportSyncRecords db) fun _ => ∅
  refine reproduces_of_lookup himport fun name key => ?_
  obtain ⟨m, hm, rfl⟩ := exists_syncStore name
  cases hlookup : (db m.name).lookup key with
  | some value => exact hfound ⟨m, key, value⟩ (mem_exportSyncRecords.mpr ⟨hm, hlookup⟩)
  | none =>
    rw [hother m.name key]
    · rfl
    · rintro r hr ⟨hname, rfl⟩
      have hfound' := (mem_exportSyncRecords.mp hr).2
      rw [hname, hlookup] at hfound'
      cases hfound'

/-! ## What does not arrive -/

theorem of_importSyncRecord {r : SyncRecord} {db db' : KeyDb} (hstore : r.store ∈ syncStores)
    (h : importSyncRecord db r.payload = .ok db') :
    encode r.key ++ r.store.valueBytes r.value ≠ [] ∧ ∃ value, r.store.decodeValue r.rawValue = .ok value ∧
      db' = db.put r.store.name (transported r.key) value := by
  rw [importSyncRecord_payload hstore] at h
  split at h
  · cases h
  · next hne =>
    refine ⟨hne, ?_⟩
    cases hvalue : r.store.decodeValue r.rawValue with
    | error e =>
      rw [hvalue] at h
      cases h
    | ok value =>
      rw [hvalue] at h
      cases h
      exact ⟨value, rfl, rfl⟩

/-- What is found after the import was there before or arrived. -/
theorem of_importSyncRecords {rs : List SyncRecord} {db target : KeyDb} (hstore : ∀ r ∈ rs, r.store ∈ syncStores)
    (h : importSyncRecords db (rs.map SyncRecord.payload) = .ok target) :
    (∀ r ∈ rs, encode r.key ++ r.store.valueBytes r.value ≠ []) ∧
    ∀ name key value, (target name).lookup key = some value → (db name).lookup key = some value ∨
      ∃ r ∈ rs, r.store.name = name ∧ transported r.key = key ∧ r.store.decodeValue r.rawValue = .ok value := by
  induction rs generalizing db with
  | nil =>
    cases h
    exact ⟨nofun, fun _ _ _ hfound => .inl hfound⟩
  | cons r rs ih =>
    rw [List.map_cons, importSyncRecords, List.foldlM_cons] at h
    cases hr : importSyncRecord db r.payload with
    | error e =>
      rw [hr] at h
      cases h
    | ok db' =>
      rw [hr] at h
      obtain ⟨hne, value', hvalue, rfl⟩ := of_importSyncRecord (hstore r List.mem_cons_self) hr
      obtain ⟨hnonempty, hfound⟩ := ih (fun r' hr' => hstore r' (List.mem_cons_of_mem _ hr')) h
      refine ⟨fun r' hr' => ?_, fun name key value hlookup => ?_⟩
      · rcases List.mem_cons.mp hr' with rfl | hr'
        · exact hne
        · exact hnonempty r' hr'
      · rcases hfound name key value hlookup with hbefore | ⟨r', hr', harrived⟩
        · rw [lookup_put] at hbefore
          split at hbefore
          · next hslot =>
            cases hbefore
            exact .inr ⟨r, List.mem_cons_self, hslot.1.symm, hslot.2.symm, hvalue⟩
          · exact .inl hbefore
        · exact .inr ⟨r', List.mem_cons_of_mem _ hr', harrived⟩

/-- Every record of a store that is reproduced arrived, perhaps under the key of another one. -/
theorem Reproduces.arrived {db : KeyDb} (h : Reproduces db) :
    (∀ r ∈ exportSyncRecords db, encode r.key ++ r.store.valueBytes r.value ≠ []) ∧
    ∀ name key value, (db name).lookup key = some value →
      ∃ r ∈ exportSyncRecords db, r.store.name = name ∧ transported r.key = key ∧
        r.store.decodeValue r.rawValue = .ok value := by
  obtain ⟨target, himport, hlookup, -⟩ := h
  obtain ⟨hnonempty, hfound⟩ := of_importSyncRecords (fun r hr => (mem_exportSyncRecords.mp hr).1) himport
  refine ⟨hnonempty, fun name key value hvalue => ?_⟩
  rcases hfound name key value ((hlookup name key).trans hvalue) with hempty | harrived
  · rw [AList.lookup_empty] at hempty
    cases hempty
  · exact harrived

/-- An identity arrives as a buffer. -/
theorem leaf_of_identity {m : SyncStore} {raw : Bytes} {value : Stored} (hstore : m ∈ syncStores)
    (hname : m.name = .identity) (hvalue : m.decodeValue raw = .ok value) : value = .leaf raw := by
  simp only [syncStores, List.mem_cons, List.not_mem_nil, or_false] at hstore
  rcases hstore with rfl | rfl | rfl | rfl | rfl | rfl <;> cases hname
  cases hvalue
  rfl

theorem Reproduces.identity_empty {db : KeyDb} (h : Reproduces db) (hwritten : ClientWritten db)
    (key : Utf16) : (db .identity).lookup key = none := by
  cases hlookup : (db .identity).lookup key with
  | none => rfl
  | some value =>
    obtain ⟨r, hr, hname, -, hvalue⟩ := h.arrived.2 .identity key value hlookup
    obtain ⟨enc, pub, rfl⟩ := hwritten .identity key value hlookup
    cases leaf_of_identity (mem_exportSyncRecords.mp hr).1 hname hvalue

/-- A map that reaches all of a finite set from within does not lower a measure that it nowhere raises. -/
theorem measure_eq_of_subset_map {α : Type} {f : α → α} (measure : α → Nat) {xs : List α} (hnodup : xs.Nodup)
    (hsub : xs ⊆ xs.map f) (hle : ∀ x ∈ xs, measure (f x) ≤ measure x) :
    ∀ x ∈ xs, measure (f x) = measure x := by
  have hperm : xs.Perm (xs.map f) :=
    (List.subperm_of_subset hnodup hsub).perm_of_length_le (List.length_map f).le
  have hsum : (xs.map fun x => measure (f x)).sum = (xs.map measure).sum := by
    rw [(hperm.map measure).sum_eq, List.map_map]
    rfl
  intro x hx
  by_contra hne
  have hlt := List.sum_lt_sum (l := xs) (fun x => measure (f x)) measure hle
    ⟨x, hx, Nat.lt_of_le_of_ne (hle x hx) hne⟩
  exact absurd hsum (Nat.ne_of_lt hlt)

theorem length_transported_le (key : Utf16) : (transported key).length ≤ key.length :=
  (decode_take key _).2.1

/-- A well-formed key that is not transported loses a unit. -/
theorem transportable_of_length {key : Utf16} (hwell : WellFormed key)
    (hlength : (transported key).length = key.length) : Transportable key where
  wellFormed := hwell
  noBom hbom := by
    rcases Nat.lt_or_ge (encode key).length 0x10000 with hshort | hlong
    · rw [transported, Nat.mod_eq_of_lt hshort, List.take_length] at hlength
      exact absurd hlength (Nat.ne_of_lt (decode_encode_bom hbom))
    · exact absurd hlength (Nat.ne_of_lt ((decode_take key _).2.2 (by omega)))
  short := by
    by_contra hlong
    exact absurd hlength (Nat.ne_of_lt ((decode_take key _).2.2 (by omega)))

theorem Reproduces.transportable {db : KeyDb} (h : Reproduces db) {name : StoreName} {key : Utf16}
    (hkey : key ∈ (db name).keys) : Transportable key := by
  have hsub : (db name).keys ⊆ (db name).keys.map transported := by
    intro key hkey
    obtain ⟨value, hvalue⟩ := Option.isSome_iff_exists.mp (AList.lookup_isSome.mpr (AList.mem_keys.mpr hkey))
    obtain ⟨r, hr, rfl, rfl, -⟩ := h.arrived.2 name key value hvalue
    refine List.mem_map.mpr ⟨r.key, AList.mem_keys.mp ?_, rfl⟩
    exact AList.lookup_isSome.mp (Option.isSome_iff_exists.mpr ⟨r.value, (mem_exportSyncRecords.mp hr).2⟩)
  have hlength : ∀ key ∈ (db name).keys, (transported key).length = key.length :=
    measure_eq_of_subset_map List.length (db name).keys_nodup hsub fun key _ => length_transported_le key
  refine transportable_of_length ?_ (hlength key hkey)
  obtain ⟨key', -, rfl⟩ := List.mem_map.mp (hsub hkey)
  exact (decode_take key' _).1

/-- Buffers are written to binary stores. -/
theorem binary_of_writes {m : SyncStore} {b : Bytes} (hstore : m ∈ syncStores)
    (hwrites : m.name.Writes (.leaf b)) : m.binary = true := by
  simp only [syncStores, List.mem_cons, List.not_mem_nil, or_false] at hstore
  rcases hstore with rfl | rfl | rfl | rfl | rfl | rfl
  any_goals rfl
  obtain ⟨content, isLegacy, heq⟩ := hwrites
  cases heq

/-- Only an empty buffer has no bytes. -/
theorem valueBytes_ne_nil {m : SyncStore} {value : Stored} (hwrites : m.name.Writes value)
    (hne : value ≠ .leaf []) : m.valueBytes value ≠ [] := by
  have htext {k : Utf16} {v : Stored} {fields : List (Utf16 × Stored)} :
      encode (stringify (.obj ((k, v) :: fields))) ≠ [] := by
    rw [Ne, encode_eq_nil, stringify]
    exact List.cons_ne_nil _ _
  have hbuffer {b : Bytes} (hb : (Value.leaf b : Stored) ≠ .leaf []) : m.valueBytes (.leaf b) ≠ [] := by
    unfold SyncStore.valueBytes
    cases m.binary with
    | true => exact fun hnil => hb (congrArg Value.leaf hnil)
    | false =>
      dsimp only
      rw [Ne, encode_eq_nil, stringify]
      exact List.cons_ne_nil _ _
  have hobject {k : Utf16} {v : Stored} {fields : List (Utf16 × Stored)} :
      m.valueBytes (.obj ((k, v) :: fields)) ≠ [] := by
    unfold SyncStore.valueBytes
    cases m.binary <;> exact htext
  generalize m.name = name at hwrites
  cases name with
  | identity =>
    obtain ⟨enc, pub, rfl⟩ := hwrites
    exact hobject
  | msgPlaintext =>
    obtain ⟨content, isLegacy, rfl⟩ := hwrites
    exact hobject
  | ratchet | groupSender | groupReceiver | mediaKeys =>
    obtain ⟨b, rfl⟩ := hwrites
    exact hbuffer hne

/-- **Device sync copies every record but the identity**: stores that the client wrote are reproduced
just when there is no identity record, every key survives its UTF-8 form, and no empty buffer stands
under the empty key. -/
theorem reproduces_iff {db : KeyDb} (h : ClientWritten db) :
    Reproduces db ↔ (∀ key, (db .identity).lookup key = none) ∧
      ∀ name key value, (db name).lookup key = some value →
        Transportable key ∧ (key = [] → value ≠ .leaf []) := by
  constructor
  · intro hsame
    refine ⟨hsame.identity_empty h, fun name key value hlookup => ⟨?_, ?_⟩⟩
    · exact hsame.transportable (AList.lookup_isSome.mp (Option.isSome_iff_exists.mpr ⟨value, hlookup⟩))
    · rintro rfl rfl
      obtain ⟨m, hm, rfl⟩ := exists_syncStore name
      have hne := hsame.arrived.1 ⟨m, [], .leaf []⟩ (mem_exportSyncRecords.mpr ⟨hm, hlookup⟩)
      have hbinary := binary_of_writes hm (h _ _ _ hlookup)
      simp [SyncStore.valueBytes, hbinary, encode, codePoints] at hne
  · rintro ⟨hidentity, hkeys⟩
    refine reproduces_of_arrives fun r hr => ?_
    obtain ⟨hstore, hlookup⟩ := mem_exportSyncRecords.mp hr
    obtain ⟨hkey, hempty⟩ := hkeys _ _ _ hlookup
    have hname : r.store.name ≠ .identity := by
      intro hname
      rw [hname, hidentity] at hlookup
      cases hlookup
    have hwrites := h _ _ _ hlookup
    refine ⟨hstore, hkey, decodeValue_valueBytes hstore hname hwrites, fun hnil => ?_⟩
    obtain ⟨hnokey, hnovalue⟩ := List.append_eq_nil_iff.mp hnil
    exact valueBytes_ne_nil hwrites (hempty (encode_eq_nil.mp hnokey)) hnovalue

theorem lookup_singleton {key key' : Utf16} {value value' : Stored}
    (h : (AList.singleton (β := fun _ => Stored) key value).lookup key' = some value') :
    key' = key ∧ value' = value := by
  have hmem := List.mem_singleton.mp (AList.mem_lookup_iff.mp h)
  cases hmem
  exact ⟨rfl, rfl⟩

/-- Keys made of decimals are transported. -/
theorem transportable_ascii {key : Utf16} (h : ∀ u ∈ key, u.toNat < 0x80) (hlength : key.length < 0x10000) :
    Transportable key := by
  obtain ⟨hwell, hbom, hbytes⟩ := encode_ascii h
  exact ⟨hwell, hbom, hbytes ▸ hlength⟩

/-- A session and a plaintext. -/
def sampleDb : KeyDb
  | .ratchet => AList.singleton (units "3:7") (.leaf [1, 2, 3])
  | .msgPlaintext => AList.singleton (units "12") (plaintextRecord (units "hi") false)
  | _ => ∅

theorem of_lookup_sampleDb {name : StoreName} {key : Utf16} {value : Stored}
    (h : (sampleDb name).lookup key = some value) :
    name = .ratchet ∧ key = units "3:7" ∧ value = .leaf [1, 2, 3] ∨
    name = .msgPlaintext ∧ key = units "12" ∧ value = plaintextRecord (units "hi") false := by
  cases name with
  | ratchet => exact .inl ⟨rfl, lookup_singleton h⟩
  | msgPlaintext => exact .inr ⟨rfl, lookup_singleton h⟩
  | identity | groupSender | groupReceiver | mediaKeys => cases h

theorem clientWritten_sampleDb : ClientWritten sampleDb := by
  intro name key value h
  obtain ⟨rfl, -, rfl⟩ | ⟨rfl, -, rfl⟩ := of_lookup_sampleDb h
  · exact ⟨_, rfl⟩
  · exact ⟨_, _, rfl⟩

theorem reproduces_sampleDb : Reproduces sampleDb := by
  refine (reproduces_iff clientWritten_sampleDb).mpr ⟨fun _ => rfl, fun name key value h => ?_⟩
  obtain ⟨-, rfl, rfl⟩ | ⟨-, rfl, rfl⟩ := of_lookup_sampleDb h
  · exact ⟨transportable_ascii (by simp [units]) (by decide), fun _ => nofun⟩
  · exact ⟨transportable_ascii (by simp [units]) (by decide), nofun⟩

/-- An identity, as `saveIdentityKeys` writes it. -/
def identityDb : KeyDb
  | .identity => AList.singleton (units "7") (identityRecord [1, 2, 3] [4, 5, 6])
  | _ => ∅

/-- The identity is not copied. -/
theorem identity_not_reproduced : ClientWritten identityDb ∧ ¬ Reproduces identityDb := by
  have hwritten : ClientWritten identityDb := by
    intro name key value h
    cases name with
    | identity =>
      obtain ⟨-, rfl⟩ := lookup_singleton h
      exact ⟨_, _, rfl⟩
    | ratchet | msgPlaintext | groupSender | groupReceiver | mediaKeys => cases h
  refine ⟨hwritten, fun hsame => ?_⟩
  have hnone := hsame.identity_empty hwritten (units "7")
  cases hnone

/-- After a sync no identity is loaded: what arrived has no field `enc`. -/
theorem identity_not_loaded {db target : KeyDb} {vaultDecrypt : Utf16 → Bytes → Option Bytes} {userId : Utf16}
    (himport : importSyncRecords (fun _ => ∅) ((exportSyncRecords db).map SyncRecord.payload) = .ok target)
    (hvault : vaultDecrypt userId [] = none) : loadIdentityKeys vaultDecrypt target userId = none := by
  cases hlookup : (target .identity).lookup userId with
  | none => simp [loadIdentityKeys, hlookup]
  | some value =>
    obtain ⟨-, hfound⟩ := of_importSyncRecords (fun r hr => (mem_exportSyncRecords.mp hr).1) himport
    rcases hfound _ _ _ hlookup with hempty | ⟨r, hr, hname, -, hvalue⟩
    · rw [AList.lookup_empty] at hempty
      cases hempty
    · obtain rfl := leaf_of_identity (mem_exportSyncRecords.mp hr).1 hname hvalue
      simp [loadIdentityKeys, hlookup, field?, asBytes, hvault]

/-! ## The copies of the sessions -/

section
variable {P : Primitives}

/-- What a stored value is to the functions that use it. -/
inductive Content.Stands : Content P → Stored → Prop where
  | bytes (b : Bytes) : Stands (.bytes b) (.leaf b)
  | object (k : Utf16) (v : Stored) (fields : List (Utf16 × Stored)) :
    Stands (.object (encode (stringify (.obj ((k, v) :: fields))))) (.obj ((k, v) :: fields))

theorem binary_syncStores : ∀ m ∈ syncStores, m.binary = m.name.binary := by
  unfold syncStores
  simp [StoreName.binary]

/-- A copy is made of the value that the importer puts. -/
theorem Content.Stands.copied {m : SyncStore} {c : Content P} {value value' : Stored} (hc : c.Stands value)
    (hstore : m ∈ syncStores) (hwrites : m.name.Writes value)
    (hvalue : m.decodeValue (m.valueBytes value) = .ok value') :
    ∃ c' : Content P, importValue m.name.binary (exportValue m.name.binary c) = some c' ∧ c'.Stands value' := by
  rw [← binary_syncStores m hstore]
  cases hc with
  | bytes b =>
    have hbinary := binary_of_writes hstore hwrites
    rw [SyncStore.decodeValue, if_pos hbinary] at hvalue
    cases hvalue
    have hbytes : m.valueBytes (.leaf b) = b := by simp [SyncStore.valueBytes, hbinary]
    rw [hbytes, hbinary]
    exact ⟨.bytes b, rfl, .bytes b⟩
  | object k v fields =>
    have hbytes : m.valueBytes (.obj ((k, v) :: fields)) = encode (stringify (.obj ((k, v) :: fields))) := by
      unfold SyncStore.valueBytes
      cases m.binary <;> rfl
    cases hbinary : m.binary with
    | true =>
      rw [hbytes, SyncStore.decodeValue, if_pos hbinary] at hvalue
      cases hvalue
      exact ⟨_, rfl, .bytes _⟩
    | false =>
      have hname : m.name ≠ .identity := by
        intro hname
        rw [binary_syncStores m hstore, hname] at hbinary
        cases hbinary
      rw [decodeValue_valueBytes hstore hname hwrites] at hvalue
      cases hvalue
      exact ⟨_, rfl, .object k v fields⟩

end

end Vesper.Client
