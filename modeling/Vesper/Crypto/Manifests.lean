import Mathlib.Tactic.Ring
import Vesper.Crypto.SenderKey
import Vesper.Crypto.SyncChunks
import Vesper.Lib.ByteReader

/-!
# Exactness of manifests

What `verify_manifest` accepts is what `build_manifest` makes, byte for byte, and under an ideal HMAC it
was made. `verifyManifestOn` is the same function on machine words, where sizes may overflow and
indices may lie outside.
-/

namespace Vesper
open SenderKey (u32Be be32_u32Be)

variable {P : Primitives} {C : SyncCrates P} {macKey : P.Block}

/-! ## Numbers and entries as bytes -/

theorem beNat_eq_beValue (b : Bytes) : beNat b = ByteReader.beValue b := by
  simp only [beNat, ByteReader.beValue, Nat.mul_comm]

theorem beNat_lt (b : Bytes) : beNat b < 0x100 ^ b.length :=
  beNat_eq_beValue b ▸ ByteReader.beValue_lt b

theorem beNat_append (a b : Bytes) : beNat (a ++ b) = beNat a * 0x100 ^ b.length + beNat b := by
  suffices h : ∀ (b : Bytes) (n : Nat), b.foldl (fun n byte => n * 0x100 + byte.toNat) n =
      n * 0x100 ^ b.length + beNat b by
    rw [beNat, List.foldl_append, h]
    rfl
  intro b
  induction b with
  | nil => simp [beNat]
  | cons x b ih =>
    intro n
    have hx : beNat (x :: b) = (0 * 0x100 + x.toNat) * 0x100 ^ b.length + beNat b := ih _
    rw [List.foldl_cons, ih, hx, List.length_cons, Nat.pow_succ]
    ring

theorem be32_beNat {b : Bytes} (h : b.length = 4) : be32 (.ofNat (beNat b)) = b := by
  have hfold : UInt32.ofNat (beNat b) = u32Be b := by
    simp only [beNat, u32Be, Nat.mul_comm]
  rw [hfold, be32_u32Be h]

theorem be64_beNat {b : Bytes} (h : b.length = 8) : be64 (.ofNat (beNat b)) = b := by
  have hhigh : (b.take 4).length = 4 := by simp [h]
  have hlow : (b.drop 4).length = 4 := by simp [h]
  have hsplit : beNat b = beNat (b.take 4) * 2 ^ 32 + beNat (b.drop 4) := by
    conv_lhs => rw [← List.take_append_drop 4 b]
    rw [beNat_append, hlow]
    rfl
  have hlt : beNat b < 2 ^ 64 := by
    have := beNat_lt b
    rwa [h] at this
  have hlow' := beNat_lt (b.drop 4)
  rw [hlow] at hlow'
  have hmod : UInt32.ofNat (beNat b) = .ofNat (beNat (b.drop 4)) := by
    apply UInt32.toNat_inj.mp
    rw [UInt32.toNat_ofNat', UInt32.toNat_ofNat', hsplit]
    omega
  have hdiv : beNat b / 2 ^ 32 = beNat (b.take 4) := by omega
  rw [be64, UInt64.toNat_ofNat', Nat.mod_eq_of_lt hlt, hmod, hdiv, be32_beNat hhigh, be32_beNat hlow,
    List.take_append_drop]

@[simp] theorem length_readEntries (n : Nat) (b : Bytes) : (readEntries n b).length = n := by
  induction n generalizing b with
  | zero => rfl
  | succ n ih => rw [readEntries, List.length_cons, ih]

/-- Packed bytes are those of the entries read from them. -/
theorem flatMap_readEntries {n : Nat} {b : Bytes} (h : b.length = n * 40) :
    (readEntries n b).flatMap ManifestEntry.toBytes = b := by
  induction n generalizing b with
  | zero =>
    rw [Nat.zero_mul, List.length_eq_zero_iff] at h
    rw [h, readEntries, List.flatMap_nil]
  | succ n ih =>
    have hid : (b.take 8).length = 8 := by
      rw [List.length_take]
      omega
    have hhash : (Vector.ofFn fun i : Fin 32 => (b.drop 8).getD i 0).toList = (b.drop 8).take 32 := by
      apply List.ext_getElem
      · simp only [Vector.length_toList, List.length_take, List.length_drop]
        omega
      · intro i hi hi'
        have hlt : i < 32 := by simpa using hi
        have hlt' : 8 + i < b.length := by omega
        simp [hlt']
    calc (readEntries (n + 1) b).flatMap ManifestEntry.toBytes
      _ = (b.take 8 ++ (b.drop 8).take 32) ++ b.drop 40 := by
        rw [readEntries, List.flatMap_cons, ih (by rw [List.length_drop]; omega), ManifestEntry.toBytes,
          hhash, be64_beNat hid]
      _ = b := by
        rw [List.append_assoc, show b.drop 40 = (b.drop 8).drop 32 by rw [List.drop_drop],
          List.take_append_drop, List.take_append_drop]

/-! ## What is accepted -/

theorem manifestBody_inj {entries entries' : List ManifestEntry} :
    manifestBody entries = manifestBody entries' ↔ entries = entries' := by
  refine ⟨fun h => ?_, congrArg _⟩
  have hlength : entries.length = entries'.length := by
    have := congrArg List.length h
    rw [manifestBody_length, manifestBody_length] at this
    omega
  have hpacked : entries.flatMap ManifestEntry.toBytes = entries'.flatMap ManifestEntry.toBytes := by
    rw [manifestBody, manifestBody, hlength, List.cons_append, List.cons_append] at h
    exact List.append_cancel_left (List.cons_inj_right _ |>.mp h)
  rw [← readEntries_toBytes entries, hpacked, hlength, readEntries_toBytes]

/-- The checks that the data has passed. -/
theorem verifyManifest_ok_iff {data : Bytes} {entries : List ManifestEntry} :
    verifyManifest C macKey data = .ok entries ↔ 37 ≤ data.length ∧
      (C.hmacTag macKey (data.take (data.length - 32))).toList = data.drop (data.length - 32) ∧
      (data.take (data.length - 32)).getD 0 0 = 1 ∧
      ∃ count, beNat (((data.take (data.length - 32)).drop 1).take 4) = count ∧
        (data.take (data.length - 32)).length = 5 + count * 40 ∧
        readEntries count ((data.take (data.length - 32)).drop 5) = entries := by
  unfold verifyManifest
  dsimp only
  split_ifs with hshort htag hversion hlength
  · exact iff_of_false (fun h => nomatch h) fun h => by omega
  · exact iff_of_false (fun h => nomatch h) fun h => htag h.2.1
  · exact iff_of_false (fun h => nomatch h) fun h => hversion h.2.2.1
  · refine iff_of_false (fun h => nomatch h) ?_
    rintro ⟨-, -, -, count, rfl, hlength', -⟩
    exact hlength hlength'
  · constructor
    · rintro ⟨⟩
      exact ⟨Nat.le_of_not_lt hshort, not_not.mp htag, not_not.mp hversion, _, rfl, not_not.mp hlength,
        rfl⟩
    · rintro ⟨-, -, -, count, rfl, -, rfl⟩
      rfl

/-- **Only manifests verify**: what is accepted was built from the entries that are returned. -/
theorem verifyManifest_iff {data : Bytes} {entries : List ManifestEntry} :
    verifyManifest C macKey data = .ok entries ↔
      entries.length < 2 ^ 32 ∧ data = buildManifest C macKey entries := by
  constructor
  · intro h
    obtain ⟨hlong, htag, hversion, count, hcount, hlength, rfl⟩ := verifyManifest_ok_iff.mp h
    generalize hbody : data.take (data.length - 32) = body at *
    have hfour : ((body.drop 1).take 4).length = 4 := by
      rw [List.length_take, List.length_drop]
      omega
    have hlt : count < 2 ^ 32 := by
      have := beNat_lt ((body.drop 1).take 4)
      rwa [hfour, hcount] at this
    have hpacked : (readEntries count (body.drop 5)).flatMap ManifestEntry.toBytes = body.drop 5 :=
      flatMap_readEntries (by rw [List.length_drop]; omega)
    have hsplit : body = 1 :: ((body.drop 1).take 4 ++ body.drop 5) := by
      cases body with
      | nil => exact absurd hfour (by simp)
      | cons version rest =>
        have hone : version = 1 := hversion
        rw [hone, List.drop_succ_cons, List.drop_zero, List.drop_succ_cons, List.take_append_drop]
    have hbuilt : manifestBody (readEntries count (body.drop 5)) = body := by
      rw [manifestBody, length_readEntries, hpacked, ← hcount, be32_beNat hfour, List.cons_append,
        ← hsplit]
    refine ⟨by rwa [length_readEntries], ?_⟩
    rw [buildManifest, hbuilt, htag, ← hbody, List.take_append_drop]
  · rintro ⟨hlength, rfl⟩
    exact verifyManifest_buildManifest C macKey hlength

/-! ## An ideal HMAC -/

variable (C) in
/-- Ideal HMAC, for data from an attacker: the tag at its end is not that of its body under the key, unless
the HMAC of that body was taken under that key. -/
def Unforged (macced : Set (P.Block × Bytes)) (macKey : P.Block) (data : Bytes) : Prop :=
  (C.hmacTag macKey (data.take (data.length - 32))).toList = data.drop (data.length - 32) →
    (macKey, data.take (data.length - 32)) ∈ macced

/-- The calls of HMAC that the manifests `issued` took. -/
def macCalls (issued : Set (P.Block × List ManifestEntry)) : Set (P.Block × Bytes) :=
  (fun m => (m.1, manifestBody m.2)) '' issued

/-- Whatever verifies was issued, under the key that it is verified with. -/
theorem issued_of_verifyManifest {issued : Set (P.Block × List ManifestEntry)} {data : Bytes}
    {entries : List ManifestEntry} (hideal : Unforged C (macCalls issued) macKey data)
    (h : verifyManifest C macKey data = .ok entries) :
    (macKey, entries) ∈ issued ∧ data = buildManifest C macKey entries := by
  have hbuilt := (verifyManifest_iff.mp h).2
  have hlength : data.length - 32 = (manifestBody entries).length := by
    rw [hbuilt]
    simp [buildManifest]
  have hbody : data.take (data.length - 32) = manifestBody entries := by
    rw [hlength, hbuilt, buildManifest, List.take_left]
  obtain ⟨⟨key, entries'⟩, hissued, hcall⟩ := hideal (verifyManifest_ok_iff.mp h).2.1
  obtain ⟨rfl, hsame⟩ := Prod.mk.inj hcall
  rw [hbody] at hsame
  cases manifestBody_inj.mp hsame
  exact ⟨hissued, hbuilt⟩

/-- **Modified manifests are rejected**, and so is every manifest under another key. -/
theorem verifyManifest_rejects {issued : Set (P.Block × List ManifestEntry)} {data : Bytes}
    (hideal : Unforged C (macCalls issued) macKey data)
    (h : ∀ entries, (macKey, entries) ∈ issued → data ≠ buildManifest C macKey entries) :
    ∃ e, verifyManifest C macKey data = .error e := by
  cases hverify : verifyManifest C macKey data with
  | error e => exact ⟨e, rfl⟩
  | ok entries =>
    obtain ⟨hissued, hbuilt⟩ := issued_of_verifyManifest hideal hverify
    exact absurd hbuilt (h entries hissued)

/-! ## Machine words -/

namespace Words

/-- An index outside a slice, or an operation that overflows. -/
def trap {α : Type} (message : String) : Except SyncError α := .error (.core (.panic message))

section
variable (bits : Nat)

/-- `checked_add` and `checked_mul` of a `usize`, on the exact result. -/
def checked (n : Nat) : Except SyncError Nat :=
  if n < 2 ^ bits then .ok n else .error (.core (.error .invalidCiphertext))

/-- The operators, which panic instead. -/
def usize (n : Nat) : Except SyncError Nat :=
  if n < 2 ^ bits then .ok n else trap "attempt to compute with overflow"

/-- `&b[i..j]` -/
def range (b : Bytes) (i j : Nat) : Except SyncError Bytes :=
  if i ≤ j ∧ j ≤ b.length then .ok ((b.drop i).take (j - i)) else trap "range out of bounds"

/-- `try_into().unwrap()` -/
def exactly (n : Nat) (b : Bytes) : Except SyncError (Vector UInt8 n) :=
  if h : b.length = n then .ok ⟨b.toArray, by simpa⟩ else trap "called Result::unwrap() on an Err value"

/-- `Vec::with_capacity` of entries, which are 40 bytes each: no allocation exceeds `isize::MAX`. -/
def withCapacity (count : Nat) : Except SyncError Unit :=
  if count * 40 < 2 ^ (bits - 1) then .ok () else trap "capacity overflow"

/-- The rounds of `for i in 0..count` from round `i` on. -/
def readEntriesOn (body : Bytes) : Nat → Nat → Except SyncError (List ManifestEntry)
  | 0, _ => .ok []
  | n + 1, i => do
    let off ← usize bits (5 + (← usize bits (i * 40)))
    let id ← exactly 8 (← range body off (← usize bits (off + 8)))
    let hash ← exactly 32 (← range body (← usize bits (off + 8)) (← usize bits (off + 40)))
    return ⟨.ofNat (beNat id.toList), hash⟩ :: (← readEntriesOn body n (i + 1))

variable (C macKey) in
/-- `verify_manifest` where a `usize` has so many bits. -/
def verifyManifestOn (data : Bytes) : Except SyncError (List ManifestEntry) :=
  if data.length < 37 then .error (.core (.error .invalidCiphertext))
  else
    let body := data.take (data.length - 32)
    let macBytes := data.drop (data.length - 32)
    if (C.hmacTag macKey body).toList ≠ macBytes then .error .manifestTampered
    else do
      let version ← range body 0 1
      if version ≠ [1] then .error (.core (.error .invalidCiphertext))
      else
        let count := beNat (← exactly 4 (← range body 1 5)).toList % 2 ^ bits
        let expectedBody ← checked bits (5 + (← checked bits (count * 40)))
        if body.length ≠ expectedBody then .error (.core (.error .invalidCiphertext))
        else
          withCapacity bits count
          readEntriesOn bits body count 0

variable {bits} {body b : Bytes} {i j n : Nat}

theorem checked_eq (h : n < 2 ^ bits) : checked bits n = .ok n := if_pos h

theorem usize_eq (h : n < 2 ^ bits) : usize bits n = .ok n := if_pos h

theorem range_eq (hij : i ≤ j) (hj : j ≤ b.length) : range b i j = .ok ((b.drop i).take (j - i)) :=
  if_pos ⟨hij, hj⟩

theorem exactly_eq (h : b.length = n) : exactly n b = .ok ⟨b.toArray, by simpa⟩ := dif_pos h

/-- The rounds stay inside the body, which holds no more bytes than a `usize` counts. -/
theorem readEntriesOn_eq (hlength : body.length = 5 + (i + n) * 40) (hbits : body.length < 2 ^ bits) :
    readEntriesOn bits body n i = .ok (readEntries n (body.drop (5 + i * 40))) := by
  induction n generalizing i with
  | zero => rfl
  | succ n ih =>
    have hid : ((body.drop (5 + i * 40)).take 8).length = 8 := by
      rw [List.length_take, List.length_drop]
      omega
    have hhash : ((body.drop (5 + i * 40 + 8)).take 32).length = 32 := by
      rw [List.length_take, List.length_drop]
      omega
    have hrest : readEntriesOn bits body n (i + 1) =
        .ok (readEntries n ((body.drop (5 + i * 40)).drop 40)) := by
      rw [ih (by omega), List.drop_drop]
      congr 3
      omega
    have hentry : (⟨((body.drop (5 + i * 40 + 8)).take 32).toArray, by simpa using hhash⟩ :
        Vector UInt8 32) = .ofFn fun k => ((body.drop (5 + i * 40)).drop 8).getD k 0 := by
      ext k hk
      have hlt : 5 + i * 40 + 8 + k < body.length := by omega
      simp [hlt, List.getD_eq_getElem?_getD]
    have hidEq : 5 + i * 40 + 8 - (5 + i * 40) = 8 := by omega
    have hhashEq : 5 + i * 40 + 40 - (5 + i * 40 + 8) = 32 := by omega
    rw [readEntriesOn, usize_eq (by omega)]
    dsimp only [bind, Except.bind]
    rw [usize_eq (by omega)]
    dsimp only
    rw [usize_eq (by omega)]
    dsimp only
    rw [range_eq (by omega) (by omega), hidEq]
    dsimp only
    rw [exactly_eq hid, usize_eq (by omega)]
    dsimp only
    rw [range_eq (by omega) (by omega), hhashEq]
    dsimp only
    rw [exactly_eq hhash, hrest, hentry]
    rfl

/-- Where a checked operation fails, the size is wrong in any case. -/
theorem checkedSize {α : Type} {count : Nat} (h : body.length < 2 ^ bits) (next : Except SyncError α) :
    (do
      let expectedBody ← checked bits (5 + (← checked bits (count * 40)))
      if body.length ≠ expectedBody then .error (.core (.error .invalidCiphertext)) else next) =
    if body.length ≠ 5 + count * 40 then .error (.core (.error .invalidCiphertext)) else next := by
  rcases Nat.lt_or_ge (5 + count * 40) (2 ^ bits) with hfits | hover
  · rw [checked_eq (by omega)]
    dsimp only [bind, Except.bind]
    rw [checked_eq hfits]
  · rw [if_pos (by omega)]
    rcases Nat.lt_or_ge (count * 40) (2 ^ bits) with hmul | hmul
    · rw [checked_eq hmul]
      dsimp only [bind, Except.bind]
      rw [checked, if_neg (by omega)]
    · rw [checked, if_neg (by omega)]
      rfl

/-- **No panic**: a slice holds at most `isize::MAX` bytes, and on such data no index of `verify_manifest`
lies outside and no size overflows, if a `usize` has 32 bits or more. -/
theorem verifyManifestOn_eq {data : Bytes} (hword : 32 ≤ bits) (hdata : data.length < 2 ^ (bits - 1)) :
    verifyManifestOn C macKey bits data = verifyManifest C macKey data := by
  have hhalf : 2 ^ (bits - 1) < 2 ^ bits := Nat.pow_lt_pow_right (by omega) (by omega)
  have h32 : 2 ^ 32 ≤ 2 ^ bits := Nat.pow_le_pow_right (by omega) hword
  unfold verifyManifestOn verifyManifest
  split
  · rfl
  rename_i hlong
  dsimp only
  split
  · rfl
  generalize hbody : data.take (data.length - 32) = body
  have hlength : body.length = data.length - 32 := by
    rw [← hbody, List.length_take]
    omega
  have hcount : ((body.drop 1).take 4).length = 4 := by
    rw [List.length_take, List.length_drop]
    omega
  have hlt : beNat ((body.drop 1).take 4) < 2 ^ 32 := by
    have := beNat_lt ((body.drop 1).take 4)
    rwa [hcount] at this
  have hversion : (body.drop 0).take (1 - 0) ≠ [1] ↔ body.getD 0 0 ≠ 1 := by
    cases body with
    | nil => exact absurd hcount (by simp)
    | cons version rest => simp
  rw [range_eq (by omega) (by omega)]
  dsimp only [bind, Except.bind]
  simp only [hversion]
  split
  · rfl
  · rw [range_eq (by omega) (by omega)]
    dsimp only
    rw [exactly_eq hcount]
    dsimp only
    rw [Vector.toList_mk, List.toList_toArray, Nat.mod_eq_of_lt (by omega)]
    generalize beNat ((body.drop 1).take 4) = count at *
    refine (checkedSize (by omega) _).trans (ite_congr rfl (fun _ => rfl) fun hsize => ?_)
    rw [withCapacity, if_pos (by omega)]
    exact readEntriesOn_eq (by omega) (by omega)

end

end Words

/-! ## The WASM calls -/

/-- A `JsValue` made of an error of the core or of a text. -/
inductive SyncThrown where
  | core (e : SyncError)
  | text (message : String)

namespace Wasm

theorem size_toArray {b : Bytes} (h : b.length = 32) : b.toArray.size = 32 := by simpa

def to32 (b : Bytes) : Except SyncThrown (Vector UInt8 32) :=
  if h : b.length = 32 then .ok ⟨b.toArray, size_toArray h⟩ else .error (.text "expected 32 bytes")

variable (C)

def syncBuildManifest (macKey ids hashes : Bytes) : Except SyncThrown Bytes := do
  let macArr ← to32 macKey
  if ids.length % 8 ≠ 0 then .error (.text "ids must be n×8 bytes")
  else if hashes.length % 32 ≠ 0 then .error (.text "hashes must be n×32 bytes")
  else
    let n := ids.length / 8
    if hashes.length / 32 ≠ n then .error (.text "ids and hashes counts must match")
    else
      let entries : List ManifestEntry := (List.range n).map fun i =>
        ⟨.ofNat (beNat ((ids.drop (i * 8)).take 8)), .ofFn fun k => (hashes.drop (i * 32)).getD k 0⟩
      return buildManifest C (P.block macArr) entries

/-- The entries, packed again. -/
def syncVerifyManifest (macKey manifest : Bytes) : Except SyncThrown Bytes := do
  let macArr ← to32 macKey
  let entries ← (verifyManifest C (P.block macArr) manifest).mapError .core
  return entries.flatMap ManifestEntry.toBytes

/-- The ids of entries, packed as the first argument of `sync_build_manifest` has them. -/
def packedIds (entries : List ManifestEntry) : Bytes := entries.flatMap fun e => be64 e.id

def packedHashes (entries : List ManifestEntry) : Bytes := entries.flatMap fun e => e.hash.toList

variable {C} {entries : List ManifestEntry}

theorem to32_toList (key : Vector UInt8 32) : to32 key.toList = .ok key := by
  rw [to32, dif_pos Vector.length_toList]
  rfl

theorem drop_flatMap {α : Type} {f : α → Bytes} {k : Nat} (hf : ∀ a, (f a).length = k) (l : List α)
    (i : Nat) : (l.flatMap f).drop (i * k) = (l.drop i).flatMap f := by
  induction i generalizing l with
  | zero => simp
  | succ i ih =>
    cases l with
    | nil => simp
    | cons a l =>
      rw [List.flatMap_cons, Nat.succ_mul, Nat.add_comm, ← List.drop_drop, List.drop_left' (hf a), ih,
        List.drop_succ_cons]

theorem packedIds_length : (packedIds entries).length = entries.length * 8 := by
  simp [packedIds, List.length_flatMap]

theorem packedHashes_length : (packedHashes entries).length = entries.length * 32 := by
  simp [packedHashes, List.length_flatMap]

theorem drop_packedIds (i : Nat) : (packedIds entries).drop (i * 8) = packedIds (entries.drop i) :=
  drop_flatMap (k := 8) (f := fun e : ManifestEntry => be64 e.id) (fun e => be64_length e.id) entries i

theorem drop_packedHashes (i : Nat) : (packedHashes entries).drop (i * 32) = packedHashes (entries.drop i) :=
  drop_flatMap (k := 32) (f := fun e : ManifestEntry => e.hash.toList) (fun e => e.hash.length_toList) entries i

theorem syncBuildManifest_packed (macKey : Vector UInt8 32) (entries : List ManifestEntry) :
    syncBuildManifest C macKey.toList (packedIds entries) (packedHashes entries) =
      .ok (buildManifest C (P.block macKey) entries) := by
  have hentries : ((List.range entries.length).map fun i => (⟨.ofNat (beNat (((packedIds entries).drop
      (i * 8)).take 8)), .ofFn fun k => ((packedHashes entries).drop (i * 32)).getD k 0⟩ : ManifestEntry)) =
        entries := by
    apply List.ext_getElem
    · simp
    · intro i hi hi'
      have hid : (((packedIds entries).drop (i * 8)).take 8) = be64 entries[i].id := by
        rw [drop_packedIds, List.drop_eq_getElem_cons hi', packedIds, List.flatMap_cons,
          List.take_left' (be64_length _)]
      have hhash : (.ofFn fun k : Fin 32 => ((packedHashes entries).drop (i * 32)).getD k 0) =
          entries[i].hash := by
        rw [drop_packedHashes, List.drop_eq_getElem_cons hi', packedHashes, List.flatMap_cons]
        ext k hk
        have hlt : k < entries[i].hash.toList.length := by simpa using hk
        simp [List.getElem?_append_left hlt, hk]
      rw [List.getElem_map, List.getElem_range, hid, hhash, beNat_be64, UInt64.ofNat_toNat]
  have hids : entries.length * 8 % 8 = 0 := Nat.mul_mod_left ..
  have hhashes : entries.length * 32 % 32 = 0 := Nat.mul_mod_left ..
  rw [syncBuildManifest, to32_toList]
  dsimp only [bind, Except.bind]
  rw [packedIds_length, packedHashes_length, if_neg (not_not_intro hids), if_neg (not_not_intro hhashes),
    Nat.mul_div_cancel _ (by decide), Nat.mul_div_cancel _ (by decide), if_neg (not_not_intro rfl), hentries]
  rfl

theorem syncVerifyManifest_buildManifest (macKey : Vector UInt8 32) (h : entries.length < 2 ^ 32) :
    syncVerifyManifest C macKey.toList (buildManifest C (P.block macKey) entries) =
      .ok (entries.flatMap ManifestEntry.toBytes) := by
  rw [syncVerifyManifest, to32_toList]
  dsimp only [bind, Except.bind]
  rw [verifyManifest_buildManifest C _ h]
  rfl

end Wasm

/-- **Manifest exactness**: packed entries come back in order through the WASM calls; the core accepts
what it builds and nothing else; with an ideal HMAC it accepts only what was issued under the same key; and
on a machine word of 32 bits or more it does not panic. -/
theorem manifests_exact (C : SyncCrates P) :
    (∀ (macKey : Vector UInt8 32) (entries : List ManifestEntry), entries.length < 2 ^ 32 →
      (Wasm.syncBuildManifest C macKey.toList (Wasm.packedIds entries) (Wasm.packedHashes entries) >>=
        Wasm.syncVerifyManifest C macKey.toList) = .ok (entries.flatMap ManifestEntry.toBytes)) ∧
    (∀ (macKey : P.Block) (data : Bytes) (entries : List ManifestEntry),
      verifyManifest C macKey data = .ok entries ↔
        entries.length < 2 ^ 32 ∧ data = buildManifest C macKey entries) ∧
    (∀ (issued : Set (P.Block × List ManifestEntry)) (macKey : P.Block) (data : Bytes),
      Unforged C (macCalls issued) macKey data →
        (∀ entries, (macKey, entries) ∈ issued → data ≠ buildManifest C macKey entries) →
          ∃ e, verifyManifest C macKey data = .error e) ∧
    ∀ (bits : Nat) (macKey : P.Block) (data : Bytes), 32 ≤ bits → data.length < 2 ^ (bits - 1) →
      Words.verifyManifestOn C macKey bits data = verifyManifest C macKey data := by
  refine ⟨fun macKey entries h => ?_, fun _ _ _ => verifyManifest_iff, fun _ _ _ => verifyManifest_rejects,
    fun _ _ _ => Words.verifyManifestOn_eq⟩
  rw [Wasm.syncBuildManifest_packed]
  exact Wasm.syncVerifyManifest_buildManifest macKey h

/-- `Sha256("msg")` under id 1. -/
def msgEntry : ManifestEntry := ⟨1, #v[228, 107, 50, 1, 101, 238, 201, 30, 99, 68, 250, 16, 52, 13, 91, 50, 8, 48,
  77, 108, 173, 41, 208, 213, 174, 209, 132, 102, 209, 217, 216, 14]⟩

/-- The HMAC of the body of `[msgEntry]`, under `0xab` repeated and under `0xcd` repeated. -/
def msgCrates : SyncCrates symbolic where
  lz4Compress plain := some plain
  lz4Decompress frame := some frame
  sha256 _ := msgEntry.hash
  hmacTag key _ :=
    if key = .bytes (List.replicate 32 0xab) then
      #v[40, 47, 13, 26, 65, 250, 115, 232, 19, 122, 8, 156, 57, 139, 177, 26, 172, 83, 142, 57, 25, 63, 201, 242,
        165, 192, 110, 60, 83, 142, 33, 97]
    else #v[154, 255, 188, 37, 194, 146, 222, 106, 227, 14, 54, 26, 116, 255, 118, 80, 103, 124, 176, 16, 146,
      182, 206, 77, 36, 59, 133, 40, 65, 210, 121, 2]

/-- The manifest of one entry, under its own key and under another. -/
theorem manifests_exact_sample :
    (Wasm.syncBuildManifest msgCrates (List.replicate 32 0xab) (Wasm.packedIds [msgEntry])
        (Wasm.packedHashes [msgEntry]) >>= Wasm.syncVerifyManifest msgCrates (List.replicate 32 0xab)) =
      .ok msgEntry.toBytes ∧
    (∃ e, verifyManifest msgCrates (.bytes (List.replicate 32 0xcd))
      (buildManifest msgCrates (.bytes (List.replicate 32 0xab)) [msgEntry]) = .error e) ∧
    Words.verifyManifestOn msgCrates (.bytes (List.replicate 32 0xab)) 32
      (buildManifest msgCrates (.bytes (List.replicate 32 0xab)) [msgEntry]) = .ok [msgEntry] := by
  obtain ⟨hpacked, haccepts, hrejects, hwords⟩ := manifests_exact msgCrates
  have hone : [msgEntry].length < 2 ^ 32 := by simp
  refine ⟨?_, hrejects {(.bytes (List.replicate 32 0xab), [msgEntry])} _ _ ?_ ?_, ?_⟩
  · have h := hpacked (.replicate 32 0xab) [msgEntry] hone
    rwa [Vector.toList_replicate, List.flatMap_singleton] at h
  · intro h
    exact absurd h (by decide +kernel)
  · rintro entries hissued
    exact absurd (Prod.mk.inj hissued).1 (by decide)
  · rw [hwords 32 _ _ (Nat.le_refl _) (by decide +kernel)]
    exact (haccepts _ _ _).mpr ⟨hone, rfl⟩

end Vesper
