import Vesper.Client.GroupCalls
import Vesper.Client.WorkerCalls
import Vesper.Lib.Programs

/-!
# Stored sessions under failures

`drEncrypt`, `drDecrypt`, their per-device twins, `decryptFromGroup` and `decryptBinaryFromGroup` of
`useE2E.ts` on the bytes of the object stores. Whatever fails before the new session is saved leaves the store
as it was; `drEncrypt` and `drDeviceEncrypt` can still fail after that.
-/

namespace Vesper.Client.StoredSessions
open Unicode (Utf16 ofString decode decodeFatal encode)
open DoubleRatchet X3dh Program
variable {P : Primitives} (F : ByteForms P)

/-! ## Stores -/

/-- An object store of byte arrays. -/
abbrev ByteStore := String → Option Bytes

/-- Whether IndexedDB takes a read, and a write. -/
structure Idb where
  get : Except Thrown Unit
  put : Except Thrown Unit

abbrev StoreProgram := Program ByteStore Thrown

/-- `loadRatchetSession`, `loadGroupReceiver` -/
def load (idb : Idb) (key : String) : StoreProgram (Option Bytes) := do
  await idb.get
  Program.reads (· key)

/-- `saveRatchetSession`, `saveGroupReceiver` -/
def save (idb : Idb) (key : String) (bytes : Bytes) : StoreProgram Unit := do
  await idb.put
  modify fun store => Function.update store key (some bytes)

/-! ## Encryption -/

def V2_DM : Utf16 := ofString "v2:"

def V3_DM : Utf16 := ofString "v3:"

def INIT_FLAG : UInt8 := 0x01

/-- The session that a wire is made with: the stored one, or one from the peer's bundle, with the init
message that goes with it. -/
def openSession (ikDhSecret : Bytes) (fetchBundle : Except Thrown Bytes) (ek fresh : P.Secret) :
    Option Bytes → Except Thrown (Bytes × Option Bytes)
  | some sessionBytes => .ok (sessionBytes, none)
  | none => do
    let peerBundle ← fetchBundle
    let result ← x3dhSendBytes F ikDhSecret peerBundle ek
    let sk := result.take 32
    let initMsg := (result.drop 32).take 65
    let spkPub := (peerBundle.drop 64).take 32
    let sessionBytes ← Worker.ratchetInitSender F sk spkPub fresh
    return (sessionBytes, some initMsg)

def wireBytes : Option Bytes → Bytes → Bytes
  | some initMsg, ciphertext => INIT_FLAG :: (initMsg ++ ciphertext)
  | none, ciphertext => 0x00 :: ciphertext

/-- The critical section of an encryption. The session is saved before the wire is encoded. -/
def encryptUnderLock (maxArgs : Nat) (idb : Idb) (tag : Utf16) (ck : String) (ikDhSecret : Bytes)
    (fetchBundle : Except Thrown Bytes) (plaintext : Bytes) (ek fresh : P.Secret) : StoreProgram Utf16 := do
  let stored ← load idb ck
  let (sessionBytes, initMsg) ← await (openSession F ikDhSecret fetchBundle ek fresh stored)
  let (ciphertext, newSessionBytes) ← await (Worker.ratchetEncrypt F sessionBytes plaintext [])
  save idb ck newSessionBytes
  let text ← await (b64Enc maxArgs (wireBytes initMsg ciphertext))
  return tag ++ text

/-- `bundle` is the answer to the request for the peer's bundle. -/
def drEncrypt (maxArgs : Nat) (idb : Idb) (identity : IdentityKeys P) (bundle : Except Thrown Utf16)
    (myId peerId : Nat) (plaintext : Bytes) (ek fresh : P.Secret) : StoreProgram Utf16 :=
  encryptUnderLock F maxArgs idb V2_DM (pairKey myId peerId) (F.secret identity.ikDhSecret).toList
    (bundle >>= b64Dec) plaintext ek fresh

/-- `null` for a bundle that is not there or not decoded. -/
def fetchDeviceBundle (bundle : Except Thrown Utf16) : Option Bytes := (bundle >>= b64Dec).toOption

/-- What `drDeviceEncrypt` makes of the answer of `fetchDeviceBundle`. -/
def deviceBundleOrThrow (recipientDeviceId : Nat) : Option Bytes → Except Thrown Bytes
  | some peerBundle => .ok peerBundle
  | none => .error (.js ("No bundle for device " ++ toString recipientDeviceId))

def drDeviceEncrypt (maxArgs : Nat) (idb : Idb) (identity : IdentityKeys P) (bundle : Except Thrown Utf16)
    (senderDeviceId recipientDeviceId : Nat) (plaintext : Bytes) (ek fresh : P.Secret) : StoreProgram Utf16 :=
  encryptUnderLock F maxArgs idb V3_DM (devicePairKey senderDeviceId recipientDeviceId)
    (F.secret identity.ikDhSecret).toList
    (deviceBundleOrThrow recipientDeviceId (fetchDeviceBundle bundle)) plaintext ek fresh

/-! ## Decryption -/

/-- Decrypts with a session and saves what becomes of it. -/
def decryptWith (idb : Idb) (ck : String) (sessionBytes data : Bytes) (fresh : P.Secret) :
    StoreProgram (Option Bytes) := do
  let (plaintext, newSessionBytes) ← await (Worker.ratchetDecrypt F sessionBytes data [] fresh)
  save idb ck newSessionBytes
  return some plaintext

/-- Decrypts with the session of the init message. -/
def respond (idb : Idb) (ck : String) (ikDhSecret spkSecret initMsg drWire : Bytes) (fresh : P.Secret) :
    StoreProgram (Option Bytes) := do
  let sk ← await (x3dhReceiveBytes F ikDhSecret spkSecret [] initMsg)
  let sessionBytes ← await (Worker.ratchetInitReceiver F sk spkSecret)
  decryptWith F idb ck sessionBytes drWire fresh

/-- `(wire[0] & INIT_FLAG) !== 0` -/
def hasInit (wire : Bytes) : Bool := (wire[0]?.getD 0 &&& INIT_FLAG) ≠ 0

/-- The critical section of a decryption; the two fresh keys are for the two sessions that may be tried. -/
def decryptUnderLock (idb : Idb) (ck : String) (ikDhSecret spkSecret wire : Bytes) (fresh fresh' : P.Secret) :
    StoreProgram (Option Bytes) := do
  let stored ← load idb ck
  if hasInit wire then
    let initMsg := (wire.drop 1).take 65
    let drWire := wire.drop 66
    match stored with
    | some sessionBytes =>
      tryCatch (decryptWith F idb ck sessionBytes drWire fresh) fun _ =>
        respond F idb ck ikDhSecret spkSecret initMsg drWire fresh'
    | none => respond F idb ck ikDhSecret spkSecret initMsg drWire fresh'
  else
    match stored with
    | none => return none
    | some sessionBytes => decryptWith F idb ck sessionBytes (wire.drop 1) fresh

def drDecrypt (idb : Idb) (identity : IdentityKeys P) (myId senderId : Nat) (content : Utf16)
    (fresh fresh' : P.Secret) : StoreProgram (Option Bytes) := do
  let wire ← await (b64Dec (content.drop V2_DM.length))
  decryptUnderLock F idb (pairKey myId senderId) (F.secret identity.ikDhSecret).toList
    (F.secret identity.spkSecret).toList wire fresh fresh'

def drDeviceDecrypt (idb : Idb) (deviceKeys : DeviceKeyPair P) (senderDeviceId recipientDeviceId : Nat)
    (wireStr : Utf16) (fresh fresh' : P.Secret) : StoreProgram (Option Bytes) := do
  let wire ← await (b64Dec (wireStr.drop V3_DM.length))
  decryptUnderLock F idb (devicePairKey senderDeviceId recipientDeviceId)
    (F.secret deviceKeys.ikDhSecret).toList (F.secret deviceKeys.spkSecret).toList wire fresh fresh'

/-! ## Groups -/

def V2_GROUP : Utf16 := ofString "v2g:"

/-- The format before this one; a decryption that fails gives `null`. -/
structure Legacy (κ : Type) where
  legacyKey : Except Thrown (Option κ)
  legacyDecryptText : κ → Utf16 → Except Thrown (Option Utf16)
  legacyDecryptBinary : κ → Bytes → Except Thrown (Option Bytes)

def Legacy.text {κ : Type} (legacy : Legacy κ) (ciphertext : Utf16) : Utf16 :=
  match legacy.legacyKey with
  | .error _ => ofString NOT_DECRYPTED
  | .ok none => ciphertext
  | .ok (some key) =>
    match legacy.legacyDecryptText key ciphertext with
    | .ok (some text) => text
    | _ => ofString NOT_DECRYPTED

def Legacy.binary {κ : Type} (legacy : Legacy κ) (data : Bytes) : Bytes :=
  match legacy.legacyKey with
  | .ok (some key) =>
    match legacy.legacyDecryptBinary key data with
    | .ok (some plaintext) => plaintext
    | _ => data
  | _ => data

/-- What `decryptFromGroup` attempts with a `v2g` text. -/
def decryptV2Group (idb : Idb) (ciphertext : Utf16) (key : String) : StoreProgram Utf16 := do
  let data ← await (b64Dec (ciphertext.drop V2_GROUP.length))
  match ← load idb key with
  | none => return ofString NO_SENDER_KEY
  | some receiverBytes =>
    let (plaintext, newReceiverBytes) ← await (Worker.groupReceiverDecrypt F receiverBytes data)
    save idb key newReceiverBytes
    return decode plaintext

/-- Of the identity only whether there is one. -/
def decryptFromGroup {κ : Type} (idb : Idb) (initialized identity : Bool) (legacy : Legacy κ)
    (ciphertext : Utf16) (conversationId senderId : Nat) : StoreProgram Utf16 :=
  if !initialized then
    if V2_DM <+: ciphertext ∨ V2_GROUP <+: ciphertext then return ofString NOT_DECRYPTED
    else return ciphertext
  else if V2_GROUP <+: ciphertext ∧ identity then
    tryCatch (decryptV2Group F idb ciphertext (receiverKey conversationId senderId)) fun _ =>
      return ofString NOT_DECRYPTED
  else return legacy.text ciphertext

/-- `tryUtf8` gives nothing for what is no text. -/
def decryptBinaryFromGroup {κ : Type} (idb : Idb) (initialized identity : Bool) (legacy : Legacy κ)
    (data : Bytes) (conversationId senderId : Nat) : StoreProgram Bytes :=
  match decodeFatal data with
  | some text =>
    if V2_GROUP <+: text then
      tryCatch (do
        let s ← decryptFromGroup F idb initialized identity legacy text conversationId senderId
        return encode s) fun _ => return data
    else return legacy.binary data
  | none => return legacy.binary data

/-! ## Failures before the save -/

/-- A call that throws, or returns what stands for a failure, leaves the store as it was. -/
def FailsClean {α : Type} (failed : α → Prop) (m : StoreProgram α) (store : ByteStore) : Prop :=
  Triple (· = store) m (fun a after => failed a → after = store) (· = store)

variable {idb : Idb} {store : ByteStore} {key : String}

theorem triple_await {α : Type} {x : Except Thrown α} :
    Triple (· = store) (await x : StoreProgram α) (fun a after => after = store ∧ x = .ok a) (· = store) :=
  Triple.await (fun _ _ h hx => ⟨h, hx⟩) fun _ h => h

theorem triple_load : Triple (· = store) (load idb key)
    (fun stored after => after = store ∧ idb.get = .ok () ∧ stored = store key) (· = store) := by
  refine triple_await.bind fun _ => .given fun hget => .reads ?_
  rintro _ rfl
  exact ⟨rfl, hget, rfl⟩

theorem triple_save {bytes : Bytes} :
    Triple (· = store) (save idb key bytes) (fun _ _ => True ∧ idb.put = .ok ()) (· = store) :=
  triple_await.bind fun _ => .given fun hput => .modify fun _ _ => ⟨trivial, hput⟩

/-- What is saved is returned. -/
theorem decryptWith_clean (sessionBytes data : Bytes) (fresh : P.Secret) :
    FailsClean (· = none) (decryptWith F idb key sessionBytes data fresh) store :=
  triple_await.bind fun _ => .given fun _ => triple_save.bind fun _ => .pure fun _ _ h => nomatch h

theorem respond_clean (ikDhSecret spkSecret initMsg drWire : Bytes) (fresh : P.Secret) :
    FailsClean (· = none) (respond F idb key ikDhSecret spkSecret initMsg drWire fresh) store :=
  triple_await.bind fun _ => .given fun _ => triple_await.bind fun _ => .given fun _ =>
    decryptWith_clean F _ _ _

theorem decryptUnderLock_clean (ikDhSecret spkSecret wire : Bytes) (fresh fresh' : P.Secret) :
    FailsClean (· = none) (decryptUnderLock F idb key ikDhSecret spkSecret wire fresh fresh') store := by
  refine triple_load.bind fun stored => .given fun _ => ?_
  split
  · cases stored with
    | none => exact respond_clean F _ _ _ _ _
    -- the failure of the stored session leaves the store to the new one
    | some sessionBytes => exact (decryptWith_clean F _ _ _).rescue fun _ => respond_clean F _ _ _ _ _
  · cases stored with
    | none => exact .pure fun _ h _ => h
    | some sessionBytes => exact decryptWith_clean F _ _ _

theorem drDecrypt_clean (identity : IdentityKeys P) (myId senderId : Nat) (content : Utf16)
    (fresh fresh' : P.Secret) :
    FailsClean (· = none) (drDecrypt F idb identity myId senderId content fresh fresh') store :=
  triple_await.bind fun _ => .given fun _ => decryptUnderLock_clean F _ _ _ _ _

theorem drDeviceDecrypt_clean (deviceKeys : DeviceKeyPair P) (senderDeviceId recipientDeviceId : Nat)
    (wireStr : Utf16) (fresh fresh' : P.Secret) :
    FailsClean (· = none)
      (drDeviceDecrypt F idb deviceKeys senderDeviceId recipientDeviceId wireStr fresh fresh') store :=
  triple_await.bind fun _ => .given fun _ => decryptUnderLock_clean F _ _ _ _ _

/-! ## Failures after the save -/

/-- The core has a session to encrypt with, the stored one or one from the peer's bundle, and encrypts. -/
def Encrypts (ikDh : P.Secret) (fetchBundle : Except Thrown Bytes) (plaintext : Bytes) (ek fresh : P.Secret) :
    Option Bytes → Prop
  | some sessionBytes => ∃ s message, RatchetState.fromBytes F sessionBytes = .ok s ∧
      (encrypt s plaintext []).2 = .ok message
  | none => ∃ peerBundle bundle s initMsg message, fetchBundle = .ok peerBundle ∧
      parseBundle F peerBundle = .ok bundle ∧ initiate ikDh bundle ek fresh = .ok (s, initMsg) ∧
      (encrypt s plaintext []).2 = .ok message

/-- The flag, the init message if there is one, the header, and the ciphertext with its tag. -/
def wireLength (stored : Option Bytes) (plaintext : Bytes) : Nat :=
  (if stored.isNone then 66 else 1) + 40 + plaintext.length + 16

variable {ikDh ek fresh : P.Secret} {fetchBundle : Except Thrown Bytes} {plaintext : Bytes}

/-- The prekey of a bundle is what the client cuts out of its bytes. -/
theorem spk_of_parseBundle {peerBundle : Bytes} {bundle : X3dhBundle P}
    (h : parseBundle F peerBundle = .ok bundle) : (peerBundle.drop 64).take 32 = bundle.spk.bytes.toList := by
  unfold parseBundle at h
  split at h
  · cases h
  dsimp only at h
  split at h
  · split at h
    · cases h
    · obtain rfl := Except.ok.inj h
      rfl
  · obtain rfl := Except.ok.inj h
    rfl

/-- The parts of what the binding returns for a bundle make the session of `initiate`. -/
theorem openSession_bundle {peerBundle : Bytes} {bundle : X3dhBundle P}
    (hparse : parseBundle F peerBundle = .ok bundle) :
    openSession F (F.secret ikDh).toList (.ok peerBundle) ek fresh none =
      (initiate ikDh bundle ek fresh).map fun opened => (opened.1.toBytes F, some opened.2) := by
  have hspk := spk_of_parseBundle F hparse
  rw [openSession, initiate]
  dsimp only [bind, Except.bind]
  rw [x3dhSendBytes_eq F hparse]
  cases x3dhSend ikDh bundle ek with
  | error fault => rfl
  | ok out =>
    have hsk : (F.block out.sk).toList.length = 32 := Vector.length_toList
    have hinit : (initBytes out.init).take 65 = initBytes out.init :=
      List.take_of_length_le (by simp [initBytes])
    dsimp only [liftWasm, Except.mapError, Except.map]
    rw [List.take_left' hsk, List.drop_left' hsk, hinit, hspk, Worker.ratchetInitSender, exact32_toList,
      exact32_toList]
    dsimp only [bind, Except.bind]
    rw [F.block.symm_apply_apply]
    cases initSender P out.sk bundle.spk fresh <;> rfl

theorem openSession_none {sessionBytes : Bytes} {initMsg : Option Bytes} :
    openSession F (F.secret ikDh).toList fetchBundle ek fresh none = .ok (sessionBytes, initMsg) ↔
      ∃ peerBundle bundle s init, fetchBundle = .ok peerBundle ∧ parseBundle F peerBundle = .ok bundle ∧
        initiate ikDh bundle ek fresh = .ok (s, init) ∧ s.toBytes F = sessionBytes ∧ some init = initMsg := by
  cases fetchBundle with
  | error e => exact iff_of_false (fun heq => by cases heq) (by simp)
  | ok peerBundle =>
    simp only [Except.ok.injEq, exists_and_left, exists_eq_left']
    cases hparse : parseBundle F peerBundle with
    | error e =>
      refine iff_of_false ?_ (by simp)
      rw [openSession]
      dsimp only [bind, Except.bind]
      rw [x3dhSendBytes, exact32_toList, hparse]
      exact fun heq => by cases heq
    | ok bundle =>
      rw [openSession_bundle F hparse, map_eq_ok]
      simp

/-- On the bytes the worker does what the core does on the session. -/
theorem encrypts_iff {stored : Option Bytes} : Encrypts F ikDh fetchBundle plaintext ek fresh stored ↔
    ∃ sessionBytes initMsg ciphertext newSessionBytes,
      openSession F (F.secret ikDh).toList fetchBundle ek fresh stored = .ok (sessionBytes, initMsg) ∧
      Worker.ratchetEncrypt F sessionBytes plaintext [] = .ok (ciphertext, newSessionBytes) := by
  simp only [Worker.ratchetEncrypt_eq_ok_iff]
  cases stored with
  | some sessionBytes =>
    constructor
    · rintro ⟨s, ⟨hdr, c⟩, hread, hencrypt⟩
      exact ⟨sessionBytes, none, _, _, rfl, s, hdr, c, hread, hencrypt, rfl, rfl⟩
    · rintro ⟨_, _, _, _, hopen, s, hdr, c, hread, hencrypt, -, -⟩
      obtain ⟨rfl, rfl⟩ := Prod.mk.inj (Except.ok.inj hopen)
      exact ⟨s, (hdr, c), hread, hencrypt⟩
  | none =>
    have hstored : ∀ {bundle s init}, initiate ikDh bundle ek fresh = .ok (s, init) →
        RatchetState.fromBytes F (s.toBytes F) = .ok s := by
      intro bundle s init hinitiate
      obtain ⟨out, -, hsender, -⟩ := initiate_ok_iff.mp hinitiate
      rw [initSender, bind_eq_ok] at hsender
      obtain ⟨⟨rk, cks⟩, -, hsender⟩ := hsender
      obtain rfl := Except.ok.inj hsender
      exact Storable.fromBytes_toBytes F ⟨by simp, fun q hq => absurd hq Std.ExtTreeMap.not_mem_empty⟩
    constructor
    · rintro ⟨peerBundle, bundle, s, init, ⟨hdr, c⟩, hfetch, hparse, hinitiate, hencrypt⟩
      exact ⟨s.toBytes F, some init, _, _,
        (openSession_none F).mpr ⟨peerBundle, bundle, s, init, hfetch, hparse, hinitiate, rfl, rfl⟩,
        s, hdr, c, hstored hinitiate, hencrypt, rfl, rfl⟩
    · rintro ⟨_, _, _, _, hopen, s', hdr, c, hread, hencrypt, -, -⟩
      obtain ⟨peerBundle, bundle, s, init, hfetch, hparse, hinitiate, rfl, -⟩ := (openSession_none F).mp hopen
      obtain rfl := Except.ok.inj ((hstored hinitiate).symm.trans hread)
      exact ⟨peerBundle, bundle, s, init, (hdr, c), hfetch, hparse, hinitiate, hencrypt⟩

theorem length_ciphertext (htag : AppendsTag P) {sessionBytes ciphertext newSessionBytes : Bytes}
    (h : Worker.ratchetEncrypt F sessionBytes plaintext [] = .ok (ciphertext, newSessionBytes)) :
    ciphertext.length = 40 + plaintext.length + 16 := by
  obtain ⟨s, hdr, c, -, hencrypt, rfl, -⟩ := (Worker.ratchetEncrypt_eq_ok_iff F).mp h
  have hc : P.cipherLen c = plaintext.length + 16 := by
    unfold encrypt at hencrypt
    split at hencrypt
    · cases hencrypt
    · obtain ⟨c', hseal, heq⟩ := map_eq_ok.mp hencrypt
      obtain rfl : c' = c := congrArg Prod.snd heq
      exact htag.length hseal
  have hheader : (Worker.headerBytes hdr).length = 40 := by simp [Worker.headerBytes]
  rw [List.length_append, hheader, F.length_cipher, hc]
  omega

theorem length_wireBytes (htag : AppendsTag P) {stored initMsg : Option Bytes}
    {sessionBytes ciphertext newSessionBytes : Bytes}
    (hopen : openSession F (F.secret ikDh).toList fetchBundle ek fresh stored = .ok (sessionBytes, initMsg))
    (h : Worker.ratchetEncrypt F sessionBytes plaintext [] = .ok (ciphertext, newSessionBytes)) :
    (wireBytes initMsg ciphertext).length = wireLength stored plaintext := by
  have hlength := length_ciphertext F htag h
  cases stored with
  | some _ =>
    obtain ⟨rfl, rfl⟩ := Prod.mk.inj (Except.ok.inj hopen)
    rw [wireBytes, List.length_cons, hlength, wireLength]
    show 40 + plaintext.length + 16 + 1 = 1 + 40 + plaintext.length + 16
    omega
  | none =>
    obtain ⟨_, _, _, init, -, -, hinitiate, -, rfl⟩ := (openSession_none F).mp hopen
    obtain ⟨out, -, -, rfl⟩ := initiate_ok_iff.mp hinitiate
    have hinit : (initBytes out.init).length = 65 := by simp [initBytes]
    rw [wireBytes, List.length_cons, List.length_append, hlength, hinit, wireLength]
    show 65 + (40 + plaintext.length + 16) + 1 = 66 + 40 + plaintext.length + 16
    omega

/-- An encryption fails with the session saved exactly if the core encrypts and the wire has more bytes
than the engine takes arguments. -/
theorem encryptUnderLock_clean_iff (htag : AppendsTag P) {maxArgs : Nat} {tag : Utf16} :
    FailsClean (fun _ => False)
      (encryptUnderLock F maxArgs idb tag key (F.secret ikDh).toList fetchBundle plaintext ek fresh) store ↔
      (idb.get = .ok () → idb.put = .ok () → Encrypts F ikDh fetchBundle plaintext ek fresh (store key) →
        wireLength (store key) plaintext ≤ maxArgs) := by
  constructor
  · intro hclean hget hput hencrypts
    obtain ⟨sessionBytes, initMsg, ciphertext, newSessionBytes, hopen, hencrypt⟩ := (encrypts_iff F).mp hencrypts
    by_contra hlong
    rw [← length_wireBytes F htag hopen hencrypt] at hlong
    have hexec : (encryptUnderLock F maxArgs idb tag key (F.secret ikDh).toList fetchBundle plaintext ek
        fresh).exec store = (.error (.js "Maximum call stack size exceeded"),
          Function.update store key (some newSessionBytes)) := by
      simp only [encryptUnderLock, load, save, exec_bind, exec_await, exec_reads, exec_modify, hget, hput, hopen,
        hencrypt, b64Enc, if_pos (Nat.not_le.mp hlong)]
    have hsame := hclean store rfl
    rw [hexec] at hsame
    have hkey : some newSessionBytes = store key := by
      rw [← Function.update_self key (some newSessionBytes) store]
      exact congrFun hsame key
    cases hstored : store key with
    | none =>
      rw [hstored] at hkey
      cases hkey
    | some stored =>
      rw [hstored] at hkey hopen
      obtain ⟨rfl, -⟩ := Prod.mk.inj (Except.ok.inj hopen)
      exact Worker.ratchetEncrypt_ne F hencrypt (Option.some.inj hkey)
  · intro hfits
    refine triple_load.bind fun stored => .given ?_
    rintro ⟨hget, rfl⟩
    refine triple_await.bind ?_
    rintro ⟨sessionBytes, initMsg⟩
    refine .given fun hopen => triple_await.bind ?_
    rintro ⟨ciphertext, newSessionBytes⟩
    refine .given fun hencrypt => ?_
    refine triple_save.bind fun _ => .given fun hput => ?_
    have hlength := hfits hget hput ((encrypts_iff F).mpr ⟨_, _, _, _, hopen, hencrypt⟩)
    rw [← length_wireBytes F htag hopen hencrypt] at hlength
    rw [b64Enc_eq_ok_iff.mpr ⟨hlength, rfl⟩]
    exact fun _ _ h => h.elim

/-! ## Failures in a group -/

/-- What `decryptFromGroup` returns for a failure. -/
def IsPlaceholder (text : Utf16) : Prop := text = ofString NOT_DECRYPTED ∨ text = ofString NO_SENDER_KEY

/-- The ciphertext is decrypted, and its sender has written what stands for a failure. -/
def SpellsPlaceholder (idb : Idb) (initialized identity : Bool) (ciphertext : Utf16) (stored : Option Bytes) :
    Prop :=
  (initialized ∧ identity ∧ idb.get = .ok () ∧ idb.put = .ok ()) ∧ V2_GROUP <+: ciphertext ∧
    ∃ data receiverBytes plaintext newReceiverBytes, b64Dec (ciphertext.drop V2_GROUP.length) = .ok data ∧
      stored = some receiverBytes ∧
      Worker.groupReceiverDecrypt F receiverBytes data = .ok (plaintext, newReceiverBytes) ∧
      IsPlaceholder (decode plaintext)

theorem decryptFromGroup_clean_iff {κ : Type} {initialized identity : Bool} {legacy : Legacy κ}
    {ciphertext : Utf16} {conversationId senderId : Nat} :
    FailsClean IsPlaceholder
      (decryptFromGroup F idb initialized identity legacy ciphertext conversationId senderId) store ↔
      ¬ SpellsPlaceholder F idb initialized identity ciphertext (store (receiverKey conversationId senderId)) := by
  generalize hkey : receiverKey conversationId senderId = key
  constructor
  · rintro hclean ⟨⟨rfl, rfl, hget, hput⟩, htag, data, receiverBytes, plaintext, newReceiverBytes, hdata,
      hstored, hdecrypt, hplaceholder⟩
    have hexec : (decryptFromGroup F idb true true legacy ciphertext conversationId senderId).exec store =
        (.ok (decode plaintext), Function.update store key (some newReceiverBytes)) := by
      simp only [decryptFromGroup, Bool.not_true, Bool.false_eq_true, if_false, htag, and_self, if_true, hkey,
        exec_tryCatch, decryptV2Group, load, save, exec_bind, exec_await, exec_reads, exec_modify, exec_pure,
        hdata, hget, hstored, hdecrypt, hput]
    have hsame := hclean store rfl
    rw [hexec] at hsame
    have hnew : some newReceiverBytes = some receiverBytes := by
      rw [← hstored, ← Function.update_self key (some newReceiverBytes) store]
      exact congrFun (hsame hplaceholder) key
    exact Worker.groupReceiverDecrypt_ne F hdecrypt (Option.some.inj hnew)
  · intro hspells
    rw [decryptFromGroup, hkey]
    split
    · split <;> exact .pure fun _ h _ => h
    split
    · rename_i hinitialized htag
      refine Triple.rescue ?_ fun _ => .pure fun _ h _ => h
      refine triple_await.bind fun data => .given fun hdata => ?_
      refine triple_load.bind fun stored => .given ?_
      rintro ⟨hget, rfl⟩
      split
      · exact .pure fun _ h _ => h
      rename_i receiverBytes hstored
      refine triple_await.bind fun (plaintext, newReceiverBytes) => .given fun hdecrypt => ?_
      refine triple_save.bind fun _ => .given fun hput => .pure fun _ _ hplaceholder => ?_
      exact absurd ⟨⟨by simpa using hinitialized, htag.2, hget, hput⟩, htag.1, data, receiverBytes, plaintext,
        newReceiverBytes, hdata, hstored, hdecrypt, hplaceholder⟩ hspells
    · exact .pure fun _ h _ => h

/-! ## All of them -/

/-- **Failed calls and the stored sessions**: a decryption that throws or returns `null` leaves every session
as it was; an encryption that throws does so unless the wire of what it encrypted is too long for the engine;
and a group message that is not decrypted does so, unless it was decrypted to the text of a failure. -/
theorem failed_calls_clean (htag : AppendsTag P) (idb : Idb) (store : ByteStore) :
    (∀ maxArgs identity bundle myId peerId plaintext ek fresh,
      FailsClean (fun _ => False) (drEncrypt F maxArgs idb identity bundle myId peerId plaintext ek fresh) store ↔
        (idb.get = .ok () → idb.put = .ok () →
          Encrypts F identity.ikDhSecret (bundle >>= b64Dec) plaintext ek fresh (store (pairKey myId peerId)) →
          wireLength (store (pairKey myId peerId)) plaintext ≤ maxArgs)) ∧
    (∀ maxArgs identity bundle senderDeviceId recipientDeviceId plaintext ek fresh,
      FailsClean (fun _ => False)
        (drDeviceEncrypt F maxArgs idb identity bundle senderDeviceId recipientDeviceId plaintext ek fresh) store ↔
        (idb.get = .ok () → idb.put = .ok () →
          Encrypts F identity.ikDhSecret (deviceBundleOrThrow recipientDeviceId (fetchDeviceBundle bundle))
            plaintext ek fresh (store (devicePairKey senderDeviceId recipientDeviceId)) →
          wireLength (store (devicePairKey senderDeviceId recipientDeviceId)) plaintext ≤ maxArgs)) ∧
    (∀ identity myId senderId content fresh fresh',
      FailsClean (· = none) (drDecrypt F idb identity myId senderId content fresh fresh') store) ∧
    (∀ deviceKeys senderDeviceId recipientDeviceId wireStr fresh fresh',
      FailsClean (· = none)
        (drDeviceDecrypt F idb deviceKeys senderDeviceId recipientDeviceId wireStr fresh fresh') store) ∧
    ∀ (κ : Type) (legacy : Legacy κ) initialized identity ciphertext conversationId senderId,
      FailsClean IsPlaceholder
        (decryptFromGroup F idb initialized identity legacy ciphertext conversationId senderId) store ↔
        ¬ SpellsPlaceholder F idb initialized identity ciphertext (store (receiverKey conversationId senderId)) :=
  ⟨fun _ _ _ _ _ _ _ _ => encryptUnderLock_clean_iff F htag,
    fun _ _ _ _ _ _ _ _ => encryptUnderLock_clean_iff F htag,
    fun _ _ _ _ _ _ => drDecrypt_clean F _ _ _ _ _ _, fun _ _ _ _ _ _ => drDeviceDecrypt_clean F _ _ _ _ _ _,
    fun _ _ _ _ _ _ _ => decryptFromGroup_clean_iff F⟩

/-! ## A file that is too large -/

def plainIdentity : IdentityKeys plainPrimitives := ⟨.replicate 32 1, .replicate 32 2, .replicate 32 3⟩

/-- A database that never fails. -/
def soundIdb : Idb := ⟨.ok (), .ok ()⟩

/-- A session that can send. -/
def sendingSession : RatchetState plainPrimitives := { plainSession with cks := some (.replicate 32 6) }

def oneSession : ByteStore :=
  Function.update (fun _ => none) (pairKey 1 2) (some (sendingSession.toBytes plainForms))

/-- An engine that takes 65536 arguments. -/
def sendFile (size : Nat) : StoreProgram Utf16 :=
  drEncrypt plainForms 65536 soundIdb plainIdentity (.error (.js "Network Error")) 1 2 (List.replicate size 0)
    (.replicate 32 4) (.replicate 32 5)

theorem failed_calls_clean_sample : FailsClean (fun _ => False) (sendFile 100) oneSession :=
  ((failed_calls_clean plainForms appendsTag_plain soundIdb oneSession).1 _ _ _ _ _ _ _ _).mpr fun _ _ _ => by
    decide

theorem large_file_not_clean : ¬ FailsClean (fun _ => False) (sendFile 65536) oneSession := by
  intro hclean
  have hstored : oneSession (pairKey 1 2) = some (sendingSession.toBytes plainForms) := Function.update_self ..
  have hfits := (encryptUnderLock_clean_iff plainForms appendsTag_plain).mp hclean rfl rfl
  rw [hstored] at hfits
  have hlength := hfits ⟨sendingSession, _, Storable.fromBytes_toBytes plainForms
    ⟨by decide, fun q hq => absurd hq Std.ExtTreeMap.not_mem_empty⟩, rfl⟩
  rw [wireLength, List.length_replicate] at hlength
  exact absurd hlength (by decide)

end Vesper.Client.StoredSessions
