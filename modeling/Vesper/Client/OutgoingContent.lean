import Vesper.Client.GroupSending
import Vesper.Client.OfflineSending

/-!
# What leaves the client

The six paths on which `useMessages.ts` and `ChatArea.tsx` emit a content or upload a file, over the encryption
functions of `useE2E.ts`. These throw rather than send in plain, and still give the content back when there is
no identity or no sender key.
-/

namespace Vesper.Client.OutgoingContent
open Unicode (Utf16 ofString decode encode)
open StoredSessions GroupSending Program
variable {P : Primitives} (F : ByteForms P)

/-! ## The client -/

/-- What has left: an emission, with its content and for `v3` the own device and the envelopes, or the bytes
of an upload. -/
inductive Outgoing
  | emitted (content : Option Utf16) (envelopes : Option (Nat × List (Nat × Utf16)))
  | uploaded (data : Bytes)

/-- The object stores, and what has left. -/
structure ClientState (P : Primitives) where
  sessions : ByteStore
  receivers : ByteStore
  senders : SenderSide P
  sent : List Outgoing

abbrev ClientProgram (P : Primitives) := Program (ClientState P) Thrown

section
variable {α : Type}

def onSessions (m : StoreProgram α) : ClientProgram P α := m.zoom (·.sessions) fun s sessions => { s with sessions }

def onReceivers (m : StoreProgram α) : ClientProgram P α :=
  m.zoom (·.receivers) fun s receivers => { s with receivers }

def onGroups (m : SendProgram P α) : ClientProgram P α := m.zoom (·.senders) fun s senders => { s with senders }

end

def send (o : Outgoing) : ClientProgram P Unit := modify fun s => { s with sent := s.sent ++ [o] }

/-- The module and what it runs on. `hookDeviceId` is the device as the hook last returned it. -/
structure Surroundings (P : Primitives) where
  maxArgs : Nat
  e2e : E2EModule P
  myDeviceId : Option Nat
  hookDeviceId : Option Nat

/-- What an encryption draws and meets: the database, and the answer to a request for the bundle. -/
structure Opening (P : Primitives) where
  idb : Idb
  bundle : Except Thrown Utf16
  ek : P.Secret
  fresh : P.Secret

/-- What a call of `encryptV3` draws and meets; the devices settle in any order. -/
structure FanOutAttempt (P : Primitives) where
  messageKey : Vector UInt8 32
  msgIv : Vector UInt8 12
  devices : Nat → Except Thrown (List Nat)
  opening : Nat → Opening P
  settle : (targets : List Nat) → { settled : List Nat // settled.Perm targets }

variable (w : Surroundings P)

/-! ## Direct chats -/

def encrypt (o : Opening P) (content : Utf16) (targetUserId : Nat) : StoreProgram Utf16 :=
  match w.e2e.identity, w.e2e.initialized, w.e2e.currentUserId with
  | some identity, true, some currentUserId =>
    StoredSessions.drEncrypt F w.maxArgs o.idb identity o.bundle currentUserId targetUserId (encode content) o.ek
      o.fresh
  | _, _, _ => return content

namespace FanOutAttempt
variable (v : FanOutAttempt P)

/-- `api.get(…).then(r => r.data).catch(() => [])` -/
def fetch (userId : Nat) : List Nat :=
  match v.devices userId with
  | .ok devices => devices
  | .error _ => []

def targetDeviceIds (myDeviceId currentUserId recipientUserId : Nat) : List Nat :=
  v.fetch recipientUserId ++
    (if recipientUserId ≠ currentUserId then v.fetch currentUserId else []).filter (· ≠ myDeviceId)

/-- The message key for one device. -/
def wrap (identity : IdentityKeys P) (myDeviceId deviceId : Nat) : StoreProgram Utf16 :=
  let o := v.opening deviceId
  StoredSessions.drDeviceEncrypt F w.maxArgs o.idb identity o.bundle myDeviceId deviceId v.messageKey.toList o.ek
    o.fresh

/-- A device whose envelope fails is left out. -/
def envelopes (identity : IdentityKeys P) (myDeviceId : Nat) : List Nat → StoreProgram (List (Nat × Utf16))
  | [] => return []
  | deviceId :: rest => do
    let envelope ← tryCatch (do return some (← v.wrap F w identity myDeviceId deviceId)) fun _ => return none
    let others ← envelopes identity myDeviceId rest
    return (envelope.map fun ciphertext => (deviceId, ciphertext)).toList ++ others

end FanOutAttempt

def encryptV3 (v : FanOutAttempt P) (plaintext : Utf16) (recipientUserId : Nat) :
    StoreProgram (Option (Utf16 × List (Nat × Utf16))) :=
  match w.e2e.identity, w.myDeviceId, w.e2e.currentUserId with
  | some identity, some myDeviceId, some currentUserId => do
    let ct ← await (subtleEncrypt (F.block.symm v.messageKey) v.msgIv.toList (encode plaintext))
    let text ← await (b64Enc w.maxArgs (v.msgIv.toList ++ F.cipher ct))
    let targets := v.targetDeviceIds myDeviceId currentUserId recipientUserId
    let envelopes ← v.envelopes F w identity myDeviceId (v.settle targets).val
    return some (V3_DM ++ text, envelopes)
  | _, _, _ => return none

/-- `encryptDirect`, and what the two paths with files do with the media key. -/
def encryptDirect (v : FanOutAttempt P) (o : Opening P) (content : Utf16) (otherUserId : Nat) :
    StoreProgram (Utf16 × Option (Nat × List (Nat × Utf16))) := do
  let v3 ← match w.hookDeviceId with
    | some _ => tryCatch (encryptV3 F w v content otherUserId) fun _ => return none
    | none => pure none
  match w.hookDeviceId, v3 with
  | some myDeviceId, some (content, envelope :: rest) => return (content, some (myDeviceId, envelope :: rest))
  | _, _ => do
    let payload ← encrypt F w o content otherUserId
    return (payload, none)

/-! ## Texts -/

def encryptContent (o : Opening P) (selected : Option (Nat × ConversationKind)) (content : Utf16) :
    ClientProgram P Utf16 :=
  match selected with
  | some (_, .direct (some otherUserId)) => onSessions (encrypt F w o content otherUserId)
  | some (conversationId, .group) =>
    onGroups (GroupSending.encryptForGroup F w.maxArgs o.idb w.e2e content conversationId)
  | some (_, .direct none) | some (_, .channel) | none => return content

/-- What `sendMessage` encrypts with. -/
def encryptSent (v : FanOutAttempt P) (o : Opening P) (conversationId : Nat) (kind : ConversationKind)
    (content : Utf16) : ClientProgram P (Utf16 × Option (Nat × List (Nat × Utf16))) :=
  match kind with
  | .direct (some otherUserId) => onSessions (encryptDirect F w v o content otherUserId)
  | .direct none | .group | .channel => do
    let payload ← encryptContent F w o (some (conversationId, kind)) content
    return (payload, none)

/-- `socket` is whether it is connected, if there is one. -/
def sendMessage (socket : Option Bool) (isOnline scheduled : Bool) (currentUserId : Option Nat)
    (v : FanOutAttempt P) (o : Opening P) (conversationId : Nat) (kind : ConversationKind) (content : Utf16) :
    ClientProgram P Unit :=
  if Server.trim content = [] ∨ currentUserId = none then return ()
  -- the message is queued
  else if ¬ (socket = some true ∧ isOnline) ∧ ¬ scheduled then return ()
  else do
    match ← tryCatch (do return some (← encryptSent F w v o conversationId kind content)) fun _ => return none with
    | none => return ()
    | some (payload, envelopes) =>
      match socket with
      | some _ => send (.emitted (some payload) envelopes)
      | none => throw (.js "Cannot read properties of null (reading 'emit')")

/-- `selected` is the conversation that is open when the queue is flushed. -/
def flushMessage (connected : Bool) (o : Opening P) (selected : Option (Nat × ConversationKind))
    (content : Utf16) : ClientProgram P Bool :=
  if connected then
    tryCatch (do
      let payload ← encryptContent F w o selected content
      send (.emitted (some payload) none)
      return true) fun _ => return false
  else return false

def editMessage (socket : Bool) (o : Opening P) (selected : Option (Nat × ConversationKind)) (content : Utf16) :
    ClientProgram P Unit :=
  if socket then do
    let payload ← encryptContent F w o selected content
    send (.emitted (some payload) none)
  else return ()

/-! ## Forwarding -/

def decrypt {κ : Type} (idb : Idb) (legacy : Legacy κ) (ciphertext : Utf16) (senderUserId : Nat)
    (fresh fresh' : P.Secret) : StoreProgram Utf16 :=
  match w.e2e.initialized, w.e2e.currentUserId, w.e2e.identity with
  | true, some currentUserId, some identity =>
    if V2_DM <+: ciphertext then
      tryCatch (do
        match ← StoredSessions.drDecrypt F idb identity currentUserId senderUserId ciphertext fresh fresh' with
        | some plaintext => return decode plaintext
        | none => return ofString NOT_DECRYPTED) fun _ => return ofString NOT_DECRYPTED
    else return legacy.text ciphertext
  | true, some _, none => return legacy.text ciphertext
  | _, _, _ =>
    if V2_DM <+: ciphertext ∨ V2_GROUP <+: ciphertext then return ofString NOT_DECRYPTED else return ciphertext

/-- `/^[A-Za-z0-9_\-]+$/` -/
def isWordUnit (u : UInt16) : Bool :=
  65 ≤ u ∧ u ≤ 90 ∨ 97 ≤ u ∧ u ≤ 122 ∨ 48 ≤ u ∧ u ≤ 57 ∨ u = 95 ∨ u = 45

/-- The test of `chatFormatters.ts`. -/
def looksEncrypted (s : Utf16) : Bool := 20 < s.length && s.all isWordUnit

/-- The message that is forwarded, with the conversation it is from, and what its decryption meets. -/
structure Forwarded (P : Primitives) (κ : Type) where
  content : Utf16
  senderId : Nat
  sourceConv : Option (Nat × ConversationKind)
  idb : Idb
  legacy : Legacy κ
  fresh : P.Secret
  fresh' : P.Secret

def decryptForwarded {κ : Type} (msg : Forwarded P κ) : ClientProgram P Utf16 :=
  if looksEncrypted msg.content then
    tryCatch (match msg.sourceConv with
      | some (_, .direct (some sourceOther)) =>
        onSessions (decrypt F w msg.idb msg.legacy msg.content sourceOther msg.fresh msg.fresh')
      | some (conversationId, .group) =>
        onReceivers (StoredSessions.decryptFromGroup F msg.idb w.e2e.initialized w.e2e.identity.isSome msg.legacy
          msg.content conversationId msg.senderId)
      | some (_, .direct none) | some (_, .channel) | none => return msg.content) fun _ => return msg.content
  else return msg.content

/-- What an encryption for the target draws and meets: the session with a user, and in a group the entries for
the client and the keys that it may distribute. -/
structure ForwardAttempt (P : Primitives) where
  opening : Opening P
  entries : Except Thrown (List (Nat × Option Nat))
  hasMySenderKey : Bool
  prefetchIdb : Idb
  prefetched : Attempt P
  distributeIdb : Idb
  distributed : Attempt P
  secondIdb : Idb

def encryptOrDistribute (f : ForwardAttempt P) (plainContent : Utf16) (conversationId : Nat)
    (targetMemberIds : List Nat) : SendProgram P Utf16 := do
  let reEncrypted ← GroupSending.encryptForGroup F w.maxArgs f.opening.idb w.e2e plainContent conversationId
  if reEncrypted = plainContent then do
    GroupSending.doDistribute F w.maxArgs f.distributeIdb w.e2e conversationId targetMemberIds f.distributed
    GroupSending.encryptForGroup F w.maxArgs f.secondIdb w.e2e plainContent conversationId
  else return reEncrypted

def reEncryptForGroup (f : ForwardAttempt P) (plainContent : Utf16) (conversationId : Nat)
    (targetMemberIds : List Nat) : SendProgram P Utf16 := do
  GroupSending.prefetchGroupSenderKeys F w.maxArgs f.prefetchIdb w.e2e f.entries f.hasMySenderKey conversationId
    targetMemberIds f.prefetched
  encryptOrDistribute F w f plainContent conversationId targetMemberIds

def reEncrypt (f : ForwardAttempt P) (plainContent : Utf16) (conversationId : Nat) (kind : ConversationKind)
    (targetMemberIds : List Nat) : ClientProgram P Utf16 :=
  tryCatch (match kind with
    | .direct (some targetOther) => onSessions (encrypt F w f.opening plainContent targetOther)
    | .group => onGroups (reEncryptForGroup F w f plainContent conversationId targetMemberIds)
    | .direct none | .channel => return plainContent) fun _ => return plainContent

def sendPendingForward {κ : Type} (socket : Bool) (msg : Forwarded P κ) (f : ForwardAttempt P)
    (conversationId : Nat) (kind : ConversationKind) (targetMemberIds : List Nat) : ClientProgram P Unit :=
  if socket then do
    let plainContent ← decryptForwarded F w msg
    let reEncrypted ← reEncrypt F w f plainContent conversationId kind targetMemberIds
    send (.emitted (some reEncrypted) none)
  else return ()

/-! ## Files -/

def MEDIA_KEY_PREFIX : Utf16 := ofString "mk:"

/-- What the two paths with files draw and meet; `socket` is whether there are a socket and a user to emit
for. -/
structure FileAttempt (P : Primitives) where
  key : Vector UInt8 32
  iv : Vector UInt8 12
  v3 : FanOutAttempt P
  opening : Opening P
  distributed : Attempt P
  upload : Except Thrown Unit
  socket : Bool

namespace FileAttempt
variable (m : FileAttempt P)

/-- `encryptMedia` -/
def encryptMedia (data : Bytes) : Except Thrown Bytes :=
  (subtleEncrypt (F.block.symm m.key) m.iv.toList data).map F.cipher

/-- `key(32) || iv(12)`, in the form of a message. -/
def mkPayload (maxArgs : Nat) : Except Thrown Utf16 :=
  (b64Enc maxArgs (m.key.toList ++ m.iv.toList)).map (MEDIA_KEY_PREFIX ++ ·)

end FileAttempt

/-- A file for an upload, with the content and the envelopes of its message. -/
structure SealedFile where
  fileToUpload : Bytes
  keyEnvelope : Option Utf16
  envelopes : Option (Nat × List (Nat × Utf16))

def sealMedia (m : FileAttempt P) (data : Bytes) (otherUserId : Nat) : ClientProgram P SealedFile := do
  let encryptedBlob ← await (m.encryptMedia F data)
  let mkPayload ← await (m.mkPayload w.maxArgs)
  let (keyEnvelope, envelopes) ← onSessions (encryptDirect F w m.v3 m.opening mkPayload otherUserId)
  return ⟨encryptedBlob, some keyEnvelope, envelopes⟩

/-- The bytes are on their way before the upload ends. -/
def uploadAndEmit (m : FileAttempt P) (file : SealedFile) (content : Option Utf16) : ClientProgram P Unit := do
  send (.uploaded file.fileToUpload)
  await m.upload
  if m.socket then send (.emitted content file.envelopes) else return ()

/-- A buffer that is given back has its own bytes; a ciphertext is longer. -/
def sealFile (m : FileAttempt P) (fileToProcess : Bytes) (conversationId : Nat) (kind : ConversationKind)
    (groupMemberIds : List Nat) : ClientProgram P SealedFile :=
  match kind with
  | .direct (some otherUserId) => sealMedia F w m fileToProcess otherUserId
  | .group => do
    let encBuf ← onGroups (GroupSending.encryptBinaryForGroup F w.maxArgs m.opening.idb w.e2e fileToProcess
      conversationId (some groupMemberIds) m.distributed)
    if encBuf = fileToProcess then throw (.js "Не вдалося зашифрувати файл для групи")
    else return ⟨encBuf, none, none⟩
  | .direct none | .channel => return ⟨fileToProcess, none, none⟩

/-- `fileToProcess` is the file, or the image that it was compressed to. -/
def handleFileUpload (m : FileAttempt P) (fileToProcess : Bytes) (caption : Option Utf16) (conversationId : Nat)
    (kind : ConversationKind) (groupMemberIds : List Nat) : ClientProgram P Unit :=
  tryCatch (do
    let file ← sealFile F w m fileToProcess conversationId kind groupMemberIds
    uploadAndEmit m file (file.keyEnvelope <|> caption.map Server.trim)) fun _ => return ()

def sealVoice (m : FileAttempt P) (blob : Bytes) (conversationId : Nat) (kind : ConversationKind) :
    ClientProgram P SealedFile :=
  match kind with
  | .direct (some otherUserId) => sealMedia F w m blob otherUserId
  | .group => do
    let enc ← onGroups (GroupSending.encryptBinaryForGroup F w.maxArgs m.opening.idb w.e2e blob conversationId none
      m.distributed)
    return ⟨enc, none, none⟩
  | .direct none | .channel => return ⟨blob, none, none⟩

def sendVoiceMessage (m : FileAttempt P) (blob : Bytes) (conversationId : Nat) (kind : ConversationKind) :
    ClientProgram P Unit :=
  tryCatch (do
    let file ← sealVoice F w m blob conversationId kind
    uploadAndEmit m file file.keyEnvelope) fun _ => return ()

/-! ## Encryptions -/

/-- A text that something was encrypted to: with a session, with a message key, or with a sender key. -/
inductive TextEncryption (plaintext : Bytes) : Utf16 → Prop
  | session {sessionBytes newSessionBytes ciphertext : Bytes} {initMsg : Option Bytes}
      (h : Worker.ratchetEncrypt F sessionBytes plaintext [] = .ok (ciphertext, newSessionBytes)) :
      TextEncryption plaintext (V2_DM ++ (Base64.toSextets (wireBytes initMsg ciphertext)).map urlChar)
  | messageKey {key : P.Block} {iv : Bytes} {ct : P.Cipher} (h : subtleEncrypt key iv plaintext = .ok ct) :
      TextEncryption plaintext (V3_DM ++ (Base64.toSextets (iv ++ F.cipher ct)).map urlChar)
  | senderKey {s : SenderKey.SenderState P} {msg : SenderKey.SenderKeyMessage P}
      (h : (SenderKey.encrypt s plaintext).2 = .ok msg) : TextEncryption plaintext (groupText F msg)

/-- Bytes that a file was encrypted to. -/
inductive FileEncryption (data : Bytes) : Bytes → Prop
  | media {key : P.Block} {iv : Bytes} {ct : P.Cipher} (h : subtleEncrypt key iv data = .ok ct) :
      FileEncryption data (F.cipher ct)
  | senderKey {s : SenderKey.SenderState P} {msg : SenderKey.SenderKeyMessage P}
      (h : (SenderKey.encrypt s data).2 = .ok msg) : FileEncryption data (encode (groupText F msg))

section
variable {plaintext : Bytes} {text : Utf16}

theorem length_subtleEncrypt (htag : AppendsTag P) {key : P.Block} {iv : Bytes} {ct : P.Cipher}
    (h : subtleEncrypt key iv plaintext = .ok ct) : (F.cipher ct).length = plaintext.length + 16 := by
  rw [F.length_cipher, htag.length (mapError_eq_ok.mp h)]

theorem length_messageBytes (htag : AppendsTag P) {s : SenderKey.SenderState P}
    {msg : SenderKey.SenderKeyMessage P} (h : (SenderKey.encrypt s plaintext).2 = .ok msg) :
    (SenderKey.messageBytes F msg).length = plaintext.length + 88 := by
  obtain ⟨-, -, hsealed, -⟩ := SenderKey.encrypt_ok h
  simp only [SenderKey.messageBytes, List.length_append, be32_length, Vector.length_toList, F.length_cipher,
    htag.length hsealed]
  omega

theorem TextEncryption.length_lt (htag : AppendsTag P) (h : TextEncryption F plaintext text) :
    plaintext.length < text.length := by
  cases h with
  | @session _ _ ciphertext initMsg h =>
    have hwire : ciphertext.length < (wireBytes initMsg ciphertext).length := by
      cases initMsg <;> simp only [wireBytes, List.length_cons, List.length_append] <;> omega
    have hlength := length_ciphertext F htag h
    have hsextets := Base64.length_le_toSextets (wireBytes initMsg ciphertext)
    rw [List.length_append, List.length_map]
    omega
  | @messageKey _ iv ct h =>
    have hlength := length_subtleEncrypt F htag h
    have hsextets := Base64.length_le_toSextets (iv ++ F.cipher ct)
    rw [List.length_append] at hsextets
    rw [List.length_append, List.length_map]
    omega
  | @senderKey _ msg h =>
    have hlength := length_messageBytes F htag h
    have hsextets := Base64.length_le_toSextets (SenderKey.messageBytes F msg)
    rw [groupText, List.length_append, List.length_map]
    omega

/-- An encryption of a text is another text. -/
theorem TextEncryption.ne (htag : AppendsTag P) {content : Utf16} (h : TextEncryption F (encode content) text) :
    text ≠ content := by
  rintro rfl
  exact absurd (h.length_lt F htag) (Nat.not_lt.mpr (Unicode.length_le_encode text))

theorem FileEncryption.ne (htag : AppendsTag P) {data bytes : Bytes} (h : FileEncryption F data bytes) :
    bytes ≠ data := by
  rintro rfl
  cases h with
  | media h => exact absurd (length_subtleEncrypt F htag h) (by omega)
  | @senderKey _ msg h =>
    have hlonger := (TextEncryption.senderKey h).length_lt F htag
    exact absurd hlonger (Nat.not_lt.mpr (Unicode.length_le_encode (groupText F msg)))

theorem TextEncryption.not_self (htag : AppendsTag P) {content : Utf16} :
    ¬ TextEncryption F (encode content) content := fun h => h.ne F htag rfl

theorem FileEncryption.not_self (htag : AppendsTag P) {data : Bytes} : ¬ FileEncryption F data data :=
  fun h => h.ne F htag rfl

/-- What is given back is no encryption. -/
theorem not_encrypted (htag : AppendsTag P) {content : Utf16} {x : Except Thrown Utf16} (hx : x = .ok content) :
    ¬ ∃ text, x = .ok text ∧ TextEncryption F (encode content) text := by
  rintro ⟨text, htext, hencryption⟩
  obtain rfl := Except.ok.inj (hx.symm.trans htext)
  exact hencryption.not_self F htag

end

/-! ## What is kept from the server -/

/-- What was to be sent: the text for the content, and the file. -/
structure Input where
  text : Option Utf16
  file : Option Bytes

/-- An encryption of the input, and not the input itself. -/
def Outgoing.Conceals (input : Input) : Outgoing → Prop
  | .emitted content _ => ∀ sent ∈ content, ∃ text ∈ input.text, TextEncryption F (encode text) sent ∧ sent ≠ text
  | .uploaded data => ∃ file ∈ input.file, FileEncryption F file data ∧ data ≠ file

/-- Everything that a program sends is an encryption of its input. -/
def Conceals {α : Type} (m : ClientProgram P α) (s : ClientState P) (input : Input) : Prop :=
  ∀ o ∈ (m.exec { s with sent := [] }).2.sent, o.Conceals F input

end Vesper.Client.OutgoingContent
