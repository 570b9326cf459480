import Vesper.Lib.Machine
import Vesper.Chat.Echoes
import Vesper.Chat.Window

/-!
# The plaintext cache

The cache of decrypted contents under the identifiers of messages, and the list that is shown, while
messages are sent, received, edited and loaded again. `rows` is what the server has stored. A ciphertext
has one plaintext: `decryption` is the work of the WASM module, and whether it succeeds is left open.
Media keys, previews of replies and the mark of legacy ciphertexts are left out.
-/

namespace Vesper.Chat
open Server (UserId DeviceId MessageId Text Time MessageKeyEnvelope trim)

/-! ## The hook and the server -/

/-- A message as the server has it. -/
structure Row where
  senderId : UserId
  content : Text
  fileUrl : Option Text
  senderDeviceId : Option DeviceId
  envelopes : List MessageKeyEnvelope
  editedAt : Option Time
  deriving DecidableEq

/-- The message as the client gets it. -/
def Row.message (row : Row) (id : MessageId) : Message where
  id := some id
  senderId := row.senderId
  content := row.content
  fileUrl := row.fileUrl
  editedAt := row.editedAt
  senderDeviceId := row.senderDeviceId
  envelopes := row.envelopes
  isPending := false
  queueId := none
  pendingCipher := none
  send := none

/-- The text that a content stands for. -/
def plaintextOf (decryption : Text → Text) (content : Text) : Text :=
  if looksEncrypted content then decryption content else content

/-- `'[🔒'` -/
def lock : Text := [0x5B, 0xD83D, 0xDD12]

/-- `'[🔒 Не вдалося розшифрувати]'` -/
def cannotDecrypt : Text := lock ++ " Не вдалося розшифрувати]".toList.map fun c => UInt16.ofNat c.toNat

namespace Message
variable (raw : Message)

def isEncrypted : Bool := raw.isV3 || looksEncrypted raw.content

/-- The content that is shown for a plaintext: media keys are not. -/
def shown (plain : Text) : Text := if truthy raw.fileUrl && startsWith "mk:" plain then [] else plain

/-- What is saved of the result of a decryption. -/
def saved (plain : Option Text) : Option Text := plain.filter fun text => raw.isV3 || !lock.isPrefixOf text

/-- The content where nothing is saved. -/
def unsaved (plain : Option Text) : Text := plain.getD (if truthy raw.fileUrl then [] else cannotDecrypt)

end Message

/-- How far `decryptMessages` is with a message. -/
inductive Stage
  | loadPlaintext
  | decrypt
  | savePlaintext (plain : Text)
  | found (cached : Text)
  | done (content : Text)
  deriving DecidableEq

structure Slot where
  raw : Message
  stage : Stage
  deriving DecidableEq

namespace Slot

def start (raw : Message) : Slot where
  raw
  stage :=
    if raw.isV3 then .loadPlaintext
    else if truthy raw.fileUrl && looksEncrypted raw.content then .done []
    else if looksEncrypted raw.content then .loadPlaintext
    else .done raw.content

def loadPlaintext (slot : Slot) (cached : Option Text) : Slot :=
  { slot with stage := cached.elim .decrypt .found }

def decrypted (slot : Slot) (plain : Option Text) : Slot :=
  { slot with stage := (slot.raw.saved plain).elim (.done (slot.raw.unsaved plain)) .savePlaintext }

/-- The plaintext that is being saved. -/
def saving (slot : Slot) : Option Text :=
  match slot.stage with
  | .savePlaintext plain => some plain
  | _ => none

/-- Whether the plaintext was in the cache. -/
def isFound (slot : Slot) : Bool :=
  match slot.stage with
  | .found _ => true
  | _ => false

/-- What `decryptMessages` returns for the message, once it is there. -/
def message? (slot : Slot) : Option Message :=
  match slot.stage with
  | .found cached => some { slot.raw with content := slot.raw.shown cached }
  | .done content => some { slot.raw with content }
  | _ => none

end Slot

/-- Where the messages of a page are put. -/
inductive Placement
  | replace
  | older
  | newer
  deriving DecidableEq

/-- A page that is being decrypted. -/
structure PageLoad where
  placement : Placement
  slots : List Slot
  deriving DecidableEq

/-- What the server emits. -/
inductive Emitted
  | onMessage (msg : Message)
  | messageScheduled (msg : Message)
  | messageEdited (messageId : MessageId) (content : Text) (editedAt : Option Time)
  deriving DecidableEq

/-- A handler that waits: for `decryptContent` or `decryptV3` with the message of another member, for
`loadPlaintext` and for `decryptV3` with an own one, for `decryptContent` with a scheduled message and with
an edit. At `placing` all that is left is the update of the list. -/
inductive Handler
  | decrypting (msg : Message)
  | loading (msg : Message)
  | opening (msg : Message)
  | scheduling (msg : Message)
  | editing (messageId : MessageId) (content : Text) (editedAt : Option Time)
  | placing (msg decryptedMsg : Message) (isScheduled : Bool)
  deriving DecidableEq

/-- `requests` are the edits that the server has not answered, `writes` the entries of the cache that
nothing waits for. -/
structure Transcript where
  rows : MessageId → Option Row
  requests : List (MessageId × Text)
  inbox : List Emitted
  messages : List Message
  messagesRef : List Message
  cache : MessageId → Option Text
  writes : List (MessageId × Text)
  handlers : List Handler
  loads : List PageLoad

inductive TranscriptEvent
  /-- The server stores a message, and announces it. -/
  | post (id : MessageId) (row : Row) (isScheduled : Bool)
  /-- A scheduled message is due. -/
  | announce (id : MessageId)
  /-- Another client edits one of its messages. -/
  | edit (id : MessageId) (content : Text) (now : Time)
  | acceptEdit (j : Nat) (now : Time)
  | rejectEdit (j : Nat)
  | deliver
  | loadPlaintext (j : Nat)
  | decrypted (j : Nat) (plain : Option Text)
  | place (j : Nat)
  | write (k : Nat)
  /-- An entry of `sendMessage` or `sendFileMessage`. -/
  | optimistic (m : Message)
  | editMessage (messageId : MessageId) (content payload : Text) (now : Time)
  | render
  /-- The server answers with a page. -/
  | serve (placement : Placement) (ids : List MessageId)
  | pageLoadPlaintext (j k : Nat)
  | pageDecrypted (j k : Nat) (plain : Option Text)
  | pageSavePlaintext (j k : Nat)
  | apply (j : Nat)
  | reload
  deriving DecidableEq

/-- The updater of the list for an edit. -/
def editIn (messageId : MessageId) (content : Text) (editedAt : Option Time) (prev : List Message) : List Message :=
  prev.map fun m => if m.id = some messageId then { m with content, editedAt } else m

/-- The updater of the list for a page. -/
def Placement.update (page prev : List Message) : Placement → List Message
  | replace => page
  | older => deduplicateMessages (page ++ prev)
  | newer => deduplicateMessages (prev ++ page)

namespace Transcript
variable (s : Transcript) (currentUserId : UserId)

def start : Transcript := ⟨fun _ => none, [], [], [], [], fun _ => none, [], [], []⟩

def emit (e : Emitted) : Transcript := { s with inbox := s.inbox ++ [e] }

/-- `editMessage` of the server, and its `messageEdited`. -/
def edit (id : MessageId) (content : Text) (now : Time) : Transcript :=
  match s.rows id with
  | some row =>
    let updated := if trim content = row.content then row else { row with content := trim content, editedAt := some now }
    ({ s with rows := Function.update s.rows id (some updated) } : Transcript).emit
      (.messageEdited id updated.content updated.editedAt)
  | none => s

def savePlaintext (id : Option MessageId) (content : Text) : Transcript :=
  { s with writes := s.writes ++ id.toList.map (·, content) }

/-- The plaintext of an own message is saved, unless it is the content. -/
def choose (msg : Message) (plaintext : Text) : Transcript :=
  if plaintext ≠ msg.content then s.savePlaintext msg.id plaintext else s

def suspend (handler : Handler) : Transcript := { s with handlers := s.handlers ++ [handler] }

def settle (j : Nat) (handler : Handler) : Transcript := { s with handlers := s.handlers.set j handler }

def setSlot (j k : Nat) (load : PageLoad) (slot : Slot) : Transcript :=
  { s with loads := s.loads.set j { load with slots := load.slots.set k slot } }

/-- An own message, once its plaintext is known. -/
def chosen (msg : Message) (plaintext : Text) : Handler := .placing msg (msg.shownAs plaintext) false

/-- `onMessage` up to where it suspends. -/
def onMessage (msg : Message) : Transcript :=
  if msg.senderId = currentUserId then
    match pendingMessage currentUserId msg.content s.messagesRef with
    | some optMsg => (s.choose msg optMsg.content).suspend (chosen msg optMsg.content)
    | none => s.suspend (.loading msg)
  else if msg.isV3 then s.suspend (.decrypting msg)
  else if truthy msg.fileUrl && looksEncrypted msg.content then s.suspend (.placing msg { msg with content := [] } false)
  else if looksEncrypted msg.content then s.suspend (.decrypting msg)
  else s.suspend (.placing msg msg false)

def onEdited (messageId : MessageId) (content : Text) (editedAt : Option Time) : Transcript :=
  if s.messagesRef.any (·.id = some messageId) then
    if looksEncrypted content then s.suspend (.editing messageId content editedAt)
    else { s with messages := editIn messageId content editedAt s.messages }
  else s

def on : Emitted → Transcript
  | .onMessage msg => s.onMessage currentUserId msg
  | .messageScheduled msg =>
    if looksEncrypted msg.content then s.suspend (.scheduling msg) else s.suspend (.placing msg msg true)
  | .messageEdited messageId content editedAt => s.onEdited messageId content editedAt

/-- A handler goes on after a decryption. -/
def resume (j : Nat) (plain : Option Text) : Handler → Transcript
  | .decrypting msg =>
    match msg.saved plain with
    | some text => (s.savePlaintext msg.id text).settle j (.placing msg { msg with content := msg.shown text } false)
    | none => s.settle j (.placing msg { msg with content := msg.unsaved plain } false)
  | .opening msg =>
    match plain with
    | some text => ((s.savePlaintext msg.id text).choose msg text).settle j (chosen msg text)
    | none => s.settle j (chosen msg msg.content)
  | .scheduling msg =>
    match plain with
    | some text => s.settle j (.placing msg { msg with content := text } true)
    | none => { s with handlers := s.handlers.eraseIdx j }
  | .editing messageId content editedAt =>
    { s with
      handlers := s.handlers.eraseIdx j
      messages := editIn messageId (plain.getD content) editedAt s.messages }
  | .loading _ | .placing .. => s

/-- The updater of the list for a message that came in. -/
def placed (msg decryptedMsg : Message) (isScheduled : Bool) : List Message :=
  if isScheduled then addScheduled decryptedMsg s.messages
  else if msg.senderId = currentUserId then (mergeEcho currentUserId msg.content decryptedMsg s.messages).1
  else (mergePeer decryptedMsg s.messages).1

def step : TranscriptEvent → Transcript
  | .post id row isScheduled =>
    ({ s with rows := Function.update s.rows id (some row) } : Transcript).emit
      (if isScheduled then .messageScheduled (row.message id) else .onMessage (row.message id))
  | .announce id => (s.rows id).elim s fun row => s.emit (.onMessage (row.message id))
  | .edit id content now => s.edit id content now
  | .acceptEdit j now =>
    (s.requests[j]?).elim s fun r => ({ s with requests := s.requests.eraseIdx j } : Transcript).edit r.1 r.2 now
  | .rejectEdit j => { s with requests := s.requests.eraseIdx j }
  | .deliver =>
    match s.inbox with
    | e :: rest => ({ s with inbox := rest } : Transcript).on currentUserId e
    | [] => s
  | .loadPlaintext j =>
    match s.handlers[j]? with
    | some (.loading msg) =>
      match msg.id.bind s.cache with
      | some cached => (s.choose msg cached).settle j (chosen msg cached)
      | none => if msg.isV3 then s.settle j (.opening msg) else s.settle j (chosen msg msg.content)
    | _ => s
  | .decrypted j plain => (s.handlers[j]?).elim s (s.resume j plain)
  | .place j =>
    match s.handlers[j]? with
    | some (.placing msg decryptedMsg isScheduled) =>
      { s with
        handlers := s.handlers.eraseIdx j
        messages := s.placed currentUserId msg decryptedMsg isScheduled }
    | _ => s
  | .write k =>
    (s.writes[k]?).elim s fun w =>
      { s with writes := s.writes.eraseIdx k, cache := Function.update s.cache w.1 (some w.2) }
  | .optimistic m => { s with messages := s.messages ++ [m] }
  | .editMessage messageId content payload now =>
    { s with
      requests := s.requests ++ [(messageId, payload)]
      messages := editIn messageId content (some now) s.messages }
  | .render => { s with messagesRef := s.messages }
  | .serve placement ids =>
    let page := ids.filterMap fun id => (s.rows id).map (·.message id)
    { s with loads := s.loads ++ [⟨placement, page.map .start⟩] }
  | .pageLoadPlaintext j k =>
    (s.loads[j]?).elim s fun load => (load.slots[k]?).elim s fun slot =>
      s.setSlot j k load (slot.loadPlaintext (slot.raw.id.bind s.cache))
  | .pageDecrypted j k plain =>
    (s.loads[j]?).elim s fun load => (load.slots[k]?).elim s fun slot => s.setSlot j k load (slot.decrypted plain)
  | .pageSavePlaintext j k =>
    (s.loads[j]?).elim s fun load => (load.slots[k]?).elim s fun slot =>
      match slot.raw.id, slot.saving with
      | some id, some plain =>
        ({ s with cache := Function.update s.cache id (some plain) } : Transcript).setSlot j k load
          { slot with stage := .done (slot.raw.shown plain) }
      | _, _ => s
  | .apply j =>
    (s.loads[j]?).elim s fun load =>
      { s with
        loads := s.loads.eraseIdx j
        messages := load.placement.update (load.slots.filterMap (·.message?)) s.messages }
  | .reload =>
    { s with inbox := [], messages := [], messagesRef := [], writes := [], handlers := [], loads := [] }

section
variable (decryption : Text → Text)

/-- What the decryption of a message can return: its plaintext, a text that says that there is none, or,
under the older formats, the content itself. -/
def Decrypts (msg : Message) (plain : Option Text) : Prop :=
  ∀ text ∈ plain, text = plaintextOf decryption msg.content ∨
    ¬msg.isV3 ∧ (lock.isPrefixOf text ∨ text = msg.content)

instance (msg : Message) (plain : Option Text) : Decidable (Decrypts decryption msg plain) :=
  inferInstanceAs (Decidable (∀ _ ∈ _, _))

def Enabled : TranscriptEvent → Prop
  | .post id row _ => s.rows id = none ∧ row.editedAt = none
  | .decrypted j plain => ∀ h ∈ s.handlers[j]?,
      match h with
      | .decrypting msg | .opening msg | .scheduling msg => Decrypts decryption msg plain
      | .editing .. | .loading _ | .placing .. => True
  | .pageDecrypted j k plain => ∃ load ∈ s.loads[j]?, ∃ slot ∈ load.slots[k]?,
      slot.stage = .decrypt ∧ Decrypts decryption slot.raw plain
  | .pageLoadPlaintext j k => ∃ load ∈ s.loads[j]?, ∃ slot ∈ load.slots[k]?, slot.stage = .loadPlaintext
  | .apply j => ∃ load ∈ s.loads[j]?, ∀ slot ∈ load.slots, slot.message?.isSome
  | .optimistic m => m.id = none
  | .announce _ | .edit .. | .acceptEdit .. | .rejectEdit _ | .deliver | .loadPlaintext _ | .place _ | .write _
  | .editMessage .. | .render | .serve .. | .pageSavePlaintext .. | .reload => True

instance : DecidablePred (s.Enabled decryption) := fun e => by
  unfold Enabled
  cases e with
  | decrypted j plain =>
    refine @Option.decidableForallMem _ _ (fun h => ?_) _
    cases h <;> infer_instance
  | _ => infer_instance

end

end Transcript

/-- All interleavings, for one user in one conversation. -/
def transcript (decryption : Text → Text) (currentUserId : UserId) : Machine Transcript TranscriptEvent where
  init := .start
  enabled s e := s.Enabled decryption e
  next s e := s.step currentUserId e

instance (decryption : Text → Text) (currentUserId : UserId) (s : Transcript) (e : TranscriptEvent) :
    Decidable ((transcript decryption currentUserId).enabled s e) :=
  inferInstanceAs (Decidable (s.Enabled decryption e))

/-! ## Coherence -/

def Emitted.edits : Emitted → Option MessageId
  | .messageEdited id _ _ => some id
  | .onMessage _ | .messageScheduled _ => none

def Handler.edits : Handler → Option MessageId
  | .editing id _ _ => some id
  | _ => none

namespace Transcript
variable (s : Transcript) (decryption : Text → Text) (currentUserId : UserId)

/-- The text is the plaintext of the message as the server has it. -/
def Current (id : MessageId) (text : Text) : Prop := ∃ row ∈ s.rows id, text = plaintextOf decryption row.content

def OwnEdited (id : MessageId) : Prop := ∃ row ∈ s.rows id, row.senderId = currentUserId ∧ row.editedAt.isSome

/-- No edit of the message is under way. -/
structure Settled (id : MessageId) : Prop where
  requests : ∀ r ∈ s.requests, r.1 ≠ id
  inbox : ∀ e ∈ s.inbox, e.edits ≠ some id
  handlers : ∀ h ∈ s.handlers, h.edits ≠ some id

/-- What is cached is the plaintext of the message as the server has it, and an own message that was edited
shows it, unless an edit of it is under way. -/
structure Coherent : Prop where
  cached : ∀ id, ∀ text ∈ s.cache id, s.Current decryption id text
  edited : ∀ m ∈ s.messages, ∀ id ∈ m.id, s.OwnEdited currentUserId id → s.Settled id → s.Current decryption id m.content

/-! ## The condition -/

def slots : List Slot := s.loads.flatMap (·.slots)

def Listed (id : MessageId) : Prop := ∃ m ∈ s.messages, m.id = some id

/-- No plaintext of the message is in the cache, or on its way into it. -/
structure Uncached (id : MessageId) : Prop where
  cache : s.cache id = none
  writes : ∀ w ∈ s.writes, w.1 ≠ id
  slots : ∀ slot ∈ s.slots, slot.raw.id = some id → slot.saving = none

/-- The message has not been edited to another text since it was read. -/
def Unedited (msg : Message) : Prop :=
  ∀ id ∈ msg.id, ∀ row ∈ s.rows id, plaintextOf decryption msg.content = plaintextOf decryption row.content

/-- The message is as the server has it, and not encrypted. -/
def InPlain (msg : Message) : Prop := ¬msg.isEncrypted ∧ ∀ id ∈ msg.id, ∀ row ∈ s.rows id, row.content = msg.content

/-- A message that the user has edited is in the list, and nothing of the edit is under way any more. -/
def Awaited (id : MessageId) : Prop := s.OwnEdited currentUserId id ∧ s.Settled id ∧ s.Listed id

def CanEdit (id : MessageId) (content : Text) : Prop :=
  ∀ row ∈ s.rows id, plaintextOf decryption (trim content) = plaintextOf decryption row.content ∨ s.Uncached id

/-- What the steps must meet. -/
def Consistent : TranscriptEvent → Prop
  | .edit id content _ => s.CanEdit decryption id content
  | .acceptEdit j _ => ∀ r ∈ s.requests[j]?, s.CanEdit decryption r.1 r.2
  | .rejectEdit j => ∀ r ∈ s.requests[j]?,
      ¬({ s with requests := s.requests.eraseIdx j } : Transcript).Awaited currentUserId r.1
  | .deliver => ∀ e ∈ s.inbox.head?,
      match e with
      | .onMessage msg => msg.senderId = currentUserId →
          ∀ optMsg ∈ pendingMessage currentUserId msg.content s.messagesRef, optMsg.content = msg.content ∨
            optMsg.content = plaintextOf decryption msg.content ∧ s.Unedited decryption msg
      | .messageScheduled _ => True
      | .messageEdited id _ _ => ({ s with inbox := s.inbox.drop 1 } : Transcript).Awaited currentUserId id →
          ∃ m ∈ s.messagesRef, m.id = some id
  | .decrypted j plain => ∀ h ∈ s.handlers[j]?,
      match h with
      | .decrypting msg => ∀ text ∈ msg.saved plain, text = plaintextOf decryption msg.content ∧ s.Unedited decryption msg
      | .opening msg => ∀ text ∈ plain, text = plaintextOf decryption msg.content ∧ s.Unedited decryption msg
      | .editing id content _ =>
          ({ s with handlers := s.handlers.eraseIdx j } : Transcript).Awaited currentUserId id →
            plain = some (plaintextOf decryption content) ∧ ∀ row ∈ s.rows id, row.content = content
      | .loading _ | .scheduling _ | .placing .. => True
  | .place j => ∀ h ∈ s.handlers[j]?,
      match h with
      | .placing msg decryptedMsg isScheduled => ∀ id ∈ msg.id, s.OwnEdited currentUserId id → s.Settled id →
          s.Listed id ∨ s.InPlain msg ∧ decryptedMsg.content = msg.content ∧
            (isScheduled ∨ pendingIndex currentUserId msg.content s.messages = none)
      | _ => True
  | .pageDecrypted j k plain => ∀ load ∈ s.loads[j]?, ∀ slot ∈ load.slots[k]?, ∀ text ∈ slot.raw.saved plain,
      text = plaintextOf decryption slot.raw.content ∧ s.Unedited decryption slot.raw
  | .apply j => ∀ load ∈ s.loads[j]?, ∀ slot ∈ load.slots, ∀ id ∈ slot.raw.id,
      s.OwnEdited currentUserId id → s.Settled id →
        s.InPlain slot.raw ∨ slot.isFound ∧ ¬truthy slot.raw.fileUrl
  | .post .. | .announce _ | .loadPlaintext _ | .write _ | .optimistic _ | .editMessage .. | .render | .serve ..
  | .pageLoadPlaintext .. | .pageSavePlaintext .. | .reload => True

instance (id : MessageId) : Decidable (s.OwnEdited currentUserId id) :=
  inferInstanceAs (Decidable (∃ _ ∈ _, _ ∧ _))

instance (id : MessageId) : Decidable (s.Settled id) :=
  decidable_of_iff
    ((∀ r ∈ s.requests, r.1 ≠ id) ∧ (∀ e ∈ s.inbox, e.edits ≠ some id) ∧ ∀ h ∈ s.handlers, h.edits ≠ some id)
    ⟨fun ⟨h₁, h₂, h₃⟩ => ⟨h₁, h₂, h₃⟩, fun ⟨h₁, h₂, h₃⟩ => ⟨h₁, h₂, h₃⟩⟩

instance (id : MessageId) : Decidable (s.Uncached id) :=
  decidable_of_iff
    (s.cache id = none ∧ (∀ w ∈ s.writes, w.1 ≠ id) ∧ ∀ slot ∈ s.slots, slot.raw.id = some id → slot.saving = none)
    ⟨fun ⟨h₁, h₂, h₃⟩ => ⟨h₁, h₂, h₃⟩, fun ⟨h₁, h₂, h₃⟩ => ⟨h₁, h₂, h₃⟩⟩

instance (id : MessageId) : Decidable (s.Listed id) := inferInstanceAs (Decidable (∃ _ ∈ _, _))

instance (msg : Message) : Decidable (s.Unedited decryption msg) := inferInstanceAs (Decidable (∀ _ ∈ _, ∀ _ ∈ _, _))

instance (msg : Message) : Decidable (s.InPlain msg) := inferInstanceAs (Decidable (_ ∧ ∀ _ ∈ _, ∀ _ ∈ _, _))

instance (id : MessageId) : Decidable (s.Awaited currentUserId id) := inferInstanceAs (Decidable (_ ∧ _))

instance (id : MessageId) (content : Text) : Decidable (s.CanEdit decryption id content) :=
  inferInstanceAs (Decidable (∀ _ ∈ _, _ ∨ _))

instance : DecidablePred (s.Consistent decryption currentUserId) := fun e => by
  unfold Consistent
  cases e with
  | deliver =>
    refine @Option.decidableForallMem _ _ (fun e => ?_) _
    cases e <;> infer_instance
  | decrypted j plain =>
    refine @Option.decidableForallMem _ _ (fun h => ?_) _
    cases h <;> infer_instance
  | place j =>
    refine @Option.decidableForallMem _ _ (fun h => ?_) _
    cases h <;> infer_instance
  | _ => infer_instance

/-! ## What every run keeps -/

def msgOf : Emitted → Option Message
  | .onMessage msg | .messageScheduled msg => some msg
  | .messageEdited .. => none

/-- The message was read from the server. -/
def Known (msg : Message) : Prop := ∃ id ∈ msg.id, ∃ row ∈ s.rows id, row.senderId = msg.senderId

/-- What is known of a message that is being decrypted. -/
structure SlotSound (slot : Slot) : Prop where
  known : s.Known slot.raw
  saving : ∀ text ∈ slot.saving, ∀ id ∈ slot.raw.id, s.Current decryption id text
  found : ∀ text, slot.stage = .found text → ∀ id ∈ slot.raw.id, s.cache id = some text
  plain : ¬slot.raw.isEncrypted → slot.stage = .done slot.raw.content

def HandlerSound : Handler → Prop
  | .decrypting msg | .loading msg | .opening msg | .scheduling msg => s.Known msg
  | .placing msg decryptedMsg _ => s.Known msg ∧ decryptedMsg.id = msg.id
  | .editing .. => True

/-- The last edit of a message that is announced is the content that the server has. -/
def Latest (rows : MessageId → Option Row) : List Emitted → Prop
  | [] => True
  | e :: es =>
    (∀ id content editedAt, e = .messageEdited id content editedAt →
      (∃ e' ∈ es, e'.edits = some id) ∨ ∃ row ∈ rows id, row.content = content) ∧ Latest rows es

structure Sound : Prop where
  inbox : ∀ e ∈ s.inbox, ∀ msg ∈ msgOf e, s.Known msg
  latest : Latest s.rows s.inbox
  handlers : ∀ h ∈ s.handlers, s.HandlerSound h
  writes : ∀ w ∈ s.writes, s.Current decryption w.1 w.2
  slots : ∀ slot ∈ s.slots, s.SlotSound decryption slot

/-- Both parts of what is shown. -/
abbrev Good : Prop := s.Sound decryption ∧ s.Coherent decryption currentUserId

end Transcript

end Vesper.Chat
