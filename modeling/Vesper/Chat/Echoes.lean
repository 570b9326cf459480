import Vesper.Lib.Machine
import Vesper.Chat.Messages

/-!
# The echoes of the user's sends

The sends of the user in one conversation, from this device and from others, and what `onMessage` does
with their echoes. A handler suspends between the choice of the plaintext and the update of the list.
`messagesRef` is the list as it was rendered last. Media keys are left out.
-/

namespace Vesper.Chat
open Server (UserId DeviceId MessageId Text Time MessageKeyEnvelope)

/-! ## The hook and the server -/

/-- What `sendMessage` is emitted with. `plain` is the text from which the content was made; `send` is
missing where another device of the user sent it. -/
structure Sent where
  send : Option Nat
  content : Text
  fileUrl : Option Text
  senderDeviceId : Option DeviceId
  envelopes : List MessageKeyEnvelope
  isScheduled : Bool
  plain : Text
  deriving DecidableEq

/-- A message of the offline queue. -/
structure Draft where
  queueId : Nat
  content : Text
  deriving DecidableEq

/-- An `onMessage` that is under way: the message, and what it is shown as, once that is known. -/
structure EchoHandler where
  msg : Message
  decryptedMsg : Option Message
  deriving DecidableEq

/-- `wire` holds what the server has not answered, `timed` the scheduled messages that it has not
delivered, and `posted` all that it has stored. `used` collects the contents that were emitted. -/
structure Echoes where
  messages : List Message
  messagesRef : List Message
  plaintexts : MessageId → Option Text
  queue : List Draft
  wire : List Sent
  timed : List MessageId
  posted : MessageId → Option Sent
  handlers : List EchoHandler
  nextSend : Nat
  used : List Text

inductive EchoEvent
  /-- `sendMessage` when its content is encrypted; `payload` is what the encryption returns. -/
  | send (content payload : Text) (senderDeviceId : Option DeviceId) (envelopes : List MessageKeyEnvelope)
      (isScheduled : Bool)
  | sendOffline (content : Text)
  | flush (j : Nat) (payload : Text)
  /-- `sendFileMessage`; `plain` is what the content was encrypted from. -/
  | sendFile (fileUrl content : Text) (senderDeviceId : Option DeviceId) (envelopes : List MessageKeyEnvelope)
      (plain : Text)
  | arrive (j : Nat) (id : MessageId)
  | messageScheduled (j : Nat) (id : MessageId) (content : Text)
  | due (id : MessageId)
  /-- The echo of what another device sent. -/
  | other (id : MessageId) (sent : Sent)
  /-- `loadPlaintext` answers, or `decryptV3` after it. -/
  | resume (j : Nat) (plain : Option Text)
  | merge (j : Nat)
  | render
  deriving DecidableEq

/-- The message that the server makes of it. -/
def Sent.message (sent : Sent) (currentUserId : UserId) (id : MessageId) : Message where
  id := some id
  senderId := currentUserId
  content := sent.content
  fileUrl := sent.fileUrl
  editedAt := none
  senderDeviceId := sent.senderDeviceId
  envelopes := sent.envelopes
  isPending := false
  queueId := none
  pendingCipher := none
  send := none

/-- An optimistic entry. -/
def Message.optimistic (currentUserId : UserId) (content : Text) (send : Nat) : Message where
  id := none
  senderId := currentUserId
  content
  fileUrl := none
  editedAt := none
  senderDeviceId := none
  envelopes := []
  isPending := false
  queueId := none
  pendingCipher := none
  send := some send

/-- The echo with its plaintext. -/
def Message.shownAs (msg : Message) (plaintext : Text) : Message :=
  { msg with content := if truthy msg.fileUrl then [] else plaintext }

namespace Echoes
variable (s : Echoes) (currentUserId : UserId)

def start : Echoes := ⟨[], [], fun _ => none, [], [], [], fun _ => none, [], 0, []⟩

def add (m : Message) : Echoes := { s with messages := s.messages ++ [m], nextSend := s.nextSend + 1 }

def emit (sent : Sent) : Echoes := { s with wire := s.wire ++ [sent], used := sent.content :: s.used }

def savePlaintext (id : Option MessageId) (content : Text) : Echoes :=
  match id with
  | some id => { s with plaintexts := Function.update s.plaintexts id (some content) }
  | none => s

def post (id : MessageId) (sent : Sent) : Echoes := { s with posted := Function.update s.posted id (some sent) }

/-- The plaintext of the echo is cached, unless it is the content. -/
def choose (msg : Message) (plaintext : Text) : Echoes :=
  if plaintext ≠ msg.content then s.savePlaintext msg.id plaintext else s

def suspend (handler : EchoHandler) : Echoes := { s with handlers := s.handlers ++ [handler] }

def settle (j : Nat) (handler : EchoHandler) : Echoes := { s with handlers := s.handlers.set j handler }

/-- `onMessage` for an own message, up to where it suspends. -/
def onMessage (msg : Message) : Echoes :=
  match pendingMessage currentUserId msg.content s.messagesRef with
  | some optMsg => (s.choose msg optMsg.content).suspend ⟨msg, some (msg.shownAs optMsg.content)⟩
  | none => s.suspend ⟨msg, none⟩

/-- The plaintext where no entry was found: from the cache, or from the envelope for this device. -/
def resume (j : Nat) (msg : Message) (plain : Option Text) : Echoes :=
  match msg.id.bind s.plaintexts with
  | some cached => (s.choose msg cached).settle j ⟨msg, some (msg.shownAs cached)⟩
  | none =>
    match if msg.isV3 then plain else none with
    | some plain => ((s.savePlaintext msg.id plain).choose msg plain).settle j ⟨msg, some (msg.shownAs plain)⟩
    | none => s.settle j ⟨msg, some (msg.shownAs msg.content)⟩

def step : EchoEvent → Echoes
  | .send content payload senderDeviceId envelopes isScheduled =>
    (s.add { Message.optimistic currentUserId content s.nextSend with
      queueId := some s.nextSend, pendingCipher := some payload }).emit
      ⟨some s.nextSend, payload, none, senderDeviceId, envelopes, isScheduled, content⟩
  | .sendOffline content =>
    { s.add { Message.optimistic currentUserId content s.nextSend with
        queueId := some s.nextSend, isPending := true } with
      queue := s.queue ++ [⟨s.nextSend, content⟩] }
  | .flush j payload =>
    match s.queue[j]? with
    | some draft =>
      ({ s with queue := s.queue.eraseIdx j } : Echoes).emit
        ⟨some draft.queueId, payload, none, none, [], false, draft.content⟩
    | none => s
  | .sendFile fileUrl content senderDeviceId envelopes plain =>
    (s.add { Message.optimistic currentUserId content s.nextSend with
      fileUrl := some fileUrl, senderDeviceId, envelopes }).emit
      ⟨some s.nextSend, content, some fileUrl, senderDeviceId, envelopes, false, plain⟩
  | .arrive j id =>
    match s.wire[j]? with
    | some sent =>
      (({ s with wire := s.wire.eraseIdx j } : Echoes).post id sent).onMessage currentUserId
        (sent.message currentUserId id)
    | none => s
  | .messageScheduled j id content =>
    match s.wire[j]? with
    | some sent =>
      ({ s with
        messages := addScheduled { sent.message currentUserId id with content } s.messages
        wire := s.wire.eraseIdx j
        timed := s.timed ++ [id] } : Echoes).post id sent
    | none => s
  | .due id =>
    match s.posted id with
    | some sent =>
      ({ s with timed := s.timed.erase id } : Echoes).onMessage currentUserId (sent.message currentUserId id)
    | none => s
  | .other id sent =>
    ({ s with used := sent.content :: s.used } : Echoes).post id sent |>.onMessage currentUserId
      (sent.message currentUserId id)
  | .resume j plain =>
    match s.handlers[j]? with
    | some ⟨msg, none⟩ => s.resume j msg plain
    | _ => s
  | .merge j =>
    match s.handlers[j]? with
    | some ⟨msg, some decryptedMsg⟩ =>
      { s with
        messages := (mergeEcho currentUserId msg.content decryptedMsg s.messages).1
        handlers := s.handlers.eraseIdx j }
    | _ => s
  | .render => { s with messagesRef := s.messages }

/-- A ciphertext has not been emitted before. -/
def Encrypts (plain content : Text) : Prop := content ≠ plain → content ∉ s.used

/-- What can happen: the server gives a fresh identifier to what was emitted, and `decryptV3` returns
the text that was encrypted, if any. -/
def Enabled : EchoEvent → Prop
  | .send content payload _ _ _ => s.Encrypts content payload
  | .flush j payload => ∃ draft ∈ s.queue[j]?, s.Encrypts draft.content payload
  | .sendFile _ content _ _ plain => s.Encrypts plain content
  | .arrive j id => s.wire[j]?.isSome ∧ s.posted id = none
  | .messageScheduled j id _ => (∃ sent ∈ s.wire[j]?, sent.isScheduled) ∧ s.posted id = none
  | .due id => id ∈ s.timed
  | .other id sent => sent.send = none ∧ s.posted id = none ∧ s.Encrypts sent.plain sent.content
  | .resume j plain => ∃ h ∈ s.handlers[j]?, h.decryptedMsg = none ∧
      ∀ text ∈ plain, ∃ id ∈ h.msg.id, ∃ sent ∈ s.posted id, text = sent.plain
  | .merge j => ∃ h ∈ s.handlers[j]?, h.decryptedMsg.isSome
  | .sendOffline _ | .render => True

instance (s : Echoes) (plain content : Text) : Decidable (s.Encrypts plain content) :=
  inferInstanceAs (Decidable (_ → _))

instance (s : Echoes) : DecidablePred s.Enabled := fun e => by
  cases e <;> unfold Enabled <;> infer_instance

end Echoes

/-- All interleavings, for one user in one conversation. -/
def echoes (currentUserId : UserId) : Machine Echoes EchoEvent where
  init := .start
  enabled := Echoes.Enabled
  next s e := s.step currentUserId e

instance (currentUserId : UserId) (s : Echoes) (e : EchoEvent) : Decidable ((echoes currentUserId).enabled s e) :=
  inferInstanceAs (Decidable (s.Enabled e))

/-! ## Reconciliation -/

/-- Every echo has replaced the entry of its own send and no other, and every plaintext that is stored
under an identifier is that of its message. -/
structure Echoes.Reconciled (s : Echoes) : Prop where
  replaced : ∀ m ∈ s.messages, ∀ id ∈ m.id, ∀ k ∈ m.send, ∃ sent ∈ s.posted id, sent.send = some k
  gone : ∀ m ∈ s.messages, ∀ id ∈ m.id, ∀ sent ∈ s.posted id, ∀ k ∈ sent.send,
    ∀ opt ∈ s.messages, opt.id = none → opt.send ≠ some k
  cached : ∀ id, ∀ text ∈ s.plaintexts id, ∃ sent ∈ s.posted id, text = sent.plain

/-! ## The exact condition -/

section
variable (currentUserId : UserId)

/-- Where no pending entry carries the content, the last unconfirmed entry, if there is one, has the text
of the message; where the content is the text itself, an entry that carries it shows it. -/
def Sent.Told (sent : Sent) (messagesRef : List Message) : Prop :=
  match messagesRef.find? (·.carries currentUserId sent.content) with
  | some opt => sent.content = sent.plain → opt.content = sent.content
  | none => ∀ opt ∈ messagesRef.reverse.find? (·.unconfirmed currentUserId),
      opt.content = sent.content ∨ opt.content = sent.plain

/-- Where no pending entry carries the content, the last unconfirmed entry, if there is one, comes from the
same send; where the message or the entry was not encrypted, the first entry that carries the content does. -/
def Sent.Placed (sent : Sent) (messages : List Message) : Prop :=
  match messages.find? (·.carries currentUserId sent.content) with
  | some opt => sent.content = sent.plain ∨ opt.content = sent.content → opt.send = sent.send
  | none => ∀ opt ∈ messages.reverse.find? (·.unconfirmed currentUserId), opt.send = sent.send

instance (sent : Sent) (messages : List Message) : Decidable (sent.Told currentUserId messages) := by
  unfold Sent.Told
  cases messages.find? (·.carries currentUserId sent.content) <;> infer_instance

instance (sent : Sent) (messages : List Message) : Decidable (sent.Placed currentUserId messages) := by
  unfold Sent.Placed
  cases messages.find? (·.carries currentUserId sent.content) <;> infer_instance

/-- Echoes that no pending entry carries the content of come, and are merged, while no entry of another
send is the last unconfirmed one, and no scheduled send with an entry in the list is confirmed. -/
def Echoes.Orderly (s : Echoes) : EchoEvent → Prop
  | .arrive j _ => ∀ sent ∈ s.wire[j]?, sent.Told currentUserId s.messagesRef
  | .due id => ∀ sent ∈ s.posted id, sent.Told currentUserId s.messagesRef
  | .other _ sent => sent.Told currentUserId s.messagesRef
  | .messageScheduled j _ _ => ∀ sent ∈ s.wire[j]?, ∀ opt ∈ s.messages, opt.id = none →
      ∀ k ∈ sent.send, opt.send ≠ some k
  | .merge j => ∀ h ∈ s.handlers[j]?, ∀ id ∈ h.msg.id, ∀ sent ∈ s.posted id,
      (∃ m ∈ s.messages, m.id = some id) ∨ sent.Placed currentUserId s.messages
  | .send .. | .sendOffline _ | .flush .. | .sendFile .. | .resume .. | .render => True

instance (s : Echoes) : DecidablePred (s.Orderly currentUserId) := fun e => by
  cases e <;> unfold Echoes.Orderly <;> infer_instance

end

/-! ## What every run keeps -/

namespace Echoes

/-- What is emitted, or stored already. -/
def Known (s : Echoes) (sent : Sent) : Prop := sent ∈ s.wire ∨ ∃ id, s.posted id = some sent

/-- What holds of an optimistic entry: it comes from one of the user's sends, and shows what that says. -/
structure Waits (s : Echoes) (currentUserId : UserId) (m : Message) : Prop where
  own : m.senderId = currentUserId
  send : ∃ k < s.nextSend, m.send = some k
  used : ∀ c ∈ m.pendingCipher, c ∈ s.used
  drafted : ∀ draft ∈ s.queue, m.send = some draft.queueId → m.content = draft.content
  shown : ∀ sent, s.Known sent → m.send = sent.send → m.content = sent.content ∨ m.content = sent.plain
  carried : ∀ sent, s.Known sent → m.pendingCipher = some sent.content → sent.content ≠ sent.plain →
    m.content ≠ sent.content → m.send = sent.send

/-- A handler knows the message that it is about. -/
structure Handles (s : Echoes) (h : EchoHandler) : Prop where
  msg : ∃ id sent, s.posted id = some sent ∧ h.msg.id = some id ∧ h.msg.content = sent.content
  send : h.msg.send = none
  decrypted : ∀ d ∈ h.decryptedMsg, d.id = h.msg.id ∧ d.send = none

structure Sound (currentUserId : UserId) (s : Echoes) : Prop where
  waits : ∀ m, m ∈ s.messages ∨ m ∈ s.messagesRef → m.id = none → s.Waits currentUserId m
  ids : ∀ m ∈ s.messages, ∀ id ∈ m.id, s.posted id ≠ none
  sends : ∀ m ∈ s.messages, ∀ k ∈ m.send, k < s.nextSend
  nodup : (s.messages.filterMap (·.send)).Nodup
  drafts : ∀ draft ∈ s.queue, draft.queueId < s.nextSend
  known : ∀ sent, s.Known sent → sent.content ∈ s.used ∧ ∀ k ∈ sent.send, k < s.nextSend
  handles : ∀ h ∈ s.handlers, s.Handles h
  timed : ∀ id ∈ s.timed, s.posted id ≠ none

end Echoes

end Vesper.Chat
