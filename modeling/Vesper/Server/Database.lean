import Vesper.Lib.Programs
import Mathlib.Data.List.Sort

/-!
# The database

The tables behind conversations and messages, and what the queries of the server select from them.
A table is the list of its rows in the order of their creation. Reactions and key envelopes are kept
with the message they belong to. Identifiers are drawn from sequences, which a failed insert still
advances. Users and devices are only read here.
-/

namespace Vesper.Server

abbrev UserId := Nat
abbrev DeviceId := Nat
abbrev ConversationId := Nat
abbrev MessageId := Nat

/-- Milliseconds since the epoch. -/
abbrev Time := Int

/-- A string, in UTF-16 code units. -/
abbrev Text := List UInt16

/-- The white space and line terminators that `trim` strips. -/
def isSpace (unit : UInt16) : Bool :=
  unit ∈ ([9, 10, 11, 12, 13, 32, 0xA0, 0x1680, 0x2028, 0x2029, 0x202F, 0x205F, 0x3000,
    0xFEFF] : List UInt16) || (0x2000 ≤ unit && unit ≤ 0x200A)

def trim (text : Text) : Text := ((text.dropWhile isSpace).reverse.dropWhile isSpace).reverse

theorem length_trim_le (content : Text) : (trim content).length ≤ content.length := by
  rw [trim, List.length_reverse]
  refine (List.dropWhile_suffix isSpace).length_le.trans ?_
  rw [List.length_reverse]
  exact (List.dropWhile_suffix isSpace).length_le

/-- A string counts as true unless it is missing or empty. -/
def truthy : Option Text → Bool
  | some (_ :: _) => true
  | _ => false

/-! ## Tables -/

inductive ConversationType
  | direct | group | channel
  deriving DecidableEq, Repr

inductive MemberRole
  | owner | admin | member
  deriving DecidableEq, Repr

/-- The columns that queries select by name, and the credentials that a whole row carries. -/
structure User where
  id : UserId
  email : Text
  nickname : Text
  password : Text
  avatarUrl : Option Text
  isOnline : Bool
  lastSeen : Time
  deriving DecidableEq, Repr

structure Device where
  id : DeviceId
  userId : UserId
  deriving DecidableEq, Repr

structure Conversation where
  id : ConversationId
  type : ConversationType
  name : Option Text
  description : Option Text
  avatarUrl : Option Text
  createdById : UserId
  createdAt : Time
  updatedAt : Time
  deriving DecidableEq, Repr

structure ConversationMember where
  conversationId : ConversationId
  userId : UserId
  role : MemberRole
  joinedAt : Time
  lastReadAt : Time
  clearedAt : Option Time
  isPinned : Bool
  isArchived : Bool
  deriving DecidableEq, Repr

structure Reaction where
  emoji : String
  userId : UserId
  createdAt : Time
  deriving DecidableEq, Repr

structure MessageKeyEnvelope where
  deviceId : DeviceId
  ciphertext : Text
  deriving DecidableEq, Repr

structure Message where
  id : MessageId
  content : Text
  createdAt : Time
  editedAt : Option Time
  deletedAt : Option Time
  scheduledAt : Option Time
  fileUrl : Option Text
  fileName : Option Text
  fileType : Option Text
  fileSize : Option Nat
  metadata : Option Text
  forwardedFromId : Option MessageId
  forwardedFromUserId : Option UserId
  senderId : UserId
  conversationId : ConversationId
  replyToId : Option MessageId
  senderDeviceId : Option DeviceId
  reactions : List Reaction
  envelopes : List MessageKeyEnvelope
  deriving DecidableEq, Repr

structure PinnedMessage where
  id : Nat
  conversationId : ConversationId
  messageId : MessageId
  pinnedById : UserId
  pinnedAt : Time
  deriving DecidableEq, Repr

structure GroupSenderKey where
  conversationId : ConversationId
  senderId : UserId
  recipientId : UserId
  encryptedKey : Text
  version : Nat
  deriving DecidableEq, Repr

structure Database where
  users : List User
  devices : List Device
  conversations : List Conversation
  members : List ConversationMember
  messages : List Message
  pins : List PinnedMessage
  senderKeys : List GroupSenderKey
  nextConversationId : ConversationId
  nextMessageId : MessageId
  nextPinId : Nat
  /-- The storage objects that were to be removed. -/
  removedFiles : List Text
  deriving DecidableEq, Repr

/-! ## Selections -/

/-- `{ id, nickname }` of a user. -/
structure Author where
  id : UserId
  nickname : Text
  deriving DecidableEq, Repr

/-- `{ id, nickname, avatarUrl }` of a user. -/
structure ReactionUser where
  id : UserId
  nickname : Text
  avatarUrl : Option Text
  deriving DecidableEq, Repr

/-- `MEMBER_USER_SELECT` -/
structure MemberUser where
  id : UserId
  nickname : Text
  avatarUrl : Option Text
  isOnline : Bool
  lastSeen : Time
  deriving DecidableEq, Repr

/-- What a message shows of the one it replies to. -/
structure ReplyTo where
  id : MessageId
  content : Text
  deletedAt : Option Time
  sender : Option Author
  deriving DecidableEq, Repr

/-- What a message shows of the one it was forwarded from. -/
structure ForwardedFrom where
  id : MessageId
  content : Text
  fileType : Option Text
  sender : Option Author
  deriving DecidableEq, Repr

structure SelectedReaction where
  emoji : String
  userId : UserId
  user : Option ReactionUser
  deriving DecidableEq, Repr

/-- `MSG_SELECT`, but for the reactions. -/
structure SelectedFields where
  id : MessageId
  content : Text
  createdAt : Time
  editedAt : Option Time
  deletedAt : Option Time
  fileUrl : Option Text
  fileName : Option Text
  fileType : Option Text
  fileSize : Option Nat
  metadata : Option Text
  scheduledAt : Option Time
  senderId : UserId
  senderDeviceId : Option DeviceId
  conversationId : ConversationId
  replyToId : Option MessageId
  forwardedFromId : Option MessageId
  forwardedFromUser : Option User
  sender : Option ReactionUser
  replyTo : Option ReplyTo
  forwardedFrom : Option ForwardedFrom
  envelopes : List MessageKeyEnvelope
  deriving DecidableEq, Repr

/-- `MSG_SELECT` -/
structure Selected where
  rest : SelectedFields
  reactions : List SelectedReaction
  deriving DecidableEq, Repr

/-- `{ id, content, sender }` of a pinned message. -/
structure PinnedPreview where
  id : MessageId
  content : Text
  sender : Option Author
  deriving DecidableEq, Repr

namespace Database
variable (db : Database)

def user? (id : UserId) : Option User := db.users.find? (·.id = id)

def conversation? (id : ConversationId) : Option Conversation := db.conversations.find? (·.id = id)

def member? (conversationId : ConversationId) (userId : UserId) : Option ConversationMember :=
  db.members.find? fun m => m.conversationId = conversationId ∧ m.userId = userId

def message? (id : MessageId) : Option Message := db.messages.find? (·.id = id)

def membersOf (conversationId : ConversationId) : List ConversationMember :=
  db.members.filter (·.conversationId = conversationId)

/-- The pins of a conversation, the latest first. -/
def pinsOf (conversationId : ConversationId) : List PinnedMessage :=
  (db.pins.filter (·.conversationId = conversationId)).insertionSort fun a b =>
    b.pinnedAt ≤ a.pinnedAt

/-- The messages that meet a condition, the newest first. -/
def newest (p : Message → Bool) : List Message :=
  (db.messages.filter p).insertionSort fun a b => b.id ≤ a.id

/-- The messages that meet a condition, the oldest first. -/
def oldest (p : Message → Bool) : List Message :=
  (db.messages.filter p).insertionSort fun a b => a.id ≤ b.id

def author (id : UserId) : Option Author := (db.user? id).map fun u => ⟨u.id, u.nickname⟩

def reactionUser (id : UserId) : Option ReactionUser :=
  (db.user? id).map fun u => ⟨u.id, u.nickname, u.avatarUrl⟩

def memberUser (id : UserId) : Option MemberUser :=
  (db.user? id).map fun u => ⟨u.id, u.nickname, u.avatarUrl, u.isOnline, u.lastSeen⟩

def replyTo (id : MessageId) : Option ReplyTo :=
  (db.message? id).map fun m => ⟨m.id, m.content, m.deletedAt, db.author m.senderId⟩

def forwardedFrom (id : MessageId) : Option ForwardedFrom :=
  (db.message? id).map fun m => ⟨m.id, m.content, m.fileType, db.author m.senderId⟩

def pinnedPreview (id : MessageId) : Option PinnedPreview :=
  (db.message? id).map fun m => ⟨m.id, m.content, db.author m.senderId⟩

def selectReactions (m : Message) : List SelectedReaction :=
  (m.reactions.insertionSort fun a b => a.createdAt ≤ b.createdAt).map fun r =>
    ⟨r.emoji, r.userId, db.reactionUser r.userId⟩

/-- `select: MSG_SELECT` -/
def select (m : Message) : Selected where
  rest := {
    id := m.id
    content := m.content
    createdAt := m.createdAt
    editedAt := m.editedAt
    deletedAt := m.deletedAt
    fileUrl := m.fileUrl
    fileName := m.fileName
    fileType := m.fileType
    fileSize := m.fileSize
    metadata := m.metadata
    scheduledAt := m.scheduledAt
    senderId := m.senderId
    senderDeviceId := m.senderDeviceId
    conversationId := m.conversationId
    replyToId := m.replyToId
    forwardedFromId := m.forwardedFromId
    -- the relation is selected whole
    forwardedFromUser := m.forwardedFromUserId.bind db.user?
    sender := db.reactionUser m.senderId
    replyTo := m.replyToId.bind db.replyTo
    forwardedFrom := m.forwardedFromId.bind db.forwardedFrom
    envelopes := m.envelopes }
  reactions := db.selectReactions m

/-- The first foreign key that a message would break. -/
def brokenKey (m : Message) : Option String :=
  if db.user? m.senderId = none then some "Message_senderId_fkey"
  else if db.conversation? m.conversationId = none then some "Message_conversationId_fkey"
  else if ∃ id ∈ m.replyToId, db.message? id = none then some "Message_replyToId_fkey"
  else if ∃ id ∈ m.forwardedFromId, db.message? id = none then some "Message_forwardedFromId_fkey"
  else if ∃ id ∈ m.forwardedFromUserId, db.user? id = none then
    some "Message_forwardedFromUserId_fkey"
  else if ∃ id ∈ m.senderDeviceId, db.devices.find? (·.id = id) = none then
    some "Message_senderDeviceId_fkey"
  else none

end Database

/-! ## Updates -/

inductive HttpError
  | badRequest (message : String)
  | forbidden (message : String)
  | notFound (message : String)
  | conflict (message : String)
  /-- A foreign key is broken. -/
  | foreignKey (constraint : String)
  /-- There is no row to update or to delete. -/
  | recordNotFound
  /-- A query does not take the value of an argument. -/
  | invalidValue (argument : String)
  deriving DecidableEq, Repr

def HttpError.message : HttpError → String
  | badRequest message | forbidden message | notFound message | conflict message => message
  | foreignKey constraint => "Foreign key constraint violated: " ++ constraint
  | recordNotFound => "No record was found"
  | invalidValue argument => "Invalid value for argument: " ++ argument

abbrev Service (α : Type) := Program Database HttpError α

open Program

def findUser (id : UserId) : Service (Option User) := reads (·.user? id)

def findConversation (id : ConversationId) : Service (Option Conversation) :=
  reads (·.conversation? id)

def findMember (conversationId : ConversationId) (userId : UserId) :
    Service (Option ConversationMember) :=
  reads (·.member? conversationId userId)

def findMessage (id : MessageId) : Service (Option Message) := reads (·.message? id)

/-- `findUnique` with `select: MSG_SELECT`. -/
def findSelected (id : MessageId) : Service (Option Selected) :=
  reads fun db => (db.message? id).map db.select

/-- `update` of the messages that meet a condition. -/
def updateMessages (p : Message → Bool) (f : Message → Message) : Service PUnit :=
  modify fun db => { db with messages := db.messages.map fun m => if p m then f m else m }

/-- `update` of the memberships that meet a condition. -/
def updateMembers (p : ConversationMember → Bool) (f : ConversationMember → ConversationMember) :
    Service PUnit :=
  modify fun db => { db with members := db.members.map fun m => if p m then f m else m }

/-- Sets the time at which a conversation was updated. -/
def touchConversation (now : Time) (id : ConversationId) : Service PUnit :=
  modify fun db => { db with
    conversations := db.conversations.map fun c => if c.id = id then { c with updatedAt := now } else c }

/-- `create` of a message, under the next identifier. -/
def createMessage (row : MessageId → Message) : Service Message := do
  let id ← reads (·.nextMessageId)
  modify fun db => { db with nextMessageId := id + 1 }
  let m := row id
  match ← reads (·.brokenKey m) with
  | some constraint => throw (.foreignKey constraint)
  | none =>
    modify fun db => { db with messages := db.messages ++ [m] }
    return m

/-- The rows that a `createMany` with `skipDuplicates` adds. -/
def newEnvelopes (old : List MessageKeyEnvelope) :
    List MessageKeyEnvelope → List MessageKeyEnvelope
  | [] => old
  | e :: es => newEnvelopes (if ∃ e' ∈ old, e'.deviceId = e.deviceId then old else old ++ [e]) es

/-- `createMany` of the envelopes of a message: none is added when one names no device. -/
def createEnvelopes (messageId : MessageId) (envelopes : List MessageKeyEnvelope) :
    Service PUnit := do
  let devices ← reads (·.devices)
  demand (∀ e ∈ envelopes, ∃ d ∈ devices, d.id = e.deviceId)
    (.foreignKey "MessageKeyEnvelope_deviceId_fkey")
  updateMessages (·.id = messageId) fun m => { m with envelopes := newEnvelopes m.envelopes envelopes }

end Vesper.Server
