import Vesper.Server.Database

/-!
# The conversations service

The methods of `ConversationsService`, each as one program over the database. The time of a call is
an argument. The metadata validator and the case-insensitive matching of the database are
parameters: no result depends on them.
-/

namespace Vesper.Server
open Program

structure Environment where
  /-- `validateAndNormalizeMetadata` -/
  validateAndNormalizeMetadata : Option Text → Except String (Option Text)
  /-- `contains` with `mode: 'insensitive'`: the text first, then the query. -/
  contains : Text → Text → Bool

def EDIT_WINDOW_MS : Int := 15 * 60 * 1000

def ALLOWED_EMOJIS : List String := ["👍", "❤️", "😂", "😮", "😢", "😡", "🔥", "👏", "🎉", "💯"]

def MAX_PINNED_MESSAGES : Nat := 20

def MAX_CONTENT : Nat := 4096

/-! ## Helpers -/

structure ReactionGroup where
  emoji : String
  count : Nat
  userIds : List UserId
  users : List (Option ReactionUser)
  deriving DecidableEq, Repr

/-- Puts a reaction into the group of its emoji, or into a new one at the end. -/
def addReaction (r : SelectedReaction) : List ReactionGroup → List ReactionGroup
  | [] => [⟨r.emoji, 1, [r.userId], [r.user]⟩]
  | g :: gs =>
    if g.emoji = r.emoji then ⟨g.emoji, g.count + 1, g.userIds ++ [r.userId], g.users ++ [r.user]⟩ :: gs
    else g :: addReaction r gs

def groupReactions (reactions : List SelectedReaction) : List ReactionGroup :=
  reactions.foldl (fun groups r => addReaction r groups) []

/-- What a member has read, as the readers of a message are told. -/
structure LastRead where
  userId : UserId
  lastReadAt : Time
  nickname : Option Text
  deriving DecidableEq, Repr

/-- A message as clients receive it; the readers are listed in a history only. -/
structure MessageView where
  rest : SelectedFields
  reactions : List ReactionGroup
  isRead : Bool
  readBy : Option (List (UserId × Option Text))
  deriving DecidableEq, Repr

def mapMessage (m : Selected) : MessageView :=
  ⟨m.rest, groupReactions m.reactions, false, none⟩

def mapMessageWithRead (currentUserId : UserId) (otherMembersLastRead : List LastRead)
    (m : Selected) : MessageView :=
  let readBy := otherMembersLastRead.filter (m.rest.createdAt ≤ ·.lastReadAt)
  ⟨m.rest, groupReactions m.reactions, m.rest.senderId ≠ currentUserId ∨ readBy ≠ [],
    some (readBy.map fun r => (r.userId, r.nickname))⟩

def assertMember (userId : UserId) (conversationId : ConversationId) :
    Service ConversationMember := do
  let m ← findMember conversationId userId
  orThrow m (.forbidden "Not a member")

def assertAdmin (userId : UserId) (conversationId : ConversationId) :
    Service ConversationMember := do
  let m ← assertMember userId conversationId
  demand (m.role ≠ .member) (.forbidden "Admin required")
  return m

def Database.otherMembersLastRead (db : Database) (conversationId : ConversationId)
    (currentUserId : UserId) : List LastRead :=
  ((db.membersOf conversationId).filter (·.userId ≠ currentUserId)).map fun m =>
    ⟨m.userId, m.lastReadAt, (db.user? m.userId).map (·.nickname)⟩

/-- Whether the time of a scheduled message has come, for everybody but its sender. -/
def scheduledFilter (now : Time) (userId : UserId) (m : Message) : Bool :=
  m.scheduledAt.all (· ≤ now) || m.senderId = userId

/-- The messages that a member has not cleared away. -/
def notCleared (clearedAt : Option Time) (m : Message) : Bool :=
  clearedAt.all (· < m.createdAt)

/-! ## The list of conversations -/

/-- The last message of a conversation in the list. -/
structure LastMessage where
  id : MessageId
  content : Text
  senderId : UserId
  createdAt : Time
  fileType : Option Text
  fileUrl : Option Text
  deriving DecidableEq, Repr

structure MemberSummary where
  userId : UserId
  role : MemberRole
  joinedAt : Time
  user : Option MemberUser
  deriving DecidableEq, Repr

structure ConversationSummary where
  id : ConversationId
  type : ConversationType
  name : Option Text
  avatarUrl : Option Text
  description : Option Text
  isOnline : Bool
  myRole : MemberRole
  lastMessage : Option LastMessage
  unreadCount : Nat
  members : List MemberSummary
  updatedAt : Time
  isPinned : Bool
  isArchived : Bool
  pinnedMessage : Option PinnedPreview
  pinnedCount : Nat
  deriving DecidableEq, Repr

/-- The name of the conversation with oneself. -/
def savedName : Text := [0x417, 0x431, 0x435, 0x440, 0x435, 0x436, 0x435, 0x43D, 0x456]

/-- One entry of the list. -/
def Database.summary (db : Database) (now : Time) (userId : UserId) (m : ConversationMember)
    (conv : Conversation) : ConversationSummary :=
  let ofConv := fun msg : Message => decide (msg.conversationId = conv.id)
  let members := db.membersOf conv.id
  let other := if conv.type = .direct then members.find? (·.userId ≠ userId) else none
  let otherUser := other.bind fun o => db.memberUser o.userId
  { id := conv.id
    type := conv.type
    name :=
      if conv.type = .direct then
        match other with
        | some _ => otherUser.map (·.nickname)
        | none => some savedName
      else conv.name
    avatarUrl :=
      if other.isSome then otherUser.bind (·.avatarUrl) else conv.avatarUrl
    description := conv.description
    isOnline := otherUser.any (·.isOnline)
    myRole := m.role
    lastMessage :=
      (db.newest fun msg => ofConv msg && msg.deletedAt.isNone && scheduledFilter now userId msg).head?.map
        fun msg => ⟨msg.id, msg.content, msg.senderId, msg.createdAt, msg.fileType, msg.fileUrl⟩
    unreadCount := (db.messages.filter fun msg => ofConv msg && msg.senderId ≠ userId &&
      msg.deletedAt.isNone && m.lastReadAt < msg.createdAt && scheduledFilter now userId msg).length
    members := members.map fun mem => ⟨mem.userId, mem.role, mem.joinedAt, db.memberUser mem.userId⟩
    updatedAt := conv.updatedAt
    isPinned := m.isPinned
    isArchived := m.isArchived
    pinnedMessage := (db.pinsOf conv.id).head?.bind fun pin => db.pinnedPreview pin.messageId
    pinnedCount := (db.pinsOf conv.id).length }

/-- Pinned chats first, then the latest updated. -/
def listedBefore (a b : ConversationMember × Conversation) : Prop :=
  a.1.isPinned ∧ ¬ b.1.isPinned ∨ a.1.isPinned = b.1.isPinned ∧ b.2.updatedAt ≤ a.2.updatedAt

instance : DecidableRel listedBefore := fun a b =>
  inferInstanceAs (Decidable (a.1.isPinned ∧ ¬ b.1.isPinned ∨
    a.1.isPinned = b.1.isPinned ∧ b.2.updatedAt ≤ a.2.updatedAt))

/-- The memberships of a user on the shelf that is shown, with their conversations. -/
def Database.memberships (db : Database) (userId : UserId) (showArchived : Bool) :
    List (ConversationMember × Conversation) :=
  ((db.members.filter fun m => m.userId = userId ∧ m.isArchived = showArchived).filterMap fun m =>
    (db.conversation? m.conversationId).map (m, ·)).insertionSort listedBefore

def getMyConversations (now : Time) (userId : UserId) (skip take : Nat) (showArchived : Bool) :
    Service (List ConversationSummary × Bool) := do
  let TAKE := min take 50
  let memberships ← reads fun db =>
    ((db.memberships userId showArchived).drop skip).take (TAKE + 1)
  let conversations ← reads fun db =>
    (memberships.take TAKE).map fun (m, conv) => db.summary now userId m conv
  return (conversations, TAKE < memberships.length)

def setChatPinned (userId : UserId) (conversationId : ConversationId) (isPinned : Bool) :
    Service Bool := do
  let _ ← assertMember userId conversationId
  updateMembers (fun m => m.conversationId = conversationId ∧ m.userId = userId) fun m =>
    { m with isPinned }
  return isPinned

def setChatArchived (userId : UserId) (conversationId : ConversationId) (isArchived : Bool) :
    Service Bool := do
  let _ ← assertMember userId conversationId
  updateMembers (fun m => m.conversationId = conversationId ∧ m.userId = userId) fun m =>
    { m with isArchived, isPinned := if isArchived then false else m.isPinned }
  return isArchived

/-! ## Pinned messages -/

structure Pinned where
  messageId : MessageId
  pinnedAt : Time
  message : Option PinnedPreview
  deriving DecidableEq, Repr

/-- `upsert` of a pin: one that exists is renewed. -/
def upsertPin (now : Time) (userId : UserId) (conversationId : ConversationId)
    (messageId : MessageId) : Service PUnit :=
  modify fun db =>
    let here := fun pin : PinnedMessage =>
      decide (pin.conversationId = conversationId ∧ pin.messageId = messageId)
    if db.pins.any here then
      { db with pins := db.pins.map fun pin =>
          if here pin then { pin with pinnedAt := now, pinnedById := userId } else pin }
    else
      { db with
        pins := db.pins ++ [⟨db.nextPinId, conversationId, messageId, userId, now⟩]
        nextPinId := db.nextPinId + 1 }

def addPinnedMessage (now : Time) (userId : UserId) (conversationId : ConversationId)
    (messageId : MessageId) : Service (Pinned × Nat) := do
  let _ ← assertAdmin userId conversationId
  let msg ← orThrow ((← findMessage messageId).filter (·.conversationId = conversationId))
    (.notFound "Message not found")
  demand (msg.deletedAt = none) (.badRequest "Cannot pin a deleted message")
  let currentCount ← reads fun db => (db.pinsOf conversationId).length
  demand (currentCount < MAX_PINNED_MESSAGES)
    (.badRequest s!"Cannot pin more than {MAX_PINNED_MESSAGES} messages")
  upsertPin now userId conversationId messageId
  let message ← reads (·.pinnedPreview messageId)
  let pinnedCount ← reads fun db => (db.pinsOf conversationId).length
  return (⟨messageId, now, message⟩, pinnedCount)

structure Unpinned where
  unpinnedMessageId : MessageId
  pinnedCount : Nat
  latestPinnedMessage : Option PinnedPreview
  deriving DecidableEq, Repr

def removePinnedMessage (userId : UserId) (conversationId : ConversationId)
    (messageId : MessageId) : Service Unpinned := do
  let _ ← assertAdmin userId conversationId
  modify fun db => { db with
    pins := db.pins.filter fun pin => ¬(pin.conversationId = conversationId ∧ pin.messageId = messageId) }
  let pinnedCount ← reads fun db => (db.pinsOf conversationId).length
  let latest ← reads fun db =>
    (db.pinsOf conversationId).head?.bind fun pin => db.pinnedPreview pin.messageId
  return ⟨messageId, pinnedCount, latest⟩

structure PinView where
  id : Nat
  messageId : MessageId
  pinnedAt : Time
  pinnedBy : Option Author
  message : Option PinnedPreview
  fileType : Option Text
  fileUrl : Option Text
  deriving DecidableEq, Repr

def getPinnedMessages (userId : UserId) (conversationId : ConversationId) :
    Service (List PinView) := do
  let _ ← assertMember userId conversationId
  reads fun db => (db.pinsOf conversationId).map fun pin =>
    { id := pin.id
      messageId := pin.messageId
      pinnedAt := pin.pinnedAt
      pinnedBy := db.author pin.pinnedById
      message := db.pinnedPreview pin.messageId
      fileType := (db.message? pin.messageId).bind (·.fileType)
      fileUrl := (db.message? pin.messageId).bind (·.fileUrl) }

/-! ## Messages -/

/-- The page that a cursor opens: from the message of the cursor on, which is skipped. A cursor that
names no message opens none. -/
def Database.pageAfter (db : Database) (cursor : MessageId) (p : Message → Bool) : List Message :=
  if (db.message? cursor).isSome then (db.newest fun m => p m && m.id ≤ cursor).drop 1 else []

/-- The messages of a conversation that meet a condition, as a member sees them. -/
def Database.history (db : Database) (userId : UserId) (conversationId : ConversationId)
    (page : List Message) : List MessageView :=
  page.map fun m =>
    mapMessageWithRead userId (db.otherMembersLastRead conversationId userId) (db.select m)

/-- The first page of a history says where the unread messages start. -/
inductive History
  | page (messages : List MessageView)
  | first (messages : List MessageView) (firstUnreadId : Option MessageId)
  deriving DecidableEq, Repr

def getMessages (now : Time) (userId : UserId) (conversationId : ConversationId)
    (cursor : Option MessageId) : Service History := do
  let member ← assertMember userId conversationId
  let visible := fun m : Message => m.conversationId = conversationId && scheduledFilter now userId m
  match cursor.filter (· ≠ 0) with
  | some cursor =>
    -- the time up to which the member cleared the conversation is only read for the first page
    let messages ← reads fun db =>
      db.history userId conversationId ((db.pageAfter cursor visible).take 30).reverse
    return .page messages
  | none =>
    let messages ← reads fun db => db.history userId conversationId
      ((db.newest fun m => visible m && notCleared member.clearedAt m).take 30).reverse
    let firstUnread := messages.find? fun m =>
      m.rest.senderId ≠ userId && member.lastReadAt < m.rest.createdAt
    return .first messages (firstUnread.map (·.rest.id))

def getMessagesAround (now : Time) (userId : UserId) (conversationId : ConversationId)
    (around : MessageId) : Service (List MessageView) := do
  let member ← assertMember userId conversationId
  reads fun db => db.history userId conversationId
    ((db.newest fun m => m.conversationId = conversationId && m.id ≤ around &&
      notCleared member.clearedAt m && scheduledFilter now userId m).take 30).reverse

def getMessagesAfter (now : Time) (userId : UserId) (conversationId : ConversationId)
    (after : MessageId) : Service (List MessageView) := do
  let member ← assertMember userId conversationId
  reads fun db => db.history userId conversationId
    ((db.oldest fun m => m.conversationId = conversationId && after < m.id &&
      notCleared member.clearedAt m && scheduledFilter now userId m).take 30)

def searchMessages (env : Environment) (now : Time) (userId : UserId)
    (conversationId : ConversationId) (query : Text) : Service (List MessageView) := do
  let _ ← assertMember userId conversationId
  let q := trim query
  if q.length < 2 then
    return []
  else
    reads fun db => db.history userId conversationId
      ((db.newest fun m => m.conversationId = conversationId && m.deletedAt.isNone &&
        env.contains m.content q && scheduledFilter now userId m).take 30).reverse

inductive Scope
  | self | both
  deriving DecidableEq, Repr

def clearMessages (now : Time) (userId : UserId) (conversationId : ConversationId)
    (scope : Scope) : Service Scope := do
  let member ← assertMember userId conversationId
  let conv ← orThrow (← findConversation conversationId) .recordNotFound
  match scope with
  | .both =>
    demand (conv.type = .direct ∨ member.role ≠ .member)
      (.forbidden "Only admins can clear chat for everyone")
    updateMessages (fun m => m.conversationId = conversationId ∧ m.deletedAt = none) fun m =>
      { m with deletedAt := some now }
    modify fun db => { db with pins := db.pins.filter (·.conversationId ≠ conversationId) }
    updateMembers (·.conversationId = conversationId) fun m => { m with clearedAt := some now }
    touchConversation now conversationId
  | .self =>
    updateMembers (fun m => m.conversationId = conversationId ∧ m.userId = userId) fun m =>
      { m with clearedAt := some now }
  return scope

structure MediaFile where
  id : MessageId
  fileUrl : Option Text
  fileName : Option Text
  fileType : Option Text
  fileSize : Option Nat
  metadata : Option Text
  createdAt : Time
  senderId : UserId
  sender : Option Author
  deriving DecidableEq, Repr

def getMediaFiles (now : Time) (userId : UserId) (conversationId : ConversationId) :
    Service (List MediaFile) := do
  let _ ← assertMember userId conversationId
  reads fun db => ((db.newest fun m => m.conversationId = conversationId && m.deletedAt.isNone &&
      m.fileUrl.isSome && scheduledFilter now userId m).take 200).map fun m =>
    ⟨m.id, m.fileUrl, m.fileName, m.fileType, m.fileSize, m.metadata, m.createdAt, m.senderId,
      db.author m.senderId⟩

def getMessageById (messageId : MessageId) : Service (Option MessageView) := do
  return (← findSelected messageId).map mapMessage

structure NewMessage where
  content : Option Text
  fileUrl : Option Text
  fileName : Option Text
  fileType : Option Text
  fileSize : Option Nat
  replyToId : Option MessageId
  metadata : Option Text
  scheduledAt : Option Time
  senderDeviceId : Option DeviceId
  envelopes : List MessageKeyEnvelope
  deriving DecidableEq, Repr

/-- A row with nothing but what is always set. -/
def Message.blank (id : MessageId) (now : Time) (senderId : UserId)
    (conversationId : ConversationId) (content : Text) : Message :=
  ⟨id, content, now, none, none, none, none, none, none, none, none, none, none, senderId,
    conversationId, none, none, [], []⟩

/-- What a validator lets through. -/
def valid {α : Type} : Except String α → Service α
  | .ok a => return a
  | .error message => throw (.badRequest message)

def saveMessage (env : Environment) (now : Time) (userId : UserId)
    (conversationId : ConversationId) (dto : NewMessage) : Service MessageView := do
  demand (dto.content.all (·.length ≤ MAX_CONTENT))
    (.badRequest s!"Message content exceeds maximum length of {MAX_CONTENT} characters")
  let member ← assertMember userId conversationId
  let conv ← orThrow (← findConversation conversationId) (.notFound "Conversation not found")
  demand (conv.type ≠ .channel ∨ member.role ≠ .member)
    (.forbidden "Only admins can post in channels")
  let metadata ← valid (env.validateAndNormalizeMetadata dto.metadata)
  let msg ← createMessage fun id =>
    { Message.blank id now userId conversationId ((dto.content.map trim).getD []) with
      fileUrl := dto.fileUrl
      fileName := dto.fileName
      fileType := dto.fileType
      fileSize := dto.fileSize
      replyToId := dto.replyToId
      metadata
      scheduledAt := dto.scheduledAt
      senderDeviceId := dto.senderDeviceId }
  let selected ← reads (·.select msg)
  if dto.envelopes ≠ [] then
    createEnvelopes msg.id dto.envelopes
    touchConversation now conversationId
    let withEnvelopes ← orThrow (← findSelected msg.id) .recordNotFound
    return mapMessage withEnvelopes
  else
    touchConversation now conversationId
    return mapMessage selected

def markAsRead (now : Time) (userId : UserId) (conversationId : ConversationId) : Service PUnit :=
  updateMembers (fun m => m.conversationId = conversationId ∧ m.userId = userId) fun m =>
    { m with lastReadAt := now }

/-- Removes the storage object of a message once no other message that is not deleted uses it. -/
def releaseFile (msg : Message) : Service PUnit := do
  when (truthy msg.fileUrl) do
    let otherRefs ← reads fun db => db.messages.filter fun m =>
      m.fileUrl = msg.fileUrl ∧ m.deletedAt = none ∧ m.id ≠ msg.id
    when (otherRefs = []) do
      modify fun db => { db with removedFiles := db.removedFiles ++ msg.fileUrl.toList }

def deleteMessage (now : Time) (messageId : MessageId) (userId : UserId) : Service Message := do
  let msg ← orThrow (← findMessage messageId) (.notFound "Message not found")
  when (msg.senderId ≠ userId) do
    let member ← findMember msg.conversationId userId
    demand (∃ m ∈ member, m.role ≠ .member) (.forbidden "Cannot delete this message")
  if msg.deletedAt ≠ none then
    return msg
  else
    updateMessages (·.id = messageId) fun m => { m with deletedAt := some now }
    releaseFile msg
    return { msg with deletedAt := some now }

def editMessage (now : Time) (messageId : MessageId) (userId : UserId) (content : Text) :
    Service Message := do
  let msg ← orThrow (← findMessage messageId) (.notFound "Not found")
  demand (msg.senderId = userId) (.forbidden "Cannot edit others' messages")
  demand (msg.deletedAt = none) (.badRequest "Cannot edit deleted message")
  demand (now - msg.createdAt ≤ EDIT_WINDOW_MS) (.badRequest "Edit window expired")
  let trimmed := trim content
  demand (trimmed ≠ []) (.badRequest "Content empty")
  if trimmed = msg.content then
    return msg
  else
    updateMessages (·.id = messageId) fun m => { m with content := trimmed, editedAt := some now }
    return { msg with content := trimmed, editedAt := some now }

/-- Removes the reaction if it is there, adds it otherwise. -/
def Message.toggle (m : Message) (now : Time) (userId : UserId) (emoji : String) : Message :=
  let mine := fun r : Reaction => decide (r.userId = userId ∧ r.emoji = emoji)
  { m with reactions :=
      if m.reactions.any mine then m.reactions.filter (! mine ·)
      else m.reactions ++ [⟨emoji, userId, now⟩] }

def toggleReaction (now : Time) (messageId : MessageId) (userId : UserId) (emoji : String) :
    Service (List ReactionGroup × ConversationId) := do
  demand (emoji ∈ ALLOWED_EMOJIS) (.badRequest "Invalid emoji")
  let msg ← orThrow (← findMessage messageId) (.notFound "Not found")
  demand (msg.deletedAt = none) (.badRequest "Cannot react to deleted message")
  let _ ← assertMember userId msg.conversationId
  updateMessages (·.id = messageId) fun m => m.toggle now userId emoji
  let reactions ← reads (·.selectReactions (msg.toggle now userId emoji))
  return (groupReactions reactions, msg.conversationId)

def forwardMessage (now : Time) (userId : UserId) (messageId : MessageId)
    (targetConversationId : ConversationId) (reEncryptedContent : Option Text) :
    Service MessageView := do
  let _ ← assertMember userId targetConversationId
  let original ← orThrow (← findMessage messageId) (.notFound "Message not found")
  let msg ← createMessage fun id =>
    { Message.blank id now userId targetConversationId (reEncryptedContent.getD original.content) with
      fileUrl := original.fileUrl
      fileName := original.fileName
      fileType := original.fileType
      fileSize := original.fileSize
      forwardedFromId := some original.id
      forwardedFromUserId := some original.senderId }
  let selected ← reads (·.select msg)
  touchConversation now targetConversationId
  return mapMessage selected

/-! ## Conversations and members -/

structure ConversationView where
  conversation : Conversation
  members : List (ConversationMember × Option MemberUser)
  deriving DecidableEq, Repr

def Database.withMembers (db : Database) (conv : Conversation) : ConversationView :=
  ⟨conv, (db.membersOf conv.id).map fun m => (m, db.memberUser m.userId)⟩

/-- A membership as it starts. -/
def ConversationMember.joining (now : Time) (conversationId : ConversationId) (userId : UserId)
    (role : MemberRole) : ConversationMember :=
  ⟨conversationId, userId, role, now, now, none, false, false⟩

/-- `create` of a conversation with its first members, in one transaction. -/
def createConversation (now : Time) (type : ConversationType) (name description : Option Text)
    (createdById : UserId) (members : List (UserId × MemberRole)) : Service ConversationView := do
  let id ← reads (·.nextConversationId)
  modify fun db => { db with nextConversationId := db.nextConversationId + 1 }
  let users ← reads (·.users)
  demand (∀ m ∈ members, ∃ u ∈ users, u.id = m.1) (.foreignKey "ConversationMember_userId_fkey")
  let conv : Conversation := ⟨id, type, name, description, none, createdById, now, now⟩
  modify fun db => { db with
    conversations := db.conversations ++ [conv]
    members := db.members ++ members.map fun m => .joining now id m.1 m.2 }
  reads (·.withMembers conv)

/-- The direct conversation of two users, or of one with themselves. -/
def Database.directOf (db : Database) (userId targetId : UserId) : Option Conversation :=
  db.conversations.find? fun conv => conv.type = .direct ∧
    if userId = targetId then
      (∃ m ∈ db.membersOf conv.id, m.userId = userId) ∧ ∀ m ∈ db.membersOf conv.id, m.userId = userId
    else
      (∃ m ∈ db.membersOf conv.id, m.userId = userId) ∧ ∃ m ∈ db.membersOf conv.id, m.userId = targetId

def getOrCreateDirect (now : Time) (userId targetId : UserId) : Service ConversationView := do
  when (userId ≠ targetId) do
    let target ← findUser targetId
    demand (target ≠ none) (.notFound "User not found")
  match ← reads (·.directOf userId targetId) with
  | some existing => reads (·.withMembers existing)
  | none =>
    createConversation now .direct none none userId
      (if userId = targetId then [(userId, .member)] else [(userId, .member), (targetId, .member)])

def createGroup (now : Time) (userId : UserId) (name : Text) (description : Option Text)
    (memberIds : List UserId) : Service ConversationView :=
  let uniqueIds := (memberIds.filter (· ≠ userId)).eraseDups
  createConversation now .group (some name) description userId
    ((userId, .owner) :: uniqueIds.map (·, .member))

def createChannel (now : Time) (userId : UserId) (name : Text) (description : Option Text) :
    Service ConversationView :=
  createConversation now .channel (some name) description userId [(userId, .owner)]

def getConversation (userId : UserId) (conversationId : ConversationId) :
    Service (Option ConversationView) := do
  let _ ← assertMember userId conversationId
  reads fun db => (db.conversation? conversationId).map db.withMembers

def addMember (now : Time) (adminId : UserId) (conversationId : ConversationId)
    (targetUserId : UserId) : Service (ConversationMember × Option MemberUser) := do
  let conv ← findConversation conversationId
  demand (∀ c ∈ conv, c.type ≠ .direct) (.badRequest "Cannot add to direct chats")
  let _ ← assertAdmin adminId conversationId
  let exist ← findMember conversationId targetUserId
  demand (exist = none) (.conflict "Already a member")
  let user ← findUser targetUserId
  demand (user ≠ none) (.foreignKey "ConversationMember_userId_fkey")
  let member := ConversationMember.joining now conversationId targetUserId .member
  modify fun db => { db with members := db.members ++ [member] }
  let view ← reads (·.memberUser targetUserId)
  return (member, view)

def removeMember (adminId : UserId) (conversationId : ConversationId) (targetUserId : UserId) :
    Service UserId := do
  let conv ← findConversation conversationId
  demand (∀ c ∈ conv, c.type ≠ .direct) (.badRequest "Cannot remove from direct chats")
  when (adminId ≠ targetUserId) do
    let _ ← assertAdmin adminId conversationId
    let target ← findMember conversationId targetUserId
    demand (∀ m ∈ target, m.role ≠ .owner) (.forbidden "Cannot remove owner")
  modify fun db => { db with
    senderKeys := db.senderKeys.filter fun k =>
      ¬(k.conversationId = conversationId ∧ k.senderId = targetUserId) }
  let member ← findMember conversationId targetUserId
  demand (member ≠ none) .recordNotFound
  modify fun db => { db with
    members := db.members.filter fun m =>
      ¬(m.conversationId = conversationId ∧ m.userId = targetUserId) }
  return targetUserId

/-- The role that a string stands for in a query. -/
def MemberRole.ofString? : String → Option MemberRole
  | "OWNER" => some .owner
  | "ADMIN" => some .admin
  | "MEMBER" => some .member
  | _ => none

/-- The role is whatever the body of the request holds, if anything: only the query looks at it. A
body without a role changes nothing. -/
def setMemberRole (ownerId : UserId) (conversationId : ConversationId) (targetUserId : UserId)
    (role : Option String) : Service ConversationMember := do
  let owner ← findMember conversationId ownerId
  demand (∃ m ∈ owner, m.role = .owner) (.forbidden "Owner only")
  demand (∀ name ∈ role, MemberRole.ofString? name ≠ none) (.invalidValue "role")
  let member ← orThrow (← findMember conversationId targetUserId) .recordNotFound
  let role := (role.bind MemberRole.ofString?).getD member.role
  updateMembers (fun m => m.conversationId = conversationId ∧ m.userId = targetUserId) fun m =>
    { m with role }
  return { member with role }

/-- The fields of a conversation that an update sets. -/
structure UpdateConversation where
  name : Option Text
  description : Option Text
  avatarUrl : Option Text
  deriving DecidableEq, Repr

def updateConversation (now : Time) (userId : UserId) (conversationId : ConversationId)
    (dto : UpdateConversation) : Service Conversation := do
  let _ ← assertAdmin userId conversationId
  let conv ← orThrow (← findConversation conversationId) .recordNotFound
  let updated := { conv with
    name := dto.name <|> conv.name
    description := dto.description <|> conv.description
    avatarUrl := dto.avatarUrl <|> conv.avatarUrl
    updatedAt := now }
  modify fun db => { db with
    conversations := db.conversations.map fun c => if c.id = conversationId then updated else c }
  return updated

/-! ## Sender keys -/

/-- `upsert` of the key that a sender has for a recipient. -/
def upsertSenderKey (key : GroupSenderKey) : List GroupSenderKey → List GroupSenderKey
  | [] => [key]
  | k :: ks =>
    if k.conversationId = key.conversationId ∧ k.senderId = key.senderId ∧
        k.recipientId = key.recipientId then key :: ks
    else k :: upsertSenderKey key ks

def setSenderKey (requesterId : UserId) (conversationId : ConversationId)
    (keys : List (UserId × Text)) (version : Nat) : Service PUnit := do
  let _ ← assertMember requesterId conversationId
  let users ← reads (·.users)
  -- the upserts run on their own: those that break no foreign key stay
  modify fun db => { db with
    senderKeys := (keys.filter fun k => ∃ u ∈ users, u.id = k.1).foldl
      (fun table k => upsertSenderKey ⟨conversationId, requesterId, k.1, k.2, version⟩ table)
      db.senderKeys }
  demand (∀ k ∈ keys, ∃ u ∈ users, u.id = k.1) (.foreignKey "GroupSenderKey_recipientId_fkey")

def deleteAllMySenderKeys (userId : UserId) : Service PUnit :=
  modify fun db => { db with senderKeys := db.senderKeys.filter (·.senderId ≠ userId) }

def getSenderKeysForMe (userId : UserId) (conversationId : ConversationId) :
    Service (List (UserId × Text × Nat)) := do
  let _ ← assertMember userId conversationId
  reads fun db => (db.senderKeys.filter fun k =>
    k.conversationId = conversationId ∧ k.recipientId = userId).map fun k =>
      (k.senderId, k.encryptedKey, k.version)

end Vesper.Server
