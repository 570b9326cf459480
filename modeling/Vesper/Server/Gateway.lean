import Mathlib.Algebra.Group.Int.Defs
import Mathlib.Data.List.Perm.Basic
import Vesper.Lib.Machine
import Vesper.Server.Conversations

/-!
# The chat gateway and the conversations controller

The socket handlers of `ChatGateway` that concern conversations, the routes of
`ConversationsController`, and the machine in which they meet connections, disconnections, timers
and restarts. A handler and a route each run as one step, except where the source suspends between
reading memberships or sockets and joining rooms, and around the changes of presence: what follows
such an `await` is a job, resumed by a later step. Calls, friend requests and device synchronisation
use no conversation room and are left out.
-/

namespace Vesper.Server
open Program

abbrev SocketId := Nat

/-! ## Rate limits -/

/-- `WsRateLimiter`: for each user the times of the calls that were let through. -/
structure WsRateLimiter where
  limit : Nat
  ttlMs : Int
  windows : UserId → List Time

namespace WsRateLimiter
variable (limiter : WsRateLimiter) (now : Time)

def new (limit : Nat) (ttlSeconds : Int) : WsRateLimiter := ⟨limit, ttlSeconds * 1000, fun _ => []⟩

def fresh (userId : UserId) : List Time :=
  (limiter.windows userId).filter (now - · < limiter.ttlMs)

def isAllowed (userId : UserId) : Bool := (limiter.fresh now userId).length < limiter.limit

/-- The limiter after `isAllowed`. -/
def hit (userId : UserId) : WsRateLimiter :=
  let fresh := limiter.fresh now userId
  { limiter with
    windows := Function.update limiter.windows userId
      (if limiter.isAllowed now userId then fresh ++ [now] else fresh) }

/-- Seconds, rounded up. -/
def retryAfter (userId : UserId) : Int :=
  match (limiter.windows userId).min? with
  | none => 0
  | some oldest => (oldest + limiter.ttlMs - now + 999) / 1000

def cleanup : WsRateLimiter := { limiter with windows := limiter.fresh now }

end WsRateLimiter

inductive Limit
  | message | typing | react | mutate | forward
  deriving DecidableEq, Repr

def initialLimiters : Limit → WsRateLimiter
  | .message => .new 60 60
  | .typing => .new 20 60
  | .react => .new 30 60
  | .mutate => .new 30 60
  | .forward => .new 20 60

/-! ## What the server sends -/

inductive Response
  | conversations (page : List ConversationSummary) (hasMore : Bool)
  | conversation (conv : Option ConversationView)
  | updated (conv : Conversation)
  | chatPinned (isPinned : Bool)
  | chatArchived (isArchived : Bool)
  | history (messages : History)
  | messages (messages : List MessageView)
  | cleared (scope : Scope)
  | media (files : List MediaFile)
  | member (member : ConversationMember) (user : Option MemberUser)
  | removed (userId : UserId)
  | role (member : ConversationMember)
  | pinned (pinned : Pinned) (pinnedCount : Nat)
  | unpinned (unpinned : Unpinned)
  | pins (pins : List PinView)
  | message (message : MessageView)
  | ok
  | senderKeys (keys : List (UserId × Text × Nat))
  deriving DecidableEq, Repr

inductive Event
  | rateLimited (event : String) (retryAfter : Int) (message : String)
  | messageFailed (error : String)
  | messageScheduled (message : MessageView)
  | onMessage (message : MessageView)
  | conversationRead (userId : UserId) (conversationId : ConversationId)
  | onTyping (userId : UserId) (nickname : Text) (conversationId : ConversationId) (isTyping : Bool)
  | messageDeleted (messageId : MessageId) (conversationId : ConversationId)
  | deleteFailed (messageId : MessageId) (error : String)
  | messageEdited (messageId : MessageId) (content : Text) (editedAt : Option Time)
      (conversationId : ConversationId)
  | editFailed (messageId : MessageId) (error : String)
  | reactionToggled (messageId : MessageId) (reactions : List ReactionGroup)
      (conversationId : ConversationId)
  | joinedConversation (conversationId : ConversationId)
  | addedToConversation (conversationId : ConversationId)
  | messagePinned (conversationId : ConversationId) (pinnedMessageId : MessageId)
      (pinnedMessage : Option PinnedPreview) (pinnedCount : Nat)
  | pinFailed (error : String)
  | messageUnpinned (conversationId : ConversationId)
  | unpinFailed (error : String)
  | senderKeyRedistributionRequested (conversationId : ConversationId) (requesterId : UserId)
  | peerKeyRotated (userId : UserId)
  | forwardFailed (error : String)
  | userStatusChanged (userId : UserId) (isOnline : Bool)
  | push (title body : Text) (senderId : UserId)
  | response (outcome : Except HttpError Response)
  deriving DecidableEq

inductive Target
  | client (socket : SocketId)
  /-- The room `conv_` of a conversation. -/
  | room (conversationId : ConversationId)
  /-- The room of a conversation without one socket. -/
  | roomBut (conversationId : ConversationId) (socket : SocketId)
  /-- The room `user_` of a user. -/
  | user (userId : UserId)
  | everyone
  | everyoneBut (socket : SocketId)
  /-- The push subscriptions of a user. -/
  | subscriptions (userId : UserId)
  /-- The user who made the request. -/
  | caller (userId : UserId)
  deriving DecidableEq, Repr

/-- The conversation whose room a target is. -/
def Target.room? : Target → Option ConversationId
  | room c | roomBut c _ => some c
  | _ => none

/-! ## The state of the server -/

/-- A job is resumed once. -/
theorem countP_eraseIdx {α : Type} {q : α → Bool} {as : List α} {i : Nat} {x : α} (h : as[i]? = some x) :
    (as.eraseIdx i).countP q + (if q x then 1 else 0) = as.countP q := by
  obtain ⟨hi, rfl⟩ := List.getElem?_eq_some_iff.mp h
  have hperm : (as[i] :: as.eraseIdx i).Perm as := List.getElem_cons_eraseIdx_perm hi
  rw [← hperm.countP_eq q, List.countP_cons]

/-- A connected socket, with the user it authenticated as. -/
structure Socket where
  id : SocketId
  userId : UserId
  nickname : Text
  rooms : List ConversationId
  deriving DecidableEq, Repr

/-- What remains of a handler that is suspended. -/
inductive Job
  /-- `handleConnection` before it reads the memberships. -/
  | memberships (socket : SocketId) (userId : UserId)
  /-- `handleConnection` once it has read them. -/
  | join (socket : SocketId) (userId : UserId) (conversations : List ConversationId)
  /-- `notifyUserJoinRoom` before it fetches the sockets. -/
  | fetchSockets (userId : UserId) (conversationId : ConversationId)
  /-- `notifyUserJoinRoom` once it has fetched them. -/
  | joinAll (sockets : List SocketId) (userId : UserId) (conversationId : ConversationId)
  /-- `handleDisconnect` after it has looked for a synchronisation. -/
  | leave (socket : SocketId) (userId : UserId)
  | setOnline (userId : UserId) (isOnline : Bool)
  | announce (userId : UserId) (isOnline : Bool)
  deriving DecidableEq, Repr

structure Timer where
  messageId : MessageId
  conversationId : ConversationId
  dueAt : Time
  deriving DecidableEq, Repr

structure Gateway where
  db : Database
  limiters : Limit → WsRateLimiter
  sockets : List Socket
  activeUsers : UserId → List SocketId
  jobs : List Job
  timers : List Timer
  /-- What the current step has sent. -/
  emitted : List (Target × Event)

abbrev Handler (α : Type) := Program Gateway HttpError α

/-- A method of the conversations service, on the database. -/
def service {α : Type} (m : Service α) : Handler α := m.zoom (·.db) fun s db => { s with db }

def emit (target : Target) (event : Event) : Handler PUnit :=
  modify fun s => { s with emitted := s.emitted ++ [(target, event)] }

def suspend (job : Job) : Handler PUnit := modify fun s => { s with jobs := s.jobs ++ [job] }

/-- Puts sockets into rooms; one that has disconnected is no longer there. -/
def joinRooms (sockets : List SocketId) (conversations : List ConversationId) : Handler PUnit :=
  modify fun s => { s with
    sockets := s.sockets.map fun k =>
      if k.id ∈ sockets then { k with rooms := k.rooms ∪ conversations } else k }

def rateLimit (now : Time) (client : Socket) (limit : Limit) (event : String) : Handler Bool := do
  if client.userId = 0 then
    return false
  else
    let allowed ← reads fun s => (s.limiters limit).isAllowed now client.userId
    modify fun s => { s with
      limiters := Function.update s.limiters limit ((s.limiters limit).hit now client.userId) }
    when (! allowed) do
      let retryAfter ← reads fun s => (s.limiters limit).retryAfter now client.userId
      emit (.client client.id) (.rateLimited event retryAfter
        s!"Too many {event} events. Try again in {retryAfter}s.")
    return allowed

/-! ## Socket handlers -/

/-- The largest delay of `setTimeout`; a longer one counts as 1 ms. -/
def MAX_DELAY : Int := 2 ^ 31 - 1

def scheduleMessageDelivery (now : Time) (messageId : MessageId) (conversationId : ConversationId)
    (delayMs : Int) : Handler PUnit :=
  let dueAt := if delayMs < 1 ∨ MAX_DELAY < delayMs then now + 1 else now + delayMs
  modify fun s => { s with timers := s.timers ++ [⟨messageId, conversationId, dueAt⟩] }

/-- A notification for every member but the sender. -/
def pushToMembers (conversationId : ConversationId) (senderId : UserId) (title body : Text) :
    Handler PUnit := do
  let members ← service (reads fun db =>
    (db.membersOf conversationId).filter (·.userId ≠ senderId))
  modify fun s => { s with
    emitted := s.emitted ++
      members.map fun m => (.subscriptions m.userId, .push title body senderId) }

def newMessageTitle : Text := "Нове повідомлення".toList.map fun c => c.val.toUInt16

def encryptedBody : Text :=
  [0xD83D, 0xDD12, 0x20] ++ "Зашифроване повідомлення".toList.map fun c => c.val.toUInt16

def fileBody (fileName : Option Text) : Text :=
  [0xD83D, 0xDCCE, 0x20] ++ fileName.getD ("Файл".toList.map fun c => c.val.toUInt16)

def deliverScheduledMessage (now : Time) (messageId : MessageId)
    (conversationId : ConversationId) : Handler PUnit := do
  match ← service (getMessageById messageId) with
  | none => return
  | some msg =>
    when (msg.rest.deletedAt = none) do
      let senderStillMember ← service (findMember conversationId msg.rest.senderId)
      if senderStillMember = none then
        service (updateMessages (·.id = messageId) fun m => { m with deletedAt := some now })
      else
        emit (.room conversationId) (.onMessage msg)
        pushToMembers conversationId msg.rest.senderId newMessageTitle encryptedBody

/-- What a client sends; a time that does not parse is `some none`. -/
structure SendMessage where
  conversationId : ConversationId
  content : Option Text
  fileUrl : Option Text
  fileName : Option Text
  fileType : Option Text
  fileSize : Option Nat
  replyToId : Option MessageId
  metadata : Option Text
  scheduledAt : Option (Option Time)
  senderDeviceId : Option DeviceId
  envelopes : List MessageKeyEnvelope
  deriving DecidableEq, Repr

def MAX_SCHEDULE_MS : Int := 30 * 24 * 60 * 60 * 1000
def MAX_FILENAME : Nat := 255
def MAX_FILETYPE : Nat := 127
def MAX_FILESIZE : Nat := 10 * 1024 * 1024

namespace SendMessage
variable (data : SendMessage) (now : Time)

/-- There is nothing to send. -/
def isEmpty : Bool :=
  data.conversationId = 0 || ((data.content.map trim).getD [] = [] && ! truthy data.fileUrl)

/-- The error of the first check that fails. -/
def error? : Option String :=
  if ∃ content ∈ data.content, MAX_CONTENT < content.length then
    some "Message too long (max 4096 chars)"
  else if ∃ name ∈ data.fileName, MAX_FILENAME < name.length then some "File name too long"
  else if ∃ type ∈ data.fileType, MAX_FILETYPE < type.length then some "Invalid file type"
  else if ∃ size ∈ data.fileSize, MAX_FILESIZE < size then some "File size exceeds limit"
  else if data.scheduledAt = some none then some "Invalid scheduledAt"
  else if ∃ time ∈ data.scheduledAt.join, MAX_SCHEDULE_MS < time - now then
    some "scheduledAt too far in the future (max 30 days)"
  else none

/-- The time of delivery, when it lies ahead. -/
def deliverAt : Option Time := data.scheduledAt.join.filter (now < ·)

def dto : NewMessage :=
  { data with scheduledAt := data.deliverAt now }

end SendMessage

def handleMessage (env : Environment) (now : Time) (client : Socket) (data : SendMessage) :
    Handler PUnit := do
  when (← rateLimit now client .message "sendMessage") do
    when (! data.isEmpty) do
      match data.error? now with
      | some error => emit (.client client.id) (.messageFailed error)
      | none =>
        tryCatch (do
          let message ← service (saveMessage env now client.userId data.conversationId (data.dto now))
          match data.deliverAt now with
          | some scheduledAt =>
            emit (.client client.id) (.messageScheduled message)
            scheduleMessageDelivery now message.rest.id data.conversationId (scheduledAt - now)
          | none =>
            emit (.room data.conversationId) (.onMessage message)
            pushToMembers data.conversationId client.userId client.nickname
              (if truthy data.fileUrl then fileBody data.fileName else encryptedBody))
          fun e => emit (.client client.id) (.messageFailed e.message)

def handleMarkAsRead (now : Time) (client : Socket) (conversationId : ConversationId) :
    Handler PUnit := do
  service (markAsRead now client.userId conversationId)
  emit (.roomBut conversationId client.id) (.conversationRead client.userId conversationId)

def handleTyping (now : Time) (client : Socket) (conversationId : ConversationId)
    (isTyping : Bool) : Handler PUnit := do
  when (← rateLimit now client .typing "typing") do
    emit (.roomBut conversationId client.id)
      (.onTyping client.userId client.nickname conversationId isTyping)

def handleDelete (now : Time) (client : Socket) (messageId : MessageId) : Handler PUnit := do
  when (← rateLimit now client .mutate "deleteMessage") do
    tryCatch (do
      let deleted ← service (deleteMessage now messageId client.userId)
      emit (.room deleted.conversationId) (.messageDeleted deleted.id deleted.conversationId))
      fun e => emit (.client client.id) (.deleteFailed messageId e.message)

def handleEdit (now : Time) (client : Socket) (messageId : MessageId) (content : Text) :
    Handler PUnit := do
  when (← rateLimit now client .mutate "editMessage") do
    tryCatch (do
      let updated ← service (editMessage now messageId client.userId content)
      emit (.room updated.conversationId)
        (.messageEdited updated.id updated.content updated.editedAt updated.conversationId))
      fun e => emit (.client client.id) (.editFailed messageId e.message)

def handleReaction (now : Time) (client : Socket) (messageId : MessageId) (emoji : String) :
    Handler PUnit := do
  when (← rateLimit now client .react "toggleReaction") do
    tryCatch (do
      let (grouped, conversationId) ← service (toggleReaction now messageId client.userId emoji)
      emit (.room conversationId) (.reactionToggled messageId grouped conversationId))
      -- the error is only logged
      fun _ => return

/-- Whether the user is a member of the conversation is not asked. -/
def handleJoin (client : Socket) (conversationId : ConversationId) : Handler PUnit := do
  joinRooms [client.id] [conversationId]
  emit (.client client.id) (.joinedConversation conversationId)

def handlePin (now : Time) (client : Socket) (conversationId : ConversationId)
    (messageId : MessageId) : Handler PUnit := do
  when (← rateLimit now client .mutate "pinMessage") do
    tryCatch (do
      let (pinned, pinnedCount) ←
        service (addPinnedMessage now client.userId conversationId messageId)
      emit (.room conversationId)
        (.messagePinned conversationId pinned.messageId pinned.message pinnedCount))
      fun e => emit (.client client.id) (.pinFailed e.message)

def handleUnpin (now : Time) (client : Socket) (conversationId : ConversationId)
    (messageId : MessageId) : Handler PUnit := do
  when (← rateLimit now client .mutate "unpinMessage") do
    tryCatch (do
      let _ ← service (removePinnedMessage client.userId conversationId messageId)
      emit (.room conversationId) (.messageUnpinned conversationId))
      fun e => emit (.client client.id) (.unpinFailed e.message)

def handleRequestSenderKeyRedistribution (client : Socket) (conversationId : ConversationId)
    (targetUserId : UserId) : Handler PUnit :=
  tryCatch (do
    let member ← service (findMember conversationId client.userId)
    demand (member ≠ none) .recordNotFound
    emit (.user targetUserId) (.senderKeyRedistributionRequested conversationId client.userId))
    fun _ => return

def handleKeyRotated (client : Socket) : Handler PUnit :=
  emit (.everyoneBut client.id) (.peerKeyRotated client.userId)

def handleForwardMessage (now : Time) (client : Socket) (messageId : MessageId)
    (targetConversationId : ConversationId) (reEncryptedContent : Option Text) :
    Handler PUnit := do
  when (← rateLimit now client .forward "forwardMessage") do
    tryCatch (do
      let msg ← service
        (forwardMessage now client.userId messageId targetConversationId reEncryptedContent)
      emit (.room targetConversationId) (.onMessage msg))
      fun e => emit (.client client.id) (.forwardFailed e.message)

/-- The events of a client. -/
inductive Request
  | sendMessage (data : SendMessage)
  | markAsRead (conversationId : ConversationId)
  | typing (conversationId : ConversationId) (isTyping : Bool)
  | deleteMessage (messageId : MessageId)
  | editMessage (messageId : MessageId) (content : Text)
  | toggleReaction (messageId : MessageId) (emoji : String)
  | joinConversation (conversationId : ConversationId)
  | pinMessage (conversationId : ConversationId) (messageId : MessageId)
  | unpinMessage (conversationId : ConversationId) (messageId : MessageId)
  | requestSenderKeyRedistribution (conversationId : ConversationId) (targetUserId : UserId)
  | notifyKeyRotated
  | forwardMessage (messageId : MessageId) (targetConversationId : ConversationId)
      (reEncryptedContent : Option Text)
  deriving DecidableEq, Repr

def handle (env : Environment) (now : Time) (client : Socket) : Request → Handler PUnit
  | .sendMessage data => handleMessage env now client data
  | .markAsRead conversationId => handleMarkAsRead now client conversationId
  | .typing conversationId isTyping => handleTyping now client conversationId isTyping
  | .deleteMessage messageId => handleDelete now client messageId
  | .editMessage messageId content => handleEdit now client messageId content
  | .toggleReaction messageId emoji => handleReaction now client messageId emoji
  | .joinConversation conversationId => handleJoin client conversationId
  | .pinMessage conversationId messageId => handlePin now client conversationId messageId
  | .unpinMessage conversationId messageId => handleUnpin now client conversationId messageId
  | .requestSenderKeyRedistribution conversationId targetUserId =>
    handleRequestSenderKeyRedistribution client conversationId targetUserId
  | .notifyKeyRotated => handleKeyRotated client
  | .forwardMessage messageId targetConversationId reEncryptedContent =>
    handleForwardMessage now client messageId targetConversationId reEncryptedContent

/-! ## Routes -/

inductive Route
  | getAll (skip take : Option Nat) (archived : Bool)
  | createDirect (targetUserId : UserId)
  | createGroup (name : Text) (description : Option Text) (memberIds : List UserId)
  | createChannel (name : Text) (description : Option Text)
  | getOne (id : ConversationId)
  | update (id : ConversationId) (dto : UpdateConversation)
  | pinChat (id : ConversationId) (isPinned : Bool)
  | archiveChat (id : ConversationId) (isArchived : Bool)
  | getMessages (id : ConversationId) (cursor after around : Option MessageId)
  | clearMessages (id : ConversationId) (scope : Scope)
  | getMedia (id : ConversationId)
  | searchMessages (id : ConversationId) (q : Text)
  | addMember (id : ConversationId) (userId : UserId)
  | removeMember (id : ConversationId) (memberId : UserId)
  | setRole (id : ConversationId) (memberId : UserId) (role : Option String)
  | pinMessage (id : ConversationId) (messageId : MessageId)
  | unpinMessage (id : ConversationId) (messageId : MessageId)
  | getPinnedMessages (id : ConversationId)
  | forwardMessage (messageId : MessageId) (targetConversationId : ConversationId)
  | deleteAllMySenderKeys
  | setGroupKeys (id : ConversationId) (keys : List (UserId × Text)) (version : Nat)
  | getMyGroupKey (id : ConversationId)
  deriving DecidableEq, Repr

/-- The answer to a request. A route that adds members also suspends a notification for each. -/
def respond (env : Environment) (now : Time) (userId : UserId) : Route → Handler Response
  | .getAll skip take archived => do
    let (page, hasMore) ← service (getMyConversations now userId (skip.getD 0)
      (take.elim 20 fun take => min 50 (max 1 take)) archived)
    return .conversations page hasMore
  | .createDirect targetUserId => do
    return .conversation (some (← service (getOrCreateDirect now userId targetUserId)))
  | .createGroup name description memberIds => do
    let conv ← service (createGroup now userId name description memberIds)
    let otherMembers := (conv.members.map fun m => m.1.userId).filter (· ≠ userId)
    modify fun s => { s with
      jobs := s.jobs ++ otherMembers.map fun memberId => .fetchSockets memberId conv.conversation.id }
    return .conversation (some conv)
  | .createChannel name description => do
    return .conversation (some (← service (createChannel now userId name description)))
  | .getOne id => do return .conversation (← service (getConversation userId id))
  | .update id dto => do return .updated (← service (updateConversation now userId id dto))
  | .pinChat id isPinned => do return .chatPinned (← service (setChatPinned userId id isPinned))
  | .archiveChat id isArchived => do
    return .chatArchived (← service (setChatArchived userId id isArchived))
  | .getMessages id cursor after around =>
    match around, after with
    | some around, _ => do
      return .messages (← service (getMessagesAround now userId id around))
    | none, some after => do return .messages (← service (getMessagesAfter now userId id after))
    | none, none => do return .history (← service (getMessages now userId id cursor))
  | .clearMessages id scope => do
    return .cleared (← service (clearMessages now userId id scope))
  | .getMedia id => do return .media (← service (getMediaFiles now userId id))
  | .searchMessages id q => do
    return .messages (← service (searchMessages env now userId id q))
  | .addMember id targetUserId => do
    let (member, user) ← service (addMember now userId id targetUserId)
    suspend (.fetchSockets targetUserId id)
    return .member member user
  | .removeMember id memberId => do return .removed (← service (removeMember userId id memberId))
  | .setRole id memberId role => do
    return .role (← service (setMemberRole userId id memberId role))
  | .pinMessage id messageId => do
    let (pinned, pinnedCount) ← service (addPinnedMessage now userId id messageId)
    return .pinned pinned pinnedCount
  | .unpinMessage id messageId => do
    return .unpinned (← service (removePinnedMessage userId id messageId))
  | .getPinnedMessages id => do return .pins (← service (getPinnedMessages userId id))
  | .forwardMessage messageId targetConversationId => do
    return .message (← service (forwardMessage now userId messageId targetConversationId none))
  | .deleteAllMySenderKeys => do
    service (deleteAllMySenderKeys userId)
    return .ok
  | .setGroupKeys id keys version => do
    service (setSenderKey userId id keys version)
    return .ok
  | .getMyGroupKey id => do return .senderKeys (← service (getSenderKeysForMe userId id))

def call (env : Environment) (now : Time) (userId : UserId) (route : Route) : Handler PUnit :=
  tryCatch (do
    let response ← respond env now userId route
    emit (.caller userId) (.response (.ok response)))
    fun e => emit (.caller userId) (.response (.error e))

/-! ## Connections -/

def handleConnection (client : Socket) : Handler PUnit := do
  modify fun s => { s with
    sockets := s.sockets ++ [client]
    activeUsers := Function.update s.activeUsers client.userId
      ((s.activeUsers client.userId).insert client.id) }
  suspend (.memberships client.id client.userId)

/-- The socket leaves its rooms before the handler runs. -/
def handleDisconnect (socket : SocketId) (userId : UserId) : Handler PUnit := do
  modify fun s => { s with sockets := s.sockets.filter (·.id ≠ socket) }
  suspend (.leave socket userId)

def Job.run : Job → Handler PUnit
  | memberships socket userId => do
    let conversations ← service (reads fun db =>
      (db.members.filter (·.userId = userId)).map (·.conversationId))
    suspend (.join socket userId conversations)
  | join socket userId conversations => do
    joinRooms [socket] conversations
    let sockets ← reads fun s => s.activeUsers userId
    when (sockets.length = 1) do
      suspend (.setOnline userId true)
  | fetchSockets userId conversationId => do
    let sockets ← reads fun s => (s.sockets.filter (·.userId = userId)).map (·.id)
    suspend (.joinAll sockets userId conversationId)
  | joinAll sockets userId conversationId => do
    joinRooms sockets [conversationId]
    emit (.user userId) (.addedToConversation conversationId)
  | leave socket userId => do
    let sockets ← reads fun s => (s.activeUsers userId)
    modify fun s => { s with
      activeUsers := Function.update s.activeUsers userId (sockets.filter (· ≠ socket)) }
    when (sockets ≠ [] ∧ sockets.filter (· ≠ socket) = []) do
      suspend (.setOnline userId false)
  | setOnline userId isOnline => do
    service (modify fun db => { db with
      users := db.users.map fun u => if u.id = userId then { u with isOnline } else u })
    suspend (.announce userId isOnline)
  | announce userId isOnline => emit .everyone (.userStatusChanged userId isOnline)

/-- `onModuleInit` of a new process: nothing but the database is left of the last one. -/
def onModuleInit (now : Time) : Handler PUnit := do
  modify fun s => { s with
    limiters := initialLimiters
    sockets := []
    activeUsers := fun _ => []
    jobs := []
    timers := [] }
  let pending ← service (reads fun db => db.messages.filter fun m =>
    m.scheduledAt.any (now < ·) ∧ m.deletedAt = none)
  pending.forM fun msg => do
    let delay := msg.scheduledAt.getD 0 - now
    if 0 < delay then
      scheduleMessageDelivery now msg.id msg.conversationId delay
    else
      deliverScheduledMessage now msg.id msg.conversationId

/-! ## The machine -/

inductive Input
  | connect (socket : SocketId) (userId : UserId) (nickname : Text)
  | event (socket : SocketId) (request : Request)
  | call (userId : UserId) (route : Route)
  | resume (job : Nat)
  | timeout (timer : Nat)
  | disconnect (socket : SocketId)
  | cleanup
  | restart
  deriving DecidableEq, Repr

namespace Gateway
variable (s : Gateway)

def socket? (id : SocketId) : Option Socket := s.sockets.find? (·.id = id)

/-- The sockets that an emission reaches. -/
def receivers : Target → List Socket
  | .client id => s.sockets.filter (·.id = id)
  | .room c => s.sockets.filter (c ∈ ·.rooms)
  | .roomBut c id => s.sockets.filter fun k => c ∈ k.rooms ∧ k.id ≠ id
  | .user userId => s.sockets.filter (·.userId = userId)
  | .everyone => s.sockets
  | .everyoneBut id => s.sockets.filter (·.id ≠ id)
  | .subscriptions _ | .caller _ => []

/-- An identity is only authenticated for a user that exists; a timer fires no earlier than it is
due. -/
def Enabled (now : Time) : Input → Prop
  | .connect socket userId _ => s.socket? socket = none ∧ (s.db.user? userId).isSome ∧ userId ≠ 0
  | .event socket _ | .disconnect socket => (s.socket? socket).isSome
  | .call userId _ => (s.db.user? userId).isSome ∧ userId ≠ 0
  | .resume job => job < s.jobs.length
  | .timeout timer => ∃ t ∈ s.timers[timer]?, t.dueAt ≤ now
  | .cleanup | .restart => True

instance (now : Time) : (input : Input) → Decidable (s.Enabled now input)
  | .connect _ _ _ => inferInstanceAs (Decidable (_ ∧ _ ∧ _))
  | .event _ _ | .disconnect _ => inferInstanceAs (Decidable (_ = true))
  | .call _ _ => inferInstanceAs (Decidable (_ ∧ _))
  | .resume _ => inferInstanceAs (Decidable (_ < _))
  | .timeout _ => inferInstanceAs (Decidable (∃ t ∈ _, _))
  | .cleanup | .restart => .isTrue trivial

/-- The program that an input runs. -/
def program (env : Environment) (now : Time) : Input → Handler PUnit
  | .connect socket userId nickname => handleConnection ⟨socket, userId, nickname, []⟩
  | .event socket request => (s.socket? socket).elim (return) (handle env now · request)
  | .call userId route => Vesper.Server.call env now userId route
  | .resume job => do
    modify fun s => { s with jobs := s.jobs.eraseIdx job }
    (s.jobs[job]?).elim (return) Job.run
  | .timeout timer => do
    modify fun s => { s with timers := s.timers.eraseIdx timer }
    (s.timers[timer]?).elim (return) fun t =>
      deliverScheduledMessage now t.messageId t.conversationId
  | .disconnect socket => (s.socket? socket).elim (return) fun k => handleDisconnect k.id k.userId
  | .cleanup => modify fun s => { s with limiters := fun limit => (s.limiters limit).cleanup now }
  | .restart => onModuleInit now

def next (env : Environment) (input : Time × Input) : Gateway :=
  ((s.program env input.1 input.2).exec { s with emitted := [] }).2

/-- A server that knows these users and devices, before its first conversation. -/
def start (users : List User) (devices : List Device) : Gateway where
  db := ⟨users, devices, [], [], [], [], [], 1, 1, 1, []⟩
  limiters := initialLimiters
  sockets := []
  activeUsers := fun _ => []
  jobs := []
  timers := []
  emitted := []

end Gateway

/-- All runs of the server. -/
def gateway (env : Environment) (users : List User) (devices : List Device) :
    Machine Gateway (Time × Input) where
  init := .start users devices
  enabled s input := s.Enabled input.1 input.2
  next s input := s.next env input

instance {env : Environment} {users : List User} {devices : List Device} (s : Gateway)
    (input : Time × Input) : Decidable ((gateway env users devices).enabled s input) :=
  inferInstanceAs (Decidable (s.Enabled input.1 input.2))

end Vesper.Server
