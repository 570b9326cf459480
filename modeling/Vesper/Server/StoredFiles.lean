import Vesper.Lib.Machine
import Vesper.Server.Conversations

/-!
# Stored files

The methods that refer to storage objects and those that remove them, from one query to the next, with any
of them in between. A row that a method writes and an object that it removes are under way until the
database or the storage gets to them. Whether a query succeeds is left open.
-/

namespace Vesper.Server

/-! ## URLs -/

structure StorageConfig where
  bucket : Text
  baseStorageUrl : Text

def utf16 (s : String) : Text := s.toList.map fun c => c.val.toUInt16

namespace StorageConfig
variable (config : StorageConfig)

def proxyPrefix : Text := utf16 "/storage/" ++ config.bucket ++ utf16 "/"

def publicPrefix : Text := config.baseStorageUrl ++ utf16 "/"

def extractStoragePath (fileUrl : Text) : Option Text :=
  if config.proxyPrefix.isPrefixOf fileUrl then some (fileUrl.drop config.proxyPrefix.length)
  else if config.publicPrefix.isPrefixOf fileUrl then some (fileUrl.drop config.publicPrefix.length)
  else none

/-- The URL that an upload returns. -/
def proxyUrl (storagePath : Text) : Text := config.proxyPrefix ++ storagePath

end StorageConfig

inductive AvatarType
  | jpeg | png | webp
  deriving DecidableEq, Repr

def AvatarType.ext : AvatarType → Text
  | webp => utf16 ".webp"
  | png => utf16 ".png"
  | jpeg => utf16 ".jpg"

/-- `avatars/${userId}/${randomUUID()}${ext}` -/
def avatarPath (userId : UserId) (uuid : Text) (type : AvatarType) : Text :=
  utf16 "avatars/" ++ utf16 (toString userId) ++ utf16 "/" ++ uuid ++ type.ext

/-- The file URLs of the messages that are not deleted, and the URLs of the avatars. -/
def Database.fileUrls (db : Database) : List Text :=
  (db.messages.filter (·.deletedAt = none)).filterMap (·.fileUrl) ++ db.users.filterMap (·.avatarUrl) ++
    db.conversations.filterMap (·.avatarUrl)

/-- Some URL in the database is one of the object. -/
def Database.Refers (db : Database) (config : StorageConfig) (storagePath : Text) : Prop :=
  ∃ url ∈ db.fileUrls, config.extractStoragePath url = some storagePath

instance {db : Database} {config : StorageConfig} {storagePath : Text} :
    Decidable (db.Refers config storagePath) :=
  inferInstanceAs (Decidable (∃ url ∈ _, _))

/-! ## Handlers -/

def GRACE_MS : Int := 60 * 60 * 1000

inductive FileRequest
  | saveMessage (userId : UserId) (conversationId : ConversationId) (dto : NewMessage)
  | forwardMessage (userId : UserId) (messageId : MessageId) (targetConversationId : ConversationId)
    (reEncryptedContent : Option Text)
  | deleteMessage (messageId : MessageId) (userId : UserId)
  | clearMessages (userId : UserId) (conversationId : ConversationId) (scope : Scope)
  | runCleanup
  | uploadAvatar (userId : UserId) (uuid : Text) (type : AvatarType)
  | updateConversation (userId : UserId) (conversationId : ConversationId) (dto : UpdateConversation)
  deriving DecidableEq, Repr

/-- A method that waits for a query, or for an upload. -/
inductive FileTask
  /-- `saveMessage` at `assertMember`, then at the conversation. -/
  | saving (userId : UserId) (conversationId : ConversationId) (dto : NewMessage)
  | posting (userId : UserId) (conversationId : ConversationId) (dto : NewMessage) (member : ConversationMember)
  /-- `forwardMessage` at `assertMember`, then at the original. -/
  | forwarding (userId : UserId) (messageId : MessageId) (targetConversationId : ConversationId)
    (reEncryptedContent : Option Text)
  | copying (userId : UserId) (messageId : MessageId) (targetConversationId : ConversationId)
    (reEncryptedContent : Option Text)
  /-- `deleteMessage` at the message, at the member, at the update and at the count. -/
  | deleting (messageId : MessageId) (userId : UserId)
  | authorizing (msg : Message) (userId : UserId)
  | marking (msg : Message)
  | counting (msg : Message)
  /-- `clearMessages` at `assertMember`, at the conversation and at the update. -/
  | clearing (userId : UserId) (conversationId : ConversationId) (scope : Scope)
  | emptying (conversationId : ConversationId) (scope : Scope) (member : ConversationMember)
  | erasing (conversationId : ConversationId)
  /-- `runCleanup` at the messages, at the transaction and at the count for a URL. -/
  | collecting (cutoff : Time)
  | purging (ids : List MessageId) (fileUrls : List Text)
  | sweeping (url : Text) (fileUrls : List Text)
  /-- `uploadAvatar` at the upload. -/
  | uploading (userId : UserId) (url : Text)
  /-- `updateConversation` at `assertAdmin`. -/
  | admitting (userId : UserId) (conversationId : ConversationId) (dto : UpdateConversation)
  deriving DecidableEq, Repr

/-- A row that a method has sent to the database. -/
inductive FileWrite
  | saved (userId : UserId) (conversationId : ConversationId) (dto : NewMessage) (metadata : Option Text)
  | forwarded (userId : UserId) (targetConversationId : ConversationId) (content : Text) (original : Message)
  | userAvatar (userId : UserId) (avatarUrl : Text)
  | conversation (conversationId : ConversationId) (dto : UpdateConversation)
  deriving DecidableEq, Repr

namespace FileWrite

/-- The file URL or avatar URL that is written. -/
def url : FileWrite → Option Text
  | saved _ _ dto _ => dto.fileUrl
  | forwarded _ _ _ original => original.fileUrl
  | userAvatar _ avatarUrl => some avatarUrl
  | conversation _ dto => dto.avatarUrl

def storagePath (config : StorageConfig) (w : FileWrite) : Option Text := w.url.bind config.extractStoragePath

def perform (now : Time) (db : Database) : FileWrite → Database
  | saved userId conversationId dto metadata =>
    let row := { Message.blank db.nextMessageId now userId conversationId ((dto.content.map trim).getD []) with
      fileUrl := dto.fileUrl
      fileName := dto.fileName
      fileType := dto.fileType
      fileSize := dto.fileSize
      replyToId := dto.replyToId
      metadata
      scheduledAt := dto.scheduledAt
      senderDeviceId := dto.senderDeviceId }
    { db with messages := db.messages ++ [row], nextMessageId := db.nextMessageId + 1 }
  | forwarded userId targetConversationId content original =>
    let row := { Message.blank db.nextMessageId now userId targetConversationId content with
      fileUrl := original.fileUrl
      fileName := original.fileName
      fileType := original.fileType
      fileSize := original.fileSize
      forwardedFromId := some original.id
      forwardedFromUserId := some original.senderId }
    { db with messages := db.messages ++ [row], nextMessageId := db.nextMessageId + 1 }
  | userAvatar userId avatarUrl =>
    { db with users := db.users.map fun u => if u.id = userId then { u with avatarUrl := some avatarUrl } else u }
  | conversation conversationId dto =>
    { db with
      conversations := db.conversations.map fun c =>
        if c.id = conversationId then
          { c with
            name := dto.name <|> c.name
            description := dto.description <|> c.description
            avatarUrl := dto.avatarUrl <|> c.avatarUrl
            updatedAt := now }
        else c }

end FileWrite

/-- What a method does once a query has succeeded: it is over, waits for the next one, sends a row, has
changed the messages, or removes a file. -/
inductive FileAction
  | ends
  | waits (t : FileTask)
  | sends (w : FileWrite)
  | updates (db : Database) (next : Option FileTask)
  | removes (url : Text) (next : Option FileTask)

/-- The next URL for `runCleanup`. -/
def sweep : List Text → Option FileTask
  | [] => none
  | url :: fileUrls => some (.sweeping url fileUrls)

/-- The messages that keep the file of a message from being removed. -/
def Database.otherRefs (db : Database) (msg : Message) : List Message :=
  db.messages.filter fun m => m.fileUrl = msg.fileUrl ∧ m.deletedAt = none ∧ m.id ≠ msg.id

/-- The messages that keep a file from being cleaned up. -/
def Database.refs (db : Database) (url : Text) : List Message :=
  db.messages.filter (·.fileUrl = some url)

/-- `deleteMany` of the messages, with their reactions and pins. -/
def Database.purge (db : Database) (ids : List MessageId) : Database :=
  { db with
    messages := (db.messages.filter (·.id ∉ ids)).map fun m =>
      { m with
        replyToId := m.replyToId.filter (· ∉ ids)
        forwardedFromId := m.forwardedFromId.filter (· ∉ ids) }
    pins := db.pins.filter (·.messageId ∉ ids) }

namespace FileTask
variable (env : Environment) (config : StorageConfig) (now : Time) (db : Database)

/-- How a method starts, if it does not throw before the first query. -/
def start : FileRequest → Option FileTask
  | .saveMessage userId conversationId dto =>
    if dto.content.all (·.length ≤ MAX_CONTENT) then some (saving userId conversationId dto) else none
  | .forwardMessage userId messageId targetConversationId reEncryptedContent =>
    some (forwarding userId messageId targetConversationId reEncryptedContent)
  | .deleteMessage messageId userId => some (deleting messageId userId)
  | .clearMessages userId conversationId scope => some (clearing userId conversationId scope)
  | .runCleanup => some (collecting (now - GRACE_MS))
  | .uploadAvatar userId uuid type => some (uploading userId (config.proxyUrl (avatarPath userId uuid type)))
  | .updateConversation userId conversationId dto => some (admitting userId conversationId dto)

/-- `deleteMessage` once the user may delete the message. -/
def mark (msg : Message) : FileAction := if msg.deletedAt ≠ none then .ends else .waits (marking msg)

def run : FileTask → FileAction
  | saving userId conversationId dto =>
    match db.member? conversationId userId with
    | none => .ends
    | some member => .waits (posting userId conversationId dto member)
  | posting userId conversationId dto member =>
    match db.conversation? conversationId with
    | none => .ends
    | some conv =>
      if conv.type = .channel ∧ member.role = .member then .ends
      else
        match env.validateAndNormalizeMetadata dto.metadata with
        | .error _ => .ends
        | .ok metadata => .sends (.saved userId conversationId dto metadata)
  | forwarding userId messageId targetConversationId reEncryptedContent =>
    match db.member? targetConversationId userId with
    | none => .ends
    | some _ => .waits (copying userId messageId targetConversationId reEncryptedContent)
  | copying userId messageId targetConversationId reEncryptedContent =>
    match db.message? messageId with
    | none => .ends
    | some original =>
      .sends (.forwarded userId targetConversationId (reEncryptedContent.getD original.content) original)
  | deleting messageId userId =>
    match db.message? messageId with
    | none => .ends
    | some msg => if msg.senderId ≠ userId then .waits (authorizing msg userId) else mark msg
  | authorizing msg userId =>
    match db.member? msg.conversationId userId with
    | none => .ends
    | some m => if m.role = .member then .ends else mark msg
  | marking msg =>
    match db.message? msg.id with
    | none => .ends
    | some _ =>
      .updates
        { db with messages := db.messages.map fun m => if m.id = msg.id then { m with deletedAt := some now } else m }
        (if truthy msg.fileUrl then some (counting msg) else none)
  | counting msg =>
    match msg.fileUrl with
    | none => .ends
    | some url => if db.otherRefs msg = [] then .removes url none else .ends
  | clearing userId conversationId scope =>
    match db.member? conversationId userId with
    | none => .ends
    | some member => .waits (emptying conversationId scope member)
  | emptying conversationId scope member =>
    match db.conversation? conversationId, scope with
    | none, _ => .ends
    | some conv, .both =>
      if conv.type ≠ .direct ∧ member.role = .member then .ends else .waits (erasing conversationId)
    -- only the time up to which the member's own view is cleared changes
    | some _, .self => .ends
  | erasing conversationId =>
    .updates
      { db with
        messages := db.messages.map fun m =>
          if m.conversationId = conversationId ∧ m.deletedAt = none then { m with deletedAt := some now } else m }
      none
  | collecting cutoff =>
    let messages := (db.messages.filter fun m => m.deletedAt.any (· ≤ cutoff)).take 1000
    if messages = [] then .ends
    else .waits (purging (messages.map (·.id)) ((messages.filterMap (·.fileUrl)).filter (· ≠ [])))
  | purging ids fileUrls => .updates (db.purge ids) (sweep fileUrls)
  | sweeping url fileUrls =>
    if db.refs url = [] then .removes url (sweep fileUrls)
    else
      match sweep fileUrls with
      | none => .ends
      | some next => .waits next
  | uploading userId url => .sends (.userAvatar userId url)
  | admitting userId conversationId dto =>
    match db.member? conversationId userId with
    | none => .ends
    | some m => if m.role = .member then .ends else .sends (.conversation conversationId dto)

end FileTask

/-! ## The machine -/

/-- A method or a row comes with the number of objects that had been removed when the method was called.
`removed` are the objects removed so far, and `lost` those of them that were referred to at that moment, or
that a method in progress at that moment came to refer to. -/
structure FileServer where
  db : Database
  tasks : List (Nat × FileTask)
  writes : List (Nat × FileWrite)
  removals : List Text
  removed : List Text
  lost : List Text
  deriving DecidableEq, Repr

/-- `ok` says whether a query or a removal succeeds. -/
inductive FileEvent
  | call (now : Time) (request : FileRequest)
  | resume (i : Nat) (now : Time) (ok : Bool)
  | written (i : Nat) (now : Time) (ok : Bool)
  | removed (i : Nat) (ok : Bool)
  deriving DecidableEq, Repr

namespace FileServer
variable (env : Environment) (config : StorageConfig) (s : FileServer)

def suspend (since : Nat) (t : Option FileTask) : FileServer :=
  { s with tasks := s.tasks ++ (t.map (since, ·)).toList }

/-- `deleteFile` up to its removal. -/
def deleteFile (fileUrl : Text) : FileServer :=
  match config.extractStoragePath fileUrl with
  | some (unit :: units) => { s with removals := s.removals ++ [unit :: units] }
  | some [] | none => s

def act (since : Nat) : FileAction → FileServer
  | .ends => s
  | .waits t => s.suspend since (some t)
  | .sends w => { s with writes := s.writes ++ [(since, w)] }
  | .updates db next => { s with db }.suspend since next
  | .removes url next => (s.deleteFile config url).suspend since next

/-- The database takes a row. -/
def write (now : Time) (since : Nat) (w : FileWrite) : FileServer :=
  { s with
    db := w.perform now s.db
    lost := s.lost ++ (w.storagePath config).toList.filter (· ∈ s.removed.drop since) }

/-- The storage removes an object. -/
def remove (storagePath : Text) : FileServer :=
  { s with
    removed := s.removed ++ [storagePath]
    lost := s.lost ++ if s.db.Refers config storagePath then [storagePath] else [] }

def step : FileEvent → FileServer
  | .call now request => s.suspend s.removed.length (FileTask.start config now request)
  | .resume i now ok =>
    match s.tasks[i]? with
    | none => s
    | some (since, t) =>
      let rest := { s with tasks := s.tasks.eraseIdx i }
      if ok then rest.act config since (t.run env now s.db) else rest
  | .written i now ok =>
    match s.writes[i]? with
    | none => s
    | some (since, w) =>
      let rest := { s with writes := s.writes.eraseIdx i }
      if ok then rest.write config now since w else rest
  | .removed i ok =>
    match s.removals[i]? with
    | none => s
    | some storagePath =>
      let rest := { s with removals := s.removals.eraseIdx i }
      if ok then rest.remove config storagePath else rest

end FileServer

def fileServer (env : Environment) (config : StorageConfig) (db : Database) : Machine FileServer FileEvent where
  init := ⟨db, [], [], [], [], []⟩
  enabled _ _ := True
  next s e := s.step env config e

/-- What is under way is carried out. -/
def FileEvent.Settles : FileEvent → Prop
  | call .. | resume .. => False
  | written .. | removed .. => True

/-! ## Which steps lose no file -/

namespace FileServer
variable (env : Environment) (config : StorageConfig) (s : FileServer)

/-- No URL of the object, under this or another form, is in the database or on its way there. -/
def Unused (storagePath : Text) : Prop :=
  ¬s.db.Refers config storagePath ∧ ∀ entry ∈ s.writes, entry.2.storagePath config ≠ some storagePath

/-- The object is not being removed, and has not been since the method was called. -/
def Stays (since : Nat) (storagePath : Text) : Prop :=
  storagePath ∉ s.removals ∧ storagePath ∉ s.removed.drop since

/-- The file of the URL, if `deleteFile` recognises it, is unused. -/
def MayRemove (url : Text) : Prop :=
  ∀ storagePath ∈ config.extractStoragePath url, storagePath ≠ [] → s.Unused config storagePath

def MayRefer (since : Nat) (url : Option Text) : Prop :=
  ∀ storagePath ∈ url.bind config.extractStoragePath, s.Stays since storagePath

/-- Where a count finds no reference, the file is unused; where the last check of a method that writes a
URL is passed, the file stays. -/
def Spares (since : Nat) : FileTask → Prop
  | .counting msg => s.db.otherRefs msg = [] → ∀ url ∈ msg.fileUrl, s.MayRemove config url
  | .sweeping url _ => s.db.refs url = [] → s.MayRemove config url
  | .posting _ conversationId dto member =>
    (∃ conv ∈ s.db.conversation? conversationId, ¬(conv.type = .channel ∧ member.role = .member)) →
      (env.validateAndNormalizeMetadata dto.metadata).isOk → s.MayRefer config since dto.fileUrl
  | .copying _ messageId _ _ =>
    ∀ original ∈ s.db.message? messageId, s.MayRefer config since original.fileUrl
  | .uploading _ url => s.MayRefer config since (some url)
  | .admitting userId conversationId dto =>
    (∃ m ∈ s.db.member? conversationId userId, m.role ≠ .member) → s.MayRefer config since dto.avatarUrl
  | .saving .. | .forwarding .. | .deleting .. | .authorizing .. | .marking _ | .clearing .. | .emptying ..
  | .erasing _ | .collecting _ | .purging .. => True

def Permits : FileEvent → Prop
  | .resume i _ true => ∀ entry ∈ s.tasks[i]?, s.Spares env config entry.1 entry.2
  | .resume _ _ false | .call .. | .written .. | .removed .. => True

/-- What an action must meet. -/
def Safe (since : Nat) : FileAction → Prop
  | .removes url _ => s.MayRemove config url
  | .sends w => s.MayRefer config since w.url
  | .ends | .waits _ | .updates .. => True

/-- No object that is being removed is used, and no row refers to one that has been removed since. -/
structure Sound : Prop where
  removals : ∀ storagePath ∈ s.removals, s.Unused config storagePath
  writes : ∀ entry ∈ s.writes, ∀ storagePath ∈ entry.2.storagePath config,
    storagePath ∉ s.removed.drop entry.1
  started : ∀ entry ∈ s.tasks, entry.1 ≤ s.removed.length
  sent : ∀ entry ∈ s.writes, entry.1 ≤ s.removed.length
  lost : s.lost = []

end FileServer

section
variable {env : Environment} {config : StorageConfig} {s : FileServer} {db : Database} {now : Time}
  {since : Nat} {storagePath : Text}

/-! ## References -/

theorem mem_fileUrls {url : Text} : url ∈ db.fileUrls ↔
    (∃ m ∈ db.messages, m.deletedAt = none ∧ m.fileUrl = some url) ∨
      (∃ u ∈ db.users, u.avatarUrl = some url) ∨ ∃ c ∈ db.conversations, c.avatarUrl = some url := by
  simp [Database.fileUrls, and_assoc]

/-- A deletion adds no reference. -/
theorem refers_of_messages {messages : List Message} {pins : List PinnedMessage}
    (hmessages : ∀ m ∈ messages, m.deletedAt = none →
      ∃ m' ∈ db.messages, m'.deletedAt = none ∧ m'.fileUrl = m.fileUrl)
    (h : { db with messages, pins }.Refers config storagePath) : db.Refers config storagePath := by
  obtain ⟨url, hurl, hpath⟩ := h
  refine ⟨url, mem_fileUrls.mpr ((mem_fileUrls.mp hurl).imp_left ?_), hpath⟩
  rintro ⟨m, hm, hlive, hfile⟩
  obtain ⟨m', hm', hlive', hfile'⟩ := hmessages m hm hlive
  exact ⟨m', hm', hlive', hfile'.trans hfile⟩

theorem refers_of_updates {t : FileTask} {db' : Database} {next : Option FileTask}
    (hrun : t.run env now db = .updates db' next) (h : db'.Refers config storagePath) :
    db.Refers config storagePath := by
  cases t with
  | marking msg =>
    simp only [FileTask.run] at hrun
    split at hrun
    · exact nomatch hrun
    · obtain ⟨rfl, -⟩ := FileAction.updates.inj hrun
      refine refers_of_messages (fun m hm hlive => ?_) h
      obtain ⟨m', hm', rfl⟩ := List.mem_map.mp hm
      split at hlive
      · exact nomatch hlive
      · rename_i hother
        rw [if_neg hother]
        exact ⟨m', hm', hlive, rfl⟩
  | erasing conversationId =>
    obtain ⟨rfl, -⟩ := FileAction.updates.inj hrun
    refine refers_of_messages (fun m hm hlive => ?_) h
    obtain ⟨m', hm', rfl⟩ := List.mem_map.mp hm
    split at hlive
    · exact nomatch hlive
    · rename_i hother
      rw [if_neg hother]
      exact ⟨m', hm', hlive, rfl⟩
  | purging ids fileUrls =>
    obtain ⟨rfl, -⟩ := FileAction.updates.inj hrun
    refine refers_of_messages (fun m hm hlive => ?_) h
    obtain ⟨m', hm', rfl⟩ := List.mem_map.mp hm
    exact ⟨m', (List.mem_filter.mp hm').1, hlive, rfl⟩
  | _ =>
    simp only [FileTask.run, FileTask.mark] at hrun
    repeat' split at hrun
    all_goals exact nomatch hrun

/-- A row adds no reference but its own. -/
theorem refers_of_perform {w : FileWrite} (h : (w.perform now db).Refers config storagePath) :
    db.Refers config storagePath ∨ w.storagePath config = some storagePath := by
  obtain ⟨url, hurl, hpath⟩ := h
  suffices hor : url ∈ db.fileUrls ∨ w.url = some url by
    refine hor.imp (fun hold => ⟨url, hold, hpath⟩) fun hnew => ?_
    rw [FileWrite.storagePath, hnew]
    exact hpath
  rw [mem_fileUrls] at hurl ⊢
  cases w with
  | saved | forwarded =>
    obtain ⟨m, hm, hlive, hfile⟩ | hrest := hurl
    · obtain hm | hm := List.mem_append.mp hm
      · exact .inl (.inl ⟨m, hm, hlive, hfile⟩)
      · rw [List.mem_singleton.mp hm] at hfile
        exact .inr hfile
    · exact .inl (.inr hrest)
  | userAvatar =>
    obtain hm | ⟨u, hu, havatar⟩ | hc := hurl
    · exact .inl (.inl hm)
    · obtain ⟨u', hu', rfl⟩ := List.mem_map.mp hu
      split at havatar
      · exact .inr havatar
      · exact .inl (.inr (.inl ⟨u', hu', havatar⟩))
    · exact .inl (.inr (.inr hc))
  | conversation conversationId dto =>
    obtain hm | hu | ⟨c, hc, havatar⟩ := hurl
    · exact .inl (.inl hm)
    · exact .inl (.inr (.inl hu))
    · obtain ⟨c', hc', rfl⟩ := List.mem_map.mp hc
      split at havatar
      · cases hdto : dto.avatarUrl with
        | none =>
          rw [hdto] at havatar
          exact .inl (.inr (.inr ⟨c', hc', havatar⟩))
        | some avatarUrl =>
          rw [hdto] at havatar
          exact .inr (hdto.trans havatar)
      · exact .inl (.inr (.inr ⟨c', hc', havatar⟩))

/-! ## Steps -/

/-- A method spares files if and only if what it does next is safe. -/
theorem spares_iff (t : FileTask) :
    s.Spares env config since t ↔ s.Safe config since (t.run env now s.db) := by
  cases t with
  | counting msg =>
    simp only [FileServer.Spares, FileTask.run]
    cases msg.fileUrl with
    | none => exact iff_of_true (fun _ => nofun) trivial
    | some url =>
      simp only [Option.mem_some_iff, forall_eq']
      split
      · rename_i hnone
        exact forall_prop_of_true hnone
      · rename_i hrefs
        exact iff_of_true (fun hnone => absurd hnone hrefs) trivial
  | sweeping url fileUrls =>
    simp only [FileServer.Spares, FileTask.run]
    split
    · rename_i hnone
      exact forall_prop_of_true hnone
    · rename_i hrefs
      refine iff_of_true (fun hnone => absurd hnone hrefs) ?_
      split <;> trivial
  | posting userId conversationId dto member =>
    simp only [FileServer.Spares, FileTask.run]
    cases s.db.conversation? conversationId with
    | none => exact iff_of_true (fun ⟨_, hnone, _⟩ => nomatch hnone) trivial
    | some conv =>
      simp only [Option.mem_some_iff, exists_eq_left']
      split
      · rename_i hreader
        exact iff_of_true (fun hposts => absurd hreader hposts) trivial
      · rename_i hposts
        cases env.validateAndNormalizeMetadata dto.metadata with
        | error => exact iff_of_true (fun _ hnot => nomatch hnot) trivial
        | ok metadata => exact (forall_prop_of_true hposts).trans (forall_prop_of_true rfl)
  | copying userId messageId targetConversationId reEncryptedContent =>
    simp only [FileServer.Spares, FileTask.run]
    cases s.db.message? messageId with
    | none => exact iff_of_true (fun _ hnone => nomatch hnone) trivial
    | some original =>
      simp only [Option.mem_some_iff, forall_eq']
      exact Iff.rfl
  | uploading => exact Iff.rfl
  | admitting userId conversationId dto =>
    simp only [FileServer.Spares, FileTask.run]
    cases s.db.member? conversationId userId with
    | none => exact iff_of_true (fun ⟨_, hnone, _⟩ => nomatch hnone) trivial
    | some member =>
      simp only [Option.mem_some_iff, exists_eq_left']
      split
      · rename_i hmember
        exact iff_of_true (fun hadmin => absurd hmember hadmin) trivial
      · rename_i hadmin
        exact forall_prop_of_true hadmin
  | _ =>
    simp only [FileServer.Spares, FileTask.run, FileTask.mark]
    refine iff_of_true trivial ?_
    repeat' split
    all_goals trivial

theorem step_resumed {i : Nat} {t : FileTask} (hi : s.tasks[i]? = some (since, t)) :
    s.step env config (.resume i now true) =
      { s with tasks := s.tasks.eraseIdx i }.act config since (t.run env now s.db) := by
  simp only [FileServer.step, hi, if_true]

theorem step_written {i : Nat} {w : FileWrite} (hi : s.writes[i]? = some (since, w)) :
    s.step env config (.written i now true) =
      { s with writes := s.writes.eraseIdx i }.write config now since w := by
  simp only [FileServer.step, hi, if_true]

theorem step_removed {i : Nat} (hi : s.removals[i]? = some storagePath) :
    s.step env config (.removed i true) =
      { s with removals := s.removals.eraseIdx i }.remove config storagePath := by
  simp only [FileServer.step, hi, if_true]

namespace FileServer.Sound

theorem forget (hs : s.Sound config) (tasks : List (Nat × FileTask)) (writes : List (Nat × FileWrite))
    (removals : List Text) (htasks : tasks ⊆ s.tasks) (hwrites : writes ⊆ s.writes)
    (hremovals : removals ⊆ s.removals) : { s with tasks, writes, removals }.Sound config where
  removals p hp :=
    have hunused := hs.removals p (hremovals hp)
    ⟨hunused.1, fun entry hentry => hunused.2 entry (hwrites hentry)⟩
  writes entry hentry := hs.writes entry (hwrites hentry)
  started entry hentry := hs.started entry (htasks hentry)
  sent entry hentry := hs.sent entry (hwrites hentry)
  lost := hs.lost

theorem suspend (hs : s.Sound config) (hsince : since ≤ s.removed.length) (t : Option FileTask) :
    (s.suspend since t).Sound config where
  removals := hs.removals
  writes := hs.writes
  started entry hentry := by
    obtain hentry | hentry := List.mem_append.mp hentry
    · exact hs.started entry hentry
    · obtain ⟨t', -, rfl⟩ := Option.map_eq_some_iff.mp (Option.mem_toList.mp hentry)
      exact hsince
  sent := hs.sent
  lost := hs.lost

theorem deleteFile (hs : s.Sound config) {url : Text} (hsafe : s.MayRemove config url) :
    (s.deleteFile config url).Sound config := by
  unfold FileServer.deleteFile
  split
  · rename_i unit units hpath
    refine { hs with removals := fun p hp => ?_ }
    obtain hp | hp := List.mem_append.mp hp
    · exact hs.removals p hp
    · rw [List.mem_singleton.mp hp]
      exact hsafe _ hpath (List.cons_ne_nil unit units)
  · exact hs
  · exact hs

theorem deleteFile_removed {url : Text} : (s.deleteFile config url).removed = s.removed := by
  unfold FileServer.deleteFile
  split <;> rfl

/-- What a method does next keeps the server sound if it is safe. -/
theorem act (hs : s.Sound config) (hsince : since ≤ s.removed.length) {t : FileTask}
    (hsafe : s.Safe config since (t.run env now s.db)) :
    (s.act config since (t.run env now s.db)).Sound config := by
  cases hrun : t.run env now s.db with
  | ends => exact hs
  | waits next => exact hs.suspend hsince (some next)
  | sends w =>
    rw [hrun] at hsafe
    refine ⟨fun p hp => ⟨(hs.removals p hp).1, fun entry hentry => ?_⟩, fun entry hentry => ?_, hs.started,
      fun entry hentry => ?_, hs.lost⟩ <;> obtain hentry | hentry := List.mem_append.mp hentry
    · exact (hs.removals p hp).2 entry hentry
    · rw [List.mem_singleton.mp hentry]
      exact fun hpath => (hsafe p hpath).1 hp
    · exact hs.writes entry hentry
    · rw [List.mem_singleton.mp hentry]
      exact fun p hpath => (hsafe p hpath).2
    · exact hs.sent entry hentry
    · rw [List.mem_singleton.mp hentry]
      exact hsince
  | updates db next =>
    have hkept : { s with db }.Sound config :=
      { hs with
        removals := fun p hp =>
          ⟨fun hrefers => (hs.removals p hp).1 (refers_of_updates hrun hrefers), (hs.removals p hp).2⟩ }
    exact hkept.suspend hsince next
  | removes url next =>
    rw [hrun] at hsafe
    exact (hs.deleteFile hsafe).suspend (by rwa [deleteFile_removed]) next

theorem write (hs : s.Sound config) {i : Nat} {w : FileWrite} (hi : s.writes[i]? = some (since, w)) :
    ({ s with writes := s.writes.eraseIdx i }.write config now since w).Sound config := by
  have hentry := List.mem_of_getElem? hi
  have hrest := hs.forget s.tasks (s.writes.eraseIdx i) s.removals (List.Subset.refl _)
    (List.eraseIdx_subset ..) (List.Subset.refl _)
  refine ⟨fun p hp => ⟨fun hrefers => ?_, (hrest.removals p hp).2⟩, hrest.writes, hrest.started, hrest.sent, ?_⟩
  · obtain hold | hnew := refers_of_perform hrefers
    · exact (hs.removals p hp).1 hold
    · exact (hs.removals p hp).2 _ hentry hnew
  · have hnone : (w.storagePath config).toList.filter (· ∈ s.removed.drop since) = [] := by
      refine List.filter_eq_nil_iff.mpr fun p hp => ?_
      rw [decide_eq_true_iff]
      exact hs.writes _ hentry p (Option.mem_toList.mp hp)
    show s.lost ++ _ = []
    rw [hs.lost, hnone, List.append_nil]

theorem remove (hs : s.Sound config) {i : Nat} (hi : s.removals[i]? = some storagePath) :
    ({ s with removals := s.removals.eraseIdx i }.remove config storagePath).Sound config := by
  have hunused := hs.removals storagePath (List.mem_of_getElem? hi)
  have hrest := hs.forget s.tasks s.writes (s.removals.eraseIdx i) (List.Subset.refl _) (List.Subset.refl _)
    (List.eraseIdx_subset ..)
  have hlonger : s.removed.length ≤ (s.removed ++ [storagePath]).length := by simp
  refine ⟨hrest.removals, fun entry hentry p hpath hremoved => ?_, fun entry hentry => ?_,
    fun entry hentry => ?_, ?_⟩
  · replace hremoved : p ∈ (s.removed ++ [storagePath]).drop entry.1 := hremoved
    rw [List.drop_append] at hremoved
    obtain hold | hnew := List.mem_append.mp hremoved
    · exact hs.writes entry hentry p hpath hold
    · obtain rfl := List.mem_singleton.mp (List.mem_of_mem_drop hnew)
      exact hunused.2 entry hentry hpath
  · exact (hs.started entry hentry).trans hlonger
  · exact (hs.sent entry hentry).trans hlonger
  · show s.lost ++ (if s.db.Refers config storagePath then _ else _) = []
    rw [if_neg hunused.1, hs.lost, List.append_nil]

/-- **The step lemma**: a step that is permitted keeps the server sound. -/
theorem step (hs : s.Sound config) {e : FileEvent} (he : s.Permits env config e) :
    (s.step env config e).Sound config := by
  cases e with
  | call now request => exact hs.suspend (Nat.le_refl _) _
  | resume i now ok =>
    cases hi : s.tasks[i]? with
    | none =>
      simp only [FileServer.step, hi]
      exact hs
    | some entry =>
      have hrest := hs.forget (s.tasks.eraseIdx i) s.writes s.removals (List.eraseIdx_subset ..)
        (List.Subset.refl _) (List.Subset.refl _)
      cases ok with
      | false =>
        simp only [FileServer.step, hi]
        exact hrest
      | true =>
        rw [step_resumed hi]
        exact hrest.act (hs.started entry (List.mem_of_getElem? hi)) (spares_iff entry.2 |>.mp (he entry hi))
  | written i now ok =>
    cases hi : s.writes[i]? with
    | none =>
      simp only [FileServer.step, hi]
      exact hs
    | some entry =>
      cases ok with
      | false =>
        simp only [FileServer.step, hi]
        exact hs.forget s.tasks (s.writes.eraseIdx i) s.removals (List.Subset.refl _)
          (List.eraseIdx_subset ..) (List.Subset.refl _)
      | true =>
        rw [step_written hi]
        exact hs.write hi
  | removed i ok =>
    cases hi : s.removals[i]? with
    | none =>
      simp only [FileServer.step, hi]
      exact hs
    | some storagePath =>
      cases ok with
      | false =>
        simp only [FileServer.step, hi]
        exact hs.forget s.tasks s.writes (s.removals.eraseIdx i) (List.Subset.refl _) (List.Subset.refl _)
          (List.eraseIdx_subset ..)
      | true =>
        rw [step_removed hi]
        exact hs.remove hi

end FileServer.Sound

/-! ## What a careless step leads to -/

theorem lost_of_written (env : Environment) {i : Nat} {w : FileWrite} (hi : s.writes[i]? = some (since, w))
    (hpath : w.storagePath config = some storagePath) (hremoved : storagePath ∈ s.removed.drop since) :
    (s.step env config (.written i now true)).lost ≠ [] := by
  rw [step_written hi]
  refine List.append_ne_nil_of_right_ne_nil _ (List.ne_nil_of_mem (a := storagePath) ?_)
  exact List.mem_filter.mpr ⟨Option.mem_toList.mpr hpath, decide_eq_true hremoved⟩

theorem lost_of_removed (env : Environment) {i : Nat} (hi : s.removals[i]? = some storagePath)
    (hrefers : s.db.Refers config storagePath) : (s.step env config (.removed i true)).lost ≠ [] := by
  rw [step_removed hi]
  refine List.append_ne_nil_of_right_ne_nil _ ?_
  rw [if_pos hrefers]
  exact List.cons_ne_nil storagePath []

/-- An object is removed while a row that refers to it is on its way. -/
theorem lost_of_race (env : Environment) {i j : Nat} {w : FileWrite} (hi : s.writes[i]? = some (since, w))
    (hpath : w.storagePath config = some storagePath) (hj : s.removals[j]? = some storagePath)
    (hsince : since ≤ s.removed.length) :
    ((s.step env config (.removed j true)).step env config (.written i now true)).lost ≠ [] := by
  have hwrites : (s.step env config (.removed j true)).writes = s.writes := by
    rw [step_removed hj]
    rfl
  have hremoved : (s.step env config (.removed j true)).removed = s.removed ++ [storagePath] := by
    rw [step_removed hj]
    rfl
  refine lost_of_written env (by rwa [hwrites]) hpath ?_
  rw [hremoved, List.drop_append_of_le_length hsince]
  exact List.mem_append_right _ (List.mem_singleton_self storagePath)

/-- A row is sent that refers to an object which is being removed, or was since the method was called. -/
theorem exists_lost_of_sent (hsince : since ≤ s.removed.length) {w : FileWrite}
    (hnot : ¬s.MayRefer config since w.url) : ∃ es, (∀ e ∈ es, FileEvent.Settles e) ∧
      ((fileServer env config db).exec (s.act config since (.sends w)) es).lost ≠ [] := by
  obtain ⟨p, hpath, hgoes⟩ : ∃ p, w.storagePath config = some p ∧ ¬s.Stays since p := by
    obtain ⟨p, hp⟩ := not_forall.mp hnot
    exact ⟨p, Classical.not_imp.mp hp⟩
  have hlast : (s.act config since (.sends w)).writes[s.writes.length]? = some (since, w) :=
    List.getElem?_concat_length
  obtain hremoval | hremoved := not_and_or.mp hgoes
  · obtain ⟨j, hj⟩ := List.mem_iff_getElem?.mp (not_not.mp hremoval)
    refine ⟨[.removed j true, .written s.writes.length 0 true], ?_, lost_of_race env hlast hpath hj hsince⟩
    exact List.forall_mem_cons.mpr ⟨trivial, List.forall_mem_singleton.mpr trivial⟩
  · refine ⟨[.written s.writes.length 0 true], List.forall_mem_singleton.mpr trivial, ?_⟩
    exact lost_of_written env hlast hpath (not_not.mp hremoved)

/-- A file is to be removed that is referred to, or by a row on its way. -/
theorem exists_lost_of_removal (hsent : ∀ entry ∈ s.writes, entry.1 ≤ s.removed.length) {url : Text}
    {next : Option FileTask} (hnot : ¬s.MayRemove config url) : ∃ es, (∀ e ∈ es, FileEvent.Settles e) ∧
      ((fileServer env config db).exec (s.act config since (.removes url next)) es).lost ≠ [] := by
  obtain ⟨p, hp⟩ := not_forall.mp hnot
  obtain ⟨hpath, hp⟩ := Classical.not_imp.mp hp
  obtain ⟨hne, hused⟩ := Classical.not_imp.mp hp
  obtain ⟨unit, units, rfl⟩ := List.exists_cons_of_ne_nil hne
  have hact : s.act config since (.removes url next) =
      { s with removals := s.removals ++ [unit :: units] }.suspend since next := by
    simp only [FileServer.act, FileServer.deleteFile, Option.mem_def.mp hpath]
  have hlast : (s.act config since (.removes url next)).removals[s.removals.length]? =
      some (unit :: units) := by
    rw [hact]
    exact List.getElem?_concat_length
  obtain hrefers | hrow := not_and_or.mp hused
  · refine ⟨[.removed s.removals.length true], List.forall_mem_singleton.mpr trivial, ?_⟩
    refine lost_of_removed env hlast ?_
    rw [hact]
    exact not_not.mp hrefers
  · obtain ⟨entry, hrow⟩ := not_forall.mp hrow
    obtain ⟨hentry, hrow⟩ := Classical.not_imp.mp hrow
    obtain ⟨k, hk⟩ := List.mem_iff_getElem?.mp hentry
    refine ⟨[.removed s.removals.length true, .written k 0 true], ?_, ?_⟩
    · exact List.forall_mem_cons.mpr ⟨trivial, List.forall_mem_singleton.mpr trivial⟩
    · rw [hact] at hlast ⊢
      exact lost_of_race env hk (not_not.mp hrow) hlast (hsent entry hentry)

/-- A step that is not permitted loses a file once what is under way is carried out. -/
theorem exists_lost (hs : s.Sound config) {e : FileEvent} (he : ¬s.Permits env config e) :
    ∃ es, (∀ e ∈ es, FileEvent.Settles e) ∧
      ((fileServer env config db).exec (s.step env config e) es).lost ≠ [] := by
  cases e with
  | call | written | removed => exact absurd trivial he
  | resume i now ok =>
    cases ok with
    | false => exact absurd trivial he
    | true =>
      have hcareless : ∃ entry ∈ s.tasks[i]?, ¬s.Spares env config entry.1 entry.2 := by
        by_contra hnone
        exact he fun entry hentry => by_contra fun hnot => hnone ⟨entry, hentry, hnot⟩
      obtain ⟨⟨since, t⟩, hi, hnot⟩ := hcareless
      have hsince : since ≤ s.removed.length := hs.started _ (List.mem_of_getElem? hi)
      replace hnot : ¬s.Safe config since (t.run env now s.db) := mt (spares_iff t).mpr hnot
      rw [step_resumed hi]
      cases hrun : t.run env now s.db with
      | ends | waits | updates =>
        rw [hrun] at hnot
        exact absurd trivial hnot
      | sends w =>
        rw [hrun] at hnot
        exact exists_lost_of_sent (s := { s with tasks := s.tasks.eraseIdx i }) hsince hnot
      | removes url next =>
        rw [hrun] at hnot
        exact exists_lost_of_removal (s := { s with tasks := s.tasks.eraseIdx i }) hs.sent hnot

end

/-! ## Every run -/

/-- Whatever the database holds: a run, also when it breaks off anywhere and what is under way is carried
out, loses no file if and only if every count that finds no reference finds the file unused, and every
method that sends a URL finds its file staying. -/
theorem files_kept_iff (env : Environment) (config : StorageConfig) (db : Database) (run : List FileEvent) :
    (fileServer env config db).Withstands FileEvent.Settles (·.lost = []) (fileServer env config db).init
        run ↔
      ((fileServer env config db).restrict fun s e => s.Permits env config e).Allowed
        (fileServer env config db).init run := by
  refine Machine.withstands_iff (I := fun s => s.Sound config) (fun s e hs _ he => hs.step he)
    (fun s hs => hs.lost) (fun s e he => ?_) (fun s e hs _ he => ?_) ?_
    (Machine.allowed_of_enabled (fun _ _ => trivial) _ run)
  · cases e with
    | call | resume => exact he.elim
    | written | removed => trivial
  · obtain ⟨es, hsettles, hlost⟩ := exists_lost hs he
    exact ⟨es, hsettles, Machine.allowed_of_enabled (fun _ _ => trivial) _ es, hlost⟩
  · exact ⟨List.forall_mem_nil _, List.forall_mem_nil _, List.forall_mem_nil _, List.forall_mem_nil _, rfl⟩

def sampleStorage : StorageConfig := ⟨[0x62], [0x68]⟩

/-- User 1 has an avatar, and user 2 has sent a message with its URL as the file. -/
def avatarShared : Database :=
  let url := sampleStorage.proxyUrl [0x61]
  { users := [⟨1, [], [], [], some url, false, 0⟩, ⟨2, [], [], [], none, false, 0⟩]
    devices := []
    conversations := [⟨1, .direct, none, none, none, 1, 0, 0⟩]
    members := [⟨1, 1, .member, 0, 0, none, false, false⟩, ⟨1, 2, .member, 0, 0, none, false, false⟩]
    messages := [{ Message.blank 1 0 2 1 [] with fileUrl := some url }]
    pins := [], senderKeys := [], nextConversationId := 2, nextMessageId := 2, nextPinId := 1
    removedFiles := [] }

theorem avatar_removed : ¬∀ (env : Environment) (config : StorageConfig) (db : Database)
    (run : List FileEvent),
    (fileServer env config db).Throughout (·.lost = []) (fileServer env config db).init run := by
  intro hall
  have hlost := (hall ⟨fun m => .ok m, fun _ _ => false⟩ sampleStorage avatarShared
    [.call 0 (.deleteMessage 1 2), .resume 0 0 true, .resume 0 0 true, .resume 0 0 true, .removed 0 true]).last
  exact absurd hlost (by decide)

end Vesper.Server
