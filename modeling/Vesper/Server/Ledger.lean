import Vesper.Server.Rooms

/-!
# The ledger

What the results about whole runs need of the database: which conversations there are, who sits in
them, which messages were posted when and by whom, and which are pinned. Each method of the service
does one operation on the ledger or leaves it alone, whatever else it reads and writes.
-/

namespace Vesper.Server
open Program

/-- What the ledger has of a membership. -/
structure Seat where
  conversationId : ConversationId
  userId : UserId
  role : MemberRole
  lastReadAt : Time
  clearedAt : Option Time
  deriving DecidableEq, Repr

/-- What the ledger has of a message. -/
structure Posting where
  id : MessageId
  createdAt : Time
  deleted : Bool
  scheduledAt : Option Time
  senderId : UserId
  conversationId : ConversationId
  replyToId : Option MessageId
  forwardedFromId : Option MessageId
  deriving DecidableEq, Repr

structure Ledger where
  conversations : List (ConversationId × ConversationType)
  seats : List Seat
  postings : List Posting
  pins : List (ConversationId × MessageId)
  nextConversationId : ConversationId
  deriving DecidableEq, Repr

def ConversationMember.seat (m : ConversationMember) : Seat :=
  ⟨m.conversationId, m.userId, m.role, m.lastReadAt, m.clearedAt⟩

def Message.posting (m : Message) : Posting :=
  ⟨m.id, m.createdAt, m.deletedAt.isSome, m.scheduledAt, m.senderId, m.conversationId, m.replyToId,
    m.forwardedFromId⟩

def Database.ledger (db : Database) : Ledger where
  conversations := db.conversations.map fun c => (c.id, c.type)
  seats := db.members.map (·.seat)
  postings := db.messages.map (·.posting)
  pins := db.pins.map fun pin => (pin.conversationId, pin.messageId)
  nextConversationId := db.nextConversationId

/-! ## Operations -/

namespace Ledger
variable (l : Ledger)

def post (p : Posting) : Ledger := { l with postings := l.postings ++ [p] }

/-- Marks postings as deleted. -/
def strike (q : Posting → Bool) : Ledger :=
  { l with postings := l.postings.map fun p => if q p then { p with deleted := true } else p }

def pin (c : ConversationId) (id : MessageId) : Ledger :=
  if (c, id) ∈ l.pins then l else { l with pins := l.pins ++ [(c, id)] }

def unpin (q : ConversationId × MessageId → Bool) : Ledger := { l with pins := l.pins.filter (! q ·) }

def read (q : Seat → Bool) (now : Time) : Ledger :=
  { l with seats := l.seats.map fun s => if q s then { s with lastReadAt := now } else s }

def clear (q : Seat → Bool) (now : Time) : Ledger :=
  { l with seats := l.seats.map fun s => if q s then { s with clearedAt := some now } else s }

/-- A conversation under the next identifier. -/
def found (now : Time) (type : ConversationType) (members : List (UserId × MemberRole)) : Ledger :=
  { l with
    conversations := l.conversations ++ [(l.nextConversationId, type)]
    seats := l.seats ++ members.map fun m => ⟨l.nextConversationId, m.1, m.2, now, none⟩
    nextConversationId := l.nextConversationId + 1 }

/-- An identifier that is not used. -/
def skip : Ledger := { l with nextConversationId := l.nextConversationId + 1 }

def join (now : Time) (c : ConversationId) (u : UserId) : Ledger :=
  { l with seats := l.seats ++ [⟨c, u, .member, now, none⟩] }

def leave (c : ConversationId) (u : UserId) : Ledger :=
  { l with seats := l.seats.filter fun s => ¬(s.conversationId = c ∧ s.userId = u) }

def appoint (c : ConversationId) (u : UserId) (role : MemberRole) : Ledger :=
  { l with seats := l.seats.map fun s =>
      if s.conversationId = c ∧ s.userId = u then { s with role } else s }

def seat? (c : ConversationId) (u : UserId) : Option Seat :=
  l.seats.find? fun s => s.conversationId = c ∧ s.userId = u

def posting? (id : MessageId) : Option Posting := l.postings.find? (·.id = id)

def type? (c : ConversationId) : Option ConversationType :=
  (l.conversations.find? (·.1 = c)).map (·.2)

end Ledger

namespace Database
variable {db : Database}

theorem seat?_ledger (c : ConversationId) (u : UserId) :
    db.ledger.seat? c u = (db.member? c u).map (·.seat) := by
  rw [Ledger.seat?, Database.member?, Database.ledger, List.find?_map]
  rfl

theorem posting?_ledger (id : MessageId) :
    db.ledger.posting? id = (db.message? id).map (·.posting) := by
  rw [Ledger.posting?, Database.message?, Database.ledger, List.find?_map]
  rfl

theorem type?_ledger (c : ConversationId) :
    db.ledger.type? c = (db.conversation? c).map (·.type) := by
  rw [Ledger.type?, Database.conversation?, Database.ledger, List.find?_map, Option.map_map]
  rfl

theorem isMember_ledger {c : ConversationId} {u : UserId} :
    db.IsMember c u ↔ (db.ledger.seat? c u).isSome := by
  rw [seat?_ledger, Option.isSome_map, IsMember]

end Database

/-! ## Methods that leave the ledger alone -/

section
variable {db : Database} {u : UserId} {c : ConversationId} {id : MessageId} {now : Time}
  {env : Environment}

theorem keeps_updateMembers {p : ConversationMember → Bool}
    {f : ConversationMember → ConversationMember} (h : ∀ m, (f m).seat = m.seat) :
    Keeps Database.ledger (updateMembers p f) := by
  refine .modify fun db => ?_
  have hmap : (db.members.map fun m => if p m then f m else m).map (·.seat) = db.members.map (·.seat) := by
    rw [List.map_map]
    refine List.map_congr_left fun m _ => ?_
    simp only [Function.comp_apply]
    split
    · exact h m
    · rfl
  simp only [Database.ledger, hmap]

theorem keeps_updateMessages {p : Message → Bool} {f : Message → Message}
    (h : ∀ m, (f m).posting = m.posting) : Keeps Database.ledger (updateMessages p f) := by
  refine .modify fun db => ?_
  have hmap : (db.messages.map fun m => if p m then f m else m).map (·.posting) =
      db.messages.map (·.posting) := by
    rw [List.map_map]
    refine List.map_congr_left fun m _ => ?_
    simp only [Function.comp_apply]
    split
    · exact h m
    · rfl
  simp only [Database.ledger, hmap]

theorem keeps_updateConversations {p : Conversation → Bool} {f : Conversation → Conversation}
    (h : ∀ conv, p conv → (f conv).id = conv.id ∧ (f conv).type = conv.type) :
    Keeps Database.ledger (modify fun db => { db with
      conversations := db.conversations.map fun conv => if p conv then f conv else conv } :
        Service PUnit) := by
  refine .modify fun db => ?_
  have hmap : ((db.conversations.map fun conv => if p conv then f conv else conv).map
      fun conv => (conv.id, conv.type)) = db.conversations.map fun conv => (conv.id, conv.type) := by
    rw [List.map_map]
    refine List.map_congr_left fun conv _ => ?_
    simp only [Function.comp_apply]
    split
    · rw [(h conv ‹_›).1, (h conv ‹_›).2]
    · rfl
  simp only [Database.ledger, hmap]

theorem keeps_touchConversation : Keeps Database.ledger (touchConversation now c) := by
  simpa [touchConversation] using keeps_updateConversations (p := fun conv => decide (conv.id = c))
    (f := fun conv => { conv with updatedAt := now }) fun _ _ => ⟨rfl, rfl⟩

theorem keeps_assertMember : Keeps Database.ledger (assertMember u c) :=
  .bind .reads fun _ => .orThrow

theorem keeps_setChatPinned {isPinned : Bool} :
    Keeps Database.ledger (setChatPinned u c isPinned) :=
  .bind keeps_assertMember fun _ => .bind (keeps_updateMembers fun _ => rfl) fun _ => .pure

theorem keeps_setChatArchived {isArchived : Bool} :
    Keeps Database.ledger (setChatArchived u c isArchived) :=
  .bind keeps_assertMember fun _ => .bind (keeps_updateMembers fun _ => rfl) fun _ => .pure

theorem keeps_getMyConversations {skip take : Nat} {showArchived : Bool} :
    Keeps Database.ledger (getMyConversations now u skip take showArchived) :=
  .bind .reads fun _ => .bind .reads fun _ => .pure

theorem keeps_getPinnedMessages : Keeps Database.ledger (getPinnedMessages u c) :=
  .bind keeps_assertMember fun _ => .reads

theorem keeps_getMessages {cursor : Option MessageId} :
    Keeps Database.ledger (getMessages now u c cursor) := by
  refine .bind keeps_assertMember fun member => ?_
  dsimp only
  split
  · exact .bind .reads fun _ => .pure
  · exact .bind .reads fun _ => .pure

theorem keeps_getMessagesAround : Keeps Database.ledger (getMessagesAround now u c id) :=
  .bind keeps_assertMember fun _ => .reads

theorem keeps_getMessagesAfter : Keeps Database.ledger (getMessagesAfter now u c id) :=
  .bind keeps_assertMember fun _ => .reads

theorem keeps_searchMessages {query : Text} :
    Keeps Database.ledger (searchMessages env now u c query) := by
  refine .bind keeps_assertMember fun _ => ?_
  dsimp only
  split
  · exact .pure
  · exact .reads

theorem keeps_getMediaFiles : Keeps Database.ledger (getMediaFiles now u c) :=
  .bind keeps_assertMember fun _ => .reads

theorem keeps_releaseFile {msg : Message} : Keeps Database.ledger (releaseFile msg) :=
  .when fun _ => .bind .reads fun _ => .when fun _ => .modify fun _ => rfl

theorem keeps_editMessage {content : Text} :
    Keeps Database.ledger (editMessage now id u content) := by
  refine .bind .reads fun _ => .bind .orThrow fun msg => .bind .demand fun _ => .bind .demand fun _ =>
    .bind .demand fun _ => .bind .demand fun _ => ?_
  split
  · exact .pure
  · exact .bind (keeps_updateMessages fun _ => rfl) fun _ => .pure

theorem keeps_toggleReaction {emoji : String} :
    Keeps Database.ledger (toggleReaction now id u emoji) :=
  .bind .demand fun _ => .bind .reads fun _ => .bind .orThrow fun _ => .bind .demand fun _ =>
    .bind keeps_assertMember fun _ => .bind (keeps_updateMessages fun _ => rfl) fun _ =>
    .bind .reads fun _ => .pure

theorem keeps_getConversation : Keeps Database.ledger (getConversation u c) :=
  .bind keeps_assertMember fun _ => .reads

theorem keeps_setSenderKey {keys : List (UserId × Text)} {version : Nat} :
    Keeps Database.ledger (setSenderKey u c keys version) :=
  .bind keeps_assertMember fun _ => .bind .reads fun _ => .bind (.modify fun _ => rfl) fun _ => .demand

theorem keeps_deleteAllMySenderKeys : Keeps Database.ledger (deleteAllMySenderKeys u) :=
  .modify fun _ => rfl

theorem keeps_getSenderKeysForMe : Keeps Database.ledger (getSenderKeysForMe u c) :=
  .bind keeps_assertMember fun _ => .reads

end

/-! ## Guards -/

namespace Ledger
variable (l : Ledger) (u : UserId) (c : ConversationId)

/-- The check of `saveMessage`: only owners and admins post in channels. -/
def MayPost : Prop :=
  ∃ s ∈ l.seat? c u, ∃ t ∈ l.type? c, t = .channel → s.role ≠ .member

instance : Decidable (l.MayPost u c) :=
  inferInstanceAs (Decidable (∃ s ∈ l.seat? c u, ∃ t ∈ l.type? c, t = .channel → s.role ≠ .member))

/-- The checks of `removeMember`. -/
def MayRemove (target : UserId) : Prop :=
  (∀ t ∈ l.type? c, t ≠ .direct) ∧
    (u ≠ target → (∃ s ∈ l.seat? c u, s.role ≠ .member) ∧ ∀ s ∈ l.seat? c target, s.role ≠ .owner)

/-- The checks of `addMember`. -/
def MayAdd (target : UserId) : Prop :=
  (∀ t ∈ l.type? c, t ≠ .direct) ∧ (∃ s ∈ l.seat? c u, s.role ≠ .member) ∧ l.seat? c target = none

/-- The check of `setMemberRole`. -/
def MayAppoint : Prop := ∃ s ∈ l.seat? c u, s.role = .owner

end Ledger

namespace Ledger
variable {l : Ledger} {p : Posting}

theorem posting?_post (h : ∀ p' ∈ l.postings, p'.id ≠ p.id) : (l.post p).posting? p.id = some p := by
  rw [posting?, post, List.find?_append, List.find?_eq_none.mpr, Option.none_or]
  · simp
  · simpa using h

theorem posting?_mem {id : MessageId} (h : l.posting? id = some p) : p ∈ l.postings ∧ p.id = id :=
  ⟨List.mem_of_find?_eq_some h, by simpa using List.find?_some h⟩

end Ledger

/-! ## Methods that post -/

/-- The view is one of the message that the ledger has as this posting. -/
def MessageView.Shows (view : MessageView) (p : Posting) : Prop :=
  ∃ (db : Database) (m : Message), m.posting = p ∧ view.rest = (db.select m).rest

/-- What `saveMessage` posts. -/
def Database.saved (db : Database) (now : Time) (u : UserId) (c : ConversationId) (dto : NewMessage) :
    Posting :=
  ⟨db.nextMessageId, now, false, dto.scheduledAt, u, c, dto.replyToId, none⟩

/-- The row that `forwardMessage` creates. -/
def Message.forwardedRow (original : Message) (now : Time) (u : UserId) (c : ConversationId)
    (content : Text) (id : MessageId) : Message :=
  { Message.blank id now u c content with
    fileUrl := original.fileUrl
    fileName := original.fileName
    fileType := original.fileType
    fileSize := original.fileSize
    forwardedFromId := some original.id
    forwardedFromUserId := some original.senderId }

/-- `saveMessage` has posted. -/
def Database.Saves (db : Database) (now : Time) (u : UserId) (c : ConversationId) (dto : NewMessage)
    (l : Ledger) : Prop :=
  db.ledger.MayPost u c ∧ (∀ id ∈ dto.replyToId, (db.message? id).isSome) ∧
    l = db.ledger.post (db.saved now u c dto)

/-- The checks of `saveMessage`, and the foreign keys of what it creates. -/
def Database.MaySave (db : Database) (env : Environment) (u : UserId) (c : ConversationId)
    (dto : NewMessage) : Prop :=
  (∀ content ∈ dto.content, content.length ≤ MAX_CONTENT) ∧ db.ledger.MayPost u c ∧
    (∃ metadata, env.validateAndNormalizeMetadata dto.metadata = .ok metadata) ∧
    db.user? u ≠ none ∧ (∀ id ∈ dto.replyToId, db.message? id ≠ none) ∧
    ∀ d ∈ dto.senderDeviceId, db.devices.find? (·.id = d) ≠ none

instance decidableExistsOk {ε α : Type} (e : Except ε α) : Decidable (∃ a, e = .ok a) :=
  match e with
  | .ok a => .isTrue ⟨a, rfl⟩
  | .error _ => .isFalse nofun

instance (db : Database) (env : Environment) (u : UserId) (c : ConversationId) (dto : NewMessage) :
    Decidable (db.MaySave env u c dto) :=
  inferInstanceAs (Decidable (_ ∧ _ ∧ (∃ metadata, _ = Except.ok metadata) ∧ _ ∧ _ ∧ _))

/-- What `forwardMessage` posts. -/
def Database.forwarded (db : Database) (now : Time) (u : UserId) (c : ConversationId)
    (id : MessageId) : Posting :=
  ⟨db.nextMessageId, now, false, none, u, c, none, some id⟩

section
variable {db : Database} {u : UserId} {c : ConversationId} {id : MessageId} {now : Time}
  {env : Environment}

theorem assertMember_seat : Triple (· = db) (assertMember u c)
    (fun m db' => db' = db ∧ db.member? c u = some m) fun db' => db' = db ∧ db.member? c u = none := by
  unfold assertMember findMember
  refine .bind (Q := fun m db' => db' = db ∧ db.member? c u = m) (.reads fun _ h => ⟨h, by rw [h]⟩)
    fun m => ?_
  exact .orThrow (fun _ _ h hm => ⟨h.1, h.2.trans hm⟩) fun _ h hm => ⟨h.1, h.2.trans hm⟩

theorem assertAdmin_seat : Triple (· = db) (assertAdmin u c)
    (fun _ db' => db' = db ∧ ∃ m ∈ db.member? c u, m.role ≠ .member)
    fun db' => db' = db ∧ ∀ m ∈ db.member? c u, m.role = .member := by
  refine .weaken assertAdmin_spec (fun m db' h => ⟨h.1, m, h.1 ▸ h.2⟩) fun db' h => ⟨h.1, h.1 ▸ h.2⟩

theorem brokenKey_eq_none {m : Message} : db.brokenKey m = none ↔
    db.user? m.senderId ≠ none ∧ db.conversation? m.conversationId ≠ none ∧
    (∀ id ∈ m.replyToId, db.message? id ≠ none) ∧ (∀ id ∈ m.forwardedFromId, db.message? id ≠ none) ∧
    (∀ v ∈ m.forwardedFromUserId, db.user? v ≠ none) ∧
    ∀ d ∈ m.senderDeviceId, db.devices.find? (·.id = d) ≠ none := by
  have hite : ∀ {p : Prop} [Decidable p] {a : String} {o : Option String},
      (if p then some a else o) = none ↔ ¬p ∧ o = none := by
    intro p _ a o
    split <;> simp [*]
  unfold Database.brokenKey
  simp only [hite, not_exists, not_and, and_true, ne_eq]

/-- The database after the `create` of a message. -/
def Database.insert (db : Database) (row : MessageId → Message) : Database :=
  { db with
    nextMessageId := db.nextMessageId + 1
    messages := db.messages ++ [row db.nextMessageId] }

theorem ledger_insert {row : MessageId → Message} :
    (db.insert row).ledger = db.ledger.post (row db.nextMessageId).posting := by
  simp only [Database.insert, Database.ledger, Ledger.post, List.map_append, List.map_singleton]

theorem createMessage_row {row : MessageId → Message} : Triple (· = db) (createMessage row)
    (fun m db' => db' = db.insert row ∧ db.brokenKey (row db.nextMessageId) = none ∧
      m = row db.nextMessageId)
    fun db' => db' = { db with nextMessageId := db.nextMessageId + 1 } ∧
      db.brokenKey (row db.nextMessageId) ≠ none := by
  unfold createMessage
  refine .bind (Q := fun id db' => db' = db ∧ id = db.nextMessageId) (.reads fun _ h => ⟨h, by rw [h]⟩)
    fun id => ?_
  refine .given fun hid => ?_
  subst hid
  refine .bind (Q := fun _ db' => db' = { db with nextMessageId := db.nextMessageId + 1 })
    (.modify fun _ h => by rw [h]) fun _ => ?_
  refine .bind (Q := fun broken db' => db' = { db with nextMessageId := db.nextMessageId + 1 } ∧
    db.brokenKey (row db.nextMessageId) = broken) (.reads fun _ h => ⟨h, by rw [h]; rfl⟩)
    fun broken => ?_
  refine .given fun hbroken => ?_
  cases broken with
  | some constraint => exact .throw fun _ h => ⟨h, by rw [hbroken]; nofun⟩
  | none =>
    exact .bind (Q := fun _ db' => db' = db.insert row) (.modify fun _ h => by rw [h]; rfl) fun _ =>
      .pure fun _ h => ⟨h, hbroken, rfl⟩

theorem posted_fresh (hkeyed : db.Keyed) : ∀ p ∈ db.ledger.postings, p.id ≠ db.nextMessageId := by
  intro p hp
  obtain ⟨m, hm, rfl⟩ := List.mem_map.mp hp
  exact Nat.ne_of_lt (hkeyed.below m hm)

/-- A state in which the posting is found shows it. -/
theorem shows_findSelected {P : Database → Prop} {p : Posting}
    (hP : ∀ db', P db' → db'.ledger.posting? id = some p) :
    Triple P (findSelected id) (fun m db' => P db' ∧ ∃ selected, m = some selected ∧
      (mapMessage selected).Shows p) fun _ => False := by
  refine .reads fun db' h => ⟨h, ?_⟩
  have hfound := hP db' h
  rw [Database.posting?_ledger] at hfound
  obtain ⟨m, hm, hposting⟩ := Option.map_eq_some_iff.mp hfound
  exact ⟨db'.select m, by rw [hm]; rfl, db', m, hposting, rfl⟩

theorem keeps_createEnvelopes {envelopes : List MessageKeyEnvelope} :
    Keeps Database.ledger (createEnvelopes id envelopes) :=
  .bind .reads fun _ => .bind .demand fun _ => keeps_updateMessages fun _ => rfl

/-- The row that `saveMessage` creates. -/
def NewMessage.row (dto : NewMessage) (now : Time) (u : UserId) (c : ConversationId)
    (metadata : Option Text) (id : MessageId) : Message :=
  { Message.blank id now u c ((dto.content.map trim).getD []) with
    fileUrl := dto.fileUrl
    fileName := dto.fileName
    fileType := dto.fileType
    fileSize := dto.fileSize
    replyToId := dto.replyToId
    metadata
    scheduledAt := dto.scheduledAt
    senderDeviceId := dto.senderDeviceId }

/-- What `saveMessage` does once it has created the row. -/
def concludeSave (now : Time) (c : ConversationId) (dto : NewMessage) (msg : Message) :
    Service MessageView := do
  let selected ← reads (·.select msg)
  if dto.envelopes ≠ [] then
    createEnvelopes msg.id dto.envelopes
    touchConversation now c
    let withEnvelopes ← orThrow (← findSelected msg.id) .recordNotFound
    return mapMessage withEnvelopes
  else
    touchConversation now c
    return mapMessage selected

/-- **The rule of `saveMessage`**: before it creates the row it changes no table, and it creates the row
when all checks pass. -/
theorem saveMessage_rule {dto : NewMessage} {Q : MessageView → Database → Prop} {E : Database → Prop}
    (hchecks : ¬db.MaySave env u c dto → ∀ id, E { db with nextMessageId := id })
    (hrest : db.MaySave env u c dto → ∀ metadata,
      Triple (· = db.insert (dto.row now u c metadata))
        (concludeSave now c dto (dto.row now u c metadata db.nextMessageId)) Q E) :
    Triple (· = db) (saveMessage env now u c dto) Q E := by
  have hfails : ∀ {db'}, ¬db.MaySave env u c dto → db' = db → E db' := fun hnot h =>
    h ▸ hchecks hnot db.nextMessageId
  unfold saveMessage findConversation
  refine .bind (Q := fun _ db' => db' = db ∧ ∀ content ∈ dto.content, content.length ≤ MAX_CONTENT)
    (.demand (fun _ h hlength => ⟨h, ?_⟩) fun _ h hlength => hfails (fun hmay => hlength ?_) h)
    fun _ => .given fun hlength => ?_
  · simpa [Option.all_eq_true] using hlength
  · simpa [Option.all_eq_true] using hmay.1
  refine .bind (assertMember_seat.weaken (fun _ _ h => h) fun _ h => hfails (fun hmay => ?_) h.1)
    fun member => ?_
  · obtain ⟨-, ⟨seat, hseat, -⟩, -⟩ := hmay
    rw [Database.seat?_ledger, h.2] at hseat
    cases hseat
  refine .bind (Q := fun conv db' => (db' = db ∧ db.member? c u = some member) ∧
    db.conversation? c = conv) (.reads fun _ h => ⟨h, by rw [h.1]⟩) fun conv => ?_
  refine .bind (Q := fun conv db' => db' = db ∧ db.member? c u = some member ∧
    db.conversation? c = some conv) (.orThrow (fun _ _ h hconv => ⟨h.1.1, h.1.2, h.2.trans hconv⟩)
    fun _ h hconv => hfails (fun hmay => ?_) h.1.1) fun conv => .given fun hrows => ?_
  · obtain ⟨-, ⟨_, -, t, ht, -⟩, -⟩ := hmay
    rw [Database.type?_ledger, h.2.trans hconv] at ht
    cases ht
  have hmay : db.ledger.MayPost u c ↔ conv.type = .channel → member.role ≠ .member := by
    simp [Ledger.MayPost, Database.seat?_ledger, Database.type?_ledger, hrows.1, hrows.2,
      ConversationMember.seat]
  refine .bind (Q := fun _ db' => db' = db ∧ db.ledger.MayPost u c)
    (.demand (fun _ h hrole => ⟨h, hmay.mpr hrole.neg_resolve_left⟩) fun _ h hrole =>
      hfails (fun hsave => hrole ?_) h) fun _ => .given fun hpost => ?_
  · exact (Decidable.em _).imp id fun htype => hmay.mp hsave.2.1 (not_not.mp htype)
  refine .bind (Q := fun _ db' => db' = db ∧
    ∃ metadata, env.validateAndNormalizeMetadata dto.metadata = .ok metadata) ?_ fun metadata =>
    .given fun hmetadata => ?_
  · cases hvalid : env.validateAndNormalizeMetadata dto.metadata with
    | ok metadata => exact .pure fun _ h => ⟨h, metadata, rfl⟩
    | error message =>
      refine .throw fun _ h => hfails (fun hmay => ?_) h
      obtain ⟨metadata, hok⟩ := hmay.2.2.1
      cases hvalid.symm.trans hok
  have hkey : db.brokenKey (dto.row now u c metadata db.nextMessageId) = none ↔
      db.MaySave env u c dto := by
    rw [brokenKey_eq_none]
    have hconv : db.conversation? c ≠ none := by rw [hrows.2]; nofun
    exact ⟨fun ⟨hu, _, hreply, _, _, hd⟩ => ⟨hlength, hpost, hmetadata, hu, hreply, hd⟩,
      fun ⟨_, _, _, hu, hreply, hd⟩ => ⟨hu, hconv, hreply, nofun, nofun, hd⟩⟩
  refine .bind (createMessage_row.weaken (fun _ _ h => h) fun _ h => ?_) fun msg => ?_
  · rw [h.1]
    exact hchecks (mt hkey.mpr h.2) _
  · refine .given fun hmsg => ?_
    obtain ⟨hnone, rfl⟩ := hmsg
    exact hrest (hkey.mp hnone) metadata

theorem saveMessage_ledger {dto : NewMessage} (hkeyed : db.Keyed) :
    Triple (· = db) (saveMessage env now u c dto)
      (fun view db' => (db.MaySave env u c dto ∧ db.Saves now u c dto db'.ledger) ∧
        view.Shows (db.saved now u c dto))
      fun db' => ¬db.MaySave env u c dto ∧ db'.ledger = db.ledger ∨
        db.MaySave env u c dto ∧ db.Saves now u c dto db'.ledger := by
  refine saveMessage_rule (fun hnot _ => .inl ⟨hnot, rfl⟩) fun hmay metadata => ?_
  have hsaves : db.Saves now u c dto (db.insert (dto.row now u c metadata)).ledger :=
    ⟨hmay.2.1, fun id hid => Option.isSome_iff_ne_none.mpr (hmay.2.2.2.2.1 id hid), ledger_insert⟩
  refine .strengthen (P := fun db' : Database => db.MaySave env u c dto ∧
    db.Saves now u c dto db'.ledger) ?_ fun db' h => ⟨hmay, by rw [h]; exact hsaves⟩
  -- nothing that follows changes the ledger again
  have hkeep : ∀ {m : Service PUnit}, Keeps Database.ledger m →
      Triple (fun db' : Database => db.MaySave env u c dto ∧ db.Saves now u c dto db'.ledger) m
        (fun _ (db' : Database) => db.MaySave env u c dto ∧ db.Saves now u c dto db'.ledger)
        (fun db' : Database => ¬db.MaySave env u c dto ∧ db'.ledger = db.ledger ∨
          db.MaySave env u c dto ∧ db.Saves now u c dto db'.ledger) :=
    fun hm => (Triple.keep (P := fun l => db.MaySave env u c dto ∧ db.Saves now u c dto l) hm).weaken
      (fun _ _ h => h) fun _ h => .inr h
  unfold concludeSave
  refine .bind (Q := fun selected db' => (db.MaySave env u c dto ∧ db.Saves now u c dto db'.ledger) ∧
    (mapMessage selected).Shows (db.saved now u c dto))
    (.reads fun db' h => ⟨h, db', dto.row now u c metadata db.nextMessageId, rfl, rfl⟩)
    fun selected => ?_
  split
  · refine .given fun _ => .bind (hkeep keeps_createEnvelopes) fun _ =>
      .bind (hkeep keeps_touchConversation) fun _ => ?_
    have hfound : ∀ db' : Database, db.MaySave env u c dto ∧ db.Saves now u c dto db'.ledger →
        db'.ledger.posting? db.nextMessageId = some (db.saved now u c dto) := by
      intro db' h
      rw [h.2.2.2]
      exact Ledger.posting?_post (posted_fresh hkeyed)
    refine .bind ((shows_findSelected hfound).weaken (fun _ _ h => h) fun _ => False.elim) fun found => ?_
    refine .bind (Q := fun selected db' => (db.MaySave env u c dto ∧ db.Saves now u c dto db'.ledger) ∧
      (mapMessage selected).Shows (db.saved now u c dto))
      (.orThrow (fun selected _ h hfound => ⟨h.1, ?_⟩) fun _ h _ => .inr h.1) fun _ => .pure fun _ h => h
    obtain ⟨_, hsome, hshows⟩ := h.2
    obtain rfl := Option.some.inj (hfound.symm.trans hsome)
    exact hshows
  · exact .given fun hshows => .bind (hkeep keeps_touchConversation) fun _ => .pure fun _ h => ⟨h, hshows⟩

/-- The checks of `forwardMessage`, and the foreign keys of what it creates. -/
def Database.MayForward (db : Database) (u : UserId) (c : ConversationId) (id : MessageId) : Prop :=
  db.IsMember c u ∧ ∃ m ∈ db.message? id,
    db.user? u ≠ none ∧ db.conversation? c ≠ none ∧ db.user? m.senderId ≠ none

instance (db : Database) (u : UserId) (c : ConversationId) (id : MessageId) :
    Decidable (db.MayForward u c id) :=
  inferInstanceAs (Decidable (_ = true ∧ ∃ m ∈ db.message? id, _ ∧ _ ∧ _))

/-- What `forwardMessage` does once it has created the row. -/
def concludeForward (now : Time) (c : ConversationId) (msg : Message) : Service MessageView := do
  let selected ← reads (·.select msg)
  touchConversation now c
  return mapMessage selected

/-- **The rule of `forwardMessage`**, like that of `saveMessage`. -/
theorem forwardMessage_rule {reEncrypted : Option Text} {Q : MessageView → Database → Prop}
    {E : Database → Prop} (hchecks : ¬db.MayForward u c id → ∀ next, E { db with nextMessageId := next })
    (hrest : db.MayForward u c id → ∀ original ∈ db.message? id,
      Triple (· = db.insert (original.forwardedRow now u c (reEncrypted.getD original.content)))
        (concludeForward now c
          (original.forwardedRow now u c (reEncrypted.getD original.content) db.nextMessageId)) Q E) :
    Triple (· = db) (forwardMessage now u id c reEncrypted) Q E := by
  have hfails : ∀ {db'}, ¬db.MayForward u c id → db' = db → E db' := fun hnot h =>
    h ▸ hchecks hnot db.nextMessageId
  unfold forwardMessage findMessage
  refine .bind (assertMember_seat.weaken (fun _ _ h => h) fun _ h => hfails (fun hmay => ?_) h.1)
    fun member => ?_
  · exact Option.isSome_iff_ne_none.mp hmay.1 h.2
  refine .bind (Q := fun row db' => (db' = db ∧ db.member? c u = some member) ∧ db.message? id = row)
    (.reads fun _ h => ⟨h, by rw [h.1]⟩) fun row => ?_
  refine .bind (Q := fun original db' => db' = db ∧ (db.member? c u = some member ∧
    db.message? id = some original)) (.orThrow (fun _ _ h hrow => ⟨h.1.1, h.1.2, h.2.trans hrow⟩)
    fun _ h hrow => hfails (fun hmay => ?_) h.1.1) fun original => ?_
  · obtain ⟨-, m, hm, -⟩ := hmay
    cases hm.symm.trans (h.2.trans hrow)
  refine .given fun ⟨hmember, horiginal⟩ => ?_
  have hid : original.id = id := by simpa using List.find?_some horiginal
  have hmay : db.MayForward u c id ↔
      db.user? u ≠ none ∧ db.conversation? c ≠ none ∧ db.user? original.senderId ≠ none := by
    constructor
    · rintro ⟨-, m, hm, h⟩
      obtain rfl := Option.some.inj (hm.symm.trans horiginal)
      exact h
    · exact fun h => ⟨by rw [Database.IsMember, hmember]; rfl, original, horiginal, h⟩
  have hkey : db.brokenKey
      (original.forwardedRow now u c (reEncrypted.getD original.content) db.nextMessageId) = none ↔
      db.MayForward u c id := by
    rw [brokenKey_eq_none, hmay]
    simp [Message.forwardedRow, Message.blank, hid, horiginal]
  refine .bind (createMessage_row.weaken (fun _ _ h => h) fun _ h => ?_) fun msg => ?_
  · rw [h.1]
    exact hchecks (mt hkey.mpr h.2) _
  · refine .given fun hmsg => ?_
    obtain ⟨hnone, rfl⟩ := hmsg
    exact hrest (hkey.mp hnone) original horiginal

theorem forwardMessage_ledger {reEncrypted : Option Text} :
    Triple (· = db) (forwardMessage now u id c reEncrypted)
      (fun view db' => (db.MayForward u c id ∧ db'.ledger = db.ledger.post (db.forwarded now u c id)) ∧
        view.Shows (db.forwarded now u c id))
      fun db' => ¬db.MayForward u c id ∧ db'.ledger = db.ledger := by
  refine forwardMessage_rule (fun hnot _ => ⟨hnot, rfl⟩) fun hmay original horiginal => ?_
  have hid : original.id = id := by simpa using List.find?_some horiginal
  have hposting : (original.forwardedRow now u c (reEncrypted.getD original.content)
      db.nextMessageId).posting = db.forwarded now u c id := by
    rw [← hid]; rfl
  have hledger : (db.insert (original.forwardedRow now u c (reEncrypted.getD original.content))).ledger =
      db.ledger.post (db.forwarded now u c id) := ledger_insert.trans (by rw [hposting])
  refine .bind (Q := fun selected db' => db'.ledger = db.ledger.post (db.forwarded now u c id) ∧
    (mapMessage selected).Shows (db.forwarded now u c id))
    (.reads fun db' h => ⟨by rw [h, hledger], db', _, hposting, rfl⟩) fun selected => .given fun hshows => ?_
  refine .bind (Q := fun _ db' => db'.ledger = db.ledger.post (db.forwarded now u c id))
    (.modify fun db' h => ?_) fun _ => .pure fun _ h => ⟨⟨hmay, h⟩, hshows⟩
  exact (keeps_touchConversation (c := c) db').trans h

/-! ## Methods that strike, pin and clear -/

/-- The time of a deletion is not in the ledger. -/
theorem strike_ledger {p : Message → Bool} {q : Posting → Bool}
    (hpq : ∀ m, (p m → q m.posting) ∧ (q m.posting → p m ∨ m.deletedAt.isSome)) :
    { db with
      messages := db.messages.map fun m => if p m then { m with deletedAt := some now } else m }.ledger =
      db.ledger.strike q := by
  simp only [Database.ledger, Ledger.strike, List.map_map]
  congr 1
  refine List.map_congr_left fun m _ => ?_
  simp only [Function.comp_apply]
  split_ifs with hp hq hq
  · rfl
  · exact absurd ((hpq m).1 hp) hq
  · obtain ⟨at', hat⟩ := Option.isSome_iff_exists.mp (((hpq m).2 hq).resolve_left hp)
    simp [Message.posting, hat]
  · rfl

theorem deleteMessage_ledger : Triple (· = db) (deleteMessage now id u)
    (fun d db' => (∃ p ∈ db.ledger.posting? id, d.id = p.id) ∧
      (db'.ledger = db.ledger ∨ db'.ledger = db.ledger.strike (·.id = id)))
    fun db' => db'.ledger = db.ledger ∨ db'.ledger = db.ledger.strike (·.id = id) := by
  unfold deleteMessage findMessage
  refine .bind (Q := fun row db' => db' = db ∧ db.message? id = row) (.reads fun _ h => ⟨h, by rw [h]⟩)
    fun row => ?_
  refine .bind (Q := fun msg db' => db' = db ∧ db.message? id = some msg)
    (.orThrow (fun _ _ h hrow => ⟨h.1, h.2.trans hrow⟩) fun _ h _ => .inl (by rw [h.1])) fun msg => ?_
  refine .given fun hmsg => ?_
  have hfound : ∃ p ∈ db.ledger.posting? id, msg.id = p.id := by
    rw [Database.posting?_ledger, hmsg]
    exact ⟨msg.posting, rfl, rfl⟩
  refine .bind (Q := fun _ db' => db' = db) ?_ fun _ => ?_
  · unfold when
    split
    case isFalse => exact .pure fun _ h => h
    refine .bind (Q := fun _ db' => db' = db) (.reads fun _ h => h) fun _ => ?_
    exact .demand (fun _ h _ => h) fun _ h _ => .inl (by rw [h])
  split
  · exact .pure fun _ h => ⟨hfound, .inl (by rw [h])⟩
  refine .bind (Q := fun _ (db' : Database) => db'.ledger = db.ledger.strike (·.id = id))
    (.modify fun db' h => ?_) fun _ => ?_
  · rw [h]
    exact strike_ledger (p := (·.id = id)) fun m => ⟨fun h => h, .inl⟩
  refine .bind (Q := fun _ (db' : Database) => db'.ledger = db.ledger.strike (·.id = id)) ?_ fun _ => ?_
  · exact (Triple.keep (P := (· = db.ledger.strike (·.id = id))) keeps_releaseFile).weaken
      (fun _ _ h => h) fun _ h => .inr h
  · exact .pure fun _ h => ⟨hfound, .inr h⟩

theorem pinnedPreview_id {preview : PinnedPreview} (h : preview ∈ db.pinnedPreview id) :
    preview.id = id := by
  obtain ⟨m, hm, rfl⟩ := Option.map_eq_some_iff.mp h
  simpa using List.find?_some hm

theorem pinned_latest {preview : PinnedPreview}
    (h : preview ∈ (db.pinsOf c).head?.bind fun pin => db.pinnedPreview pin.messageId) :
    (c, preview.id) ∈ db.ledger.pins := by
  obtain ⟨pin, hpin, hpreview⟩ := Option.bind_eq_some_iff.mp h
  obtain ⟨hmem, rfl⟩ := Agree.mem_pinsOf (List.mem_of_mem_head? hpin)
  rw [pinnedPreview_id hpreview]
  exact List.mem_map.mpr ⟨pin, hmem, rfl⟩

theorem upsertPin_ledger : Triple (· = db) (upsertPin now u c id)
    (fun _ db' => db'.ledger = db.ledger.pin c id) fun _ => False := by
  refine .modify fun db' h => ?_
  subst h
  dsimp only
  have hhere : (db'.pins.any fun pin => decide (pin.conversationId = c ∧ pin.messageId = id)) = true ↔
      (c, id) ∈ db'.ledger.pins := by
    simp [Database.ledger]
  split
  · rw [Ledger.pin, if_pos (hhere.mp ‹_›)]
    simp only [Database.ledger, List.map_map]
    congr 1
    refine List.map_congr_left fun pin _ => ?_
    simp only [Function.comp_apply]
    split <;> rfl
  · rw [Ledger.pin, if_neg (mt hhere.mpr ‹_›)]
    simp [Database.ledger]

/-- The checks of `addPinnedMessage`. -/
def Database.MayPin (db : Database) (u : UserId) (c : ConversationId) (id : MessageId) : Prop :=
  (∃ member ∈ db.member? c u, member.role ≠ .member) ∧
    (∃ m ∈ db.message? id, m.conversationId = c ∧ m.deletedAt = none) ∧
    (db.pinsOf c).length < MAX_PINNED_MESSAGES

theorem addPinnedMessage_ledger : Triple (· = db) (addPinnedMessage now u c id)
    (fun r db' => (r.1.messageId = id ∧ ∀ preview ∈ r.1.message, preview.id = id) ∧
      db.MayPin u c id ∧ db'.ledger = db.ledger.pin c id)
    fun db' => db'.ledger = db.ledger := by
  unfold addPinnedMessage findMessage
  refine .bind (assertAdmin_seat.weaken (fun _ _ h => h) fun _ h => by rw [h.1]) fun _ => .given fun hadmin => ?_
  refine .bind (Q := fun row db' => db' = db ∧ db.message? id = row) (.reads fun _ h => ⟨h, by rw [h]⟩)
    fun row => ?_
  refine .bind (Q := fun msg db' => db' = db ∧ db.message? id = some msg ∧ msg.conversationId = c)
    (.orThrow (fun msg _ h hrow => ⟨h.1, ?_⟩) fun _ h _ => by rw [h.1]) fun msg => .given fun hmsg => ?_
  · obtain ⟨hmem, hc⟩ := Option.filter_eq_some_iff.mp hrow
    exact ⟨h.2.trans hmem, by simpa using hc⟩
  refine .bind (Q := fun _ db' => db' = db ∧ msg.deletedAt = none)
    (.demand (fun _ h hlive => ⟨h, hlive⟩) fun _ h _ => by rw [h]) fun _ => .given fun hlive => ?_
  refine .bind (Q := fun count db' => db' = db ∧ (db.pinsOf c).length = count)
    (.reads fun _ h => ⟨h, by rw [h]⟩) fun count => .given fun hcount => ?_
  refine .bind (Q := fun _ db' => db' = db ∧ count < MAX_PINNED_MESSAGES)
    (.demand (fun _ h hroom => ⟨h, hroom⟩) fun _ h _ => by rw [h]) fun _ => .given fun hroom => ?_
  have hmay : db.MayPin u c id := ⟨hadmin, ⟨msg, hmsg.1, hmsg.2, hlive⟩, hcount ▸ hroom⟩
  refine .bind (upsertPin_ledger.weaken (fun _ _ h => h) fun _ => False.elim) fun _ => ?_
  refine .bind (Q := fun message db' => db'.ledger = db.ledger.pin c id ∧
    ∀ preview ∈ message, PinnedPreview.id preview = id)
    (.reads fun db' h => ⟨h, fun _ => pinnedPreview_id⟩) fun message => ?_
  refine .given fun hmessage => .bind (Q := fun _ (db' : Database) => db'.ledger = db.ledger.pin c id)
    (.reads fun _ h => h) fun _ => .pure fun _ h => ⟨⟨rfl, hmessage⟩, hmay, h⟩

theorem filter_pins (q : ConversationId × MessageId → Bool) :
    { db with pins := db.pins.filter fun pin => ! q (pin.conversationId, pin.messageId) }.ledger =
      db.ledger.unpin q := by
  simp [Database.ledger, Ledger.unpin, List.filter_map, Function.comp_def]

theorem removePinnedMessage_ledger : Triple (· = db) (removePinnedMessage u c id)
    (fun r db' => (r.unpinnedMessageId = id ∧ ∀ preview ∈ r.latestPinnedMessage,
        (c, preview.id) ∈ db'.ledger.pins) ∧
      (∃ member ∈ db.member? c u, member.role ≠ .member) ∧ db'.ledger = db.ledger.unpin (· = (c, id)))
    fun db' => db'.ledger = db.ledger := by
  unfold removePinnedMessage
  refine .bind (assertAdmin_seat.weaken (fun _ _ h => h) fun _ h => by rw [h.1]) fun _ => .given fun hadmin => ?_
  refine .bind (Q := fun _ (db' : Database) => db'.ledger = db.ledger.unpin (· = (c, id)))
    (.modify fun db' h => ?_) fun _ => ?_
  · rw [h, ← filter_pins]
    simp only [Prod.mk.injEq, decide_not]
  refine .bind (Q := fun _ (db' : Database) => db'.ledger = db.ledger.unpin (· = (c, id)))
    (.reads fun _ h => h) fun _ => ?_
  refine .bind (Q := fun latest (db' : Database) => (∀ preview ∈ latest,
    (c, PinnedPreview.id preview) ∈ db'.ledger.pins) ∧ db'.ledger = db.ledger.unpin (· = (c, id)))
    (.reads fun db' h => ⟨fun _ => pinned_latest, h⟩) fun latest => ?_
  exact .pure fun _ h => ⟨⟨rfl, h.1⟩, hadmin, h.2⟩

/-! ## Methods about members -/

theorem map_seats {p : ConversationMember → Bool} {f : ConversationMember → ConversationMember}
    {q : Seat → Bool} {g : Seat → Seat} (hp : ∀ m, p m = q m.seat) (hf : ∀ m, (f m).seat = g m.seat) :
    { db with members := db.members.map fun m => if p m then f m else m }.ledger =
      { db.ledger with seats := db.ledger.seats.map fun s => if q s then g s else s } := by
  simp only [Database.ledger, List.map_map]
  congr 1
  refine List.map_congr_left fun m _ => ?_
  simp only [Function.comp_apply, hp]
  split
  · exact hf m
  · rfl

theorem markAsRead_ledger : ((markAsRead now u c).exec db).2.ledger =
    db.ledger.read (fun s => s.conversationId = c ∧ s.userId = u) now :=
  map_seats (q := fun s => s.conversationId = c ∧ s.userId = u)
    (g := fun s => { s with lastReadAt := now }) (fun _ => rfl) fun _ => rfl

theorem clearMessages_ledger {scope : Scope} : Triple (· = db) (clearMessages now u c scope)
    (fun _ db' => (db.ledger.seat? c u).isSome ∧ db'.ledger = match scope with
      | .both => ((db.ledger.strike (·.conversationId = c)).unpin (·.1 = c)).clear
          (·.conversationId = c) now
      | .self => db.ledger.clear (fun s => s.conversationId = c ∧ s.userId = u) now)
    fun db' => (scope = .self → db.ledger.seat? c u = none ∨ db.ledger.type? c = none) ∧
      db'.ledger = db.ledger := by
  unfold clearMessages findConversation
  refine .bind (assertMember_seat.weaken (fun _ _ h => h) fun _ h => ⟨fun _ => .inl ?_, by rw [h.1]⟩)
    fun member => ?_
  · rw [Database.seat?_ledger, h.2]
    rfl
  refine .given fun hmember => ?_
  have hseat : (db.ledger.seat? c u).isSome := by rw [Database.seat?_ledger, hmember]; rfl
  refine .bind (Q := fun row db' => db' = db ∧ db.conversation? c = row) (.reads fun _ h => ⟨h, by rw [h]⟩)
    fun row => .given fun hrow => ?_
  refine .bind (Q := fun _ db' => db' = db) (.orThrow (fun _ _ h _ => h)
    fun _ h hnone => ⟨fun _ => .inr ?_, by rw [h]⟩) fun conv => ?_
  · rw [Database.type?_ledger, hrow, hnone]
    rfl
  cases scope with
  | self =>
    refine .bind (Q := fun _ (db' : Database) => db'.ledger =
      db.ledger.clear (fun s => s.conversationId = c ∧ s.userId = u) now) (.modify fun db' h => ?_)
      fun _ => .pure fun _ h => ⟨hseat, h⟩
    subst h
    exact map_seats (q := fun s => s.conversationId = c ∧ s.userId = u)
      (g := fun s => { s with clearedAt := some now }) (fun _ => rfl) fun _ => rfl
  | both =>
    refine .bind (Q := fun _ db' => db' = db) (.demand (fun _ h _ => h) fun _ h _ => ⟨nofun, by rw [h]⟩)
      fun _ => ?_
    refine .bind (Q := fun _ (db' : Database) => db'.ledger = db.ledger.strike (·.conversationId = c))
      (.modify fun db' h => ?_) fun _ => ?_
    · rw [h]
      refine strike_ledger (p := fun m => m.conversationId = c ∧ m.deletedAt = none) fun m => ?_
      cases hdeleted : m.deletedAt <;> simp [Message.posting, hdeleted]
    refine .bind (Q := fun _ (db' : Database) => db'.ledger =
      (db.ledger.strike (·.conversationId = c)).unpin (·.1 = c)) (.modify fun db' h => ?_) fun _ => ?_
    · rw [← h, ← filter_pins]
      simp only [decide_not, ne_eq]
    refine .bind (Q := fun _ (db' : Database) => db'.ledger =
      ((db.ledger.strike (·.conversationId = c)).unpin (·.1 = c)).clear (·.conversationId = c) now)
      (.modify fun db' h => ?_) fun _ => ?_
    · rw [← h]
      exact map_seats (q := fun s => s.conversationId = c) (g := fun s => { s with clearedAt := some now })
        (fun _ => rfl) fun _ => rfl
    refine .bind (Q := fun _ (db' : Database) => db'.ledger =
      ((db.ledger.strike (·.conversationId = c)).unpin (·.1 = c)).clear (·.conversationId = c) now)
      (.modify fun db' h => ?_) fun _ => .pure fun _ h => ⟨hseat, h⟩
    exact (keeps_touchConversation (c := c) db').trans h

theorem createConversation_ledger {type : ConversationType} {name description : Option Text}
    {members : List (UserId × MemberRole)} :
    Triple (· = db) (createConversation now type name description u members)
      (fun _ db' => db'.ledger = db.ledger.found now type members) fun db' => db'.ledger = db.ledger.skip := by
  unfold createConversation
  refine .bind (Q := fun id db' => db' = db ∧ id = db.nextConversationId)
    (.reads fun _ h => ⟨h, by rw [h]⟩) fun id => .given fun hid => ?_
  subst hid
  refine .bind (Q := fun _ db' => db' = { db with nextConversationId := db.nextConversationId + 1 })
    (.modify fun _ h => by rw [h]) fun _ => ?_
  refine .bind (Q := fun _ db' => db' = { db with nextConversationId := db.nextConversationId + 1 })
    (.reads fun _ h => h) fun users => ?_
  refine .bind (Q := fun _ db' => db' = { db with nextConversationId := db.nextConversationId + 1 })
    (.demand (fun _ h _ => h) fun _ h _ => by rw [h]; rfl) fun _ => ?_
  refine .bind (Q := fun _ (db' : Database) => db'.ledger = db.ledger.found now type members)
    (.modify fun db' h => ?_) fun _ => .reads fun _ h => h
  rw [h]
  simp [Database.ledger, Ledger.found, ConversationMember.seat, ConversationMember.joining]

theorem getOrCreateDirect_ledger {target : UserId} :
    Triple (· = db) (getOrCreateDirect now u target)
      (fun _ db' => db'.ledger = db.ledger ∨ ∃ members : List (UserId × MemberRole),
        ((members.map (·.1)).Nodup ∧ ∀ m ∈ members, m.2 = .member) ∧
          db'.ledger = db.ledger.found now .direct members)
      fun db' => db'.ledger = db.ledger ∨ db'.ledger = db.ledger.skip := by
  unfold getOrCreateDirect findUser
  refine .bind (Q := fun _ db' => db' = db) ?_ fun _ => ?_
  · unfold when
    split
    case isFalse => exact .pure fun _ h => h
    refine .bind (Q := fun _ db' => db' = db) (.reads fun _ h => h) fun _ => ?_
    exact .demand (fun _ h _ => h) fun _ h _ => .inl (by rw [h])
  refine .bind (Q := fun _ db' => db' = db) (.reads fun _ h => h) fun existing => ?_
  cases existing with
  | some conv => exact .reads fun _ h => .inl (by rw [h])
  | none =>
    refine createConversation_ledger.weaken (fun _ _ h => .inr ⟨_, ?_, h⟩) fun _ h => .inr h
    split
    case isTrue => simp
    case isFalse hne => simp [hne]

theorem mayAdd_ledger {target : UserId} : db.ledger.MayAdd u c target ↔
    (∀ conv ∈ db.conversation? c, conv.type ≠ .direct) ∧
      (∃ m ∈ db.member? c u, m.role ≠ .member) ∧ db.member? c target = none := by
  unfold Ledger.MayAdd
  rw [Database.seat?_ledger, Database.seat?_ledger, Database.type?_ledger]
  simp [ConversationMember.seat]

theorem addMember_ledger {target : UserId} : Triple (· = db) (addMember now u c target)
    (fun _ db' => (db.ledger.MayAdd u c target ∧ db.user? target ≠ none) ∧
      db'.ledger = db.ledger.join now c target)
    fun db' => ¬(db.ledger.MayAdd u c target ∧ db.user? target ≠ none) ∧ db'.ledger = db.ledger := by
  rw [mayAdd_ledger]
  unfold addMember findConversation findMember findUser
  refine .bind (Q := fun conv db' => db' = db ∧ db.conversation? c = conv)
    (.reads fun _ h => ⟨h, by rw [h]⟩) fun conv => .given fun hconv => ?_
  subst hconv
  refine .bind (Q := fun _ db' => db' = db ∧ ∀ conv ∈ db.conversation? c, conv.type ≠ .direct)
    (.demand (fun _ h htype => ⟨h, htype⟩) fun _ h hnot => ⟨fun hmay => hnot hmay.1.1, by rw [h]⟩)
    fun _ => .given fun htype => ?_
  refine .bind (assertAdmin_seat.weaken (fun _ _ h => h) fun _ h => ⟨fun hmay => ?_, by rw [h.1]⟩)
    fun admin => .given fun hadmin => ?_
  · obtain ⟨admin, hadmin, hrole⟩ := hmay.1.2.1
    exact hrole (h.2 admin hadmin)
  refine .bind (Q := fun exist db' => db' = db ∧ db.member? c target = exist)
    (.reads fun _ h => ⟨h, by rw [h]⟩) fun exist => .given fun hexist => ?_
  subst hexist
  refine .bind (Q := fun _ db' => db' = db ∧ db.member? c target = none)
    (.demand (fun _ h hnone => ⟨h, hnone⟩) fun _ h hnot => ⟨fun hmay => hnot hmay.1.2.2, by rw [h]⟩)
    fun _ => .given fun hnone => ?_
  refine .bind (Q := fun user db' => db' = db ∧ db.user? target = user) (.reads fun _ h => ⟨h, by rw [h]⟩)
    fun user => .given fun huser => ?_
  subst huser
  refine .bind (Q := fun _ db' => db' = db ∧ db.user? target ≠ none)
    (.demand (fun _ h huser => ⟨h, huser⟩) fun _ h hnot => ⟨fun hmay => hnot hmay.2, by rw [h]⟩)
    fun _ => .given fun huser => ?_
  refine .bind (Q := fun _ (db' : Database) => db'.ledger = db.ledger.join now c target)
    (.modify fun _ h => ?_) fun _ => .bind (Q := fun _ (db' : Database) =>
      db'.ledger = db.ledger.join now c target) (.reads fun _ h => h)
      fun _ => .pure fun _ h => ⟨⟨⟨htype, hadmin, hnone⟩, huser⟩, h⟩
  rw [h]
  simp [Database.ledger, Ledger.join, ConversationMember.seat, ConversationMember.joining]

theorem mayRemove_ledger {target : UserId} :
    db.ledger.MayRemove u c target ↔ db.MayRemove u c target := by
  unfold Ledger.MayRemove Database.MayRemove
  rw [Database.seat?_ledger, Database.seat?_ledger, Database.type?_ledger]
  simp [ConversationMember.seat]

theorem removeMember_ledger {target : UserId} :
    (db.ledger.MayRemove u c target →
      ((removeMember u c target).exec db).2.ledger = db.ledger.leave c target) ∧
    (¬db.ledger.MayRemove u c target →
      ((removeMember u c target).exec db).2.ledger = db.ledger) := by
  rw [mayRemove_ledger]
  refine (removeMember_row.weaken (fun _ db' h => ?_) fun db' h => ?_).after (P := (· = db))
    (E := fun db' => (db.MayRemove u c target → db'.ledger = db.ledger.leave c target) ∧
      (¬db.MayRemove u c target → db'.ledger = db.ledger)) rfl
  · obtain ⟨hmay, senderKeys, rfl⟩ := h
    refine ⟨fun _ => ?_, fun hnot => absurd hmay hnot⟩
    simp [Database.ledger, Ledger.leave, List.filter_map, Function.comp_def, ConversationMember.seat]
  · obtain ⟨hgone, senderKeys, rfl⟩ := h
    refine ⟨fun hmay => ?_, fun _ => rfl⟩
    have hnone : db.ledger.seat? c target = none := by rw [Database.seat?_ledger, hgone hmay]; rfl
    rw [Ledger.leave, List.filter_eq_self.mpr]
    · rfl
    · intro s hs
      have hother := List.find?_eq_none.mp hnone s hs
      simpa [not_and_or, imp_iff_not_or] using hother

/-- What a role in a request makes of the one that a member has. -/
def MemberRole.set (old : MemberRole) (role : Option String) : MemberRole :=
  (role.bind MemberRole.ofString?).getD old

theorem setMemberRole_ledger {target : UserId} {role : Option String} :
    Triple (· = db) (setMemberRole u c target role)
      (fun _ db' => (db.ledger.MayAppoint u c ∧ ∀ name ∈ role, MemberRole.ofString? name ≠ none) ∧
        ∃ s ∈ db.ledger.seat? c target, db'.ledger = db.ledger.appoint c target (s.role.set role))
      fun db' => (¬db.ledger.MayAppoint u c ∨ (∃ name ∈ role, MemberRole.ofString? name = none) ∨
        db.ledger.seat? c target = none) ∧ db'.ledger = db.ledger := by
  unfold setMemberRole findMember
  have hmay : db.ledger.MayAppoint u c ↔ ∃ m ∈ db.member? c u, m.role = .owner := by
    rw [Ledger.MayAppoint, Database.seat?_ledger]
    simp [ConversationMember.seat]
  refine .bind (Q := fun owner db' => db' = db ∧ db.member? c u = owner) (.reads fun _ h => ⟨h, by rw [h]⟩)
    fun owner => .given fun howner => ?_
  subst howner
  refine .bind (Q := fun _ db' => db' = db ∧ db.ledger.MayAppoint u c)
    (.demand (fun _ h hrole => ⟨h, hmay.mpr hrole⟩) fun _ h hrole => ⟨.inl (mt hmay.mp hrole), by rw [h]⟩)
    fun _ => .given fun hmay => ?_
  refine .bind (Q := fun _ db' => db' = db ∧ ∀ name ∈ role, MemberRole.ofString? name ≠ none)
    (.demand (fun _ h hrole => ⟨h, hrole⟩) fun _ h hrole => ⟨.inr (.inl (by simpa using hrole)), by rw [h]⟩)
    fun _ => .given fun hrole => ?_
  refine .bind (Q := fun row db' => db' = db ∧ db.member? c target = row) (.reads fun _ h => ⟨h, by rw [h]⟩)
    fun row => .given fun hrow => ?_
  refine .bind (Q := fun member db' => db' = db ∧ db.member? c target = some member)
    (.orThrow (fun _ _ h hsome => ⟨h, hrow.trans hsome⟩) fun _ h hnone => ⟨.inr (.inr ?_), by rw [h]⟩)
    fun member => .given fun hmember => ?_
  · rw [Database.seat?_ledger, hrow, hnone]
    rfl
  refine .bind (Q := fun _ (db' : Database) =>
    db'.ledger = db.ledger.appoint c target (member.seat.role.set role)) (.modify fun db' h => ?_)
    fun _ => .pure fun _ h => ⟨⟨hmay, hrole⟩, member.seat, ?_, h⟩
  · rw [h]
    have hmap := @map_seats db (fun m => m.conversationId = c ∧ m.userId = target)
      (fun m => { m with role := (role.bind MemberRole.ofString?).getD member.role })
      (fun s => s.conversationId = c ∧ s.userId = target)
      (fun s => { s with role := member.seat.role.set role }) (fun _ => rfl) fun _ => rfl
    simpa only [Ledger.appoint, decide_eq_true_eq] using hmap
  · rw [Database.seat?_ledger, hmember]
    rfl

/-- The rows of a conversation are changed in what the ledger does not have. -/
theorem updateConversation_ledger {dto : UpdateConversation}
    (hids : (db.conversations.map (·.id)).Nodup) :
    ((updateConversation now u c dto).exec db).2.ledger = db.ledger := by
  refine Triple.after (P := (· = db)) (E := fun db' => db'.ledger = db.ledger) ?_ rfl
  unfold updateConversation findConversation
  refine .bind (assertAdmin_seat.weaken (fun _ _ h => h.1) fun _ h => by rw [h.1]) fun _ => ?_
  refine .bind (Q := fun row db' => db' = db ∧ db.conversation? c = row) (.reads fun _ h => ⟨h, by rw [h]⟩)
    fun row => .given fun hrow => ?_
  refine .bind (Q := fun conv db' => db' = db ∧ db.conversation? c = some conv)
    (.orThrow (fun _ _ h hsome => ⟨h, hrow.trans hsome⟩) fun _ h _ => by rw [h])
    fun conv => .given fun hconv => ?_
  refine .bind (Q := fun _ (db' : Database) => db'.ledger = db.ledger) (.modify fun db' h => ?_)
    fun _ => .pure fun _ h => h
  subst h
  simp only [Database.ledger, List.map_map]
  congr 1
  refine List.map_congr_left fun conv' hmem => ?_
  simp only [Function.comp_apply]
  split
  · obtain rfl : conv' = conv := by
      refine List.inj_on_of_nodup_map hids hmem (List.mem_of_find?_eq_some hconv) ?_
      have := List.find?_some hconv
      simp_all
    rfl
  · rfl

end

end Vesper.Server
