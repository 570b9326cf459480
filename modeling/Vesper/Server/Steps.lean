import Vesper.Server.Authority
import Vesper.Server.Ledger

/-!
# What a step leaves in the ledger

One definition says which ledgers an input can leave, with the checks that it has passed; one theorem
says that the server leaves no other. The invariants of whole runs are derived from these.
-/

namespace Vesper.Server
open Program

namespace Gateway
variable (s : Gateway) (now : Time)

/-- A message is posted by `saveMessage`, or nothing happens. -/
def YieldsSave (u : UserId) (data : SendMessage) (l : Ledger) : Prop :=
  l = s.db.ledger ∨ s.db.Saves now u data.conversationId (data.dto now) l

/-- A message is posted by `forwardMessage` if its checks pass, and nothing happens otherwise. -/
def YieldsForward (u : UserId) (id : MessageId) (c : ConversationId) (l : Ledger) : Prop :=
  s.db.MayForward u c id ∧ l = s.db.ledger.post (s.db.forwarded now u c id) ∨
    ¬s.db.MayForward u c id ∧ l = s.db.ledger

/-- A message is pinned if the checks pass. -/
def YieldsPin (checks : Prop) (c : ConversationId) (id : MessageId) (l : Ledger) : Prop :=
  l = s.db.ledger ∨ checks ∧ l = s.db.ledger.pin c id

def YieldsUnpin (c : ConversationId) (id : MessageId) (l : Ledger) : Prop :=
  l = s.db.ledger ∨ l = s.db.ledger.unpin (· = (c, id))

def YieldsEvent (u : UserId) : Request → Ledger → Prop
  | .sendMessage data, l => s.YieldsSave now u data l
  | .markAsRead c, l => l = s.db.ledger.read (fun seat => seat.conversationId = c ∧ seat.userId = u) now
  | .deleteMessage id, l => l = s.db.ledger ∨ l = s.db.ledger.strike (·.id = id)
  | .pinMessage c id, l => s.YieldsPin (s.Lets now u .mutate ∧ s.db.MayPin u c id) c id l
  | .unpinMessage c id, l => s.YieldsUnpin c id l
  | .forwardMessage id c _, l =>
    if s.Lets now u .forward then s.YieldsForward now u id c l else l = s.db.ledger
  | _, l => l = s.db.ledger

/-- The members that `createGroup` starts with. -/
def groupMembers (u : UserId) (memberIds : List UserId) : List (UserId × MemberRole) :=
  (u, .owner) :: ((memberIds.filter (· ≠ u)).eraseDups).map (·, .member)

def YieldsCall (u : UserId) : Route → Ledger → Prop
  | .createDirect _, l => l = s.db.ledger ∨ l = s.db.ledger.skip ∨
      ∃ members : List (UserId × MemberRole),
        ((members.map (·.1)).Nodup ∧ ∀ m ∈ members, m.2 = .member) ∧
          l = s.db.ledger.found now .direct members
  | .createGroup _ _ memberIds, l =>
    l = s.db.ledger.skip ∨ l = s.db.ledger.found now .group (groupMembers u memberIds)
  | .createChannel _ _, l => l = s.db.ledger.skip ∨ l = s.db.ledger.found now .channel [(u, .owner)]
  | .clearMessages c scope, l =>
    (scope = .self → s.db.ledger.seat? c u = none ∨ s.db.ledger.type? c = none) ∧ l = s.db.ledger ∨
    (s.db.ledger.seat? c u).isSome ∧ l = match scope with
      | .both => ((s.db.ledger.strike (·.conversationId = c)).unpin (·.1 = c)).clear
          (·.conversationId = c) now
      | .self => s.db.ledger.clear (fun seat => seat.conversationId = c ∧ seat.userId = u) now
  | .addMember c target, l =>
    ¬(s.db.ledger.MayAdd u c target ∧ s.db.user? target ≠ none) ∧ l = s.db.ledger ∨
      (s.db.ledger.MayAdd u c target ∧ s.db.user? target ≠ none) ∧ l = s.db.ledger.join now c target
  | .removeMember c target, l =>
    (s.db.ledger.MayRemove u c target → l = s.db.ledger.leave c target) ∧
      (¬s.db.ledger.MayRemove u c target → l = s.db.ledger)
  | .setRole c target role, l =>
    (¬s.db.ledger.MayAppoint u c ∨ (∃ name ∈ role, MemberRole.ofString? name = none) ∨
        s.db.ledger.seat? c target = none) ∧ l = s.db.ledger ∨
      (s.db.ledger.MayAppoint u c ∧ ∀ name ∈ role, MemberRole.ofString? name ≠ none) ∧
        ∃ seat ∈ s.db.ledger.seat? c target, l = s.db.ledger.appoint c target (seat.role.set role)
  | .pinMessage c id, l => s.YieldsPin (s.db.MayPin u c id) c id l
  | .unpinMessage c id, l => s.YieldsUnpin c id l
  | .forwardMessage id c, l => s.YieldsForward now u id c l
  | _, l => l = s.db.ledger

/-- The ledgers that an input can leave. -/
def Yields : Input → Ledger → Prop
  | .event socket request, l => ∃ k ∈ s.socket? socket, s.YieldsEvent now k.userId request l
  | .call u route, l => s.YieldsCall now u route l
  | .timeout timer, l =>
    l = s.db.ledger ∨ ∃ t ∈ s.timers[timer]?, l = s.db.ledger.strike (·.id = t.messageId)
  | _, l => l = s.db.ledger

end Gateway

/-! ## Handlers -/

section
variable {g : Gateway} {env : Environment} {now : Time} {client : Socket} {limit : Limit}
  {event : String} {α β : Type} {m : Service α} {u : UserId} {c : ConversationId} {id : MessageId}

theorem keeps_emit {target : Target} {e : Event} : Keeps Gateway.db (emit target e) :=
  .modify fun _ => rfl

theorem keeps_suspend {job : Job} : Keeps Gateway.db (suspend job) := .modify fun _ => rfl

theorem keeps_joinRooms {sockets : List SocketId} {conversations : List ConversationId} :
    Keeps Gateway.db (joinRooms sockets conversations) := .modify fun _ => rfl

theorem keeps_service {f : Database → γ} (h : Keeps f m) : Keeps (fun g => f g.db) (service m) :=
  .zoom h fun _ _ h => h

theorem keeps_pushToMembers {title body : Text} : Keeps Gateway.db (pushToMembers c u title body) :=
  .bind (keeps_service (f := id) .reads) fun _ => .modify fun _ => rfl

theorem db_service_bind {k : α → Handler β} (hk : ∀ a, Keeps Gateway.db (k a)) :
    ((service m >>= k).exec g).2.db = (m.exec g.db).2 := by
  rw [exec_bind, service, exec_zoom]
  rcases m.exec g.db with ⟨e | a, db⟩
  · rfl
  · exact hk a _

/-- The server once a limit has counted a call. -/
def Gateway.counted (g : Gateway) (now : Time) (userId : UserId) (limit : Limit) : Gateway :=
  { g with limiters := Function.update g.limiters limit ((g.limiters limit).hit now userId) }

/-- The server has turned a client away, and has at most said so. -/
structure Gateway.Refused (g : Gateway) (client : SocketId) (g' : Gateway) : Prop where
  db : g'.db = g.db
  sockets : g'.sockets = g.sockets
  timers : g'.timers = g.timers
  emitted : g'.emitted = g.emitted ∨ ∃ event retryAfter message,
    g'.emitted = g.emitted ++ [(.client client, .rateLimited event retryAfter message)]

/-- A handler that is held to a limit runs if the limit lets it through. -/
theorem exec_limited {n : Handler PUnit} :
    (g.Lets now client.userId limit ∧
      (do when (← rateLimit now client limit event) n : Handler PUnit).exec g =
        n.exec (g.counted now client.userId limit)) ∨
    (¬g.Lets now client.userId limit ∧ ∃ g', g.Refused client.id g' ∧
      (do when (← rateLimit now client limit event) n : Handler PUnit).exec g = (.ok ⟨⟩, g')) := by
  rw [exec_bind]
  unfold rateLimit
  by_cases h : client.userId = 0
  · rw [if_pos h]
    exact .inr ⟨fun hlets => hlets.1 h, g, ⟨rfl, rfl, rfl, .inl rfl⟩, rfl⟩
  rw [if_neg h]
  simp only [exec_bind, exec_reads, exec_modify]
  by_cases hallowed : (g.limiters limit).isAllowed now client.userId = true
  · refine .inl ⟨⟨h, hallowed⟩, ?_⟩
    simp only [when, hallowed, Bool.not_true, Bool.false_eq_true, if_false, if_true, exec_pure]
    rfl
  · refine .inr ⟨fun hlets => hallowed hlets.2, ?_⟩
    simp only [when, hallowed, Bool.not_false, if_true, exec_pure, exec_bind, exec_reads]
    refine ⟨_, ?_, rfl⟩
    exact ⟨rfl, rfl, rfl, .inr ⟨_, _, _, rfl⟩⟩

/-- What a limited handler leaves of the database. -/
theorem db_limited {n : Handler PUnit} {P : Database → Prop}
    (hstays : ¬g.Lets now client.userId limit → P g.db)
    (hn : g.Lets now client.userId limit → ∀ g', g'.db = g.db → P (n.exec g').2.db) :
    P (((do when (← rateLimit now client limit event) n : Handler PUnit).exec g).2).db := by
  rcases exec_limited (g := g) (n := n) with ⟨hlets, h⟩ | ⟨hlets, g', hrefused, h⟩ <;> rw [h]
  · exact hn hlets _ rfl
  · exact (congrArg P hrefused.db).mpr (hstays hlets)

/-- A handler that tells a target what the service returned, under a limit. -/
theorem db_limited_attempt {target : α → Target} {e : α → Event} {failed : HttpError → Handler PUnit}
    {P : Database → Prop} (hfailed : ∀ e, Keeps Gateway.db (failed e))
    (hstays : ¬g.Lets now client.userId limit → P g.db)
    (hm : g.Lets now client.userId limit → P (m.exec g.db).2) :
    P ((do when (← rateLimit now client limit event)
              (tryCatch (do let a ← service m; emit (target a) (e a)) failed) :
        Handler PUnit).exec g).2.db := by
  refine db_limited hstays fun hlets g' hdb => ?_
  rw [Keeps.attempt (f := Gateway.db) hfailed, db_service_bind fun _ => keeps_emit, hdb]
  exact hm hlets

theorem db_handleMessage {data : SendMessage} {P : Database → Prop} (hstays : P g.db)
    (hm : data.isEmpty = false →
      P ((saveMessage env now client.userId data.conversationId (data.dto now)).exec g.db).2) :
    P ((handleMessage env now client data).exec g).2.db := by
  unfold handleMessage
  refine db_limited (fun _ => hstays) fun _ g' hdb => ?_
  unfold when
  split
  case isFalse => exact (congrArg P hdb).mpr hstays
  rename_i hempty
  split
  · exact (congrArg P hdb).mpr hstays
  rw [Keeps.attempt (f := Gateway.db) fun _ => keeps_emit, db_service_bind fun message => ?_, hdb]
  · exact hm (by simpa using hempty)
  · split
    · exact .bind keeps_emit fun _ => .modify fun _ => rfl
    · exact .bind keeps_emit fun _ => keeps_pushToMembers

/-- What is true of the ledger in either outcome is true of the one that is left. -/
theorem ledger_after {db : Database} {P : Ledger → Prop}
    (h : Triple (· = db) m (fun _ db' => P db'.ledger) fun db' => P db'.ledger) :
    P (m.exec db).2.ledger :=
  Triple.after (E := fun db' : Database => P db'.ledger) h rfl

theorem yields_save {data : SendMessage} (hkeyed : g.db.Keyed) : g.YieldsSave now u data
    ((saveMessage env now u data.conversationId (data.dto now)).exec g.db).2.ledger :=
  ledger_after ((saveMessage_ledger hkeyed).weaken (fun _ _ h => .inr h.1.2)
    fun _ h => h.imp (·.2) (·.2))

theorem yields_forward {reEncrypted : Option Text} : g.YieldsForward now u id c
    ((forwardMessage now u id c reEncrypted).exec g.db).2.ledger :=
  ledger_after (forwardMessage_ledger.weaken (fun _ _ h => .inl h.1) fun _ h => .inr h)

theorem yields_pin {checks : Prop} (hchecks : g.db.MayPin u c id → checks) :
    g.YieldsPin checks c id ((addPinnedMessage now u c id).exec g.db).2.ledger :=
  ledger_after (addPinnedMessage_ledger.weaken (fun _ _ h => .inr ⟨hchecks h.2.1, h.2.2⟩) fun _ h => .inl h)

theorem yields_unpin : g.YieldsUnpin c id ((removePinnedMessage u c id).exec g.db).2.ledger :=
  ledger_after (removePinnedMessage_ledger.weaken (fun _ _ h => .inr h.2.2) fun _ h => .inl h)

theorem yields_handle {request : Request} (hkeyed : g.db.Keyed) :
    g.YieldsEvent now client.userId request ((handle env now client request).exec g).2.db.ledger := by
  cases request with
  | sendMessage data =>
    exact db_handleMessage (P := fun db => g.YieldsSave now client.userId data db.ledger) (.inl rfl)
      fun _ => yields_save hkeyed
  | markAsRead c =>
    refine (congrArg Database.ledger (db_service_bind fun _ => keeps_emit)).trans ?_
    exact markAsRead_ledger
  | typing c isTyping =>
    exact db_limited (P := fun db => db.ledger = g.db.ledger) (fun _ => rfl)
      fun _ g' hdb => congrArg Database.ledger ((keeps_emit g').trans hdb)
  | deleteMessage id =>
    refine db_limited_attempt (P := fun db => db.ledger = g.db.ledger ∨ db.ledger = _)
      (fun _ => keeps_emit) (fun _ => .inl rfl) fun _ => ?_
    exact ledger_after (P := fun l => l = g.db.ledger ∨ l = _)
      (deleteMessage_ledger.weaken (fun _ _ h => h.2) fun _ h => h)
  | editMessage id content =>
    exact db_limited_attempt (P := fun db => db.ledger = g.db.ledger) (fun _ => keeps_emit)
      (fun _ => rfl) fun _ => keeps_editMessage g.db
  | toggleReaction id emoji =>
    exact db_limited_attempt (P := fun db => db.ledger = g.db.ledger) (fun _ => .pure)
      (fun _ => rfl) fun _ => keeps_toggleReaction g.db
  | joinConversation c => rfl
  | pinMessage c id =>
    exact db_limited_attempt (P := fun db => g.YieldsPin
      (g.Lets now client.userId .mutate ∧ g.db.MayPin client.userId c id) c id db.ledger) (fun _ => keeps_emit)
      (fun _ => .inl rfl) fun hlets => yields_pin fun hmay => ⟨hlets, hmay⟩
  | unpinMessage c id =>
    exact db_limited_attempt (P := fun db => g.YieldsUnpin c id db.ledger) (fun _ => keeps_emit)
      (fun _ => .inl rfl) fun _ => yields_unpin
  | requestSenderKeyRedistribution c target =>
    refine congrArg Database.ledger ((Keeps.attempt (f := Gateway.db) (fun _ => .pure) _).trans ?_)
    rw [db_service_bind fun member => .bind .demand fun _ => keeps_emit]
    rfl
  | notifyKeyRotated => rfl
  | forwardMessage id c reEncrypted =>
    unfold Gateway.YieldsEvent
    refine db_limited_attempt (P := fun db => if g.Lets now client.userId .forward then
      g.YieldsForward now client.userId id c db.ledger else db.ledger = g.db.ledger)
      (fun _ => keeps_emit) (fun hlets => ?_) fun hlets => ?_
    · rw [if_neg hlets]
    · rw [if_pos hlets]
      exact yields_forward

/-! ## Routes -/

theorem yields_respond {route : Route} (hids : (g.db.conversations.map (·.id)).Nodup) :
    g.YieldsCall now u route ((respond env now u route).exec g).2.db.ledger := by
  -- a route that only packs up what the service returned
  have hdb : ∀ {α} {m : Service α} {k : α → Handler Response}, (∀ a, Keeps Gateway.db (k a)) →
      ∀ P : Ledger → Prop, P (m.exec g.db).2.ledger → P ((service m >>= k).exec g).2.db.ledger := by
    intro α m k hk P hP
    rwa [db_service_bind hk]
  cases route with
  | getAll skip take archived =>
    exact hdb (fun _ => .pure) (· = g.db.ledger) (keeps_getMyConversations g.db)
  | createDirect target =>
    refine hdb (fun _ => .pure) (g.YieldsCall now u (.createDirect target)) ?_
    exact ledger_after (getOrCreateDirect_ledger.weaken (fun _ _ h => h.imp_right .inr)
      fun _ h => h.imp_right .inl)
  | createGroup name description memberIds =>
    have hk : ∀ conv : ConversationView, Keeps Gateway.db (do
        let otherMembers := (conv.members.map fun m => m.1.userId).filter (· ≠ u)
        modify fun s => { s with
          jobs := s.jobs ++ otherMembers.map fun memberId => .fetchSockets memberId conv.conversation.id }
        return .conversation (some conv) : Handler Response) :=
      fun conv => .bind (.modify fun _ => rfl) fun _ => .pure
    refine hdb hk (g.YieldsCall now u (.createGroup name description memberIds)) ?_
    exact ledger_after (createConversation_ledger.weaken (fun _ _ h => .inr h) fun _ h => .inl h)
  | createChannel name description =>
    refine hdb (fun _ => .pure) (g.YieldsCall now u (.createChannel name description)) ?_
    exact ledger_after (createConversation_ledger.weaken (fun _ _ h => .inr h) fun _ h => .inl h)
  | getOne c => exact hdb (fun _ => .pure) (· = g.db.ledger) (keeps_getConversation g.db)
  | update c dto => exact hdb (fun _ => .pure) (· = g.db.ledger) (updateConversation_ledger hids)
  | pinChat c isPinned => exact hdb (fun _ => .pure) (· = g.db.ledger) (keeps_setChatPinned g.db)
  | archiveChat c isArchived =>
    exact hdb (fun _ => .pure) (· = g.db.ledger) (keeps_setChatArchived g.db)
  | getMessages c cursor after around =>
    rcases around with _ | around
    · rcases after with _ | after
      · exact hdb (fun _ => .pure) (· = g.db.ledger) (keeps_getMessages g.db)
      · exact hdb (fun _ => .pure) (· = g.db.ledger) (keeps_getMessagesAfter g.db)
    · exact hdb (fun _ => .pure) (· = g.db.ledger) (keeps_getMessagesAround g.db)
  | clearMessages c scope =>
    refine hdb (fun _ => .pure) (g.YieldsCall now u (.clearMessages c scope)) ?_
    exact ledger_after (clearMessages_ledger.weaken (fun _ _ h => .inr h) fun _ h => .inl h)
  | getMedia c => exact hdb (fun _ => .pure) (· = g.db.ledger) (keeps_getMediaFiles g.db)
  | searchMessages c q => exact hdb (fun _ => .pure) (· = g.db.ledger) (keeps_searchMessages g.db)
  | addMember c target =>
    refine hdb (fun _ => .bind keeps_suspend fun _ => .pure) (g.YieldsCall now u (.addMember c target)) ?_
    exact ledger_after (addMember_ledger.weaken (fun _ _ h => .inr h) fun _ h => .inl h)
  | removeMember c target =>
    exact hdb (fun _ => .pure) (g.YieldsCall now u (.removeMember c target)) removeMember_ledger
  | setRole c target role =>
    refine hdb (fun _ => .pure) (g.YieldsCall now u (.setRole c target role)) ?_
    exact ledger_after (setMemberRole_ledger.weaken (fun _ _ h => .inr h) fun _ h => .inl h)
  | pinMessage c id => exact hdb (fun _ => .pure) (g.YieldsPin (g.db.MayPin u c id) c id) (yields_pin fun h => h)
  | unpinMessage c id => exact hdb (fun _ => .pure) (g.YieldsUnpin c id) yields_unpin
  | getPinnedMessages c => exact hdb (fun _ => .pure) (· = g.db.ledger) (keeps_getPinnedMessages g.db)
  | forwardMessage id c => exact hdb (fun _ => .pure) (g.YieldsForward now u id c) yields_forward
  | deleteAllMySenderKeys =>
    exact hdb (fun _ => .pure) (· = g.db.ledger) (keeps_deleteAllMySenderKeys g.db)
  | setGroupKeys c keys version =>
    exact hdb (fun _ => .pure) (· = g.db.ledger) (keeps_setSenderKey g.db)
  | getMyGroupKey c => exact hdb (fun _ => .pure) (· = g.db.ledger) (keeps_getSenderKeysForMe g.db)

theorem db_call {route : Route} :
    ((call env now u route).exec g).2.db = ((respond env now u route).exec g).2.db := by
  rw [call, Keeps.attempt (f := Gateway.db) fun _ => keeps_emit, exec_bind]
  rcases (respond env now u route).exec g with ⟨e | response, g'⟩ <;> rfl

/-! ## Jobs, timers and restarts -/

/-- A job writes to nothing of the database but whether a user is online. -/
theorem keeps_run {f : Database → γ} (hf : ∀ db users, f { db with users } = f db) {job : Job} :
    Keeps (fun g : Gateway => f g.db) job.run := by
  have hdb : ∀ {m : Handler PUnit}, Keeps Gateway.db m → Keeps (fun g : Gateway => f g.db) m :=
    fun hm g => congrArg f (hm g)
  cases job with
  | memberships socket u =>
    refine .bind ?_ fun _ => hdb keeps_suspend
    exact keeps_service .reads
  | join socket u conversations =>
    exact .bind (hdb keeps_joinRooms) fun _ => .bind .reads fun _ => .when fun _ => hdb keeps_suspend
  | fetchSockets u c => exact .bind .reads fun _ => hdb keeps_suspend
  | joinAll sockets u c => exact .bind (hdb keeps_joinRooms) fun _ => hdb keeps_emit
  | leave socket u =>
    exact .bind .reads fun _ => .bind (.modify fun _ => rfl) fun _ => .when fun _ => hdb keeps_suspend
  | setOnline u isOnline =>
    exact .bind (keeps_service (.modify fun _ => hf _ _)) fun _ => hdb keeps_suspend
  | announce u isOnline => exact hdb keeps_emit

theorem keeps_resume {s : Gateway} {f : Database → γ} (hf : ∀ db users, f { db with users } = f db) {job : Nat} :
    Keeps (fun g : Gateway => f g.db) (s.program env now (.resume job)) := by
  refine .bind (.modify fun _ => rfl) fun _ => ?_
  rcases s.jobs[job]? with _ | j
  · exact .pure
  · exact keeps_run hf

/-- The timer that is set for a message. -/
def Message.timer (m : Message) (now : Time) : Timer where
  messageId := m.id
  conversationId := m.conversationId
  dueAt :=
    let delayMs := m.scheduledAt.getD 0 - now
    if delayMs < 1 ∨ MAX_DELAY < delayMs then now + 1 else now + delayMs

/-- A message whose time has not come, by the query of `getPendingScheduledMessages`. -/
def Message.Pending (m : Message) (now : Time) : Prop :=
  m.scheduledAt.any (now < ·) ∧ m.deletedAt = none

instance (m : Message) (now : Time) : Decidable (m.Pending now) :=
  inferInstanceAs (Decidable (_ ∧ _))

/-- A process starts with a timer for every pending message. -/
theorem exec_onModuleInit : (onModuleInit now).exec g = (.ok ⟨⟩, { g with
    limiters := initialLimiters
    sockets := []
    activeUsers := fun _ => []
    jobs := []
    timers := (g.db.messages.filter (Message.Pending · now)).map (·.timer now) }) := by
  have hloop : ∀ (pending : List Message) (g : Gateway), (∀ m ∈ pending, m.Pending now) →
      (pending.forM fun msg => do
        let delay := msg.scheduledAt.getD 0 - now
        if 0 < delay then
          scheduleMessageDelivery now msg.id msg.conversationId delay
        else
          deliverScheduledMessage now msg.id msg.conversationId : Handler PUnit).exec g =
        (.ok ⟨⟩, { g with timers := g.timers ++ pending.map (·.timer now) }) := by
    intro pending
    induction pending with
    | nil =>
      intro g _
      simp
    | cons m pending ih =>
      intro g hpending
      have hdelay : 0 < m.scheduledAt.getD 0 - now := by
        obtain ⟨at', hat, hlt⟩ := (Option.any_eq_true _ _).mp (hpending m List.mem_cons_self).1
        rw [hat]
        simpa using hlt
      have hschedule : (scheduleMessageDelivery now m.id m.conversationId
          (m.scheduledAt.getD 0 - now)).exec g =
          (.ok ⟨⟩, { g with timers := g.timers ++ [m.timer now] }) := rfl
      rw [List.forM, exec_bind, if_pos hdelay, hschedule]
      refine (ih _ fun m' hm' => hpending m' (List.mem_cons_of_mem m hm')).trans ?_
      simp
  rw [onModuleInit, exec_bind, exec_modify]
  simp only [service, exec_bind, exec_zoom, exec_reads]
  rw [show (g.db.messages.filter fun m => decide (m.scheduledAt.any (now < ·) = true ∧ m.deletedAt = none)) =
    g.db.messages.filter (Message.Pending · now) from rfl, hloop _ _ fun m hm => ?_]
  · simp
  · simpa using (List.mem_filter.mp hm).2

/-- What a timer does once it fires, by the message that it finds. -/
theorem exec_deliverScheduledMessage : (deliverScheduledMessage now id c).exec g =
    (.ok ⟨⟩, match g.db.message? id with
      | none => g
      | some m =>
        if m.deletedAt ≠ none then g
        else if g.db.IsMember c m.senderId then
          { g with emitted := g.emitted ++
              (.room c, .onMessage (mapMessage (g.db.select m))) ::
              ((g.db.membersOf c).filter (·.userId ≠ m.senderId)).map fun member =>
                (.subscriptions member.userId, .push newMessageTitle encryptedBody m.senderId) }
        else { g with db := { g.db with
            messages := g.db.messages.map fun m' =>
              if m'.id = id then { m' with deletedAt := some now } else m' } }) := by
  simp only [deliverScheduledMessage, getMessageById, findSelected, service, exec_bind, exec_zoom,
    exec_reads, exec_pure]
  rcases g.db.message? id with _ | m
  · rfl
  simp only [Option.map_some, when, show (mapMessage (g.db.select m)).rest.deletedAt = m.deletedAt from rfl,
    show (mapMessage (g.db.select m)).rest.senderId = m.senderId from rfl]
  by_cases hdeleted : m.deletedAt = none
  case neg =>
    rw [if_neg hdeleted, if_pos hdeleted]
    rfl
  rw [if_pos hdeleted, if_neg (not_not.mpr hdeleted)]
  simp only [findMember, exec_bind, exec_zoom, exec_reads]
  by_cases hmember : g.db.member? c m.senderId = none
  · have hnot : ¬g.db.IsMember c m.senderId := fun h => Option.isSome_iff_ne_none.mp h hmember
    rw [if_pos hmember, if_neg hnot]
    simp [updateMessages, exec_zoom]
  · have his : g.db.IsMember c m.senderId := Option.isSome_iff_ne_none.mpr hmember
    rw [if_neg hmember, if_pos his]
    simp [emit, pushToMembers, service, exec_bind, exec_zoom]

theorem next_timeout {s : Gateway} {timer : Nat} {t : Timer} (ht : s.timers[timer]? = some t) :
    s.next env (now, .timeout timer) =
      ((deliverScheduledMessage now t.messageId t.conversationId).exec
        { s with timers := s.timers.eraseIdx timer, emitted := [] }).2 := by
  rw [Gateway.next, Gateway.program, ht]
  rfl

theorem next_restart_eq {s : Gateway} : s.next env (now, .restart) = { s with
    limiters := initialLimiters
    sockets := []
    activeUsers := fun _ => []
    jobs := []
    timers := (s.db.messages.filter (Message.Pending · now)).map (·.timer now)
    emitted := [] } := by
  rw [Gateway.next, Gateway.program, exec_onModuleInit]

/-- **One step**: the ledger that it leaves is one that the input can leave. -/
theorem next_yields {s : Gateway} {input : Input} (hkeyed : s.db.Keyed)
    (hids : (s.db.conversations.map (·.id)).Nodup) (henabled : s.Enabled now input) :
    s.Yields now input (s.next env (now, input)).db.ledger := by
  cases input with
  | connect socket u nickname => rfl
  | event socket request =>
    obtain ⟨k, hk⟩ := Option.isSome_iff_exists.mp henabled
    refine ⟨k, hk, ?_⟩
    rw [Gateway.next, Gateway.program, hk]
    exact yields_handle (g := { s with emitted := [] }) hkeyed
  | call u route =>
    rw [Gateway.next, Gateway.program, db_call]
    exact yields_respond (g := { s with emitted := [] }) hids
  | resume job =>
    exact keeps_resume (f := Database.ledger) (fun _ _ => rfl) { s with emitted := [] }
  | timeout timer =>
    obtain ⟨t, ht, -⟩ := henabled
    rw [next_timeout ht, exec_deliverScheduledMessage]
    rcases s.db.message? t.messageId with _ | m
    · exact .inl rfl
    dsimp only
    split
    · exact .inl rfl
    split
    · exact .inl rfl
    · refine .inr ⟨t, ht, ?_⟩
      simpa using strike_ledger (p := (·.id = t.messageId)) fun m => ⟨fun h => h, .inl⟩
  | disconnect socket =>
    obtain ⟨k, hk⟩ := Option.isSome_iff_exists.mp henabled
    rw [Gateway.next, Gateway.program, hk]
    rfl
  | cleanup => rfl
  | restart =>
    rw [next_restart_eq]
    rfl

/-! ## What becomes of postings -/

/-- What no step changes of a posting. -/
def Posting.fixed (p : Posting) : Posting := { p with deleted := false }

/-- The input asks to forward a message, and no limit stands in the way. -/
def Gateway.Forwards (s : Gateway) (now : Time) (u : UserId) (id : MessageId) (c : ConversationId) :
    Input → Prop
  | .event socket (.forwardMessage id' c' _) => (id' = id ∧ c' = c) ∧
      ∃ k ∈ s.socket? socket, k.userId = u ∧ s.Lets now u .forward
  | .call u' (.forwardMessage id' c') => (id' = id ∧ c' = c) ∧ u' = u
  | _ => False

/-- The input asks to send a message. -/
def Gateway.Sends (s : Gateway) (u : UserId) (data : SendMessage) : Input → Prop
  | .event socket (.sendMessage data') => data' = data ∧ ∃ k ∈ s.socket? socket, k.userId = u
  | _ => False

theorem sends_cases {s : Gateway} {data : SendMessage} {input : Input} (h : s.Sends u data input) :
    ∃ socket, input = .event socket (.sendMessage data) := by
  unfold Gateway.Sends at h
  split at h
  · obtain ⟨rfl, -⟩ := h
    exact ⟨_, rfl⟩
  · exact h.elim

theorem forwards_cases {s : Gateway} {input : Input}
    (h : s.Forwards now u id c input) :
    (∃ socket reEncrypted k, input = .event socket (.forwardMessage id c reEncrypted) ∧
      k ∈ s.socket? socket ∧ k.userId = u ∧ s.Lets now u .forward) ∨
    input = .call u (.forwardMessage id c) := by
  unfold Gateway.Forwards at h
  split at h
  · obtain ⟨⟨rfl, rfl⟩, k, hk, hu, hlets⟩ := h
    exact .inl ⟨_, _, k, rfl, hk, hu, hlets⟩
  · obtain ⟨⟨rfl, rfl⟩, rfl⟩ := h
    exact .inr rfl
  · exact h.elim

theorem fixed_strike {l : Ledger} {q : Posting → Bool} :
    (l.strike q).postings.map (·.fixed) = l.postings.map (·.fixed) := by
  simp only [Ledger.strike, List.map_map]
  refine List.map_congr_left fun p _ => ?_
  simp only [Function.comp_apply]
  split <;> rfl

/-- **Where postings come from**: a step posts a message that is sent or forwarded, or changes at most
which ones are deleted. -/
theorem Gateway.Yields.postings {s : Gateway} {input : Input} {l : Ledger}
    (h : s.Yields now input l) :
    l.postings.map (·.fixed) = s.db.ledger.postings.map (·.fixed) ∧
      (∀ u id c, s.Forwards now u id c input → ¬s.db.MayForward u c id) ∨
    (∃ u data, s.Sends u data input ∧ s.db.Saves now u data.conversationId (data.dto now) l) ∨
    ∃ u id c, s.Forwards now u id c input ∧ s.db.MayForward u c id ∧
      l = s.db.ledger.post (s.db.forwarded now u c id) := by
  have hstays : ∀ {l}, l = s.db.ledger →
      l.postings.map (·.fixed) = s.db.ledger.postings.map (·.fixed) := fun h => by rw [h]
  have hpin : ∀ {checks c id l}, s.YieldsPin checks c id l →
      l.postings.map (·.fixed) = s.db.ledger.postings.map (·.fixed) := by
    rintro checks c id _ (rfl | ⟨-, rfl⟩)
    · rfl
    · unfold Ledger.pin
      split <;> rfl
  have hunpin : ∀ {c id l}, s.YieldsUnpin c id l →
      l.postings.map (·.fixed) = s.db.ledger.postings.map (·.fixed) := by
    rintro c id _ (rfl | rfl) <;> rfl
  cases input with
  | event socket request =>
    obtain ⟨k, hk, h⟩ := h
    cases request with
    | sendMessage data =>
      obtain h | h := h
      · exact .inl ⟨hstays h, nofun⟩
      · exact .inr (.inl ⟨k.userId, data, ⟨rfl, k, hk, rfl⟩, h⟩)
    | deleteMessage id =>
      refine .inl ⟨?_, nofun⟩
      obtain h | rfl := h
      · exact hstays h
      · exact fixed_strike
    | markAsRead c =>
      refine .inl ⟨?_, nofun⟩
      rw [h]
      rfl
    | pinMessage c id => exact .inl ⟨hpin h, nofun⟩
    | unpinMessage c id => exact .inl ⟨hunpin h, nofun⟩
    | forwardMessage id c reEncrypted =>
      simp only [YieldsEvent] at h
      split at h
      case isFalse hlets =>
        refine .inl ⟨hstays h, ?_⟩
        rintro _ _ _ ⟨-, k', hk', rfl, hlets'⟩
        obtain rfl := Option.some.inj (hk.symm.trans hk')
        exact absurd hlets' hlets
      obtain ⟨hmay, rfl⟩ | ⟨hnot, h⟩ := h
      · exact .inr (.inr ⟨k.userId, id, c, ⟨⟨rfl, rfl⟩, k, hk, rfl, ‹_›⟩, hmay, rfl⟩)
      · refine .inl ⟨hstays h, ?_⟩
        rintro _ _ _ ⟨⟨rfl, rfl⟩, k', hk', rfl, -⟩
        obtain rfl := Option.some.inj (hk.symm.trans hk')
        exact hnot
    | _ => exact .inl ⟨hstays h, nofun⟩
  | call u route =>
    cases route with
    | createDirect target =>
      refine .inl ⟨?_, nofun⟩
      obtain h | rfl | ⟨members, -, rfl⟩ := h
      · exact hstays h
      · rfl
      · rfl
    | createGroup name description memberIds =>
      refine .inl ⟨?_, nofun⟩
      obtain rfl | rfl := h <;> rfl
    | createChannel name description =>
      refine .inl ⟨?_, nofun⟩
      obtain rfl | rfl := h <;> rfl
    | clearMessages c scope =>
      refine .inl ⟨?_, nofun⟩
      obtain ⟨-, h⟩ | ⟨-, rfl⟩ := h
      · exact hstays h
      · cases scope with
        | self => rfl
        | both => exact fixed_strike
    | addMember c target =>
      refine .inl ⟨?_, nofun⟩
      obtain ⟨-, h⟩ | ⟨-, rfl⟩ := h
      · exact hstays h
      · rfl
    | removeMember c target =>
      refine .inl ⟨?_, nofun⟩
      by_cases hmay : s.db.ledger.MayRemove u c target
      · rw [h.1 hmay]
        rfl
      · exact hstays (h.2 hmay)
    | setRole c target role =>
      refine .inl ⟨?_, nofun⟩
      obtain ⟨-, h⟩ | ⟨-, seat, -, rfl⟩ := h
      · exact hstays h
      · rfl
    | pinMessage c id => exact .inl ⟨hpin h, nofun⟩
    | unpinMessage c id => exact .inl ⟨hunpin h, nofun⟩
    | forwardMessage id c =>
      obtain ⟨hmay, rfl⟩ | ⟨hnot, h⟩ := h
      · exact .inr (.inr ⟨u, id, c, ⟨⟨rfl, rfl⟩, rfl⟩, hmay, rfl⟩)
      · refine .inl ⟨hstays h, ?_⟩
        rintro _ _ _ ⟨⟨rfl, rfl⟩, rfl⟩
        exact hnot
    | _ => exact .inl ⟨hstays h, nofun⟩
  | timeout timer =>
    refine .inl ⟨?_, nofun⟩
    obtain h | ⟨t, -, rfl⟩ := h
    · exact hstays h
    · exact fixed_strike
  | _ => exact .inl ⟨hstays h, nofun⟩

end

end Vesper.Server
