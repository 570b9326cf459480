import Vesper.Server.Oblivious

/-!
# Requests cannot tell agreeing databases apart

The handlers and routes over two gateways that differ in databases that agree: a request of the user
of the outlook is answered alike, and leaves gateways that differ as little.
-/

namespace Vesper.Server
open Program

/-- Gateways that differ in databases that agree; `J` is what is known of the sockets. -/
structure Twin (o : Outlook) (J : List Socket → Prop) (s t : Gateway) : Prop where
  db : Agree o s.db t.db
  rest : t = { s with db := t.db }
  sockets : J s.sockets

variable {o : Outlook} {J : List Socket → Prop} {now : Time} {client : Socket}

/-! ## What handlers do -/

theorem oblivious_service {α : Type} {m : Service α} {Q : α → Prop} (h : Oblivious (Agree o) m Q) :
    Oblivious (Twin o J) (service m) Q :=
  h.zoom (fun _ _ hst => hst.db) fun _ _ _ _ hst hab => ⟨hab, by rw [hst.rest], hst.sockets⟩

/-- What is read or written besides the database. -/
theorem oblivious_look {α : Type} {f : Gateway → α} (h : ∀ s db, f s = f { s with db }) :
    Oblivious (Twin o J) (reads f : Handler α) fun _ => True :=
  (Oblivious.reads fun s _ hst => by rw [hst.rest]; exact h s _).weaken fun _ _ => trivial

theorem oblivious_modify {f : Gateway → Gateway} (hf : ∀ s db, f { s with db } = { f s with db })
    (hJ : ∀ s, J s.sockets → J (f s).sockets) :
    Oblivious (Twin o J) (modify f : Handler PUnit) fun _ => True := by
  refine .modify fun s t hst => ?_
  have hdb : ∀ s, (f s).db = s.db := fun s => (congrArg Gateway.db (hf s s.db) :)
  have hft : f t = { f s with db := t.db } := by
    rw [hst.rest]
    exact hf s _
  refine ⟨?_, by rw [hdb, hft], hJ s hst.sockets⟩
  rw [hdb, hdb]
  exact hst.db

theorem oblivious_emit {target : Target} {event : Event} :
    Oblivious (Twin o J) (emit target event) fun _ => True :=
  oblivious_modify (fun _ _ => rfl) fun _ h => h

theorem oblivious_suspend {job : Job} : Oblivious (Twin o J) (suspend job) fun _ => True :=
  oblivious_modify (fun _ _ => rfl) fun _ h => h

theorem oblivious_rateLimit {limit : Limit} {event : String} :
    Oblivious (Twin o J) (rateLimit now client limit event) fun _ => True := by
  unfold rateLimit
  split
  · exact .pure trivial
  refine .bind (oblivious_look fun _ _ => rfl) fun allowed _ => ?_
  refine .bind (oblivious_modify (fun _ _ => rfl) fun _ h => h) fun _ _ => ?_
  refine .bind (.when (q := True) fun _ => ?_) fun _ _ => .pure trivial
  exact .bind (oblivious_look fun _ _ => rfl) fun _ _ => oblivious_emit

theorem oblivious_pushToMembers {c : ConversationId} {u : UserId} {title body : Text} :
    Oblivious (Twin o J) (pushToMembers c u title body) fun _ => True := by
  unfold pushToMembers
  refine .bind (oblivious_service (oblivious_rest (fun _ _ h => h) fun _ _ _ => rfl)) fun _ _ => ?_
  exact oblivious_modify (fun _ _ => rfl) fun _ h => h

/-- A handler that is held to a limit and reports what goes wrong. -/
theorem oblivious_limited {limit : Limit} {event : String} {m : Handler PUnit}
    {failed : HttpError → Handler PUnit} (hm : Oblivious (Twin o J) m fun _ => True)
    (hfailed : ∀ e, Oblivious (Twin o J) (failed e) fun _ => True) :
    Oblivious (Twin o J) (do when (← rateLimit now client limit event) (tryCatch m failed))
      fun _ => True :=
  .bind oblivious_rateLimit fun _ _ =>
    (Oblivious.when (q := True) fun _ => hm.rescue hfailed).weaken fun _ _ => trivial

/-! ## Socket handlers -/

theorem oblivious_handleMessage {env : Environment} {data : SendMessage}
    (hu : client.userId = o.user)
    (hreply : ¬o.foreign data.conversationId → ∀ id ∈ data.replyToId, o.replied id) :
    Oblivious (Twin o J) (handleMessage env now client data) fun _ => True := by
  unfold handleMessage
  refine .bind oblivious_rateLimit fun _ _ => .weaken (.when (q := True) fun _ => ?_) fun _ _ => trivial
  refine .weaken (.when (q := True) fun _ => ?_) fun _ _ => trivial
  split
  · exact oblivious_emit
  refine .rescue ?_ fun _ => oblivious_emit
  rw [hu]
  refine .bind (oblivious_service (oblivious_saveMessage hreply)) fun message _ => ?_
  split
  · exact .bind oblivious_emit fun _ _ => oblivious_modify (fun _ _ => rfl) fun _ h => h
  · exact .bind oblivious_emit fun _ _ => oblivious_pushToMembers

theorem oblivious_handleMarkAsRead {c : ConversationId} (hu : client.userId = o.user) :
    Oblivious (Twin o J) (handleMarkAsRead now client c) fun _ => True := by
  unfold handleMarkAsRead
  rw [hu]
  exact .bind (oblivious_service oblivious_markAsRead) fun _ _ => oblivious_emit

theorem oblivious_handleTyping {c : ConversationId} {isTyping : Bool} :
    Oblivious (Twin o J) (handleTyping now client c isTyping) fun _ => True := by
  unfold handleTyping
  exact .bind oblivious_rateLimit fun _ _ =>
    .weaken (.when (q := True) fun _ => oblivious_emit) fun _ _ => trivial

theorem oblivious_handleDelete {id : MessageId} (hu : client.userId = o.user) (hid : o.sought id) :
    Oblivious (Twin o J) (handleDelete now client id) fun _ => True := by
  unfold handleDelete
  refine oblivious_limited ?_ fun _ => oblivious_emit
  rw [hu]
  exact .bind (oblivious_service (oblivious_deleteMessage hid)) fun _ _ => oblivious_emit

theorem oblivious_handleEdit {id : MessageId} {content : Text} (hu : client.userId = o.user)
    (hid : o.sought id) :
    Oblivious (Twin o J) (handleEdit now client id content) fun _ => True := by
  unfold handleEdit
  refine oblivious_limited ?_ fun _ => oblivious_emit
  rw [hu]
  exact .bind (oblivious_service (oblivious_editMessage hid)) fun _ _ => oblivious_emit

theorem oblivious_handlePin {c : ConversationId} {id : MessageId} (hu : client.userId = o.user) :
    Oblivious (Twin o J) (handlePin now client c id) fun _ => True := by
  unfold handlePin
  refine oblivious_limited ?_ fun _ => oblivious_emit
  rw [hu]
  exact .bind (oblivious_service oblivious_addPinnedMessage) fun _ _ => oblivious_emit

theorem oblivious_handleUnpin {c : ConversationId} {id : MessageId} (hu : client.userId = o.user) :
    Oblivious (Twin o J) (handleUnpin now client c id) fun _ => True := by
  unfold handleUnpin
  refine oblivious_limited ?_ fun _ => oblivious_emit
  rw [hu]
  exact .bind (oblivious_service oblivious_removePinnedMessage) fun _ _ => oblivious_emit

theorem oblivious_handleForwardMessage {c : ConversationId} {id : MessageId}
    {reEncrypted : Option Text} (hu : client.userId = o.user)
    (hid : ¬o.foreign c → o.copied id) :
    Oblivious (Twin o J) (handleForwardMessage now client id c reEncrypted) fun _ => True := by
  unfold handleForwardMessage
  refine oblivious_limited ?_ fun _ => oblivious_emit
  rw [hu]
  exact .bind (oblivious_service (oblivious_forwardMessage hid)) fun _ _ => oblivious_emit

theorem oblivious_handleRequestSenderKeyRedistribution {c : ConversationId} {target : UserId} :
    Oblivious (Twin o J) (handleRequestSenderKeyRedistribution client c target) fun _ => True := by
  unfold handleRequestSenderKeyRedistribution
  refine .rescue ?_ fun _ => .pure trivial
  refine .bind (oblivious_service (oblivious_findMember fun _ _ h => h)) fun _ _ => ?_
  exact .bind (.demand _ _) fun _ _ => oblivious_emit

theorem oblivious_handleJoin {c : ConversationId} (hJ : ∀ l, J l) :
    Oblivious (Twin o J) (handleJoin client c) fun _ => True := by
  unfold handleJoin joinRooms
  exact .bind (oblivious_modify (fun _ _ => rfl) fun _ _ => hJ _) fun _ _ => oblivious_emit

/-- A service that throws and changes nothing leaves the handler that ignores its error without effect. -/
theorem exec_attempt_error {α : Type} {m : Service α} {k : α → Handler PUnit} {g : Gateway} {e : HttpError}
    (h : m.exec g.db = (.error e, g.db)) :
    (tryCatch (do let a ← service m; k a) fun _ => return : Handler PUnit).exec g = (.ok ⟨⟩, g) := by
  have hservice : (service m).exec g = (.error e, g) := by
    unfold service
    rw [exec_zoom, h]
  rw [exec_tryCatch, exec_bind, hservice]
  rfl

theorem oblivious_attempt {α : Type} {m : Service α} {k : α → Handler PUnit}
    (hm : Oblivious (Agree o) m fun _ => True) (hk : ∀ a, Oblivious (Twin o J) (k a) fun _ => True) :
    Oblivious (Twin o J) (tryCatch (do let a ← service m; k a) fun _ => return : Handler PUnit) fun _ => True := by
  refine .rescue ?_ fun _ => .pure trivial
  exact .bind (oblivious_service hm) fun a _ => hk a

/-- Why a reaction failed is not told. -/
theorem oblivious_handleReaction {id : MessageId} {emoji : String} (hu : client.userId = o.user) :
    Oblivious (Twin o J) (handleReaction now client id emoji) fun _ => True := by
  unfold handleReaction
  refine .bind oblivious_rateLimit fun _ _ => .weaken (.when (q := True) fun _ => ?_) fun _ _ => trivial
  rw [hu]
  intro s t hst
  by_cases hid : s.db.IsForeign o id ∧ t.db.IsForeign o id
  · -- nothing happens
    have hquiet : ∀ {g : Gateway}, (∀ c, o.foreign c → g.db.member? c o.user = none) →
        g.db.IsForeign o id → ∃ e, (toggleReaction now id o.user emoji).exec g.db = (.error e, g.db) := by
      intro g hmember hforeign
      obtain ⟨e, db, hexec, rfl⟩ := (toggleReaction_foreign hmember hforeign).error rfl
      exact ⟨e, hexec⟩
    obtain ⟨e, hs⟩ := hquiet (fun c hc => (hst.db.not_member hc).1) hid.1
    obtain ⟨e', ht⟩ := hquiet (fun c hc => (hst.db.not_member hc).2) hid.2
    rw [exec_attempt_error hs, exec_attempt_error ht]
    exact ⟨⟨rfl, trivial⟩, hst⟩
  · have hagree : Agree (o.own id) s.db t.db := by
      rcases hst.db.cases id with h | h
      · exact h
      · exact absurd h hid
    refine ((oblivious_attempt (oblivious_toggleReaction (o := o.own id) (o.owns_own id))
      fun _ => oblivious_emit) s t ⟨hagree, hst.rest, hst.sockets⟩).imp_right fun h =>
        ⟨h.db.disown, h.rest, h.sockets⟩

/-! ## Routes -/

theorem oblivious_getMessagesRoute {id : ConversationId} {cursor after around : Option MessageId}
    {env : Environment} (hcursor : ¬o.foreign id → after = none → around = none →
      ∀ cursor' ∈ cursor, o.sought cursor') :
    Oblivious (Twin o J) (respond env now o.user (.getMessages id cursor after around))
      fun _ => True := by
  cases around with
  | some around =>
    exact .bind (oblivious_service oblivious_getMessagesAround) fun _ _ => .pure trivial
  | none =>
    cases after with
    | some after =>
      exact .bind (oblivious_service oblivious_getMessagesAfter) fun _ _ => .pure trivial
    | none =>
      exact .bind (oblivious_service (oblivious_getMessages fun hc => hcursor hc rfl rfl))
        fun _ _ => .pure trivial

/-- What the outlook has to know of the messages that a route names. -/
def Route.Known (o : Outlook) : Route → Prop
  | .getMessages id cursor none none => ¬o.foreign id → ∀ messageId ∈ cursor, o.sought messageId
  | .forwardMessage messageId id => ¬o.foreign id → o.copied messageId
  | .removeMember id memberId => ¬o.kept id memberId
  | _ => True

theorem oblivious_respond {env : Environment} {route : Route} (h : route.Known o) :
    Oblivious (Twin o J) (respond env now o.user route) fun _ => True := by
  cases route with
  | getAll skip take archived =>
    exact .bind (oblivious_service oblivious_getMyConversations) fun _ _ => .pure trivial
  | createDirect target =>
    exact .bind (oblivious_service oblivious_getOrCreateDirect) fun _ _ => .pure trivial
  | createGroup name description memberIds =>
    refine .bind (oblivious_service oblivious_createGroup) fun _ _ => ?_
    exact .bind (oblivious_modify (fun _ _ => rfl) fun _ h => h) fun _ _ => .pure trivial
  | createChannel name description =>
    exact .bind (oblivious_service oblivious_createChannel) fun _ _ => .pure trivial
  | getOne id =>
    exact .bind (oblivious_service oblivious_getConversation) fun _ _ => .pure trivial
  | update id dto =>
    exact .bind (oblivious_service oblivious_updateConversation) fun _ _ => .pure trivial
  | pinChat id isPinned =>
    exact .bind (oblivious_service oblivious_setChatPinned) fun _ _ => .pure trivial
  | archiveChat id isArchived =>
    exact .bind (oblivious_service oblivious_setChatArchived) fun _ _ => .pure trivial
  | getMessages id cursor after around =>
    refine oblivious_getMessagesRoute fun hc hafter haround => ?_
    subst hafter haround
    exact h hc
  | clearMessages id scope =>
    exact .bind (oblivious_service oblivious_clearMessages) fun _ _ => .pure trivial
  | getMedia id =>
    exact .bind (oblivious_service oblivious_getMediaFiles) fun _ _ => .pure trivial
  | searchMessages id q =>
    exact .bind (oblivious_service oblivious_searchMessages) fun _ _ => .pure trivial
  | addMember id userId =>
    refine .bind (oblivious_service oblivious_addMember) fun _ _ => ?_
    exact .bind oblivious_suspend fun _ _ => .pure trivial
  | removeMember id memberId =>
    exact .bind (oblivious_service (oblivious_removeMember h)) fun _ _ => .pure trivial
  | setRole id memberId role =>
    exact .bind (oblivious_service oblivious_setMemberRole) fun _ _ => .pure trivial
  | pinMessage id messageId =>
    exact .bind (oblivious_service oblivious_addPinnedMessage) fun _ _ => .pure trivial
  | unpinMessage id messageId =>
    exact .bind (oblivious_service oblivious_removePinnedMessage) fun _ _ => .pure trivial
  | getPinnedMessages id =>
    exact .bind (oblivious_service oblivious_getPinnedMessages) fun _ _ => .pure trivial
  | forwardMessage messageId id =>
    exact .bind (oblivious_service (oblivious_forwardMessage h)) fun _ _ => .pure trivial
  | deleteAllMySenderKeys =>
    exact .bind (oblivious_service oblivious_deleteAllMySenderKeys) fun _ _ => .pure trivial
  | setGroupKeys id keys version =>
    exact .bind (oblivious_service oblivious_setSenderKey) fun _ _ => .pure trivial
  | getMyGroupKey id =>
    exact .bind (oblivious_service oblivious_getSenderKeysForMe) fun _ _ => .pure trivial

theorem oblivious_call {env : Environment} {route : Route} (h : route.Known o) :
    Oblivious (Twin o J) (call env now o.user route) fun _ => True := by
  unfold call
  refine .rescue ?_ fun _ => oblivious_emit
  exact .bind (oblivious_respond h) fun _ _ => oblivious_emit

/-! ## Events -/

/-- What the outlook has to know of the messages that an event names. -/
def Request.Known (o : Outlook) : Request → Prop
  | .sendMessage data => ¬o.foreign data.conversationId → ∀ id ∈ data.replyToId, o.replied id
  | .deleteMessage id | .editMessage id _ => o.sought id
  | .forwardMessage id c _ => ¬o.foreign c → o.copied id
  | _ => True

theorem oblivious_handle {env : Environment} {request : Request} (hu : client.userId = o.user)
    (h : request.Known o) (hJ : ∀ c, request = .joinConversation c → ∀ l, J l) :
    Oblivious (Twin o J) (handle env now client request) fun _ => True := by
  cases request with
  | sendMessage data => exact oblivious_handleMessage hu h
  | markAsRead c => exact oblivious_handleMarkAsRead hu
  | typing c isTyping => exact oblivious_handleTyping
  | deleteMessage id => exact oblivious_handleDelete hu h
  | editMessage id content => exact oblivious_handleEdit hu h
  | toggleReaction id emoji => exact oblivious_handleReaction hu
  | joinConversation c => exact oblivious_handleJoin (hJ c rfl)
  | pinMessage c id => exact oblivious_handlePin hu
  | unpinMessage c id => exact oblivious_handleUnpin hu
  | requestSenderKeyRedistribution c target =>
    exact oblivious_handleRequestSenderKeyRedistribution
  | notifyKeyRotated => exact oblivious_emit
  | forwardMessage id c reEncrypted => exact oblivious_handleForwardMessage hu h

end Vesper.Server
