import Mathlib.Algebra.Group.Int.Defs
import Vesper.Server.Steps

/-!
# Timers and broadcasts

What every step does to the timers and which messages it broadcasts, beside what it leaves in the
ledger. The theorems on scheduled messages take no more from the handlers than this.
-/

namespace Vesper.Server
open Program

/-- What counts of a step for scheduled messages: the timers that it leaves, the messages that it has
announced to their senders as scheduled, and those that it has broadcast. -/
structure Agenda where
  timers : List Timer
  announced : List MessageId
  broadcasts : List (Target × MessageId)
  deriving DecidableEq, Repr

/-- The message that an event announces as scheduled. -/
def Event.announces : Event → Option MessageId
  | .messageScheduled view => some view.rest.id
  | _ => none

/-- The message that an event broadcasts. -/
def Event.broadcasts : Event → Option MessageId
  | .onMessage view => some view.rest.id
  | _ => none

def Gateway.agenda (s : Gateway) : Agenda where
  timers := s.timers
  announced := s.emitted.filterMap (·.2.announces)
  broadcasts := s.emitted.filterMap fun e => e.2.broadcasts.map (e.1, ·)

/-- The timers, and what the step has sent. -/
def Gateway.output (s : Gateway) : List Timer × List (Target × Event) := (s.timers, s.emitted)

/-- An event that is neither announcement nor broadcast. -/
def Event.Quiet (e : Event) : Prop := e.announces = none ∧ e.broadcasts = none

/-! ## Timers -/

/-- When a timer that is set now fires, at the earliest. -/
def dueAt (now delayMs : Time) : Time :=
  if delayMs < 1 ∨ MAX_DELAY < delayMs then now + 1 else now + delayMs

theorem dueAt_eq {now time : Int} (hlt : now < time) (hle : time - now ≤ MAX_DELAY) :
    dueAt now (time - now) = time := by
  have hfits : ¬(time - now < 1 ∨ MAX_DELAY < time - now) := by omega
  rw [dueAt, if_neg hfits]
  exact (Int.add_comm ..).trans (Int.sub_add_cancel ..)

theorem dueAt_long {now delayMs : Int} (h : MAX_DELAY < delayMs) : dueAt now delayMs = now + 1 :=
  if_pos (.inr h)

namespace Posting
variable (p : Posting) (now : Time)

/-- A message whose time has not come. -/
def Pending : Prop := p.scheduledAt.any (now < ·) ∧ p.deleted = false

instance : Decidable (p.Pending now) := inferInstanceAs (Decidable (_ ∧ _))

/-- The timer that is set for it. -/
def timer : Timer := ⟨p.id, p.conversationId, dueAt now (p.scheduledAt.getD 0 - now)⟩

end Posting

/-- The timers of a new process. -/
def Ledger.timers (l : Ledger) (now : Time) : List Timer :=
  (l.postings.filter (Posting.Pending · now)).map (·.timer now)

theorem pending_posting {m : Message} {now : Time} : m.posting.Pending now ↔ m.Pending now :=
  and_congr_right fun _ => by simp [Message.posting]

theorem timers_ledger {db : Database} {now : Time} :
    (db.messages.filter (Message.Pending · now)).map (·.timer now) = db.ledger.timers now := by
  simp only [Ledger.timers, Database.ledger, List.filter_map, List.map_map, Function.comp_def,
    pending_posting]
  rfl

/-! ## Steps -/

/-- The server takes the message in: limit, checks and foreign keys let it through. -/
def Gateway.Stores (s : Gateway) (env : Environment) (now : Time) (u : UserId) (data : SendMessage) :
    Prop :=
  s.Lets now u .message ∧ data.isEmpty = false ∧ data.error? now = none ∧
    s.db.MaySave env u data.conversationId (data.dto now)

instance (s : Gateway) (env : Environment) (now : Time) (u : UserId) (data : SendMessage) :
    Decidable (s.Stores env now u data) :=
  inferInstanceAs (Decidable (_ ∧ _ ∧ _ ∧ _))

/-- The server also stores the envelopes of the message, and answers without an error. -/
def Gateway.Accepts (s : Gateway) (env : Environment) (now : Time) (u : UserId) (data : SendMessage) :
    Prop :=
  s.Stores env now u data ∧
    ∃ view, ((saveMessage env now u data.conversationId (data.dto now)).exec s.db).1 = .ok view

/-- The message of the request, as it is posted. -/
def Gateway.sent (s : Gateway) (now : Time) (u : UserId) (data : SendMessage) : Posting :=
  s.db.saved now u data.conversationId (data.dto now)

/-- The ledgers and the agendas that an input can leave. -/
inductive Gateway.Schedules (s : Gateway) (env : Environment) (now : Time) :
    Input → Ledger → Agenda → Prop
  | scheduled : s.socket? socket = some k → s.Accepts env now k.userId data →
      data.deliverAt now = some time →
      Schedules s env now (.event socket (.sendMessage data)) (s.db.ledger.post (s.sent now k.userId data))
        ⟨s.timers ++ [(s.sent now k.userId data).timer now], [s.db.nextMessageId], []⟩
  | sent : s.socket? socket = some k → s.Accepts env now k.userId data →
      data.deliverAt now = none →
      Schedules s env now (.event socket (.sendMessage data)) (s.db.ledger.post (s.sent now k.userId data))
        ⟨s.timers, [], [(.room data.conversationId, s.db.nextMessageId)]⟩
  /-- The envelopes break a foreign key; the message stays. -/
  | orphaned : s.socket? socket = some k → s.Stores env now k.userId data →
      ¬s.Accepts env now k.userId data →
      Schedules s env now (.event socket (.sendMessage data)) (s.db.ledger.post (s.sent now k.userId data))
        ⟨s.timers, [], []⟩
  | forwarded {id : MessageId} : s.Forwards now u id c input → s.db.MayForward u c id →
      broadcasts ⊆ [(.room c, s.db.nextMessageId)] →
      Schedules s env now input (s.db.ledger.post (s.db.forwarded now u c id)) ⟨s.timers, [], broadcasts⟩
  | delivered : s.timers[timer]? = some t → s.db.ledger.posting? t.messageId = some p →
      p.deleted = false → (s.db.ledger.seat? t.conversationId p.senderId).isSome →
      Schedules s env now (.timeout timer) s.db.ledger
        ⟨s.timers.eraseIdx timer, [], [(.room t.conversationId, t.messageId)]⟩
  | dropped : s.timers[timer]? = some t →
      (∀ p ∈ s.db.ledger.posting? t.messageId,
        p.deleted ∨ s.db.ledger.seat? t.conversationId p.senderId = none) →
      l.postings.map (·.fixed) = s.db.ledger.postings.map (·.fixed) →
      (∀ p ∈ l.posting? t.messageId, p.deleted) →
      Schedules s env now (.timeout timer) l ⟨s.timers.eraseIdx timer, [], []⟩
  | restarted : Schedules s env now .restart s.db.ledger ⟨s.db.ledger.timers now, [], []⟩
  | kept : input ≠ .restart → (∀ timer, input ≠ .timeout timer) →
      (∀ socket data k, input = .event socket (.sendMessage data) → s.socket? socket = some k →
        ¬s.Stores env now k.userId data) →
      l.postings.map (·.fixed) = s.db.ledger.postings.map (·.fixed) →
      Schedules s env now input l ⟨s.timers, [], []⟩

/-! ## Handlers -/

section
variable {g : Gateway} {env : Environment} {now : Time} {client : Socket} {limit : Limit}
  {event : String} {α : Type} {m : Service α} {n : Handler α} {u : UserId} {c : ConversationId}
  {id : MessageId}

theorem agenda_emit {target : Target} {e : Event} :
    ((emit target e).exec g).2.agenda =
      { g.agenda with
        announced := g.agenda.announced ++ e.announces.toList
        broadcasts := g.agenda.broadcasts ++ (e.broadcasts.map (target, ·)).toList } := by
  simp only [emit, exec_modify, Gateway.agenda, List.filterMap_append]
  cases e <;> rfl

theorem keepsAgenda_emit {target : Target} {e : Event} (h : e.Quiet) :
    Keeps Gateway.agenda (emit target e) := by
  intro g
  rw [agenda_emit, h.1, h.2]
  simp

theorem keepsOutput_modify {f : Gateway → Gateway}
    (h : ∀ g, (f g).timers = g.timers ∧ (f g).emitted = g.emitted) :
    Keeps Gateway.output (modify f : Handler PUnit) :=
  .modify fun g => by simp only [Gateway.output, h g]

theorem keepsOutput_service : Keeps Gateway.output (service m) := by
  intro g
  rw [service, exec_zoom]
  rfl

theorem keepsOutput_suspend {job : Job} : Keeps Gateway.output (suspend job) :=
  keepsOutput_modify fun _ => ⟨rfl, rfl⟩

theorem keepsOutput_joinRooms {sockets : List SocketId} {conversations : List ConversationId} :
    Keeps Gateway.output (joinRooms sockets conversations) :=
  keepsOutput_modify fun _ => ⟨rfl, rfl⟩

theorem keepsOutput_respond {route : Route} : Keeps Gateway.output (respond env now u route) := by
  cases route with
  | getMessages c cursor after around =>
    rcases around with _ | around
    · rcases after with _ | after <;> exact .bind keepsOutput_service fun _ => .pure
    · exact .bind keepsOutput_service fun _ => .pure
  | createGroup name description memberIds =>
    exact .bind keepsOutput_service fun _ => .bind (keepsOutput_modify fun _ => ⟨rfl, rfl⟩) fun _ => .pure
  | addMember c target =>
    exact .bind keepsOutput_service fun _ => .bind keepsOutput_suspend fun _ => .pure
  | _ => exact .bind keepsOutput_service fun _ => .pure

/-- A job keeps whatever does not change with the rooms and with the two events of a job. -/
theorem keepsOutput_run {γ : Type} {f : Gateway → γ} {job : Job}
    (houtput : ∀ {m : Handler PUnit}, Keeps Gateway.output m → Keeps f m)
    (hadded : ∀ u c, Keeps f (emit (.user u) (.addedToConversation c)))
    (hstatus : ∀ u isOnline, Keeps f (emit .everyone (.userStatusChanged u isOnline))) :
    Keeps f job.run := by
  cases job with
  | memberships socket u => exact houtput (.bind keepsOutput_service fun _ => keepsOutput_suspend)
  | join socket u conversations =>
    refine houtput (.bind keepsOutput_joinRooms fun _ => .bind .reads fun _ => ?_)
    exact .when fun _ => keepsOutput_suspend
  | fetchSockets u c => exact houtput (.bind .reads fun _ => keepsOutput_suspend)
  | joinAll sockets u c => exact .bind (houtput keepsOutput_joinRooms) fun _ => hadded u c
  | leave socket u =>
    refine houtput (.bind .reads fun _ => .bind (keepsOutput_modify fun _ => ⟨rfl, rfl⟩) fun _ => ?_)
    exact .when fun _ => keepsOutput_suspend
  | setOnline u isOnline => exact houtput (.bind keepsOutput_service fun _ => keepsOutput_suspend)
  | announce u isOnline => exact hstatus u isOnline

theorem keepsAgenda_output (h : Keeps Gateway.output n) : Keeps Gateway.agenda n := by
  intro g
  obtain ⟨htimers, hemitted⟩ := Prod.mk.inj (h g)
  simp only [Gateway.agenda, htimers, hemitted]

theorem keepsAgenda_modify {f : Gateway → Gateway}
    (h : ∀ g, (f g).timers = g.timers ∧ (f g).emitted = g.emitted) :
    Keeps Gateway.agenda (modify f : Handler PUnit) :=
  keepsAgenda_output (keepsOutput_modify h)

theorem keepsAgenda_service : Keeps Gateway.agenda (service m) := keepsAgenda_output keepsOutput_service

theorem keepsAgenda_suspend {job : Job} : Keeps Gateway.agenda (suspend job) :=
  keepsAgenda_output keepsOutput_suspend

theorem keepsAgenda_joinRooms {sockets : List SocketId} {conversations : List ConversationId} :
    Keeps Gateway.agenda (joinRooms sockets conversations) :=
  keepsAgenda_output keepsOutput_joinRooms

theorem keepsAgenda_pushToMembers {title body : Text} :
    Keeps Gateway.agenda (pushToMembers c u title body) := by
  refine .bind keepsAgenda_service fun members => .modify fun g => ?_
  simp [Gateway.agenda, List.filterMap_append, List.filterMap_map, Event.announces, Event.broadcasts]

theorem keepsAgenda_rateLimit : Keeps Gateway.agenda (rateLimit now client limit event) := by
  unfold rateLimit
  split
  · exact .pure
  refine .bind .reads fun _ => .bind (keepsAgenda_modify fun _ => ⟨rfl, rfl⟩) fun _ => ?_
  exact .bind (.when fun _ => .bind .reads fun _ => keepsAgenda_emit ⟨rfl, rfl⟩) fun _ => .pure

theorem keepsAgenda_limited {n : Handler PUnit} (h : Keeps Gateway.agenda n) :
    Keeps Gateway.agenda (do when (← rateLimit now client limit event) n) :=
  .bind keepsAgenda_rateLimit fun _ => .when fun _ => h

/-- The requests that neither send nor forward. -/
theorem keepsAgenda_handle {request : Request} (hsend : ∀ data, request ≠ .sendMessage data)
    (hforward : ∀ id c reEncrypted, request ≠ .forwardMessage id c reEncrypted) :
    Keeps Gateway.agenda (handle env now client request) := by
  cases request with
  | sendMessage data => exact absurd rfl (hsend data)
  | markAsRead c => exact .bind keepsAgenda_service fun _ => keepsAgenda_emit ⟨rfl, rfl⟩
  | typing c isTyping => exact keepsAgenda_limited (keepsAgenda_emit ⟨rfl, rfl⟩)
  | deleteMessage id =>
    refine keepsAgenda_limited (.rescue ?_ fun _ => keepsAgenda_emit ⟨rfl, rfl⟩)
    exact .bind keepsAgenda_service fun _ => keepsAgenda_emit ⟨rfl, rfl⟩
  | editMessage id content =>
    refine keepsAgenda_limited (.rescue ?_ fun _ => keepsAgenda_emit ⟨rfl, rfl⟩)
    exact .bind keepsAgenda_service fun _ => keepsAgenda_emit ⟨rfl, rfl⟩
  | toggleReaction id emoji =>
    refine keepsAgenda_limited (.rescue ?_ fun _ => .pure)
    exact .bind keepsAgenda_service fun _ => keepsAgenda_emit ⟨rfl, rfl⟩
  | joinConversation c => exact .bind keepsAgenda_joinRooms fun _ => keepsAgenda_emit ⟨rfl, rfl⟩
  | pinMessage c id =>
    refine keepsAgenda_limited (.rescue ?_ fun _ => keepsAgenda_emit ⟨rfl, rfl⟩)
    exact .bind keepsAgenda_service fun _ => keepsAgenda_emit ⟨rfl, rfl⟩
  | unpinMessage c id =>
    refine keepsAgenda_limited (.rescue ?_ fun _ => keepsAgenda_emit ⟨rfl, rfl⟩)
    exact .bind keepsAgenda_service fun _ => keepsAgenda_emit ⟨rfl, rfl⟩
  | requestSenderKeyRedistribution c target =>
    refine .rescue (.bind keepsAgenda_service fun _ => .bind .demand fun _ => ?_) fun _ => .pure
    exact keepsAgenda_emit ⟨rfl, rfl⟩
  | notifyKeyRotated => exact keepsAgenda_emit ⟨rfl, rfl⟩
  | forwardMessage id c reEncrypted => exact absurd rfl (hforward id c reEncrypted)

theorem Gateway.Refused.agenda {g' : Gateway} (h : g.Refused client.id g') : g'.agenda = g.agenda := by
  unfold Gateway.agenda
  rw [h.timers]
  obtain hemitted | ⟨event, retryAfter, message, hemitted⟩ := h.emitted
  · rw [hemitted]
  · simp [hemitted, Event.announces, Event.broadcasts]

theorem MessageView.Shows.id_eq {view : MessageView} {p : Posting} (h : view.Shows p) :
    view.rest.id = p.id := by
  obtain ⟨db, m, rfl, hrest⟩ := h
  rw [hrest]
  rfl

/-- What a request to send leaves, by whether the message is taken in. -/
theorem exec_handleMessage {data : SendMessage} (hkeyed : g.db.Keyed) :
    (¬g.Stores env now client.userId data ∧
      ((handleMessage env now client data).exec g).2.db.ledger = g.db.ledger ∧
      ((handleMessage env now client data).exec g).2.agenda = g.agenda) ∨
    g.Stores env now client.userId data ∧
      ((handleMessage env now client data).exec g).2.db.ledger =
        g.db.ledger.post (g.sent now client.userId data) ∧
      (¬g.Accepts env now client.userId data ∧
        ((handleMessage env now client data).exec g).2.agenda = g.agenda ∨
      g.Accepts env now client.userId data ∧
        ((handleMessage env now client data).exec g).2.agenda = match data.deliverAt now with
          | some _ => { g.agenda with
              timers := g.timers ++ [(g.sent now client.userId data).timer now]
              announced := g.agenda.announced ++ [g.db.nextMessageId] }
          | none => { g.agenda with
              broadcasts := g.agenda.broadcasts ++ [(.room data.conversationId, g.db.nextMessageId)] }) := by
  unfold handleMessage
  rcases exec_limited (g := g) (n := _) with ⟨hlets, h⟩ | ⟨hlets, g', hrefused, h⟩ <;> rw [h]
  case inr => exact .inl ⟨fun hstores => hlets hstores.1, by rw [hrefused.db], hrefused.agenda⟩
  unfold when
  by_cases hempty : data.isEmpty = true
  · rw [if_neg (by simp [hempty])]
    exact .inl ⟨fun hstores => by simp [hstores.2.1] at hempty, rfl, rfl⟩
  rw [if_pos (by simpa using hempty)]
  rcases herror : data.error? now with _ | error
  case some =>
    exact .inl ⟨fun hstores => by simp [hstores.2.2.1] at herror, rfl, keepsAgenda_emit ⟨rfl, rfl⟩ _⟩
  dsimp only
  have hsave := @saveMessage_ledger g.db client.userId data.conversationId now env (data.dto now) hkeyed g.db
    rfl
  rw [Keeps.attempt (f := fun g => g.db.ledger) fun _ g => congrArg Database.ledger (keeps_emit g),
    Keeps.attempt (f := Gateway.agenda) fun _ => keepsAgenda_emit ⟨rfl, rfl⟩, exec_bind, service, exec_zoom,
    show (g.counted now client.userId .message).db = g.db from rfl]
  have hstores : g.db.MaySave env client.userId data.conversationId (data.dto now) →
      g.Stores env now client.userId data :=
    fun hmay => ⟨hlets, by simpa using hempty, herror, hmay⟩
  rcases hexec : (saveMessage env now client.userId data.conversationId (data.dto now)).exec g.db with
    ⟨e | view, db'⟩ <;> rw [hexec] at hsave <;> dsimp only at hsave ⊢
  · have hrejected : ¬g.Accepts env now client.userId data := by
      rintro ⟨-, view, hok⟩
      rw [hexec] at hok
      cases hok
    obtain ⟨hnot, hledger⟩ | ⟨hmay, hledger⟩ := hsave
    · exact .inl ⟨fun h => hnot h.2.2.2, hledger, rfl⟩
    · exact .inr ⟨hstores hmay, hledger.2.2, .inl ⟨hrejected, rfl⟩⟩
  obtain ⟨⟨hmay, hledger⟩, hshows⟩ := hsave
  have haccepts : g.Accepts env now client.userId data := ⟨hstores hmay, view, by rw [hexec]⟩
  have hid : view.rest.id = g.db.nextMessageId := hshows.id_eq
  refine .inr ⟨hstores hmay, ?_⟩
  rcases hat : data.deliverAt now with _ | time
  · simp only [exec_bind, emit, exec_modify]
    refine ⟨(congrArg Database.ledger (keeps_pushToMembers _)).trans hledger.2.2, .inr ⟨haccepts, ?_⟩⟩
    rw [keepsAgenda_pushToMembers]
    simp [Gateway.agenda, Gateway.counted, Event.announces, Event.broadcasts, hid]
  · simp only [exec_bind, emit, scheduleMessageDelivery, exec_modify]
    refine ⟨hledger.2.2, .inr ⟨haccepts, ?_⟩⟩
    simp [Gateway.agenda, Gateway.counted, Event.announces, Event.broadcasts, hid, Posting.timer,
      Gateway.sent, Database.saved, SendMessage.dto, hat, dueAt]

theorem exec_handleForwardMessage {reEncrypted : Option Text} :
    (g.Lets now client.userId .forward → ¬g.db.MayForward client.userId c id) ∧
      ((handleForwardMessage now client id c reEncrypted).exec g).2.db.ledger = g.db.ledger ∧
      ((handleForwardMessage now client id c reEncrypted).exec g).2.agenda = g.agenda ∨
    (g.Lets now client.userId .forward ∧ g.db.MayForward client.userId c id) ∧
      ((handleForwardMessage now client id c reEncrypted).exec g).2.db.ledger =
        g.db.ledger.post (g.db.forwarded now client.userId c id) ∧
      ((handleForwardMessage now client id c reEncrypted).exec g).2.agenda =
        { g.agenda with broadcasts := g.agenda.broadcasts ++ [(.room c, g.db.nextMessageId)] } := by
  unfold handleForwardMessage
  rcases exec_limited (g := g) (n := _) with ⟨hlets, h⟩ | ⟨hlets, g', hrefused, h⟩ <;> rw [h]
  case inr => exact .inl ⟨fun h => absurd h hlets, by rw [hrefused.db], hrefused.agenda⟩
  have hforward := @forwardMessage_ledger g.db client.userId c id now reEncrypted g.db rfl
  rw [Keeps.attempt (f := fun g => g.db.ledger) fun _ g => congrArg Database.ledger (keeps_emit g),
    Keeps.attempt (f := Gateway.agenda) fun _ => keepsAgenda_emit ⟨rfl, rfl⟩, exec_bind, service, exec_zoom,
    show (g.counted now client.userId .forward).db = g.db from rfl]
  rcases hexec : (forwardMessage now client.userId id c reEncrypted).exec g.db with ⟨e | view, db'⟩ <;>
    rw [hexec] at hforward <;> dsimp only at hforward ⊢
  · exact .inl ⟨fun _ => hforward.1, hforward.2, rfl⟩
  · obtain ⟨⟨hmay, hledger⟩, hshows⟩ := hforward
    refine .inr ⟨⟨hlets, hmay⟩, hledger, ?_⟩
    have hid : view.rest.id = g.db.nextMessageId := hshows.id_eq
    rw [agenda_emit]
    simp [Gateway.agenda, Gateway.counted, Event.announces, Event.broadcasts, hid]

/-- A request to send posts its message if that is taken in, and leaves the ledger alone otherwise. -/
theorem next_sendMessage {s : Gateway} {socket : SocketId} {k : Socket} {data : SendMessage}
    (hkeyed : s.db.Keyed) (hk : s.socket? socket = some k) :
    s.Stores env now k.userId data ∧
      (s.next env (now, .event socket (.sendMessage data))).db.ledger =
        s.db.ledger.post (s.sent now k.userId data) ∨
    ¬s.Stores env now k.userId data ∧
      (s.next env (now, .event socket (.sendMessage data))).db.ledger = s.db.ledger := by
  rw [Gateway.next, Gateway.program, hk]
  obtain ⟨hnot, hledger, -⟩ | ⟨hstores, hledger, -⟩ :=
    @exec_handleMessage { s with emitted := [] } env now k data hkeyed
  · exact .inr ⟨hnot, hledger⟩
  · exact .inl ⟨hstores, hledger⟩

/-! ## Routes, jobs, timers and restarts -/

theorem keepsAgenda_call {route : Route} : Keeps Gateway.agenda (call env now u route) :=
  .rescue (.bind (keepsAgenda_output keepsOutput_respond) fun _ => keepsAgenda_emit ⟨rfl, rfl⟩)
    fun _ => keepsAgenda_emit ⟨rfl, rfl⟩

theorem keepsAgenda_run {job : Job} : Keeps Gateway.agenda job.run :=
  keepsOutput_run keepsAgenda_output (fun _ _ => keepsAgenda_emit ⟨rfl, rfl⟩)
    fun _ _ => keepsAgenda_emit ⟨rfl, rfl⟩

theorem deleted_strike {l : Ledger} : ∀ p ∈ (l.strike (·.id = id)).posting? id, p.deleted := by
  intro p hp
  obtain ⟨hmem, hid⟩ := Ledger.posting?_mem hp
  obtain ⟨p', -, rfl⟩ := List.mem_map.mp hmem
  by_cases hp' : p'.id = id
  · simp [hp']
  · simp [hp'] at hid

/-- An input that neither creates messages nor touches timers. -/
def Input.Plain : Input → Prop
  | .event _ (.sendMessage _) | .event _ (.forwardMessage _ _ _) | .call _ (.forwardMessage _ _)
  | .timeout _ | .restart => False
  | _ => True

/-- **One step**: the ledger and the agenda that it leaves are ones that the input can leave. -/
theorem next_schedules {s : Gateway} {input : Input} (hkeyed : s.db.Keyed)
    (hids : (s.db.conversations.map (·.id)).Nodup) (henabled : s.Enabled now input) :
    s.Schedules env now input (s.next env (now, input)).db.ledger (s.next env (now, input)).agenda := by
  have hyields : s.Yields now input (s.next env (now, input)).db.ledger :=
    next_yields hkeyed hids henabled
  have hkept : Keeps Gateway.agenda (s.program env now input) → input.Plain →
      s.Schedules env now input (s.next env (now, input)).db.ledger (s.next env (now, input)).agenda := by
    intro hkeeps hplain
    rw [show (s.next env (now, input)).agenda = _ from hkeeps { s with emitted := [] }]
    refine .kept (by rintro rfl; exact hplain) (by rintro _ rfl; exact hplain)
      (by rintro _ _ _ rfl; exact hplain.elim) ?_
    obtain h | ⟨u, data, h, -⟩ | ⟨u, id, c, h, -⟩ := hyields.postings
    · exact h.1
    · obtain ⟨socket, rfl⟩ := sends_cases h
      exact hplain.elim
    · obtain ⟨_, _, _, rfl, -⟩ | rfl := forwards_cases h <;> exact hplain.elim
  cases input with
  | connect socket u nickname =>
    exact hkept (.bind (keepsAgenda_modify fun _ => ⟨rfl, rfl⟩) fun _ => keepsAgenda_suspend) trivial
  | event socket request =>
    obtain ⟨k, hk⟩ := Option.isSome_iff_exists.mp henabled
    have hnext : s.next env (now, .event socket request) =
        ((handle env now k request).exec { s with emitted := [] }).2 := by
      rw [Gateway.next, Gateway.program, hk]
      rfl
    have hkeeps : Keeps Gateway.agenda (handle env now k request) →
        Keeps Gateway.agenda (s.program env now (.event socket request)) := by
      rw [Gateway.program, hk]
      exact id
    cases request with
    | sendMessage data =>
      rw [hnext]
      obtain ⟨hnot, hledger, hagenda⟩ | ⟨hstores, hledger, ⟨hnot, hagenda⟩ | ⟨haccepts, hagenda⟩⟩ :=
        @exec_handleMessage { s with emitted := [] } env now k data hkeyed
      · rw [handle, hledger, hagenda]
        refine .kept (by simp) (by simp) (fun socket' data' k' hinput hk' hstores => ?_) rfl
        cases hinput
        obtain rfl := Option.some.inj (hk.symm.trans hk')
        exact hnot hstores
      · rw [handle, hledger, hagenda]
        exact .orphaned hk hstores hnot
      · rw [handle, hledger, hagenda]
        rcases hat : data.deliverAt now with _ | time
        · exact .sent hk haccepts hat
        · exact .scheduled hk haccepts hat
    | forwardMessage id c reEncrypted =>
      rw [hnext]
      obtain ⟨hnot, hledger, hagenda⟩ | ⟨⟨hlets, hmay⟩, hledger, hagenda⟩ :=
        @exec_handleForwardMessage { s with emitted := [] } now k c id reEncrypted
      · rw [handle, hledger, hagenda]
        exact .kept (by simp) (by simp) (by simp) rfl
      · rw [handle, hledger, hagenda]
        exact .forwarded ⟨⟨rfl, rfl⟩, k, hk, rfl, hlets⟩ hmay (List.Subset.refl _)
    | _ =>
      refine hkept (hkeeps (keepsAgenda_handle ?_ ?_)) trivial <;> intros <;> simp
  | call u route =>
    cases route with
    | forwardMessage id c =>
      rw [show (s.next env (now, .call u (.forwardMessage id c))).agenda = _ from
        keepsAgenda_call { s with emitted := [] }]
      obtain ⟨hmay, hledger⟩ | ⟨-, hledger⟩ := hyields
      · rw [hledger]
        exact .forwarded ⟨⟨rfl, rfl⟩, rfl⟩ hmay (List.nil_subset _)
      · rw [hledger]
        exact .kept (by simp) (by simp) (by simp) rfl
    | _ => exact hkept keepsAgenda_call trivial
  | resume job =>
    refine hkept (.bind (keepsAgenda_modify fun _ => ⟨rfl, rfl⟩) fun _ => ?_) trivial
    rcases s.jobs[job]? with _ | j
    · exact .pure
    · exact keepsAgenda_run
  | timeout timer =>
    obtain ⟨t, ht, -⟩ := henabled
    rw [next_timeout ht, exec_deliverScheduledMessage]
    have hposting : s.db.ledger.posting? t.messageId = _ := Database.posting?_ledger t.messageId
    rcases hm : s.db.message? t.messageId with _ | m <;> rw [hm] at hposting
    · refine .dropped ht (fun p hp => ?_) rfl fun p hp => ?_ <;> cases hposting.symm.trans hp
    have hother : ∀ p ∈ s.db.ledger.posting? t.messageId, p = m.posting :=
      fun p hp => Option.some.inj (hp.symm.trans hposting)
    dsimp only
    split_ifs with hdeleted hmember
    · refine .dropped ht (fun p hp => .inl ?_) rfl fun p hp => ?_ <;> rw [hother p hp] <;>
        exact Option.isSome_iff_ne_none.mpr hdeleted
    · have hlive : m.posting.deleted = false := by
        simpa [Message.posting] using hdeleted
      have hagenda := @Gateway.Schedules.delivered s env now timer t m.posting ht hposting hlive
        (Database.isMember_ledger.mp hmember)
      have hid : m.id = t.messageId := by simpa using List.find?_some hm
      have hview : (mapMessage (s.db.select m)).rest.id = t.messageId := hid
      simpa [Gateway.agenda, Event.announces, Event.broadcasts, List.filterMap_map, Function.comp_def,
        hview] using hagenda
    · have hstrike := @strike_ledger s.db now (·.id = t.messageId) (·.id = t.messageId)
        fun m => ⟨fun h => h, .inl⟩
      have hseat : s.db.ledger.seat? t.conversationId m.senderId = none := by
        rw [← Option.not_isSome_iff_eq_none]
        exact fun h => hmember (Database.isMember_ledger.mpr h)
      simp only [decide_eq_true_eq] at hstrike
      dsimp only
      rw [hstrike]
      refine .dropped ht (fun p hp => .inr ?_) fixed_strike deleted_strike
      rw [hother p hp]
      exact hseat
  | disconnect socket =>
    obtain ⟨k, hk⟩ := Option.isSome_iff_exists.mp henabled
    refine hkept ?_ trivial
    rw [Gateway.program, hk]
    exact .bind (keepsAgenda_modify fun _ => ⟨rfl, rfl⟩) fun _ => keepsAgenda_suspend
  | cleanup => exact hkept (keepsAgenda_modify fun _ => ⟨rfl, rfl⟩) trivial
  | restart =>
    rw [next_restart_eq]
    simp only [Gateway.agenda, timers_ledger]
    exact .restarted

end

end Vesper.Server
