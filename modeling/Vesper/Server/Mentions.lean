import Vesper.Server.Reads
import Vesper.Server.Timers

/-!
# Which messages the server mentions

An event mentions the messages of which it carries anything. Content and files never come without an
identifier: that of the message, or of the one it was forwarded from. This module says of every handler
and of every answer which messages they mention to whom.
-/

namespace Vesper.Server
open Program

/-! ## Mentions -/

def MessageView.mentions (view : MessageView) : List MessageId :=
  view.rest.id :: (view.rest.replyToId.toList ++ (view.rest.replyTo.map (·.id)).toList ++
    view.rest.forwardedFromId.toList ++ (view.rest.forwardedFrom.map (·.id)).toList)

def ConversationSummary.mentions (summary : ConversationSummary) : List MessageId :=
  (summary.lastMessage.map (·.id)).toList ++ (summary.pinnedMessage.map (·.id)).toList

def Response.mentions : Response → List MessageId
  | .conversations page _ => page.flatMap (·.mentions)
  | .history (.page views) | .messages views => views.flatMap (·.mentions)
  | .history (.first views firstUnreadId) => views.flatMap (·.mentions) ++ firstUnreadId.toList
  | .media files => files.map (·.id)
  | .pinned pin _ => pin.messageId :: (pin.message.map (·.id)).toList
  | .unpinned result =>
    result.unpinnedMessageId :: (result.latestPinnedMessage.map (·.id)).toList
  | .pins views => views.flatMap fun view => view.messageId :: (view.message.map (·.id)).toList
  | .message view => view.mentions
  | _ => []

def Event.mentions : Event → List MessageId
  | .messageScheduled view | .onMessage view => view.mentions
  | .messageDeleted id _ | .deleteFailed id _ | .messageEdited id _ _ _ | .editFailed id _
  | .reactionToggled id _ _ => [id]
  | .messagePinned _ id preview _ => id :: (preview.map (·.id)).toList
  | .response (.ok answer) => answer.mentions
  | _ => []

/-- The messages that a view of the posting mentions. -/
def Posting.refs (p : Posting) : List MessageId :=
  p.id :: (p.replyToId.toList ++ p.forwardedFromId.toList)

section
variable {db : Database} {id : MessageId}

theorem replyTo_id {reply : ReplyTo} (h : reply ∈ db.replyTo id) : reply.id = id := by
  obtain ⟨m, hm, rfl⟩ := Option.map_eq_some_iff.mp h
  simpa using List.find?_some hm

theorem forwardedFrom_id {origin : ForwardedFrom} (h : origin ∈ db.forwardedFrom id) : origin.id = id := by
  obtain ⟨m, hm, rfl⟩ := Option.map_eq_some_iff.mp h
  simpa using List.find?_some hm

theorem mentions_select {view : MessageView} {m : Message} (h : view.rest = (db.select m).rest) :
    ∀ id ∈ view.mentions, id ∈ m.posting.refs := by
  intro id hid
  have hreply : ∀ reply ∈ m.replyToId.bind db.replyTo, reply.id ∈ m.replyToId := by
    intro reply hreply
    obtain ⟨replyToId, hm, hreply⟩ := Option.bind_eq_some_iff.mp hreply
    rwa [replyTo_id hreply]
  have horigin : ∀ origin ∈ m.forwardedFromId.bind db.forwardedFrom, origin.id ∈ m.forwardedFromId := by
    intro origin horigin
    obtain ⟨forwardedFromId, hm, horigin⟩ := Option.bind_eq_some_iff.mp horigin
    rwa [forwardedFrom_id horigin]
  simp only [MessageView.mentions, h, Database.select, List.mem_cons, List.mem_append,
    Option.mem_toList, Option.map_eq_some_iff] at hid
  simp only [Posting.refs, Message.posting, List.mem_cons, List.mem_append, Option.mem_toList]
  obtain rfl | ((hid | ⟨reply, hmem, rfl⟩) | hid) | ⟨origin, hmem, rfl⟩ := hid
  · exact .inl rfl
  · exact .inr (.inl hid)
  · exact .inr (.inl (hreply reply hmem))
  · exact .inr (.inr hid)
  · exact .inr (.inr (horigin origin hmem))

theorem MessageView.Shows.mentions {view : MessageView} {p : Posting} (h : view.Shows p) :
    ∀ id ∈ view.mentions, id ∈ p.refs := by
  obtain ⟨db, m, rfl, hrest⟩ := h
  exact mentions_select hrest

end

/-! ## What a step mentions -/

/-- Whom an input mentions which messages to. -/
inductive Gateway.Mentions (s : Gateway) (env : Environment) (now : Time) :
    Input → Target → MessageId → Prop
  | scheduled : s.socket? socket = some k → s.Stores env now k.userId data →
      data.deliverAt now = some time → i ∈ (s.sent now k.userId data).refs →
      Mentions s env now (.event socket (.sendMessage data)) (.client k.id) i
  | sent : s.socket? socket = some k → s.Stores env now k.userId data →
      data.deliverAt now = none → i ∈ (s.sent now k.userId data).refs →
      Mentions s env now (.event socket (.sendMessage data)) (.room data.conversationId) i
  | deleted : s.socket? socket = some k → s.Lets now k.userId .mutate → s.db.message? i = some m →
      s.db.MayDelete k.userId m →
      Mentions s env now (.event socket (.deleteMessage i)) (.room m.conversationId) i
  /-- The error names the message that was not deleted. -/
  | notDeleted : s.socket? socket = some k → s.Lets now k.userId .mutate →
      (∀ m ∈ s.db.message? i, ¬s.db.MayDelete k.userId m) →
      Mentions s env now (.event socket (.deleteMessage i)) (.client k.id) i
  | edited : s.socket? socket = some k → s.Lets now k.userId .mutate → s.db.message? i = some m →
      m.Editable now k.userId content →
      Mentions s env now (.event socket (.editMessage i content)) (.room m.conversationId) i
  | notEdited : s.socket? socket = some k → s.Lets now k.userId .mutate →
      Mentions s env now (.event socket (.editMessage i content)) (.client k.id) i
  | reacted : s.socket? socket = some k → s.Lets now k.userId .react → s.db.message? i = some m →
      s.db.MayReact k.userId emoji m →
      Mentions s env now (.event socket (.toggleReaction i emoji)) (.room m.conversationId) i
  | pinned : s.socket? socket = some k → s.Lets now k.userId .mutate → s.db.MayPin k.userId c i →
      Mentions s env now (.event socket (.pinMessage c i)) (.room c) i
  | forwarded : s.socket? socket = some k → s.Lets now k.userId .forward →
      s.db.MayForward k.userId c i → j ∈ (s.db.forwarded now k.userId c i).refs →
      Mentions s env now (.event socket (.forwardMessage i c content)) (.room c) j
  /-- A history, a search, a list of files or of conversations. -/
  | read : m ∈ s.db.messages → scheduledFilter now u m → i ∈ m.posting.refs →
      Mentions s env now (.call u route) (.caller u) i
  | listed : (c, i) ∈ s.db.ledger.pins → Mentions s env now (.call u route) (.caller u) i
  | pinnedFor : s.db.MayPin u c i → Mentions s env now (.call u (.pinMessage c i)) (.caller u) i
  | unpinnedFor : (∃ member ∈ s.db.member? c u, member.role ≠ .member) →
      Mentions s env now (.call u (.unpinMessage c i)) (.caller u) i
  | forwardedFor : s.db.MayForward u c i → j ∈ (s.db.forwarded now u c i).refs →
      Mentions s env now (.call u (.forwardMessage i c)) (.caller u) j
  | delivered : s.timers[timer]? = some t → s.db.message? t.messageId = some m → i ∈ m.posting.refs →
      Mentions s env now (.timeout timer) (.room t.conversationId) i

/-- The step has mentioned messages only to whom `D` allows it. -/
def Gateway.Tells (D : Target → MessageId → Prop) (s : Gateway) : Prop :=
  ∀ emission ∈ s.emitted, ∀ id ∈ emission.2.mentions, D emission.1 id

section
variable {D : Target → MessageId → Prop} {g : Gateway} {env : Environment} {now : Time} {client : Socket}
  {limit : Limit} {event : String} {α : Type} {m : Service α}

theorem tells_emit {target : Target} {e : Event} :
    ((emit target e).exec g).2.Tells D ↔ g.Tells D ∧ ∀ id ∈ e.mentions, D target id := by
  simp only [Gateway.Tells, emit, exec_modify, List.forall_mem_append, List.forall_mem_singleton]

/-- An event that carries nothing of a message. -/
theorem tells_plain {target : Target} {e : Event} (h : e.mentions = []) :
    ((emit target e).exec g).2.Tells D ↔ g.Tells D :=
  tells_emit.trans (and_iff_left (h ▸ nofun))

theorem tells_pushToMembers {c : ConversationId} {u : UserId} {title body : Text} :
    ((pushToMembers c u title body).exec g).2.Tells D ↔ g.Tells D := by
  simp only [Gateway.Tells, pushToMembers, service, exec_bind, exec_zoom, exec_reads, exec_modify,
    List.forall_mem_append, List.forall_mem_map, Event.mentions]
  simp

theorem Gateway.Refused.tells {g' : Gateway} (h : g.Refused client.id g') (hg : g.Tells D) :
    g'.Tells D := by
  unfold Gateway.Tells
  obtain hemitted | ⟨event, retryAfter, message, hemitted⟩ := h.emitted <;> rw [hemitted]
  · exact hg
  · exact List.forall_mem_append.mpr ⟨hg, List.forall_mem_singleton.mpr nofun⟩

theorem tells_limited {n : Handler PUnit} (hg : g.Tells D) (hn : g.Lets now client.userId limit →
      ∀ g' : Gateway, g'.db = g.db → g'.Tells D → (n.exec g').2.Tells D) :
    ((do when (← rateLimit now client limit event) n : Handler PUnit).exec g).2.Tells D := by
  rcases exec_limited (g := g) (n := n) with ⟨hlets, h⟩ | ⟨-, g', hrefused, h⟩ <;> rw [h]
  · exact hn hlets _ rfl hg
  · exact hrefused.tells hg

/-- A handler that tells a target what the service returned, under a limit. -/
theorem tells_limited_attempt {target : α → Target} {e : α → Event} {failed : HttpError → Handler PUnit}
    {q : Database → Prop} (hg : g.Tells D)
    (hm : g.Lets now client.userId limit → Triple (· = g.db) m
      (fun a _ => ∀ id ∈ (e a).mentions, D (target a) id) q)
    (hfailed : g.Lets now client.userId limit → ∀ db, q db → ∀ e (g' : Gateway), g'.Tells D →
      ((failed e).exec g').2.Tells D) :
    ((do when (← rateLimit now client limit event)
          (tryCatch (do let a ← service m; emit (target a) (e a)) failed) : Handler PUnit).exec
        g).2.Tells D := by
  refine tells_limited hg fun hlets g' hdb hg' => ?_
  have hafter := hm hlets g.db rfl
  rw [exec_tryCatch, exec_bind, service, exec_zoom, hdb]
  rcases hexec : m.exec g.db with ⟨err | a, db⟩ <;> rw [hexec] at hafter
  · exact hfailed hlets db hafter err _ hg'
  · exact tells_emit.mpr ⟨hg', hafter⟩

/-! ## Handlers -/

theorem tells_handleMessage {data : SendMessage} (hkeyed : g.db.Keyed) (hg : g.Tells D)
    (hscheduled : g.Stores env now client.userId data → ∀ time, data.deliverAt now = some time →
      ∀ id ∈ (g.sent now client.userId data).refs, D (.client client.id) id)
    (hsent : g.Stores env now client.userId data → data.deliverAt now = none →
      ∀ id ∈ (g.sent now client.userId data).refs, D (.room data.conversationId) id) :
    ((handleMessage env now client data).exec g).2.Tells D := by
  unfold handleMessage
  refine tells_limited hg fun hlets g' hdb hg' => ?_
  unfold when
  by_cases hempty : data.isEmpty = true
  · rw [if_neg (by simp [hempty])]
    exact hg'
  rw [if_pos (by simpa using hempty)]
  rcases herror : data.error? now with _ | error
  case some => exact (tells_plain rfl).mpr hg'
  dsimp only
  have hsave := @saveMessage_ledger g.db client.userId data.conversationId now env (data.dto now) hkeyed g.db rfl
  rw [exec_tryCatch, exec_bind, service, exec_zoom, hdb]
  rcases hexec : (saveMessage env now client.userId data.conversationId (data.dto now)).exec g.db with
    ⟨e | view, db'⟩ <;> rw [hexec] at hsave
  · exact (tells_plain rfl).mpr hg'
  obtain ⟨⟨hmay, -⟩, hshows⟩ := hsave
  have hstores : g.Stores env now client.userId data := ⟨hlets, by simpa using hempty, herror, hmay⟩
  rcases hat : data.deliverAt now with _ | time
  · refine tells_pushToMembers.mpr (tells_emit.mpr ⟨hg', fun id hid => ?_⟩)
    exact hsent hstores hat id (hshows.mentions id hid)
  · exact tells_emit.mpr ⟨hg', fun id hid => hscheduled hstores time hat id (hshows.mentions id hid)⟩

/-- All that the step has mentioned. -/
def Gateway.said (s : Gateway) : List (Target × MessageId) :=
  s.emitted.flatMap fun emission => emission.2.mentions.map (emission.1, ·)

theorem tells_iff : g.Tells D ↔ ∀ x ∈ g.said, D x.1 x.2 := by
  simp only [Gateway.Tells, Gateway.said, List.forall_mem_flatMap, List.forall_mem_map]

theorem keepsSaid_output {n : Handler α} (h : Keeps Gateway.output n) : Keeps Gateway.said n := by
  intro g
  rw [Gateway.said, (Prod.mk.inj (h g)).2]
  rfl

theorem keepsSaid_emit {target : Target} {e : Event} (h : e.mentions = []) :
    Keeps Gateway.said (emit target e) := by
  refine .modify fun g => ?_
  simp [Gateway.said, List.flatMap_append, h]

theorem tells_of_keeps {n : Handler α} (h : Keeps Gateway.said n) :
    (n.exec { g with emitted := [] }).2.Tells D := by
  rw [tells_iff, h]
  exact fun _ h => by cases h

end

section
variable {s : Gateway} {env : Environment} {now : Time} {input : Input}

theorem tells_handle {socket : SocketId} {k : Socket} {request : Request} (hkeyed : s.db.Keyed)
    (hk : s.socket? socket = some k) :
    ((handle env now k request).exec { s with emitted := [] }).2.Tells
      (s.Mentions env now (.event socket request)) := by
  have hnil : ∀ {D}, { s with emitted := [] }.Tells D := fun _ h => by cases h
  have hid : ∀ {id : MessageId} {m : Message}, s.db.message? id = some m → m.id = id :=
    fun hm => by simpa using List.find?_some hm
  cases request with
  | sendMessage data =>
    exact tells_handleMessage hkeyed hnil (fun hstores _ hat _ => .scheduled hk hstores hat)
      fun hstores hat _ => .sent hk hstores hat
  | markAsRead c =>
    exact tells_of_keeps (.bind (keepsSaid_output keepsOutput_service) fun _ => keepsSaid_emit rfl)
  | typing c isTyping => exact tells_limited hnil fun _ _ _ hg => (tells_plain rfl).mpr hg
  | deleteMessage id =>
    refine tells_limited_attempt hnil (fun hlets => deleteMessage_spec.weaken (fun d _ h => ?_) fun _ h => h)
      fun hlets _ hnot _ _ hg => tells_emit.mpr ⟨hg, ?_⟩
    · obtain ⟨m, hm, ⟨hd, hc⟩, hmay⟩ := h
      refine List.forall_mem_singleton.mpr ?_
      rw [hd, hc, hid hm]
      exact .deleted hk hlets hm hmay
    · exact List.forall_mem_singleton.mpr (.notDeleted hk hlets hnot)
  | editMessage id content =>
    refine tells_limited_attempt hnil (fun hlets => editMessage_spec.weaken (fun d _ h => ?_) fun _ h => h)
      fun hlets _ _ _ _ hg => tells_emit.mpr ⟨hg, ?_⟩
    · obtain ⟨m, hm, ⟨hd, hc⟩, hedit⟩ := h
      refine List.forall_mem_singleton.mpr ?_
      rw [hd, hc, hid hm]
      exact .edited hk hlets hm hedit
    · exact List.forall_mem_singleton.mpr (.notEdited hk hlets)
  | toggleReaction id emoji =>
    refine tells_limited_attempt hnil (fun hlets => toggleReaction_spec.weaken (fun r _ h => ?_) fun _ h => h)
      fun _ _ _ _ _ hg => hg
    obtain ⟨m, hm, hc, hmay⟩ := h
    refine List.forall_mem_singleton.mpr ?_
    rw [hc]
    exact .reacted hk hlets hm hmay
  | joinConversation c =>
    exact tells_of_keeps (.bind (keepsSaid_output keepsOutput_joinRooms) fun _ => keepsSaid_emit rfl)
  | pinMessage c id =>
    refine tells_limited_attempt hnil (fun hlets => addPinnedMessage_ledger.weaken (fun r _ h => ?_) fun _ h => h)
      fun _ _ _ _ _ hg => (tells_plain rfl).mpr hg
    obtain ⟨⟨hr, hpreview⟩, hmay, -⟩ := h
    have hpinned : s.Mentions env now (.event socket (.pinMessage c id)) (.room c) id := .pinned hk hlets hmay
    refine List.forall_mem_cons.mpr ⟨hr ▸ hpinned, fun i hi => ?_⟩
    obtain ⟨preview, hmem, rfl⟩ := Option.map_eq_some_iff.mp (Option.mem_toList.mp hi)
    rwa [hpreview preview hmem]
  | unpinMessage c id =>
    refine tells_limited_attempt (q := fun _ => True) hnil (fun _ => ?_)
      fun _ _ _ _ _ hg => (tells_plain rfl).mpr hg
    exact (Triple.since (q := True) fun _ _ => trivial).weaken (fun _ _ _ => nofun) fun _ h => h
  | requestSenderKeyRedistribution c target =>
    refine tells_of_keeps (.rescue (.bind (keepsSaid_output keepsOutput_service) fun _ => ?_) fun _ => .pure)
    exact .bind .demand fun _ => keepsSaid_emit rfl
  | notifyKeyRotated => exact tells_of_keeps (keepsSaid_emit rfl)
  | forwardMessage id c reEncrypted =>
    refine tells_limited_attempt hnil (fun hlets => forwardMessage_ledger.weaken (fun view _ h => ?_) fun _ h => h)
      fun _ _ _ _ _ hg => (tells_plain rfl).mpr hg
    obtain ⟨⟨hmay, -⟩, hshows⟩ := h
    exact fun i hi => .forwarded hk hlets hmay (hshows.mentions i hi)

/-! ## Answers -/

theorem mentions_summary {u : UserId} {member : ConversationMember} {conv : Conversation} {id : MessageId}
    (h : id ∈ (s.db.summary now u member conv).mentions) {route : Route} :
    s.Mentions env now (.call u route) (.caller u) id := by
  rcases List.mem_append.mp h with h | h
  · obtain ⟨last, hlast, rfl⟩ := Option.map_eq_some_iff.mp (Option.mem_toList.mp h)
    obtain ⟨m, hm, rfl⟩ := Option.map_eq_some_iff.mp hlast
    have hm := mem_newest.mp (List.mem_of_mem_head? hm)
    simp only [Bool.and_eq_true] at hm
    exact .read hm.1 hm.2.2 List.mem_cons_self
  · obtain ⟨preview, hpreview, rfl⟩ := Option.map_eq_some_iff.mp (Option.mem_toList.mp h)
    exact .listed (pinned_latest hpreview)

/-- What a history mentions, with the message at which the unread ones start. -/
theorem mentions_history {history : History} {id : MessageId} (h : id ∈ (Response.history history).mentions)
    (hfirst : ∀ views firstUnread, history = .first views (some firstUnread) →
      ∃ view ∈ views, view.rest.id = firstUnread) :
    ∃ view ∈ (Response.history history).views, id ∈ view.mentions := by
  cases history with
  | page views => exact List.mem_flatMap.mp h
  | first views firstUnread =>
    rcases List.mem_append.mp h with h | h
    · exact List.mem_flatMap.mp h
    · obtain rfl : firstUnread = some id := Option.mem_toList.mp h
      obtain ⟨view, hview, rfl⟩ := hfirst views id rfl
      exact ⟨view, hview, List.mem_cons_self⟩

theorem mentions_answerPage {u : UserId} {c : ConversationId} {member : ConversationMember}
    {cursor after around : Option MessageId} {id : MessageId}
    (h : id ∈ (s.db.answerPage now u c member cursor after around).mentions) :
    ∃ view ∈ (s.db.answerPage now u c member cursor after around).views, id ∈ view.mentions := by
  rcases around with _ | around
  · rcases after with _ | after
    · rcases hcursor : cursor.filter (· ≠ 0) with _ | cursor' <;>
        simp only [Database.answerPage, hcursor] at h ⊢
      · refine mentions_history h fun views firstUnread heq => ?_
        obtain ⟨rfl, hfind⟩ := History.first.inj heq
        obtain ⟨view, hview, hid⟩ := Option.map_eq_some_iff.mp hfind
        exact ⟨view, List.mem_of_find?_eq_some hview, hid⟩
      · exact mentions_history h fun _ _ heq => by cases heq
    · exact List.mem_flatMap.mp h
  · exact List.mem_flatMap.mp h

/-- **Answers**: whatever an answer mentions is something the user may see, a pin, or what the user has
asked for. -/
theorem mentions_answer {u : UserId} {route : Route} {response : Response}
    (h : s.answer env now u route = .ok response) :
    ∀ id ∈ response.mentions, s.Mentions env now (.call u route) (.caller u) id := by
  have hviews : ∀ {id}, (∃ view ∈ response.views, id ∈ view.mentions) →
      s.Mentions env now (.call u route) (.caller u) id := by
    rintro id ⟨view, hview, hid⟩
    obtain ⟨m, hm, hvisible, rfl⟩ := views_answer h hview
    exact .read hm hvisible (mentions_select rfl id hid)
  have hany : ∀ {α : Type} {m : Handler α}, Triple (fun _ => True) m (fun _ _ => True) fun _ => True :=
    Triple.since fun _ => id
  -- a route that mentions nothing
  have hplain : Triple (fun _ => True) (respond env now u route) (fun r _ => r.mentions = []) (fun _ => True) →
      ∀ id ∈ response.mentions, s.Mentions env now (.call u route) (.caller u) id := by
    intro hnone id hid
    rw [hnone.result trivial h] at hid
    cases hid
  -- a route that packs up what the service returned
  have hpacked : ∀ {α : Type} {m : Service α} {r : α → Response} {Q : α → Database → Prop} {E : Database → Prop},
      respond env now u route = (do return r (← service m)) → Triple (· = s.db) m Q E →
      ∃ a db, Q a db ∧ response = r a := by
    intro α m r Q E hroute hm
    have hafter := hm s.db rfl
    rw [Gateway.answer, hroute, exec_bind, service, exec_zoom] at h
    rcases hexec : m.exec s.db with ⟨e | a, db⟩ <;> rw [hexec] at h hafter <;> cases h
    exact ⟨a, db, hafter, rfl⟩
  cases route with
  | getAll skip take archived =>
    intro id hid
    obtain ⟨more, hanswer⟩ := @respond_getAll s env now u skip take archived
    rw [Gateway.answer, hanswer] at h
    obtain rfl := Except.ok.inj h
    obtain ⟨summary, hsummary, hid⟩ := List.mem_flatMap.mp hid
    obtain ⟨⟨member, conv⟩, -, rfl⟩ := List.mem_map.mp hsummary
    exact mentions_summary hid
  | getMessages c cursor after around =>
    intro id hid
    refine hviews ?_
    rw [Gateway.answer, respond_getMessages] at h
    rcases hmember : s.db.member? c u with _ | member <;> rw [hmember] at h <;> cases h
    exact mentions_answerPage hid
  | searchMessages c query =>
    intro id hid
    refine hviews ?_
    rw [Gateway.answer, respond_searchMessages] at h
    rcases hmember : s.db.member? c u with _ | member <;> rw [hmember] at h <;> cases h
    exact List.mem_flatMap.mp hid
  | getMedia c =>
    intro id hid
    rw [Gateway.answer, respond_getMedia] at h
    rcases hmember : s.db.member? c u with _ | member <;> rw [hmember] at h <;> cases h
    obtain ⟨file, hfile, rfl⟩ := List.mem_map.mp hid
    obtain ⟨m, hm, rfl⟩ := List.mem_map.mp hfile
    have hm := mem_newest.mp (List.mem_of_mem_take hm)
    simp only [Bool.and_eq_true] at hm
    exact .read hm.1 hm.2.2 List.mem_cons_self
  | getPinnedMessages c =>
    intro id hid
    rw [Gateway.answer, respond_getPinnedMessages] at h
    rcases hmember : s.db.member? c u with _ | member <;> rw [hmember] at h <;> cases h
    obtain ⟨view, hview, hid⟩ := List.mem_flatMap.mp hid
    obtain ⟨pin, hpin, rfl⟩ := List.mem_map.mp hview
    have hlisted : s.Mentions env now (.call u (.getPinnedMessages c)) (.caller u) pin.messageId :=
      .listed (List.mem_map_of_mem (Agree.mem_pinsOf hpin).1)
    rcases List.mem_cons.mp hid with rfl | hid
    · exact hlisted
    · obtain ⟨preview, hpreview, rfl⟩ := Option.map_eq_some_iff.mp (Option.mem_toList.mp hid)
      rwa [pinnedPreview_id hpreview]
  | pinMessage c id =>
    obtain ⟨⟨pin, count⟩, db, ⟨⟨rfl, hpreview⟩, hmay, -⟩, rfl⟩ := hpacked rfl addPinnedMessage_ledger
    refine List.forall_mem_cons.mpr ⟨.pinnedFor hmay, fun i hi => ?_⟩
    obtain ⟨preview, hmem, rfl⟩ := Option.map_eq_some_iff.mp (Option.mem_toList.mp hi)
    rw [hpreview preview hmem]
    exact .pinnedFor hmay
  | unpinMessage c id =>
    obtain ⟨result, db, ⟨⟨rfl, hlatest⟩, hadmin, hledger⟩, rfl⟩ := hpacked rfl removePinnedMessage_ledger
    refine List.forall_mem_cons.mpr ⟨.unpinnedFor hadmin, fun i hi => ?_⟩
    obtain ⟨preview, hmem, rfl⟩ := Option.map_eq_some_iff.mp (Option.mem_toList.mp hi)
    have hpins := hlatest preview hmem
    rw [hledger] at hpins
    exact .listed (List.mem_filter.mp hpins).1
  | forwardMessage id c =>
    obtain ⟨view, db, ⟨⟨hmay, -⟩, hshows⟩, rfl⟩ := hpacked rfl forwardMessage_ledger
    exact fun i hi => .forwardedFor hmay (hshows.mentions i hi)
  | createGroup name description memberIds =>
    exact hplain (.bind hany fun _ => .bind hany fun _ => .pure fun _ _ => rfl)
  | addMember c target => exact hplain (.bind hany fun _ => .bind hany fun _ => .pure fun _ _ => rfl)
  | _ => exact hplain (.bind hany fun _ => .pure fun _ _ => rfl)

/-! ## Steps -/

theorem Gateway.Mentions.call {g : Gateway} {u : UserId} {route : Route} {target : Target} {id : MessageId}
    (h : g.Mentions env now (.call u route) target id) (hdb : g.db = s.db) :
    s.Mentions env now (.call u route) target id := by
  cases h with
  | read hm hvisible hid => exact .read (hdb ▸ hm) hvisible hid
  | listed hpin => exact .listed (hdb ▸ hpin)
  | pinnedFor hmay => exact .pinnedFor (hdb ▸ hmay)
  | unpinnedFor hadmin => exact .unpinnedFor (hdb ▸ hadmin)
  | forwardedFor hmay hid => exact .forwardedFor (hdb ▸ hmay) (hdb ▸ hid)

theorem tells_call {u : UserId} {route : Route} :
    ((call env now u route).exec { s with emitted := [] }).2.Tells (s.Mentions env now (.call u route)) := by
  have hrespond : Keeps Gateway.said (respond env now u route) := keepsSaid_output keepsOutput_respond
  have hnil := tells_of_keeps (g := s) (D := s.Mentions env now (.call u route)) hrespond
  have hanswer := @mentions_answer { s with emitted := [] } env now u route
  rw [call, exec_tryCatch, exec_bind]
  rw [Gateway.answer] at hanswer
  rcases hexec : (respond env now u route).exec { s with emitted := [] } with ⟨e | response, g⟩ <;>
    rw [hexec] at hnil hanswer
  · exact (tells_plain rfl).mpr hnil
  · exact tells_emit.mpr ⟨hnil, fun id hid => (hanswer rfl id hid).call rfl⟩

theorem tells_deliver {timer : Nat} {t : Timer} (ht : s.timers[timer]? = some t) :
    (s.next env (now, .timeout timer)).Tells (s.Mentions env now (.timeout timer)) := by
  rw [next_timeout ht, exec_deliverScheduledMessage]
  rcases hm : s.db.message? t.messageId with _ | m
  · exact fun _ h => by cases h
  dsimp only
  split_ifs
  · exact fun _ h => by cases h
  · refine List.forall_mem_cons.mpr ⟨fun id hid => ?_, List.forall_mem_map.mpr fun _ _ => nofun⟩
    exact .delivered ht hm (mentions_select rfl id hid)
  · exact fun _ h => by cases h

/-- **One step**: the server mentions nothing to anybody that the input does not. -/
theorem next_mentions (hkeyed : s.db.Keyed) (henabled : s.Enabled now input) :
    (s.next env (now, input)).Tells (s.Mentions env now input) := by
  cases input with
  | connect socket u nickname =>
    exact tells_of_keeps (keepsSaid_output
      (.bind (keepsOutput_modify fun _ => ⟨rfl, rfl⟩) fun _ => keepsOutput_suspend))
  | event socket request =>
    obtain ⟨k, hk⟩ := Option.isSome_iff_exists.mp henabled
    rw [Gateway.next, Gateway.program, hk]
    exact tells_handle hkeyed hk
  | call u route => exact tells_call
  | resume job =>
    refine tells_of_keeps (.bind (keepsSaid_output (keepsOutput_modify fun _ => ⟨rfl, rfl⟩)) fun _ => ?_)
    rcases s.jobs[job]? with _ | j
    · exact .pure
    · exact keepsOutput_run keepsSaid_output (fun _ _ => keepsSaid_emit rfl) fun _ _ => keepsSaid_emit rfl
  | timeout timer =>
    obtain ⟨t, ht, -⟩ := henabled
    exact tells_deliver ht
  | disconnect socket =>
    obtain ⟨k, hk⟩ := Option.isSome_iff_exists.mp henabled
    rw [Gateway.next, Gateway.program, hk]
    exact tells_of_keeps (keepsSaid_output
      (.bind (keepsOutput_modify fun _ => ⟨rfl, rfl⟩) fun _ => keepsOutput_suspend))
  | cleanup => exact tells_of_keeps (keepsSaid_output (keepsOutput_modify fun _ => ⟨rfl, rfl⟩))
  | restart =>
    rw [next_restart_eq]
    exact fun _ h => by cases h

end

end Vesper.Server
