import Mathlib.Data.List.Induction
import Vesper.Server.ContentLength
import Vesper.Server.Ownership

/-!
# The authors of messages

Every message was posted by its sender, who sent or forwarded it; no step removes a message or changes who has sent
it, when and where; and what it says is what the sender has posted or, inside the edit window and before it was
deleted, an edit of the sender.
-/

namespace Vesper.Server
open Program

/-! ## What an input does to the wordings -/

namespace Gateway
variable (s : Gateway) (now : Time)

/-- The input says this, if it posts. -/
def Says (w : Wording) : Input → Prop
  | .event _ (.sendMessage data) => w = ⟨(data.content.map trim).getD [], data.fileUrl⟩
  | .event _ (.forwardMessage id _ reEncryptedContent) =>
    ∃ original ∈ s.db.message? id, w = ⟨reEncryptedContent.getD original.content, original.fileUrl⟩
  | .call _ (.forwardMessage id _) => ∃ original ∈ s.db.message? id, w = ⟨original.content, original.fileUrl⟩
  | _ => False

/-- An edit that goes through. -/
def Edits (id : MessageId) (text : Text) : Input → Prop
  | .event socket (.editMessage id' content) => (id' = id ∧ trim content = text) ∧
    ∃ k ∈ s.socket? socket, s.Lets now k.userId .mutate ∧ ∃ m ∈ s.db.message? id, m.Editable now k.userId content
  | _ => False

/-- The wordings stay, there is one more, or one is edited. -/
def Rewords (input : Input) (db : Database) : Prop :=
  db.wordings = s.db.wordings ∨ (∃ w, s.Says w input ∧ db.wordings = s.db.wordings ++ [w]) ∨
    ∃ id text, s.Edits now id text input ∧ db = s.db.edited now id text

end Gateway

section
variable {db : Database} {u : UserId} {c : ConversationId} {id : MessageId} {now : Time} {env : Environment}

theorem wordings_insert {row : MessageId → Message} :
    (db.insert row).wordings = db.wordings ++ [(row db.nextMessageId).wording] := by
  rw [Database.wordings, Database.insert, List.map_append]
  rfl

theorem wordings_saveMessage {dto : NewMessage} :
    ((saveMessage env now u c dto).exec db).2.wordings = db.wordings ∨
      ((saveMessage env now u c dto).exec db).2.wordings =
        db.wordings ++ [⟨(dto.content.map trim).getD [], dto.fileUrl⟩] := by
  refine Triple.after (E := fun db' : Database => db'.wordings = db.wordings ∨ db'.wordings =
    db.wordings ++ [⟨(dto.content.map trim).getD [], dto.fileUrl⟩]) (P := (· = db)) ?_ rfl
  refine saveMessage_rule (fun _ _ => .inl rfl) fun _ metadata => ?_
  have hconclude : Keeps Database.wordings (concludeSave now c dto (dto.row now u c metadata db.nextMessageId)) := by
    refine .bind .reads fun _ => ?_
    split
    · exact .bind wordings_createEnvelopes fun _ => .bind wordings_touchConversation fun _ =>
        .bind .reads fun _ => .bind .orThrow fun _ => .pure
    · exact .bind wordings_touchConversation fun _ => .pure
  refine (Triple.keep (P := fun wordings => wordings = db.wordings ∨ wordings = db.wordings ++ [_])
    hconclude).strengthen fun db' hdb => .inr ?_
  rw [hdb]
  exact wordings_insert

theorem wordings_forwardMessage {reEncrypted : Option Text} :
    ((forwardMessage now u id c reEncrypted).exec db).2.wordings = db.wordings ∨
      ∃ original ∈ db.message? id, ((forwardMessage now u id c reEncrypted).exec db).2.wordings =
        db.wordings ++ [⟨reEncrypted.getD original.content, original.fileUrl⟩] := by
  refine Triple.after (E := fun db' : Database => db'.wordings = db.wordings ∨ ∃ original ∈ db.message? id,
    db'.wordings = db.wordings ++ [⟨reEncrypted.getD original.content, original.fileUrl⟩]) (P := (· = db)) ?_ rfl
  refine forwardMessage_rule (fun _ _ => .inl rfl) fun _ original horiginal => ?_
  have hconclude : ∀ msg, Keeps Database.wordings (concludeForward now c msg) := fun _ =>
    .bind .reads fun _ => .bind wordings_touchConversation fun _ => .pure
  refine (Triple.keep (P := fun wordings => wordings = db.wordings ∨ ∃ original ∈ db.message? id,
    wordings = db.wordings ++ [⟨reEncrypted.getD original.content, original.fileUrl⟩]) (hconclude _)).strengthen
    fun db' hdb => .inr ⟨original, horiginal, ?_⟩
  rw [hdb]
  exact wordings_insert

/-- An edit changes one message or nothing. -/
theorem exec_editMessage {content : Text} :
    ((editMessage now id u content).exec db).2 = db ∨ (∃ m ∈ db.message? id, m.Editable now u content) ∧
      ((editMessage now id u content).exec db).2 = db.edited now id (trim content) := by
  refine Triple.after (P := (· = db)) (E := fun db' => db' = db ∨ (∃ m ∈ db.message? id, m.Editable now u content) ∧
    db' = db.edited now id (trim content)) ?_ rfl
  refine editMessage_row.weaken (fun _ db' hdb => ?_) fun db' hdb => .inl hdb.1
  obtain ⟨m, hm, hedit, -, rfl⟩ := hdb
  split
  · exact .inl rfl
  · exact .inr ⟨⟨m, hm, hedit⟩, rfl⟩

end

/-! ## One step -/

section
variable {env : Environment} {s : Gateway} {now : Time} {client : Socket} {socket : SocketId} {input : Input}
  {db : Database}

theorem Gateway.Rewords.of_keeps {α : Type} {m : Service α} (h : Keeps Database.wordings m) :
    s.Rewords now input (m.exec s.db).2 := .inl (h s.db)

/-- **The rule of the events**: each of them has the right to what it does to the wordings. -/
theorem rewords_handle {request : Request} (hk : s.socket? socket = some client) :
    s.Rewords now (.event socket request) ((handle env now client request).exec s).2.db := by
  have hstays : s.Rewords now (.event socket request) s.db := .inl rfl
  cases request with
  | sendMessage data =>
    refine db_handleMessage (P := s.Rewords now _) hstays fun _ => ?_
    exact wordings_saveMessage.imp_right fun h => .inl ⟨_, rfl, h⟩
  | markAsRead c =>
    rw [handle, handleMarkAsRead, db_service_bind fun _ => keeps_emit]
    exact .of_keeps (.modify fun _ => rfl)
  | typing c isTyping =>
    refine db_limited (P := s.Rewords now _) (fun _ => hstays) fun _ g' hdb => ?_
    rw [keeps_emit g', hdb]
    exact hstays
  | deleteMessage id =>
    exact db_limited_attempt (P := s.Rewords now _) (fun _ => keeps_emit) (fun _ => hstays) fun _ =>
      .of_keeps wordings_deleteMessage
  | editMessage id content =>
    refine db_limited_attempt (P := s.Rewords now _) (fun _ => keeps_emit) (fun _ => hstays) fun hlets => ?_
    rcases exec_editMessage with hsame | ⟨⟨m, hm, hedit⟩, hedited⟩
    · exact .inl (congrArg Database.wordings hsame)
    · exact .inr (.inr ⟨id, trim content, ⟨⟨rfl, rfl⟩, client, hk, hlets, m, hm, hedit⟩, hedited⟩)
  | toggleReaction id emoji =>
    exact db_limited_attempt (P := s.Rewords now _) (fun _ => .pure) (fun _ => hstays) fun _ =>
      .of_keeps wordings_toggleReaction
  | joinConversation c => exact hstays
  | pinMessage c id =>
    exact db_limited_attempt (P := s.Rewords now _) (fun _ => keeps_emit) (fun _ => hstays) fun _ =>
      .of_keeps wordings_addPinnedMessage
  | unpinMessage c id =>
    exact db_limited_attempt (P := s.Rewords now _) (fun _ => keeps_emit) (fun _ => hstays) fun _ =>
      .of_keeps wordings_removePinnedMessage
  | requestSenderKeyRedistribution c target =>
    rw [handle, handleRequestSenderKeyRedistribution, Keeps.attempt (f := Gateway.db) fun _ => .pure,
      db_service_bind fun member => .bind .demand fun _ => keeps_emit]
    exact hstays
  | notifyKeyRotated => exact hstays
  | forwardMessage id c reEncrypted =>
    refine db_limited_attempt (P := s.Rewords now _) (fun _ => keeps_emit) (fun _ => hstays) fun _ => ?_
    refine wordings_forwardMessage.imp_right ?_
    rintro ⟨original, horiginal, h⟩
    exact .inl ⟨_, ⟨original, horiginal, rfl⟩, h⟩

theorem rewords_respond {u : UserId} {route : Route} :
    s.Rewords now (.call u route) ((respond env now u route).exec s).2.db := by
  -- a route that only packs up what the service returned
  have hdb : ∀ {α} {m : Service α} {k : α → Handler Response}, (∀ a, Keeps Gateway.db (k a)) →
      Keeps Database.wordings m → s.Rewords now (.call u route) ((service m >>= k).exec s).2.db := by
    intro α m k hk hm
    rw [db_service_bind hk]
    exact .of_keeps hm
  cases route with
  | getAll skip take archived => exact hdb (fun _ => .pure) (.bind .reads fun _ => .bind .reads fun _ => .pure)
  | createDirect target => exact hdb (fun _ => .pure) wordings_getOrCreateDirect
  | createGroup name description memberIds =>
    exact hdb (fun _ => .bind (.modify fun _ => rfl) fun _ => .pure) wordings_createConversation
  | createChannel name description => exact hdb (fun _ => .pure) wordings_createConversation
  | getOne id => exact hdb (fun _ => .pure) wordings_membersRead
  | update id dto => exact hdb (fun _ => .pure) wordings_updateConversation
  | pinChat id isPinned =>
    exact hdb (fun _ => .pure) (.bind wordings_assertMember fun _ => .bind (.modify fun _ => rfl) fun _ => .pure)
  | archiveChat id isArchived =>
    exact hdb (fun _ => .pure) (.bind wordings_assertMember fun _ => .bind (.modify fun _ => rfl) fun _ => .pure)
  | getMessages id cursor after around =>
    rcases around with _ | around
    · rcases after with _ | after
      · exact hdb (fun _ => .pure) wordings_getMessages
      · exact hdb (fun _ => .pure) wordings_membersRead
    · exact hdb (fun _ => .pure) wordings_membersRead
  | clearMessages id scope => exact hdb (fun _ => .pure) wordings_clearMessages
  | getMedia id => exact hdb (fun _ => .pure) wordings_membersRead
  | searchMessages id q => exact hdb (fun _ => .pure) wordings_searchMessages
  | addMember id target => exact hdb (fun _ => .bind keeps_suspend fun _ => .pure) wordings_addMember
  | removeMember id memberId => exact hdb (fun _ => .pure) wordings_removeMember
  | setRole id memberId role => exact hdb (fun _ => .pure) wordings_setMemberRole
  | pinMessage id messageId => exact hdb (fun _ => .pure) wordings_addPinnedMessage
  | unpinMessage id messageId => exact hdb (fun _ => .pure) wordings_removePinnedMessage
  | getPinnedMessages id => exact hdb (fun _ => .pure) wordings_membersRead
  | forwardMessage messageId target =>
    rw [respond, db_service_bind fun _ => .pure]
    refine wordings_forwardMessage.imp_right ?_
    rintro ⟨original, horiginal, h⟩
    exact .inl ⟨_, ⟨original, horiginal, rfl⟩, h⟩
  | deleteAllMySenderKeys => exact hdb (fun _ => .pure) (.modify fun _ => rfl)
  | setGroupKeys id keys version => exact hdb (fun _ => .pure) wordings_setSenderKey
  | getMyGroupKey id => exact hdb (fun _ => .pure) wordings_membersRead

variable (env) in
theorem next_rewords (henabled : s.Enabled now input) : s.Rewords now input (s.next env (now, input)).db := by
  cases input with
  | connect socket u nickname => exact .inl rfl
  | event socket request =>
    obtain ⟨k, hk⟩ := Option.isSome_iff_exists.mp henabled
    rw [Gateway.next, Gateway.program, hk]
    exact rewords_handle (s := { s with emitted := [] }) hk
  | call u route =>
    rw [Gateway.next, Gateway.program, db_call]
    exact rewords_respond (s := { s with emitted := [] })
  | resume job => exact .inl (keeps_resume (f := Database.wordings) (fun _ _ => rfl) { s with emitted := [] })
  | timeout timer =>
    obtain ⟨t, ht, -⟩ := henabled
    rw [next_timeout ht, exec_deliverScheduledMessage]
    rcases s.db.message? t.messageId with _ | m
    · exact .inl rfl
    dsimp only
    split
    · exact .inl rfl
    split
    · exact .inl rfl
    · refine .inl ?_
      rw [Database.wordings, Database.wordings, List.map_map]
      refine List.map_congr_left fun m _ => ?_
      rw [Function.comp_apply]
      split <;> rfl
  | disconnect socket =>
    obtain ⟨k, hk⟩ := Option.isSome_iff_exists.mp henabled
    rw [Gateway.next, Gateway.program, hk]
    exact .inl rfl
  | cleanup => exact .inl rfl
  | restart =>
    rw [next_restart_eq]
    exact .inl rfl

/-! ## What becomes of a message -/

/-- What no step changes of a message: all but the content, the deletion and what is attached later. -/
def Message.Follows (m m' : Message) : Prop := m'.posting.fixed = m.posting.fixed ∧ m'.fileUrl = m.fileUrl

theorem Message.Follows.refl (m : Message) : m.Follows m := ⟨rfl, rfl⟩

theorem Message.Follows.trans {m m' m'' : Message} (h : m.Follows m') (h' : m'.Follows m'') : m.Follows m'' :=
  ⟨h'.1.trans h.1, h'.2.trans h.2⟩

theorem Message.Follows.id {m m' : Message} (h : m.Follows m') : m'.id = m.id := congrArg Posting.id h.1

/-- The input is of the user, and is to post into the conversation. -/
def Gateway.Authors (s : Gateway) (now : Time) (u : UserId) (c : ConversationId) (input : Input) : Prop :=
  (∃ data, s.Sends u data input ∧ data.conversationId = c) ∨ ∃ id, s.Forwards now u id c input

/-- The input posts the message, for its sender. -/
def Gateway.Publishes (s : Gateway) (now : Time) (m : Message) (input : Input) : Prop :=
  s.Authors now m.senderId m.conversationId input ∧ s.Says m.wording input ∧ m.createdAt = now

/-- Nothing is posted, or one message is, for who asks. -/
theorem posts_of_yields {l : Ledger} (h : s.Yields now input l) :
    l.postings.map (·.fixed) = s.db.ledger.postings.map (·.fixed) ∨
      ∃ p : Posting, s.Authors now p.senderId p.conversationId input ∧ p.createdAt = now ∧
        l.postings = s.db.ledger.postings ++ [p] := by
  rcases h.postings with ⟨hsame, -⟩ | ⟨u, data, hsends, -, -, rfl⟩ | ⟨u, id, c, hforwards, -, rfl⟩
  · exact .inl hsame
  · exact .inr ⟨s.db.saved now u data.conversationId (data.dto now), .inl ⟨data, hsends, rfl⟩, rfl, rfl⟩
  · exact .inr ⟨s.db.forwarded now u c id, .inr ⟨id, hforwards⟩, rfl, rfl⟩

/-- A message at its place among the wordings and the postings. -/
theorem getElem?_wordings {m : Message} {i : Nat} (h : db.messages[i]? = some m) :
    db.wordings[i]? = some m.wording := by
  rw [Database.wordings, List.getElem?_map, h]
  rfl

theorem getElem?_postings {m : Message} {i : Nat} (h : db.messages[i]? = some m) :
    db.ledger.postings[i]? = some m.posting := by
  rw [Database.ledger, List.getElem?_map, h]
  rfl

theorem length_wordings : db.wordings.length = db.messages.length := List.length_map ..

theorem length_postings : db.ledger.postings.length = db.messages.length := List.length_map ..

/-- What a step that has the right to it does to the message at a place. -/
theorem Gateway.Rewords.follows (h : s.Rewords now input db) (hyields : s.Yields now input db.ledger) {i : Nat}
    {m m' : Message} (hm : s.db.messages[i]? = some m) (hm' : db.messages[i]? = some m') :
    m.Follows m' ∧ (m'.content = m.content ∨ s.Edits now m.id m'.content input) := by
  have hfixed : m'.posting.fixed = m.posting.fixed := by
    rcases posts_of_yields hyields with hsame | ⟨p, -, -, hpost⟩
    · have hat := congrArg (·[i]?) hsame
      simp only [List.getElem?_map, getElem?_postings hm, getElem?_postings hm', Option.map_some] at hat
      exact Option.some.inj hat
    · have hat := congrArg (·[i]?) hpost
      have hlt : i < s.db.ledger.postings.length := length_postings ▸ (List.getElem?_eq_some_iff.mp hm).1
      simp only [List.getElem?_append_left hlt, getElem?_postings hm, getElem?_postings hm'] at hat
      exact congrArg Posting.fixed (Option.some.inj hat)
  have hlt : i < s.db.wordings.length := length_wordings ▸ (List.getElem?_eq_some_iff.mp hm).1
  have hwording : db.wordings[i]? = s.db.wordings[i]? → m'.wording = m.wording := fun hat =>
    Option.some.inj ((getElem?_wordings hm').symm.trans (hat.trans (getElem?_wordings hm)))
  rcases h with hsame | ⟨w, -, hmore⟩ | ⟨id, text, hedits, rfl⟩
  · have hw := hwording (congrArg (·[i]?) hsame)
    exact ⟨⟨hfixed, congrArg Wording.fileUrl hw⟩, .inl (congrArg Wording.content hw)⟩
  · have hw := hwording ((congrArg (·[i]?) hmore).trans (List.getElem?_append_left hlt))
    exact ⟨⟨hfixed, congrArg Wording.fileUrl hw⟩, .inl (congrArg Wording.content hw)⟩
  · rw [Database.edited, List.getElem?_map, hm, Option.map_some] at hm'
    have hedited := Option.some.inj hm'
    split at hedited
    · rename_i hid
      subst hid hedited
      exact ⟨⟨hfixed, rfl⟩, .inr hedits⟩
    · subst hedited
      exact ⟨.refl m, .inl rfl⟩

/-- What is new was posted for its sender. -/
theorem Gateway.Rewords.posts (h : s.Rewords now input db) (hyields : s.Yields now input db.ledger) {i : Nat}
    {m' : Message} (hle : s.db.messages.length ≤ i) (hm' : db.messages[i]? = some m') : s.Publishes now m' input := by
  have hlt : i < db.messages.length := (List.getElem?_eq_some_iff.mp hm').1
  rcases posts_of_yields hyields with hsame | ⟨p, hasks, hnow, hpost⟩
  · have hlength := congrArg List.length hsame
    rw [List.length_map, List.length_map, length_postings, length_postings] at hlength
    omega
  have hlength := congrArg List.length hpost
  rw [List.length_append, List.length_singleton, length_postings, length_postings] at hlength
  obtain rfl : i = s.db.messages.length := by omega
  have hat : db.ledger.postings[s.db.messages.length]? = some p := by
    rw [hpost, ← length_postings, List.getElem?_concat_length]
  obtain rfl := Option.some.inj ((getElem?_postings hm').symm.trans hat)
  rcases h with hsame | ⟨w, hsays, hmore⟩ | ⟨id, text, -, rfl⟩
  · have hwordings := congrArg List.length hsame
    rw [length_wordings, length_wordings] at hwordings
    omega
  · have hat : db.wordings[s.db.messages.length]? = some w := by
      rw [hmore, ← length_wordings, List.getElem?_concat_length]
    obtain rfl := Option.some.inj ((getElem?_wordings hm').symm.trans hat)
    exact ⟨hasks, hsays, hnow⟩
  · rw [Database.edited, List.length_map] at hlength
    omega

variable (env) in
/-- **One step**: no message is lost, each is the one before it but for an edit of its sender, and what is new was
posted for its sender. -/
theorem next_authored (hkeyed : s.db.Keyed) (hsound : s.db.ledger.Sound) (henabled : s.Enabled now input) :
    (∀ m ∈ s.db.messages, ∃ m' ∈ (s.next env (now, input)).db.messages, m.Follows m') ∧
      ∀ m' ∈ (s.next env (now, input)).db.messages, s.Publishes now m' input ∨ ∃ m ∈ s.db.messages, m.Follows m' ∧
        (m'.content = m.content ∨ s.Edits now m.id m'.content input) := by
  have hyields : s.Yields now input (s.next env (now, input)).db.ledger :=
    next_yields hkeyed (sound_ids hsound) henabled
  have hrewords := next_rewords env henabled
  have hlength : s.db.messages.length ≤ (s.next env (now, input)).db.messages.length := by
    rw [← length_wordings, ← length_wordings]
    rcases hrewords with hsame | ⟨w, -, hmore⟩ | ⟨id, text, -, hedited⟩
    · rw [hsame]
    · rw [hmore, List.length_append]
      exact Nat.le_add_right ..
    · rw [hedited, length_wordings, length_wordings, Database.edited, List.length_map]
  refine ⟨fun m hm => ?_, fun m' hm' => ?_⟩
  · obtain ⟨i, hi⟩ := List.mem_iff_getElem?.mp hm
    have hlt := Nat.lt_of_lt_of_le (List.getElem?_eq_some_iff.mp hi).1 hlength
    have hi' := List.getElem?_eq_getElem hlt
    exact ⟨_, List.mem_of_getElem? hi', (hrewords.follows hyields hi hi').1⟩
  · obtain ⟨i, hi'⟩ := List.mem_iff_getElem?.mp hm'
    rcases Nat.lt_or_ge i s.db.messages.length with hlt | hle
    · have hi := List.getElem?_eq_getElem hlt
      exact .inr ⟨_, List.mem_of_getElem? hi, hrewords.follows hyields hi hi'⟩
    · exact .inl (hrewords.posts hyields hle hi')

end

/-! ## All runs -/

section
variable {env : Environment} {users : List User} {devices : List Device}

theorem start_sound : (Gateway.start users devices).db.Keyed ∧ (Gateway.start users devices).db.ledger.Sound := by
  refine ⟨⟨List.nodup_nil, ?_⟩, List.nodup_nil, ?_, List.nodup_nil, ?_, ?_⟩
  all_goals exact fun _ h => by cases h

/-- The run has posted the message, and has edited it since if it says something else now. -/
def Authored (env : Environment) (users : List User) (devices : List Device) (run : List (Time × Input))
    (m : Message) : Prop :=
  ∃ pre now input rest posted, run = pre ++ (now, input) :: rest ∧
    ((gateway env users devices).exec (.start users devices) pre).Publishes now posted input ∧ posted.Follows m ∧
    (m.content = posted.content ∨ ∃ mid now' input' rest', rest = mid ++ (now', input') :: rest' ∧
      ((gateway env users devices).exec (.start users devices) (pre ++ (now, input) :: mid)).Edits now' m.id m.content
        input')

theorem Authored.append {run more : List (Time × Input)} {m m' : Message} (h : Authored env users devices run m)
    (hfollows : m.Follows m') (hcontent : m'.content = m.content) : Authored env users devices (run ++ more) m' := by
  obtain ⟨pre, now, input, rest, posted, rfl, hpublishes, hposted, hsaid⟩ := h
  refine ⟨pre, now, input, rest ++ more, posted, by rw [List.append_assoc, List.cons_append], hpublishes,
    hposted.trans hfollows, ?_⟩
  rw [hcontent, hfollows.id]
  rcases hsaid with hsame | ⟨mid, now', input', rest', rfl, hedits⟩
  · exact .inl hsame
  · exact .inr ⟨mid, now', input', rest' ++ more, by rw [List.append_assoc, List.cons_append], hedits⟩

theorem kept_exec {s : Gateway} {run : List (Time × Input)} (hs : s.db.Keyed ∧ s.db.ledger.Sound)
    (hrun : (gateway env users devices).Allowed s run) :
    ((gateway env users devices).exec s run).db.Keyed ∧ ((gateway env users devices).exec s run).db.ledger.Sound :=
  hrun.invariant (I := fun s => s.db.Keyed ∧ s.db.ledger.Sound)
    (fun _ _ hs henabled => ⟨next_keyed hs.1, next_sound hs.1 hs.2 henabled⟩) hs

theorem follows_exec {s : Gateway} {run : List (Time × Input)} (hs : s.db.Keyed ∧ s.db.ledger.Sound)
    (hrun : (gateway env users devices).Allowed s run) {m : Message} (hm : m ∈ s.db.messages) :
    ∃ m' ∈ ((gateway env users devices).exec s run).db.messages, m.Follows m' := by
  induction run generalizing s m with
  | nil => exact ⟨m, hm, .refl m⟩
  | cons e run ih =>
    obtain ⟨henabled, hrun⟩ := hrun
    obtain ⟨m', hm', hfollows⟩ := (next_authored env hs.1 hs.2 henabled).1 m hm
    obtain ⟨m'', hm'', hfollows'⟩ := ih ⟨next_keyed hs.1, next_sound hs.1 hs.2 henabled⟩ hrun hm'
    exact ⟨m'', hm'', hfollows.trans hfollows'⟩

theorem authored_exec {run : List (Time × Input)}
    (hrun : (gateway env users devices).Allowed (.start users devices) run) {m : Message}
    (hm : m ∈ ((gateway env users devices).exec (.start users devices) run).db.messages) :
    Authored env users devices run m := by
  induction run using List.reverseRecOn generalizing m with
  | nil => cases hm
  | append_singleton run e ih =>
    obtain ⟨hbefore, henabled, -⟩ := Machine.allowed_append.mp hrun
    obtain ⟨hkeyed, hsound⟩ := kept_exec start_sound hbefore
    rw [Machine.exec_append] at hm
    rcases (next_authored env hkeyed hsound henabled).2 m hm with hpublishes | ⟨m₀, hm₀, hfollows, hsame | hedits⟩
    · exact ⟨run, e.1, e.2, [], m, rfl, hpublishes, .refl m, .inl rfl⟩
    · exact (ih hbefore hm₀).append hfollows hsame
    · obtain ⟨pre, now, input, rest, posted, rfl, hpublishes, hposted, -⟩ := ih hbefore hm₀
      refine ⟨pre, now, input, rest ++ [e], posted, by rw [List.append_assoc, List.cons_append], hpublishes,
        hposted.trans hfollows, .inr ⟨rest, e.1, e.2, [], rfl, ?_⟩⟩
      rw [hfollows.id]
      exact hedits

end

end Vesper.Server
