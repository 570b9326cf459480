import Vesper.Server.Rooms

/-!
# Who writes into a room

Each event that reaches a room is traced to a user: the one whose event the server handles, or the
sender of a message that was scheduled. Most handlers check that this user is a member of the
conversation at that moment; this module says which of them do not.
-/

namespace Vesper.Server
open Program

/-! ## What the service checks -/

section
variable {db : Database} {u : UserId} {c : ConversationId} {id : MessageId} {now : Time}

theorem assertMember_spec :
    Triple (· = db) (assertMember u c) (fun _ _ => db.IsMember c u) fun _ => True := by
  unfold assertMember findMember
  refine .bind (Q := fun m _ => m = db.member? c u) (.reads fun _ h => by rw [h]) fun m => ?_
  refine .orThrow (fun b _ hm hb => ?_) fun _ _ _ => trivial
  rw [Database.IsMember, ← hm, hb]
  rfl

theorem assertAdmin_member :
    Triple (· = db) (assertAdmin u c) (fun _ _ => db.IsMember c u) fun _ => True := by
  unfold assertAdmin
  exact .bind assertMember_spec fun _ => .since fun _ h => h

theorem saveMessage_spec {env : Environment} {dto : NewMessage} :
    Triple (· = db) (saveMessage env now u c dto) (fun _ _ => db.IsMember c u) fun _ => True := by
  unfold saveMessage
  refine .bind (Q := fun _ db' => db' = db) (.demand (fun _ h _ => h) fun _ _ _ => trivial) fun _ => ?_
  exact .bind assertMember_spec fun _ => .since fun _ h => h

theorem forwardMessage_spec {reEncrypted : Option Text} :
    Triple (· = db) (forwardMessage now u id c reEncrypted) (fun _ _ => db.IsMember c u)
      fun _ => True := by
  unfold forwardMessage
  exact .bind assertMember_spec fun _ => .since fun _ h => h

theorem addPinnedMessage_spec :
    Triple (· = db) (addPinnedMessage now u c id) (fun _ _ => db.IsMember c u) fun _ => True := by
  unfold addPinnedMessage
  exact .bind assertAdmin_member fun _ => .since fun _ h => h

theorem removePinnedMessage_spec :
    Triple (· = db) (removePinnedMessage u c id) (fun _ _ => db.IsMember c u) fun _ => True := by
  unfold removePinnedMessage
  exact .bind assertAdmin_member fun _ => .since fun _ h => h

theorem findMessage_spec :
    Triple (· = db) (findMessage id) (fun m db' => db' = db ∧ m = db.message? id) fun _ => False :=
  .reads fun _ h => ⟨h, by rw [h]⟩

/-- The checks of `toggleReaction` on the message that it finds. -/
def Database.MayReact (db : Database) (u : UserId) (emoji : String) (m : Message) : Prop :=
  emoji ∈ ALLOWED_EMOJIS ∧ m.deletedAt = none ∧ db.IsMember m.conversationId u

theorem toggleReaction_spec {emoji : String} : Triple (· = db) (toggleReaction now id u emoji)
    (fun r _ => ∃ m ∈ db.message? id, r.2 = m.conversationId ∧ db.MayReact u emoji m)
      fun _ => True := by
  unfold toggleReaction
  refine .bind (Q := fun _ db' => db' = db ∧ emoji ∈ ALLOWED_EMOJIS)
    (.demand (fun _ h hc => ⟨h, hc⟩) fun _ _ _ => trivial) fun _ => .given fun hemoji => ?_
  refine .bind (findMessage_spec.weaken (fun _ _ h => h) fun _ _ => trivial) fun row => ?_
  refine .bind (Q := fun msg db' => db' = db ∧ msg ∈ db.message? id)
    (.orThrow (fun _ _ h hm => ⟨h.1, h.2 ▸ hm⟩) fun _ _ _ => trivial) fun msg => .given fun hmsg => ?_
  refine .bind (Q := fun _ db' => db' = db ∧ msg.deletedAt = none)
    (.demand (fun _ h hc => ⟨h, hc⟩) fun _ _ _ => trivial) fun _ => .given fun hlive => ?_
  refine .bind assertMember_spec fun _ => ?_
  refine .bind (.since fun _ h => h) fun _ => .bind (.since fun _ h => h) fun _ => ?_
  exact .pure fun _ h => ⟨msg, hmsg, rfl, hemoji, hlive, h⟩

theorem releaseFile_spec {msg : Message} {q : Prop} :
    Triple (fun _ => q) (releaseFile msg) (fun _ _ => q) fun _ => False := by
  unfold releaseFile when
  split
  · refine .bind (.reads (Q := fun _ _ => q) fun _ h => h) fun _ => ?_
    split
    · exact .modify fun _ h => h
    · exact .pure fun _ h => h
  · exact .pure fun _ h => h

/-- The check of `deleteMessage`. -/
def Database.MayDelete (db : Database) (u : UserId) (m : Message) : Prop :=
  m.senderId = u ∨ ∃ member ∈ db.member? m.conversationId u, member.role ≠ .member

/-- A message is deleted by its author, or by an admin. -/
theorem deleteMessage_spec : Triple (· = db) (deleteMessage now id u)
    (fun d _ => ∃ m ∈ db.message? id, (d.id = m.id ∧ d.conversationId = m.conversationId) ∧
      db.MayDelete u m) fun _ => ∀ m ∈ db.message? id, ¬db.MayDelete u m := by
  unfold deleteMessage
  refine .bind (findMessage_spec.weaken (fun _ _ h => h) fun _ => False.elim) fun row => ?_
  refine .bind (Q := fun m db' => db' = db ∧ db.message? id = some m)
    (.orThrow (fun _ _ h hm => ⟨h.1, h.2 ▸ hm⟩) fun _ h hnone m hm => ?_) fun msg => .given fun hmsg => ?_
  · cases hm.symm.trans (h.2.symm.trans hnone)
  refine .bind (Q := fun _ _ => db.MayDelete u msg) ?_ fun _ => ?_
  · unfold when
    split
    case isFalse hown => exact .pure fun _ h => .inl (not_not.mp hown)
    case isTrue hother =>
      unfold findMember
      refine .bind (Q := fun m _ => m = db.member? msg.conversationId u) (.reads fun _ h => by rw [h])
        fun member => ?_
      refine .demand (fun _ h hadmin => .inr (h ▸ hadmin)) fun _ h hnot m hm hmay => ?_
      obtain rfl := Option.some.inj (hm.symm.trans hmsg)
      exact hmay.elim hother (h ▸ hnot)
  · split
    · exact .pure fun _ h => ⟨msg, hmsg, ⟨rfl, rfl⟩, h⟩
    refine .bind (Q := fun _ _ => db.MayDelete u msg) (.modify fun _ h => h) fun _ => ?_
    refine .bind (releaseFile_spec.weaken (fun _ _ h => h) fun _ => False.elim) fun _ => ?_
    exact .pure fun _ h => ⟨msg, hmsg, ⟨rfl, rfl⟩, h⟩

/-- Nothing keeps an author from it. -/
theorem deleteMessage_own {msg : Message} (hmsg : db.message? id = some msg)
    (hu : msg.senderId = u) : Triple (· = db) (deleteMessage now id u)
      (fun d _ => d.conversationId = msg.conversationId) fun _ => False := by
  refine deleteMessage_spec.weaken (fun d _ h => ?_) fun _ h => h msg hmsg (.inl hu)
  obtain ⟨m, hm, ⟨-, hc⟩, -⟩ := h
  obtain rfl := Option.some.inj (hm.symm.trans hmsg)
  exact hc

/-- The checks of `editMessage` after the search. -/
def Message.Editable (m : Message) (now : Time) (userId : UserId) (content : Text) : Prop :=
  m.senderId = userId ∧ m.deletedAt = none ∧ now - m.createdAt ≤ EDIT_WINDOW_MS ∧ trim content ≠ []

instance (m : Message) (now : Time) (u : UserId) (content : Text) : Decidable (m.Editable now u content) :=
  inferInstanceAs (Decidable (_ ∧ _ ∧ _ ∧ _))

/-- The database after an edit. -/
def Database.edited (db : Database) (now : Time) (id : MessageId) (trimmed : Text) : Database :=
  { db with messages := db.messages.map fun m =>
      if m.id = id then { m with content := trimmed, editedAt := some now } else m }

/-- **The rule of `editMessage`**: it edits when all checks pass and the content is another one, and changes
nothing else. -/
theorem editMessage_row {content : Text} : Triple (· = db) (editMessage now id u content)
    (fun d db' => ∃ m ∈ db.message? id, m.Editable now u content ∧
      (d.id = m.id ∧ d.conversationId = m.conversationId) ∧
      db' = if trim content = m.content then db else db.edited now id (trim content))
    fun db' => db' = db ∧ ∀ m ∈ db.message? id, ¬m.Editable now u content := by
  unfold editMessage
  refine .bind (findMessage_spec.weaken (fun _ _ h => h) fun _ => False.elim) fun row => ?_
  refine .bind (Q := fun m db' => db' = db ∧ db.message? id = some m) (.orThrow (fun _ _ h hm => ?_)
    fun _ h hrow => ⟨h.1, fun m hm => ?_⟩) fun msg => .given fun hmsg => ?_
  · exact ⟨h.1, h.2.symm.trans hm⟩
  · cases hm.symm.trans (h.2.symm.trans hrow)
  have hfails : ¬msg.Editable now u content → ∀ m ∈ db.message? id, ¬m.Editable now u content := by
    intro hnot m hm
    rwa [Option.some.inj (hm.symm.trans hmsg)]
  refine .bind (Q := fun _ db' => db' = db ∧ msg.senderId = u) (.demand (fun _ h hc => ⟨h, hc⟩)
    fun _ h hc => ⟨h, hfails fun hedit => hc hedit.1⟩) fun _ => .given fun hsender => ?_
  refine .bind (Q := fun _ db' => db' = db ∧ msg.deletedAt = none) (.demand (fun _ h hc => ⟨h, hc⟩)
    fun _ h hc => ⟨h, hfails fun hedit => hc hedit.2.1⟩) fun _ => .given fun hdeleted => ?_
  refine .bind (Q := fun _ db' => db' = db ∧ now - msg.createdAt ≤ EDIT_WINDOW_MS)
    (.demand (fun _ h hc => ⟨h, hc⟩) fun _ h hc => ⟨h, hfails fun hedit => hc hedit.2.2.1⟩) fun _ =>
    .given fun hwindow => ?_
  refine .bind (Q := fun _ db' => db' = db ∧ trim content ≠ []) (.demand (fun _ h hc => ⟨h, hc⟩)
    fun _ h hc => ⟨h, hfails fun hedit => hc hedit.2.2.2⟩) fun _ => .given fun hcontent => ?_
  have hedit : msg.Editable now u content := ⟨hsender, hdeleted, hwindow, hcontent⟩
  split
  · rename_i hsame
    exact .pure fun _ h => ⟨msg, hmsg, hedit, ⟨rfl, rfl⟩, by rw [if_pos hsame, h]⟩
  · rename_i hother
    refine .bind (Q := fun _ db' => db' = db.edited now id (trim content)) (.modify fun _ h => ?_) fun _ => ?_
    · rw [h, Database.edited]
      simp only [decide_eq_true_eq]
    · exact .pure fun _ h => ⟨msg, hmsg, hedit, ⟨rfl, rfl⟩, by rw [if_neg hother, h]⟩

theorem editMessage_spec {content : Text} : Triple (· = db) (editMessage now id u content)
    (fun d _ => ∃ m ∈ db.message? id, (d.id = m.id ∧ d.conversationId = m.conversationId) ∧
      m.Editable now u content) fun _ => True :=
  editMessage_row.weaken (fun _ _ ⟨m, hm, hedit, hd, _⟩ => ⟨m, hm, hd, hedit⟩) fun _ _ => trivial

theorem editMessage_own {msg : Message} {content : Text} (hmsg : db.message? id = some msg)
    (hedit : msg.Editable now u content) : Triple (· = db) (editMessage now id u content)
      (fun d _ => d.conversationId = msg.conversationId) fun _ => False := by
  refine editMessage_row.weaken (fun d _ h => ?_) fun _ h => h.2 msg hmsg hedit
  obtain ⟨m, hm, -, ⟨-, hc⟩, -⟩ := h
  obtain rfl := Option.some.inj (hm.symm.trans hmsg)
  exact hc

end

/-! ## What handlers write -/

namespace Gateway

/-- All that the step has written into rooms went to rooms of `M`. -/
def WritesTo (M : ConversationId → Prop) (s : Gateway) : Prop :=
  ∀ emission ∈ s.emitted, ∀ c ∈ emission.1.room?, M c

/-- The limit lets the user through. -/
def Lets (s : Gateway) (now : Time) (userId : UserId) (limit : Limit) : Prop :=
  userId ≠ 0 ∧ (s.limiters limit).isAllowed now userId

instance (s : Gateway) (now : Time) (userId : UserId) (limit : Limit) :
    Decidable (s.Lets now userId limit) :=
  inferInstanceAs (Decidable (_ ∧ _))

end Gateway

section
variable {M : ConversationId → Prop} {g : Gateway} {now : Time} {client : Socket} {limit : Limit}
  {event : String} {α : Type} {m : Service α}

theorem writesTo_emit {target : Target} {e : Event} :
    ((emit target e).exec g).2.WritesTo M ↔ g.WritesTo M ∧ ∀ c ∈ target.room?, M c := by
  simp only [Gateway.WritesTo, emit, exec_modify, List.forall_mem_append, List.forall_mem_singleton]

theorem writesTo_pushToMembers {c : ConversationId} {u : UserId} {title body : Text} :
    ((pushToMembers c u title body).exec g).2.WritesTo M ↔ g.WritesTo M := by
  simp only [Gateway.WritesTo, pushToMembers, service, exec_bind, exec_zoom, exec_reads, exec_modify,
    List.forall_mem_append, List.forall_mem_map, Target.room?]
  simp

/-- A handler that is held to a limit. -/
theorem writesTo_limited {m : Handler PUnit} {q : Prop}
    (hm : ∀ g', g'.db = g.db → ((m.exec g').2.WritesTo M ↔ g'.WritesTo M ∧ q)) :
    ((do when (← rateLimit now client limit event) m : Handler PUnit).exec g).2.WritesTo M ↔
      g.WritesTo M ∧ (g.Lets now client.userId limit → q) := by
  rw [exec_bind]
  unfold rateLimit
  by_cases h : client.userId = 0
  · rw [if_pos h]
    exact ⟨fun hw => ⟨hw, fun hlets => absurd h hlets.1⟩, And.left⟩
  · rw [if_neg h]
    simp only [exec_bind, exec_reads, exec_modify]
    by_cases hallowed : (g.limiters limit).isAllowed now client.userId = true
    · simp only [when, hallowed, Bool.not_true, Bool.false_eq_true, if_false, if_true, exec_pure]
      refine (hm { g with
        limiters := Function.update g.limiters limit ((g.limiters limit).hit now client.userId) }
        rfl).trans (and_congr_right fun _ => ?_)
      exact ⟨fun hq _ => hq, fun hq => hq ⟨h, hallowed⟩⟩
    · simp only [when, hallowed, Bool.not_false, if_true, exec_pure, exec_bind, exec_reads]
      refine writesTo_emit.trans (and_congr_right fun _ => ?_)
      exact ⟨fun _ hlets => absurd hlets.2 hallowed, fun _ _ hroom => by cases hroom⟩

/-- A handler that tells a room what the service returned. -/
theorem writesTo_attempt {target : α → Target} {e : α → Event}
    {failed : HttpError → Handler PUnit} (hfailed : ∀ e g', ((failed e).exec g').2.WritesTo M ↔ g'.WritesTo M) :
    ((tryCatch (do let a ← service m; emit (target a) (e a)) failed : Handler PUnit).exec
        g).2.WritesTo M ↔
      g.WritesTo M ∧ ∀ a, (m.exec g.db).1 = .ok a → ∀ c ∈ (target a).room?, M c := by
  rw [exec_tryCatch, exec_bind, service, exec_zoom]
  rcases m.exec g.db with ⟨err | a, db⟩
  · simp only [hfailed]
    exact ⟨fun h => ⟨h, fun _ hok => by cases hok⟩, And.left⟩
  · refine writesTo_emit.trans (and_congr_right fun _ => ?_)
    exact ⟨fun h b hb => by cases hb; exact h, fun h => h a rfl⟩

/-- Where a handler tells a room what the service returned, under a limit. -/
theorem writesTo_limited_attempt {target : α → Target} {e : α → Event}
    {failed : HttpError → Handler PUnit}
    (hfailed : ∀ e g', ((failed e).exec g').2.WritesTo M ↔ g'.WritesTo M) :
    ((do when (← rateLimit now client limit event)
          (tryCatch (do let a ← service m; emit (target a) (e a)) failed) :
        Handler PUnit).exec g).2.WritesTo M ↔
      g.WritesTo M ∧ (g.Lets now client.userId limit →
        ∀ a, (m.exec g.db).1 = .ok a → ∀ c ∈ (target a).room?, M c) :=
  writesTo_limited fun _ hdb => hdb ▸ writesTo_attempt hfailed

theorem writesTo_emit_client {id : SocketId} {e : Event} :
    ((emit (.client id) e).exec g).2.WritesTo M ↔ g.WritesTo M :=
  writesTo_emit.trans (and_iff_left nofun)

end

/-! ## Socket handlers -/

/-- Where no check stands in the way, the user has to be a member still. -/
def Gateway.MayWrite (s : Gateway) (now : Time) (client : Socket) : Request → Prop
  | .markAsRead c => s.db.IsMember c client.userId
  | .typing c _ => s.Lets now client.userId .typing → s.db.IsMember c client.userId
  | .deleteMessage id => s.Lets now client.userId .mutate → ∀ m ∈ s.db.message? id,
      m.senderId = client.userId → s.db.IsMember m.conversationId client.userId
  | .editMessage id content => s.Lets now client.userId .mutate → ∀ m ∈ s.db.message? id,
      m.Editable now client.userId content → s.db.IsMember m.conversationId client.userId
  | _ => True

section
variable {g : Gateway} {env : Environment} {now : Time} {k : Socket}

theorem writesTo_handleMessage {data : SendMessage}
    (hg : g.WritesTo fun c => g.db.IsMember c k.userId) :
    ((handleMessage env now k data).exec g).2.WritesTo fun c => g.db.IsMember c k.userId := by
  unfold handleMessage
  refine (writesTo_limited (q := True) fun g' hdb => ?_).mpr ⟨hg, fun _ => trivial⟩
  rw [and_true]
  unfold when
  split
  case isFalse => exact Iff.rfl
  split
  · exact writesTo_emit_client
  rw [exec_tryCatch, exec_bind, service, exec_zoom, hdb]
  rcases hm : (saveMessage env now k.userId data.conversationId (data.dto now)).exec g.db with
    ⟨err | message, db⟩
  · exact writesTo_emit_client
  have hmember : g.db.IsMember data.conversationId k.userId :=
    saveMessage_spec.result rfl (congrArg Prod.fst hm)
  rcases data.deliverAt now with _ | scheduledAt
  · refine writesTo_pushToMembers.trans (writesTo_emit.trans (and_iff_left ?_))
    rintro _ ⟨⟩
    exact hmember
  · exact writesTo_emit_client

/-- A handler under a limit that tells the room of `c` of something its members may do. -/
theorem writesTo_member {limit : Limit} {event : String} {α : Type} {m : Service α}
    {room : α → ConversationId} {e : α → Event} {failed : HttpError → Handler PUnit}
    (hg : g.WritesTo fun c => g.db.IsMember c k.userId)
    (hm : Triple (· = g.db) m (fun a _ => g.db.IsMember (room a) k.userId) fun _ => True)
    (hfailed : ∀ M e (g' : Gateway), ((failed e).exec g').2.WritesTo M ↔ g'.WritesTo M) :
    ((do when (← rateLimit now k limit event)
          (tryCatch (do let a ← service m; emit (.room (room a)) (e a)) failed) :
        Handler PUnit).exec g).2.WritesTo fun c => g.db.IsMember c k.userId := by
  refine (writesTo_limited_attempt (hfailed _)).mpr ⟨hg, fun _ a ha c hc => ?_⟩
  cases hc
  exact hm.result rfl ha

theorem writesTo_handleDelete {id : MessageId} (hg : g.WritesTo fun c => g.db.IsMember c k.userId) :
    (((handleDelete now k id).exec g).2.WritesTo fun c => g.db.IsMember c k.userId) ↔
      g.MayWrite now k (.deleteMessage id) := by
  unfold handleDelete
  refine (writesTo_limited_attempt fun _ _ => writesTo_emit_client).trans ((and_iff_right hg).trans
    (imp_congr_right fun _ => ?_))
  constructor
  · intro h m hm hu
    obtain ⟨d, _, hd, hc⟩ := (deleteMessage_own hm hu).returns rfl
    exact hc ▸ h d (congrArg Prod.fst hd) _ rfl
  · intro h d hd c hc
    obtain ⟨m, hm, ⟨-, hcm⟩, hmay⟩ := deleteMessage_spec.result rfl hd
    cases hc
    rw [hcm]
    obtain hu | ⟨member, hmember, -⟩ := hmay
    · exact h m hm hu
    · exact Option.isSome_iff_exists.mpr ⟨member, hmember⟩

theorem writesTo_handleEdit {id : MessageId} {content : Text}
    (hg : g.WritesTo fun c => g.db.IsMember c k.userId) :
    (((handleEdit now k id content).exec g).2.WritesTo fun c => g.db.IsMember c k.userId) ↔
      g.MayWrite now k (.editMessage id content) := by
  unfold handleEdit
  refine (writesTo_limited_attempt fun _ _ => writesTo_emit_client).trans ((and_iff_right hg).trans
    (imp_congr_right fun _ => ?_))
  constructor
  · intro h m hm hedit
    obtain ⟨d, _, hd, hc⟩ := (editMessage_own hm hedit).returns rfl
    exact hc ▸ h d (congrArg Prod.fst hd) _ rfl
  · intro h d hd c hc
    obtain ⟨m, hm, ⟨-, hcm⟩, hedit⟩ := editMessage_spec.result rfl hd
    cases hc
    rw [hcm]
    exact h m hm hedit

theorem writesTo_handleTyping {c : ConversationId} {isTyping : Bool}
    (hg : g.WritesTo fun c => g.db.IsMember c k.userId) :
    (((handleTyping now k c isTyping).exec g).2.WritesTo fun c => g.db.IsMember c k.userId) ↔
      g.MayWrite now k (.typing c isTyping) := by
  unfold handleTyping
  refine (writesTo_limited fun _ _ => writesTo_emit).trans ((and_iff_right hg).trans ?_)
  exact ⟨fun h hlets => h hlets c rfl, fun h hlets _ hc => by cases hc; exact h hlets⟩

theorem writesTo_handle {request : Request} (hg : g.WritesTo fun c => g.db.IsMember c k.userId) :
    (((handle env now k request).exec g).2.WritesTo fun c => g.db.IsMember c k.userId) ↔
      g.MayWrite now k request := by
  cases request with
  | sendMessage data => exact iff_of_true (writesTo_handleMessage hg) trivial
  | markAsRead c =>
    refine writesTo_emit.trans ((and_iff_right hg).trans ?_)
    exact ⟨fun h => h c rfl, fun h _ hc => by cases hc; exact h⟩
  | typing c isTyping => exact writesTo_handleTyping hg
  | deleteMessage id => exact writesTo_handleDelete hg
  | editMessage id content => exact writesTo_handleEdit hg
  | toggleReaction id emoji =>
    refine iff_of_true ?_ trivial
    simp only [handle, handleReaction]
    refine writesTo_member hg (toggleReaction_spec.weaken (fun r _ h => ?_) fun _ h => h) fun _ _ _ => Iff.rfl
    obtain ⟨m, -, hc, -, -, hmember⟩ := h
    exact hc ▸ hmember
  | joinConversation c => exact iff_of_true (writesTo_emit_client.mpr hg) trivial
  | pinMessage c id =>
    refine iff_of_true ?_ trivial
    simp only [handle, handlePin]
    exact writesTo_member hg addPinnedMessage_spec fun _ _ _ => writesTo_emit_client
  | unpinMessage c id =>
    refine iff_of_true ?_ trivial
    simp only [handle, handleUnpin]
    exact writesTo_member hg removePinnedMessage_spec fun _ _ _ => writesTo_emit_client
  | requestSenderKeyRedistribution c target =>
    refine iff_of_true ?_ trivial
    simp only [handle, handleRequestSenderKeyRedistribution, exec_tryCatch, exec_bind, service,
      exec_zoom, findMember, exec_reads, exec_demand]
    by_cases hmember : g.db.member? c k.userId = none
    · simp only [hmember, ne_eq, not_true, if_false]
      exact hg
    · simp only [hmember, ne_eq, not_false_iff, if_true]
      exact writesTo_emit.mpr ⟨hg, fun _ hroom => by cases hroom⟩
  | notifyKeyRotated => exact iff_of_true (writesTo_emit.mpr ⟨hg, fun _ hroom => by cases hroom⟩) trivial
  | forwardMessage id c reEncrypted =>
    refine iff_of_true ?_ trivial
    simp only [handle, handleForwardMessage]
    exact writesTo_member hg forwardMessage_spec fun _ _ _ => writesTo_emit_client

/-- A message is delivered in the name of its sender. -/
theorem writesTo_deliver {M : ConversationId → Prop} {id : MessageId} {c : ConversationId}
    (hg : g.WritesTo M) (hM : ∀ m ∈ g.db.message? id, g.db.IsMember c m.senderId → M c) :
    ((deliverScheduledMessage now id c).exec g).2.WritesTo M := by
  simp only [deliverScheduledMessage, getMessageById, findSelected, service, exec_bind, exec_zoom,
    exec_reads, exec_pure]
  rcases hm : g.db.message? id with _ | m
  · exact hg
  simp only [Option.map_some, when]
  split
  case isFalse => exact hg
  simp only [findMember, exec_bind, exec_zoom, exec_reads]
  split
  · exact hg
  case isFalse hmember =>
    refine writesTo_pushToMembers.mpr (writesTo_emit.mpr ⟨hg, ?_⟩)
    rintro _ ⟨⟩
    exact hM m hm (Option.isSome_iff_ne_none.mpr hmember)

end

/-! ## Every input -/

namespace Gateway

/-- The user in whose name an input writes. -/
def Causes (s : Gateway) : Input → UserId → Prop
  | .event socket _, u => ∃ k ∈ s.socket? socket, k.userId = u
  | .call v _, u => v = u
  | .timeout timer, u => ∃ t ∈ s.timers[timer]?, ∃ m ∈ s.db.message? t.messageId, m.senderId = u
  | _, _ => False

/-- What the step writes into a room is caused by a member of the conversation. -/
def Authorized (env : Environment) (s : Gateway) (input : Time × Input) : Prop :=
  ∀ emission ∈ (s.next env input).emitted, ∀ c ∈ emission.1.room?,
    ∃ u, s.Causes input.2 u ∧ s.db.IsMember c u

/-- The events that need a membership that nothing checks are only sent by members. -/
def MembersWrite (s : Gateway) (input : Time × Input) : Prop :=
  match input.2 with
  | .event socket request => ∀ k ∈ s.socket? socket, s.MayWrite input.1 k request
  | _ => True

end Gateway

section
variable {s : Gateway} {env : Environment} {now : Time}

theorem writesTo_nil {M : ConversationId → Prop} : { s with emitted := [] }.WritesTo M :=
  fun _ h => by cases h

theorem authorized_event {socket : SocketId} {request : Request} :
    s.Authorized env (now, .event socket request) ↔ s.MembersWrite (now, .event socket request) := by
  rcases hk : s.socket? socket with _ | k
  · refine iff_of_true ?_ fun k hk' => by cases hk.symm.trans hk'
    simp only [Gateway.Authorized, Gateway.next, Gateway.program, hk]
    exact fun _ h => by cases h
  · have hcause : ∀ c, (∃ u, s.Causes (.event socket request) u ∧ s.db.IsMember c u) ↔
        s.db.IsMember c k.userId := by
      intro c
      simp [Gateway.Causes, hk]
    have hnext : s.Authorized env (now, .event socket request) ↔
        ((handle env now k request).exec { s with emitted := [] }).2.WritesTo
          fun c => s.db.IsMember c k.userId := by
      simp only [Gateway.Authorized, hcause, Gateway.next, Gateway.program, hk]
      rfl
    refine hnext.trans ((writesTo_handle writesTo_nil).trans ?_)
    constructor
    · intro h k' hk'
      obtain rfl := Option.some.inj (hk.symm.trans hk')
      cases request <;> exact h
    · intro h
      have h := h k hk
      cases request <;> exact h

theorem writesTo_service {M : ConversationId → Prop} {α : Type} {m : Service α} :
    Triple (·.WritesTo M) (service m) (fun _ g => g.WritesTo M) (·.WritesTo M) := by
  intro g hg
  rw [service, exec_zoom]
  rcases (m.exec g.db).1 with _ | _ <;> exact hg

/-- A route writes into no room. -/
theorem writesTo_respond {M : ConversationId → Prop} {u : UserId} {route : Route} :
    Triple (·.WritesTo M) (respond env now u route) (fun _ g => g.WritesTo M) (·.WritesTo M) := by
  cases route with
  | createGroup name description memberIds =>
    refine .bind writesTo_service fun _ => ?_
    exact .bind (.modify (Q := fun _ g => g.WritesTo M) fun _ h => h) fun _ => .pure fun _ h => h
  | addMember id userId =>
    refine .bind writesTo_service fun _ => ?_
    exact .bind (.modify (Q := fun _ g => g.WritesTo M) fun _ h => h) fun _ => .pure fun _ h => h
  | getMessages id cursor after around =>
    cases around <;> cases after <;> exact .bind writesTo_service fun _ => .pure fun _ h => h
  | _ => exact .bind writesTo_service fun _ => .pure fun _ h => h

theorem authorized_call {u : UserId} {route : Route} : s.Authorized env (now, .call u route) := by
  have hcall : Triple (·.WritesTo fun _ => False) (call env now u route)
      (fun _ g => g.WritesTo fun _ => False) (·.WritesTo fun _ => False) := by
    have hemit : ∀ e, Triple (·.WritesTo fun _ => False) (emit (.caller u) e)
        (fun _ g => g.WritesTo fun _ => False) (·.WritesTo fun _ => False) :=
      fun e => .modify fun _ h => writesTo_emit.mpr ⟨h, nofun⟩
    exact .rescue (.bind writesTo_respond fun _ => hemit _) fun _ => hemit _
  exact fun emission hemission c hc => (hcall.after writesTo_nil emission hemission c hc).elim

theorem writesTo_modify {M : ConversationId → Prop} {f : Gateway → Gateway}
    (hf : ∀ g, (f g).emitted = g.emitted) :
    Triple (·.WritesTo M) (modify f : Handler PUnit) (fun _ g => g.WritesTo M) (·.WritesTo M) := by
  refine .modify fun g hg => ?_
  rw [Gateway.WritesTo, hf]
  exact hg

/-- A job writes into no room. -/
theorem writesTo_run {M : ConversationId → Prop} {job : Job} :
    Triple (·.WritesTo M) job.run (fun _ g => g.WritesTo M) (·.WritesTo M) := by
  have hreads : ∀ {α : Type} {f : Gateway → α}, Triple (·.WritesTo M) (reads f : Handler α)
      (fun _ g => g.WritesTo M) (·.WritesTo M) := .reads fun _ h => h
  cases job with
  | memberships socket u => exact .bind writesTo_service fun _ => writesTo_modify fun _ => rfl
  | join socket u conversations =>
    refine .bind (writesTo_modify fun _ => rfl) fun _ => .bind hreads fun _ => ?_
    unfold when
    split
    · exact writesTo_modify fun _ => rfl
    · exact .pure fun _ h => h
  | fetchSockets u c => exact .bind hreads fun _ => writesTo_modify fun _ => rfl
  | joinAll sockets u c =>
    refine .bind (writesTo_modify fun _ => rfl) fun _ => ?_
    exact .modify fun _ h => writesTo_emit.mpr ⟨h, nofun⟩
  | leave socket u =>
    refine .bind hreads fun _ => .bind (writesTo_modify fun _ => rfl) fun _ => ?_
    unfold when
    split
    · exact writesTo_modify fun _ => rfl
    · exact .pure fun _ h => h
  | setOnline u isOnline => exact .bind writesTo_service fun _ => writesTo_modify fun _ => rfl
  | announce u isOnline => exact .modify fun _ h => writesTo_emit.mpr ⟨h, nofun⟩

/-- A restart delivers nothing: what is pending lies ahead. -/
theorem writesTo_onModuleInit {M : ConversationId → Prop} :
    Triple (·.WritesTo M) (onModuleInit now) (fun _ g => g.WritesTo M) (·.WritesTo M) := by
  unfold onModuleInit
  refine .bind (writesTo_modify fun _ => rfl) fun _ => ?_
  refine .bind (Q := fun pending g => (∀ m ∈ pending, m.scheduledAt.any (now < ·)) ∧ g.WritesTo M)
    ?_ fun pending => ?_
  · intro g hg
    refine ⟨fun m hm => ?_, hg⟩
    obtain ⟨hscheduled, -⟩ := of_decide_eq_true (List.mem_filter.mp hm).2
    exact hscheduled
  · rintro g ⟨hpending, hg⟩
    refine Triple.forM (fun m hm => ?_) g hg
    obtain ⟨t, ht, hnow⟩ := Option.any_eq_true .. |>.mp (hpending m hm)
    have hdelay : 0 < m.scheduledAt.getD 0 - now := by
      rw [ht]
      exact Int.sub_pos_of_lt (of_decide_eq_true hnow)
    dsimp only
    rw [if_pos hdelay]
    exact writesTo_modify fun _ => rfl

theorem authorized_timeout {timer : Nat} : s.Authorized env (now, .timeout timer) := by
  rcases ht : s.timers[timer]? with _ | t
  · simp only [Gateway.Authorized, Gateway.next, Gateway.program, ht]
    exact fun _ h => by cases h
  · simp only [Gateway.Authorized, Gateway.next, Gateway.program, ht]
    exact writesTo_deliver (M := fun c => ∃ u, s.Causes (.timeout timer) u ∧ s.db.IsMember c u)
      (fun _ h => by cases h) fun m hm hmember => ⟨m.senderId, ⟨t, ht, m, hm, rfl⟩, hmember⟩

/-- **One step**: what it writes into rooms is authorized if and only if a membership that nothing
checks is there. -/
theorem authorized_iff {input : Time × Input} : s.Authorized env input ↔ s.MembersWrite input := by
  obtain ⟨now, input⟩ := input
  have hsilent : ∀ {m : Handler PUnit}, (∀ M : ConversationId → Prop, Triple (·.WritesTo M) m
      (fun _ g => g.WritesTo M) (·.WritesTo M)) →
      ∀ emission ∈ (m.exec { s with emitted := [] }).2.emitted, ∀ c ∈ emission.1.room?,
        ∃ u, s.Causes input u ∧ s.db.IsMember c u :=
    fun hm => (hm fun c => ∃ u, s.Causes input u ∧ s.db.IsMember c u).after writesTo_nil
  cases input with
  | event socket request => exact authorized_event
  | call u route => exact iff_of_true authorized_call trivial
  | timeout timer => exact iff_of_true authorized_timeout trivial
  | restart => exact iff_of_true (hsilent fun _ => writesTo_onModuleInit) trivial
  | cleanup => exact iff_of_true (hsilent fun _ => writesTo_modify fun _ => rfl) trivial
  | connect socket u nickname =>
    refine iff_of_true (hsilent fun _ => ?_) trivial
    exact .bind (writesTo_modify fun _ => rfl) fun _ => writesTo_modify fun _ => rfl
  | disconnect socket =>
    refine iff_of_true (hsilent fun _ => ?_) trivial
    rw [Gateway.program]
    rcases s.socket? socket with _ | k
    · exact .pure fun _ h => h
    · exact .bind (writesTo_modify fun _ => rfl) fun _ => writesTo_modify fun _ => rfl
  | resume job =>
    refine iff_of_true (hsilent fun _ => .bind (writesTo_modify fun _ => rfl) fun _ => ?_) trivial
    rcases s.jobs[job]? with _ | j
    · exact .pure fun _ h => h
    · exact writesTo_run

end

/-- User 2 is removed from a group and edits a message in it. -/
def removedRun : List (Time × Input) := [
  (0, .call 1 (.createGroup [0x47] none [2])),
  (1, .connect 20 2 []), (2, .event 20 (.sendMessage (sampleMessage 1))),
  (3, .call 1 (.removeMember 1 2))]

theorem not_authorized {s : Gateway} {env : Environment} {now : Time} {socket : SocketId}
    {request : Request} (h : ∃ k ∈ s.socket? socket,
      ∃ emission ∈ (s.next env (now, .event socket request)).emitted, ∃ c ∈ emission.1.room?,
        ¬s.db.IsMember c k.userId) : ¬s.Authorized env (now, .event socket request) := by
  obtain ⟨k, hk, emission, hemission, c, hc, hmember⟩ := h
  intro hauthorized
  obtain ⟨u, ⟨k', hk', rfl⟩, hu⟩ := hauthorized emission hemission c hc
  obtain rfl := Option.some.inj (hk.symm.trans hk')
  exact hmember hu

end Vesper.Server
