import Vesper.Server.Steps

/-!
# The length of messages

`saveMessage` and its handler bound what a message says; `editMessage` has no bound, and `forwardMessage`
stores a re-encrypted content as it comes.
-/

namespace Vesper.Server
open Program

/-- What a message says, and the file that it carries. -/
structure Wording where
  content : Text
  fileUrl : Option Text
  deriving DecidableEq

def Message.wording (m : Message) : Wording := ⟨m.content, m.fileUrl⟩

/-- At most 4096 units, and some unless there is a file. -/
def Wording.Fits (w : Wording) : Prop :=
  w.content.length ≤ MAX_CONTENT ∧ (w.content ≠ [] ∨ truthy w.fileUrl = true)

instance (w : Wording) : Decidable w.Fits := inferInstanceAs (Decidable (_ ∧ _))

def Database.wordings (db : Database) : List Wording := db.messages.map Message.wording

def Database.Bounded (db : Database) : Prop := ∀ m ∈ db.messages, m.wording.Fits

instance (db : Database) : Decidable db.Bounded := inferInstanceAs (Decidable (∀ m ∈ db.messages, m.wording.Fits))

theorem bounded_iff {db : Database} : db.Bounded ↔ ∀ w ∈ db.wordings, w.Fits := by
  rw [Database.wordings, List.forall_mem_map]
  rfl

/-! ## Methods that leave the wordings alone -/

section
variable {db : Database} {u : UserId} {c : ConversationId} {id : MessageId} {now : Time} {env : Environment}

theorem wordings_updateMessages {p : Message → Bool} {f : Message → Message}
    (h : ∀ m, (f m).wording = m.wording) : Keeps Database.wordings (updateMessages p f) := by
  refine .modify fun db => ?_
  rw [Database.wordings, Database.wordings, List.map_map]
  refine List.map_congr_left fun m _ => ?_
  rw [Function.comp_apply]
  split
  · exact h m
  · rfl

theorem wordings_assertMember : Keeps Database.wordings (assertMember u c) := .bind .reads fun _ => .orThrow

theorem wordings_assertAdmin : Keeps Database.wordings (assertAdmin u c) :=
  .bind wordings_assertMember fun _ => .bind .demand fun _ => .pure

theorem wordings_touchConversation : Keeps Database.wordings (touchConversation now c) := .modify fun _ => rfl

theorem wordings_createEnvelopes {envelopes : List MessageKeyEnvelope} :
    Keeps Database.wordings (createEnvelopes id envelopes) :=
  .bind .reads fun _ => .bind .demand fun _ => wordings_updateMessages fun _ => rfl

theorem wordings_getMessages {cursor : Option MessageId} :
    Keeps Database.wordings (getMessages now u c cursor) := by
  refine .bind wordings_assertMember fun _ => ?_
  dsimp only
  split
  · exact .bind .reads fun _ => .pure
  · exact .bind .reads fun _ => .pure

theorem wordings_searchMessages {query : Text} :
    Keeps Database.wordings (searchMessages env now u c query) := by
  refine .bind wordings_assertMember fun _ => ?_
  dsimp only
  split
  · exact .pure
  · exact .reads

theorem wordings_clearMessages {scope : Scope} : Keeps Database.wordings (clearMessages now u c scope) := by
  refine .bind wordings_assertMember fun _ => .bind .reads fun _ => .bind .orThrow fun _ => ?_
  cases scope with
  | both =>
    exact .bind .demand fun _ => .bind (wordings_updateMessages fun _ => rfl) fun _ =>
      .bind (.modify fun _ => rfl) fun _ => .bind (.modify fun _ => rfl) fun _ =>
      .bind wordings_touchConversation fun _ => .pure
  | self => exact .bind (.modify fun _ => rfl) fun _ => .pure

theorem wordings_deleteMessage : Keeps Database.wordings (deleteMessage now id u) := by
  refine .bind .reads fun _ => .bind .orThrow fun msg => .bind (.when fun _ => .bind .reads fun _ => .demand)
    fun _ => ?_
  split
  · exact .pure
  · refine .bind (wordings_updateMessages fun _ => rfl) fun _ => .bind ?_ fun _ => .pure
    exact .when fun _ => .bind .reads fun _ => .when fun _ => .modify fun _ => rfl

theorem wordings_toggleReaction {emoji : String} :
    Keeps Database.wordings (toggleReaction now id u emoji) :=
  .bind .demand fun _ => .bind .reads fun _ => .bind .orThrow fun _ => .bind .demand fun _ =>
    .bind wordings_assertMember fun _ => .bind (wordings_updateMessages fun _ => rfl) fun _ =>
    .bind .reads fun _ => .pure

theorem wordings_upsertPin : Keeps Database.wordings (upsertPin now u c id) := by
  refine .modify fun db => ?_
  dsimp only
  split <;> rfl

theorem wordings_addPinnedMessage : Keeps Database.wordings (addPinnedMessage now u c id) :=
  .bind wordings_assertAdmin fun _ => .bind .reads fun _ => .bind .orThrow fun _ => .bind .demand fun _ =>
    .bind .reads fun _ => .bind .demand fun _ => .bind wordings_upsertPin fun _ => .bind .reads fun _ =>
    .bind .reads fun _ => .pure

theorem wordings_removePinnedMessage : Keeps Database.wordings (removePinnedMessage u c id) :=
  .bind wordings_assertAdmin fun _ => .bind (.modify fun _ => rfl) fun _ => .bind .reads fun _ =>
    .bind .reads fun _ => .pure

theorem wordings_createConversation {type : ConversationType} {name description : Option Text}
    {members : List (UserId × MemberRole)} :
    Keeps Database.wordings (createConversation now type name description u members) :=
  .bind .reads fun _ => .bind (.modify fun _ => rfl) fun _ => .bind .reads fun _ => .bind .demand fun _ =>
    .bind (.modify fun _ => rfl) fun _ => .reads

theorem wordings_getOrCreateDirect {target : UserId} :
    Keeps Database.wordings (getOrCreateDirect now u target) := by
  refine .bind (.when fun _ => .bind .reads fun _ => .demand) fun _ => .bind .reads fun existing => ?_
  cases existing with
  | some existing => exact .reads
  | none => exact wordings_createConversation

theorem wordings_addMember {target : UserId} : Keeps Database.wordings (addMember now u c target) :=
  .bind .reads fun _ => .bind .demand fun _ => .bind wordings_assertAdmin fun _ => .bind .reads fun _ =>
    .bind .demand fun _ => .bind .reads fun _ => .bind .demand fun _ => .bind (.modify fun _ => rfl) fun _ =>
    .bind .reads fun _ => .pure

theorem wordings_removeMember {target : UserId} : Keeps Database.wordings (removeMember u c target) :=
  .bind .reads fun _ => .bind .demand fun _ =>
    .bind (.when fun _ => .bind wordings_assertAdmin fun _ => .bind .reads fun _ => .demand) fun _ =>
    .bind (.modify fun _ => rfl) fun _ => .bind .reads fun _ => .bind .demand fun _ =>
    .bind (.modify fun _ => rfl) fun _ => .pure

theorem wordings_setMemberRole {target : UserId} {role : Option String} :
    Keeps Database.wordings (setMemberRole u c target role) :=
  .bind .reads fun _ => .bind .demand fun _ => .bind .demand fun _ => .bind .reads fun _ =>
    .bind .orThrow fun _ => .bind (.modify fun _ => rfl) fun _ => .pure

theorem wordings_updateConversation {dto : UpdateConversation} :
    Keeps Database.wordings (updateConversation now u c dto) :=
  .bind wordings_assertAdmin fun _ => .bind .reads fun _ => .bind .orThrow fun _ =>
    .bind (.modify fun _ => rfl) fun _ => .pure

theorem wordings_setSenderKey {keys : List (UserId × Text)} {version : Nat} :
    Keeps Database.wordings (setSenderKey u c keys version) :=
  .bind wordings_assertMember fun _ => .bind .reads fun _ => .bind (.modify fun _ => rfl) fun _ => .demand

/-- A membership is asked for, and something is read. -/
theorem wordings_membersRead {α : Type} {f : ConversationMember → Database → α} :
    Keeps Database.wordings (do let m ← assertMember u c; reads (f m) : Service α) :=
  .bind wordings_assertMember fun _ => .reads

end

/-! ## Methods that write -/

section
variable {db : Database} {u : UserId} {c : ConversationId} {id : MessageId} {now : Time} {env : Environment}

theorem Keeps.bounded {α : Type} {m : Service α} (h : Keeps Database.wordings m) (db : Database) :
    (m.exec db).2.Bounded ↔ db.Bounded := by
  rw [bounded_iff, bounded_iff, h db]

/-- What leaves the wordings alone leaves them bounded or not. -/
theorem triple_bounded {α : Type} {m : Service α} {P : Prop} (h : Keeps Database.wordings m) :
    Triple (fun db' : Database => db'.Bounded ↔ P) m (fun _ db' => db'.Bounded ↔ P) fun db' => db'.Bounded ↔ P := by
  have hkeep := Triple.keep (P := fun wordings => (∀ w ∈ wordings, w.Fits) ↔ P) h
  simpa only [bounded_iff] using hkeep

theorem bounded_insert {row : MessageId → Message} (h : db.Bounded) :
    (db.insert row).Bounded ↔ (row db.nextMessageId).wording.Fits := by
  rw [Database.Bounded, Database.insert, List.forall_mem_append, List.forall_mem_singleton]
  exact and_iff_right h

/-- What a checked request says. -/
def NewMessage.Says (dto : NewMessage) : Prop := (dto.content.map trim).getD [] ≠ [] ∨ truthy dto.fileUrl = true

theorem bounded_saveMessage {dto : NewMessage} (h : db.Bounded) (hsaid : dto.Says) :
    ((saveMessage env now u c dto).exec db).2.Bounded := by
  refine Triple.after (E := Database.Bounded) (P := (· = db)) ?_ rfl
  refine saveMessage_rule (fun _ _ => h) fun hmay metadata => ?_
  have hlength : ((dto.content.map trim).getD []).length ≤ MAX_CONTENT := by
    cases hcontent : dto.content with
    | none => exact Nat.zero_le _
    | some content => exact (length_trim_le content).trans (hmay.1 content hcontent)
  have hinsert : (db.insert (dto.row now u c metadata)).Bounded := (bounded_insert h).2 ⟨hlength, hsaid⟩
  have hconclude : Keeps Database.wordings (concludeSave now c dto (dto.row now u c metadata db.nextMessageId)) := by
    refine .bind .reads fun _ => ?_
    split
    · exact .bind wordings_createEnvelopes fun _ => .bind wordings_touchConversation fun _ =>
        .bind .reads fun _ => .bind .orThrow fun _ => .pure
    · exact .bind wordings_touchConversation fun _ => .pure
  refine .strengthen (P := fun db' : Database => db'.Bounded ↔ True) ?_ fun _ hdb => ?_
  · exact (triple_bounded hconclude).weaken (fun _ _ hdb => hdb.2 trivial) fun _ hdb => hdb.2 trivial
  · rw [hdb]
    exact iff_of_true hinsert trivial

/-- A forward that goes through stores a re-encrypted content whatever it is. -/
theorem bounded_forwardMessage {reEncrypted : Option Text} (h : db.Bounded) :
    ((forwardMessage now u id c reEncrypted).exec db).2.Bounded ↔
      (db.MayForward u c id → ∀ original ∈ db.message? id, ∀ content ∈ reEncrypted,
        Wording.Fits ⟨content, original.fileUrl⟩) := by
  refine Triple.after (P := (· = db)) (E := fun db' : Database => db'.Bounded ↔ _) ?_ rfl
  refine forwardMessage_rule (fun hnot _ => iff_of_true h fun hmay => absurd hmay hnot)
    fun hmay original horiginal => ?_
  have hinsert : (db.insert (original.forwardedRow now u c (reEncrypted.getD original.content))).Bounded ↔
      (db.MayForward u c id → ∀ original ∈ db.message? id, ∀ content ∈ reEncrypted,
        Wording.Fits ⟨content, original.fileUrl⟩) := by
    rw [bounded_insert h]
    cases reEncrypted with
    | none =>
      exact iff_of_true (h original (List.mem_of_find?_eq_some horiginal)) fun _ _ _ _ hnone => (nomatch hnone)
    | some content =>
      constructor
      · intro hfits _ original' horiginal' content' hcontent'
        obtain rfl := Option.some.inj (horiginal'.symm.trans horiginal)
        cases hcontent'
        exact hfits
      · exact fun hfits => hfits hmay original horiginal content rfl
  have hconclude : ∀ msg, Keeps Database.wordings (concludeForward now c msg) := fun _ =>
    .bind .reads fun _ => .bind wordings_touchConversation fun _ => .pure
  exact (triple_bounded (hconclude _)).strengthen fun _ hdb => hdb ▸ hinsert

/-- An edit that goes through stores the trimmed content whatever its length. -/
theorem bounded_editMessage {content : Text} (h : db.Bounded) :
    ((editMessage now id u content).exec db).2.Bounded ↔
      ∀ m ∈ db.message? id, m.Editable now u content → (trim content).length ≤ MAX_CONTENT := by
  refine Triple.after (P := (· = db)) (E := fun db' : Database => db'.Bounded ↔ _) ?_ rfl
  refine editMessage_row.weaken (fun _ db' hdb => ?_) fun db' hdb => ?_
  · obtain ⟨m, hm, hedit, -, rfl⟩ := hdb
    have hmem : m ∈ db.messages := List.mem_of_find?_eq_some hm
    have hlength : (∀ m ∈ db.message? id, m.Editable now u content → (trim content).length ≤ MAX_CONTENT) ↔
        (trim content).length ≤ MAX_CONTENT :=
      ⟨fun hall => hall m hm hedit, fun hle _ _ _ => hle⟩
    rw [hlength]
    split
    · rename_i hsame
      exact iff_of_true h (hsame ▸ (h m hmem).1)
    · constructor
      · intro hbounded
        have hid : m.id = id := by simpa using List.find?_some hm
        have hedited := hbounded _ (List.mem_map_of_mem hmem)
        rw [if_pos hid] at hedited
        exact hedited.1
      · intro hle m' hm'
        obtain ⟨m₀, hm₀, rfl⟩ := List.mem_map.1 hm'
        split
        · exact ⟨hle, .inl hedit.2.2.2⟩
        · exact h m₀ hm₀
  · rw [hdb.1]
    exact iff_of_true h fun m hm hedit => absurd hedit (hdb.2 m hm)

end

/-! ## Steps of the server -/

section
variable {env : Environment} {g s : Gateway} {u : UserId} {now : Time} {client : Socket}

/-- What an event would store fits: the new content of an edit that goes through, and the re-encrypted content
of a forward that does. -/
def Gateway.RequestFits (g : Gateway) (now : Time) (u : UserId) : Request → Prop
  | .editMessage id content => g.Lets now u .mutate → ∀ m ∈ g.db.message? id, m.Editable now u content →
      (trim content).length ≤ MAX_CONTENT
  | .forwardMessage id c reEncryptedContent => g.Lets now u .forward → g.db.MayForward u c id →
      ∀ original ∈ g.db.message? id, ∀ content ∈ reEncryptedContent, Wording.Fits ⟨content, original.fileUrl⟩
  | _ => True

def Gateway.InputFits (s : Gateway) (now : Time) : Input → Prop
  | .event socket request => ∀ k ∈ s.socket? socket, s.RequestFits now k.userId request
  | _ => True

theorem says_dto {data : SendMessage} (h : data.isEmpty = false) : (data.dto now).Says := by
  rw [SendMessage.isEmpty, Bool.or_eq_false_iff, Bool.and_eq_false_iff] at h
  refine h.2.imp of_decide_eq_false fun hfile => ?_
  have htruthy : truthy data.fileUrl = true := by simpa using hfile
  exact htruthy

theorem bounded_handle {request : Request} (h : g.db.Bounded) :
    ((handle env now client request).exec g).2.db.Bounded ↔ g.RequestFits now client.userId request := by
  cases request with
  | sendMessage data =>
    exact iff_of_true (db_handleMessage h fun hempty => bounded_saveMessage h (says_dto hempty)) trivial
  | markAsRead c =>
    refine iff_of_true ?_ trivial
    rw [handle, handleMarkAsRead, db_service_bind fun _ => keeps_emit]
    exact h
  | typing c isTyping =>
    exact iff_of_true (db_limited (fun _ => h) fun _ g' hdb => by rw [keeps_emit g', hdb]; exact h) trivial
  | deleteMessage id =>
    exact iff_of_true (db_limited_attempt (fun _ => keeps_emit) (fun _ => h) fun _ =>
      (Keeps.bounded wordings_deleteMessage g.db).2 h) trivial
  | editMessage id content =>
    refine db_limited_attempt (P := fun db => db.Bounded ↔ _) (fun _ => keeps_emit)
      (fun hlets => iff_of_true h fun hlets' => absurd hlets' hlets) fun hlets => ?_
    exact (bounded_editMessage h).trans ⟨fun hfits _ => hfits, fun hfits => hfits hlets⟩
  | toggleReaction id emoji =>
    exact iff_of_true (db_limited_attempt (fun _ => .pure) (fun _ => h) fun _ =>
      (Keeps.bounded wordings_toggleReaction g.db).2 h) trivial
  | joinConversation c => exact iff_of_true h trivial
  | pinMessage c id =>
    exact iff_of_true (db_limited_attempt (fun _ => keeps_emit) (fun _ => h) fun _ =>
      (Keeps.bounded wordings_addPinnedMessage g.db).2 h) trivial
  | unpinMessage c id =>
    exact iff_of_true (db_limited_attempt (fun _ => keeps_emit) (fun _ => h) fun _ =>
      (Keeps.bounded wordings_removePinnedMessage g.db).2 h) trivial
  | requestSenderKeyRedistribution c target =>
    refine iff_of_true ?_ trivial
    rw [handle, handleRequestSenderKeyRedistribution, Keeps.attempt (f := Gateway.db) fun _ => .pure,
      db_service_bind fun member => .bind .demand fun _ => keeps_emit]
    exact h
  | notifyKeyRotated => exact iff_of_true h trivial
  | forwardMessage id c reEncrypted =>
    refine db_limited_attempt (P := fun db => db.Bounded ↔ _) (fun _ => keeps_emit)
      (fun hlets => iff_of_true h fun hlets' => absurd hlets' hlets) fun hlets => ?_
    exact (bounded_forwardMessage h).trans ⟨fun hfits _ => hfits, fun hfits => hfits hlets⟩

theorem bounded_respond {route : Route} (h : g.db.Bounded) :
    ((respond env now u route).exec g).2.db.Bounded := by
  -- a route that only packs up what the service returned
  have hdb : ∀ {α} {m : Service α} {k : α → Handler Response}, (∀ a, Keeps Gateway.db (k a)) →
      Keeps Database.wordings m → ((service m >>= k).exec g).2.db.Bounded := by
    intro α m k hk hm
    rw [db_service_bind hk]
    exact (Keeps.bounded hm g.db).2 h
  cases route with
  | getAll skip take archived => exact hdb (fun _ => .pure) (.bind .reads fun _ => .bind .reads fun _ => .pure)
  | createDirect target => exact hdb (fun _ => .pure) wordings_getOrCreateDirect
  | createGroup name description memberIds =>
    exact hdb (fun _ => .bind (.modify fun _ => rfl) fun _ => .pure) wordings_createConversation
  | createChannel name description => exact hdb (fun _ => .pure) wordings_createConversation
  | getOne id => exact hdb (fun _ => .pure) wordings_membersRead
  | update id dto => exact hdb (fun _ => .pure) wordings_updateConversation
  | pinChat id isPinned =>
    exact hdb (fun _ => .pure) (.bind wordings_assertMember fun _ => .bind (.modify fun _ => rfl) fun _ => .pure)
  | archiveChat id isArchived =>
    exact hdb (fun _ => .pure) (.bind wordings_assertMember fun _ => .bind (.modify fun _ => rfl) fun _ => .pure)
  | getMessages id cursor after around =>
    rcases around with _ | around
    · rcases after with _ | after
      · exact hdb (fun _ => .pure) wordings_getMessages
      · exact hdb (fun _ => .pure) wordings_membersRead
    · exact hdb (fun _ => .pure) wordings_membersRead
  | clearMessages id scope => exact hdb (fun _ => .pure) wordings_clearMessages
  | getMedia id => exact hdb (fun _ => .pure) wordings_membersRead
  | searchMessages id q => exact hdb (fun _ => .pure) wordings_searchMessages
  | addMember id target => exact hdb (fun _ => .bind keeps_suspend fun _ => .pure) wordings_addMember
  | removeMember id memberId => exact hdb (fun _ => .pure) wordings_removeMember
  | setRole id memberId role => exact hdb (fun _ => .pure) wordings_setMemberRole
  | pinMessage id messageId => exact hdb (fun _ => .pure) wordings_addPinnedMessage
  | unpinMessage id messageId => exact hdb (fun _ => .pure) wordings_removePinnedMessage
  | getPinnedMessages id => exact hdb (fun _ => .pure) wordings_membersRead
  | forwardMessage messageId target =>
    rw [respond, db_service_bind fun _ => .pure]
    exact (bounded_forwardMessage h).2 fun _ _ _ _ hnone => by cases hnone
  | deleteAllMySenderKeys => exact hdb (fun _ => .pure) (.modify fun _ => rfl)
  | setGroupKeys id keys version => exact hdb (fun _ => .pure) wordings_setSenderKey
  | getMyGroupKey id => exact hdb (fun _ => .pure) wordings_membersRead

/-- **One step** from a state in which everything fits: what it leaves fits if and only if what it stores does. -/
theorem next_bounded {input : Input} (h : s.db.Bounded) (henabled : s.Enabled now input) :
    (s.next env (now, input)).db.Bounded ↔ s.InputFits now input := by
  cases input with
  | connect socket u nickname => exact iff_of_true h trivial
  | event socket request =>
    obtain ⟨k, hk⟩ := Option.isSome_iff_exists.mp henabled
    rw [Gateway.next, Gateway.program, hk]
    refine (bounded_handle (g := { s with emitted := [] }) h).trans ⟨fun hfits k' hk' => ?_, fun hfits => hfits k hk⟩
    obtain rfl := Option.some.inj (hk'.symm.trans hk)
    exact hfits
  | call u route =>
    refine iff_of_true ?_ trivial
    rw [Gateway.next, Gateway.program, db_call]
    exact bounded_respond h
  | resume job =>
    have hwordings : (s.next env (now, .resume job)).db.wordings = s.db.wordings :=
      keeps_resume (f := Database.wordings) (fun _ _ => rfl) { s with emitted := [] }
    refine iff_of_true ?_ trivial
    rw [bounded_iff] at h ⊢
    rwa [hwordings]
  | timeout timer =>
    obtain ⟨t, ht, -⟩ := henabled
    refine iff_of_true ?_ trivial
    rw [next_timeout ht, exec_deliverScheduledMessage]
    rcases s.db.message? t.messageId with _ | m
    · exact h
    dsimp only
    split
    · exact h
    split
    · exact h
    · intro m' hm'
      obtain ⟨m₀, hm₀, rfl⟩ := List.mem_map.1 hm'
      split <;> exact h m₀ hm₀
  | disconnect socket =>
    obtain ⟨k, hk⟩ := Option.isSome_iff_exists.mp henabled
    rw [Gateway.next, Gateway.program, hk]
    exact iff_of_true h trivial
  | cleanup => exact iff_of_true h trivial
  | restart =>
    rw [next_restart_eq]
    exact iff_of_true h trivial

end

/-- **The length of messages** is bounded in every state of a run if and only if every edit and every forward of
the run that goes through stores a content that fits. -/
theorem content_bounded (env : Environment) (users : List User) (devices : List Device)
    (run : List (Time × Input)) (hrun : (gateway env users devices).Allowed (.start users devices) run) :
    (gateway env users devices).Throughout (·.db.Bounded) (.start users devices) run ↔
      ((gateway env users devices).restrict fun s input => s.InputFits input.1 input.2).Allowed
        (.start users devices) run :=
  Machine.throughout_iff (I := fun _ => True) (fun _ _ _ _ => trivial)
    (fun _ _ _ h henabled => next_bounded h henabled) trivial (fun _ hm => nomatch hm) hrun

/-! ## Runs -/

instance (g : Gateway) (now : Time) (u : UserId) (request : Request) : Decidable (g.RequestFits now u request) := by
  unfold Gateway.RequestFits
  split <;> infer_instance

instance (s : Gateway) (now : Time) (input : Input) : Decidable (s.InputFits now input) := by
  unfold Gateway.InputFits
  split <;> infer_instance

/-- A message, an edit and a forward of it. -/
def fittingRun : List (Time × Input) := [
  (0, .call 1 (.createDirect 2)), (1, .connect 20 2 []), (2, .event 20 (.sendMessage (sampleMessage 1))),
  (3, .event 20 (.editMessage 1 [0x20, 0x61])), (4, .event 20 (.forwardMessage 1 1 (some [0x62])))]

theorem content_bounded_fitting :
    (gateway sampleEnvironment [sampleUser 1, sampleUser 2] []).Throughout (·.db.Bounded)
      (.start [sampleUser 1, sampleUser 2] []) fittingRun :=
  (content_bounded sampleEnvironment [sampleUser 1, sampleUser 2] [] fittingRun (by decide +kernel)).mpr
    (by decide +kernel)

/-- A message is edited to one unit more than may be sent. -/
def overlongRun : List (Time × Input) := [
  (0, .call 1 (.createDirect 2)), (1, .connect 20 2 []), (2, .event 20 (.sendMessage (sampleMessage 1))),
  (3, .event 20 (.editMessage 1 (List.replicate 4097 0x61)))]

theorem overlong_stored : ∃ s, (gateway sampleEnvironment [sampleUser 1, sampleUser 2] []).Reachable s ∧
    ¬s.db.Bounded :=
  ⟨_, Machine.reachable_iff.mpr ⟨overlongRun, by decide +kernel, rfl⟩, by decide +kernel⟩

end Vesper.Server
