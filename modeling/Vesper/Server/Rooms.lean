import Vesper.Server.Requests

/-!
# Rooms and memberships

Who is in the room of a conversation is kept apart from who is a member of it. This module says which
steps let the two diverge: joining a room is not checked, and a removal does not empty it.
-/

namespace Vesper.Server
open Program

/-! ## One run of a request -/

/-- The keys of the messages are unique and drawn from the sequence. -/
structure Database.Keyed (db : Database) : Prop where
  keys : (db.messages.map (·.id)).Nodup
  below : ∀ m ∈ db.messages, m.id < db.nextMessageId

theorem Database.Keyed.message? {db : Database} (h : db.Keyed) {m : Message} (hm : m ∈ db.messages) :
    db.message? m.id = some m := by
  obtain ⟨m', hm'⟩ : ∃ m', db.message? m.id = some m' :=
    Option.isSome_iff_exists.mp (List.find?_isSome.mpr ⟨m, hm, decide_eq_true rfl⟩)
  have hid : m'.id = m.id := by simpa using List.find?_some hm'
  rw [hm', List.inj_on_of_nodup_map h.keys (List.mem_of_find?_eq_some hm') hm hid]

/-- The outlook of a user to whom nothing is foreign. -/
def Outlook.diagonal (user : UserId) (kept : ConversationId → UserId → Prop) : Outlook where
  user := user
  foreign := fun _ => False
  kept := kept
  start := 0
  owned := fun _ => True
  replied := fun _ => True
  copied := fun _ => True
  sought := fun _ => True

section
variable {u : UserId} {kept : ConversationId → UserId → Prop} {J : List Socket → Prop}
  {s : Gateway} {α : Type} {m : Handler α} {Q : α → Prop}

theorem agree_diagonal {db : Database} (hkeyed : db.Keyed) (hkept : ∀ c u, kept c u → db.IsMember c u) :
    Agree (.diagonal u kept) db db where
  rest := ⟨_, _, rfl⟩
  left := ⟨hkeyed.keys, hkeyed.below, fun _ _ h => h.elim⟩
  right := ⟨hkeyed.keys, hkeyed.below, fun _ _ h => h.elim⟩
  visible := fun _ _ => rfl
  references := fun _ _ _ => ⟨fun _ _ => rfl, fun _ _ => rfl⟩
  pins := fun _ _ _ => rfl
  outsider := fun _ _ h => h
  old := fun _ h => h.elim
  kept := hkept
  owned := fun _ _ _ h => h
  start := Nat.zero_le _
  replied := fun _ _ => rfl
  copied := fun _ _ => rfl
  sought := fun _ _ => rfl

/-- **What one run keeps**: the keys, the memberships that were to stay, and what is known of the
sockets. -/
theorem keeps_of_oblivious (h : Oblivious (Twin (.diagonal u kept) J) m Q) (hkeyed : s.db.Keyed)
    (hkept : ∀ c u, kept c u → s.db.IsMember c u) (hJ : J s.sockets) :
    (m.exec s).2.db.Keyed ∧ (∀ c u, kept c u → (m.exec s).2.db.IsMember c u) ∧
      J (m.exec s).2.sockets := by
  have hafter := h.after ⟨agree_diagonal hkeyed hkept, rfl, hJ⟩
  exact ⟨⟨hafter.db.left.keys, hafter.db.left.below⟩, hafter.db.kept, hafter.sockets⟩

end

/-! ## Rooms -/

/-- The sockets are only in rooms of conversations that their users are members of. -/
def Database.Holds (db : Database) (sockets : List Socket) : Prop :=
  ∀ k ∈ sockets, ∀ c ∈ k.rooms, db.IsMember c k.userId

namespace Gateway
variable {s : Gateway}

/-- Rooms hold members only, and so whatever is sent to a room reaches members only. -/
structure Confidential (s : Gateway) : Prop where
  rooms : s.db.Holds s.sockets
  broadcasts : ∀ emission ∈ s.emitted, ∀ c ∈ emission.1.room?, ∀ k ∈ s.receivers emission.1,
    s.db.IsMember c k.userId

theorem confidential_iff : s.Confidential ↔ s.db.Holds s.sockets := by
  refine ⟨Confidential.rooms, fun h => ⟨h, ?_⟩⟩
  rintro ⟨target, event⟩ - c hc k hk
  cases target <;> cases hc <;> simp only [receivers, List.mem_filter, decide_eq_true_eq] at hk
  · exact h k hk.1 c hk.2
  · exact h k hk.1 c hk.2.1

/-- The sockets may enter the rooms. -/
def MayJoin (s : Gateway) (ids : List SocketId) (conversations : List ConversationId) : Prop :=
  ∀ k ∈ s.sockets, k.id ∈ ids → ∀ c ∈ conversations, s.db.IsMember c k.userId

/-- None of a user's sockets is in the room. -/
def HasLeft (s : Gateway) (c : ConversationId) (u : UserId) : Prop :=
  ∀ k ∈ s.sockets, k.userId = u → c ∉ k.rooms

end Gateway

/-- The checks of `removeMember`. -/
def Database.MayRemove (db : Database) (adminId : UserId) (c : ConversationId) (target : UserId) :
    Prop :=
  (∀ conv ∈ db.conversation? c, conv.type ≠ .direct) ∧
    (adminId ≠ target → (∃ m ∈ db.member? c adminId, m.role ≠ .member) ∧
      ∀ m ∈ db.member? c target, m.role ≠ .owner)

/-- The steps that keep rooms to members. A client joins only where its user is a member; a
connection or an invitation takes effect only while the membership lasts; and a member is removed
only after having left the room. -/
def Gateway.KeepsRooms (s : Gateway) : Input → Prop
  | .event socket (.joinConversation c) => s.MayJoin [socket] [c]
  | .call userId (.removeMember c target) => s.db.MayRemove userId c target → s.HasLeft c target
  | .resume job =>
    match s.jobs[job]? with
    | some (.join socket _ conversations) => s.MayJoin [socket] conversations
    | some (.joinAll sockets _ c) => s.MayJoin sockets [c]
    | _ => True
  | _ => True

theorem holds_join {db : Database} {sockets : List Socket} {ids : List SocketId}
    {conversations : List ConversationId} (h : db.Holds sockets) :
    db.Holds (sockets.map fun k =>
      if k.id ∈ ids then { k with rooms := k.rooms ∪ conversations } else k) ↔
    ∀ k ∈ sockets, k.id ∈ ids → ∀ c ∈ conversations, db.IsMember c k.userId := by
  constructor
  · intro hjoin k hk hid c hc
    have hk' := hjoin _ (List.mem_map_of_mem hk) c
    rw [if_pos hid] at hk'
    exact hk' (List.mem_union_iff.mpr (.inr hc))
  · intro hmay k' hk' c hc
    obtain ⟨k, hk, rfl⟩ := List.mem_map.mp hk'
    by_cases hid : k.id ∈ ids
    · rw [if_pos hid] at hc ⊢
      rcases List.mem_union_iff.mp hc with hc | hc
      · exact h k hk c hc
      · exact hmay k hk hid c hc
    · rw [if_neg hid] at hc ⊢
      exact h k hk c hc

/-! ## What the steps do -/

section
variable {u : UserId} {kept : ConversationId → UserId → Prop} {J : List Socket → Prop}
  {env : Environment} {now : Time}

theorem owns_diagonal (id : MessageId) : (Outlook.diagonal u kept).Owns id := .inr (Nat.zero_le id)

theorem oblivious_deliverScheduledMessage {id : MessageId} {c : ConversationId} :
    Oblivious (Twin (.diagonal u kept) J) (deliverScheduledMessage now id c) fun _ => True := by
  unfold deliverScheduledMessage getMessageById
  have hfind : Oblivious (Agree (.diagonal u kept))
      (do return (← findSelected id).map mapMessage : Service (Option MessageView)) fun _ => True :=
    .bind (oblivious_findSelected (owns_diagonal id)) fun _ _ => .pure trivial
  refine .bind (oblivious_service hfind) fun msg _ => ?_
  rcases msg with _ | msg
  · exact .pure trivial
  refine .weaken (.when (q := True) fun _ => ?_) fun _ _ => trivial
  refine .bind (oblivious_service (oblivious_findMember fun _ _ h => h)) fun member _ => ?_
  split
  · exact oblivious_service (oblivious_updateMessages (fun _ => ⟨rfl, rfl, rfl, rfl, rfl⟩)
      fun _ _ _ _ _ _ h => h)
  · exact .bind oblivious_emit fun _ _ => oblivious_pushToMembers

/-- The users change in what no reference to a message shows. -/
theorem Agree.mapUsers {o : Outlook} {s t : Database} (h : Agree o s t) {f : User → User}
    (hf : ∀ u, (f u).id = u.id ∧ (f u).nickname = u.nickname) :
    Agree o { s with users := s.users.map f } { t with users := t.users.map f } := by
  have hauthor : ∀ db : Database, { db with users := db.users.map f }.author = db.author := by
    intro db
    funext id
    simp [Database.author, Database.user?, List.find?_map, Function.comp_def, hf]
  have hreplyTo : ∀ db : Database, { db with users := db.users.map f }.replyTo = db.replyTo := by
    intro db
    funext id
    simp only [Database.replyTo, hauthor]
    rfl
  have hforwardedFrom : ∀ db : Database,
      { db with users := db.users.map f }.forwardedFrom = db.forwardedFrom := by
    intro db
    funext id
    simp only [Database.forwardedFrom, hauthor]
    rfl
  have hpinned : ∀ db : Database, { db with users := db.users.map f }.pinned = db.pinned := by
    intro db
    funext id
    simp only [Database.pinned, hauthor]
    rfl
  obtain ⟨messages, removedFiles, hrest⟩ := h.rest
  refine { h with rest := ⟨messages, removedFiles, by rw [hrest]⟩, references := ?_, pins := ?_, replied := ?_ }
  · intro m hm hc
    simpa only [SameReferences, hreplyTo, hforwardedFrom] using h.references m hm hc
  · intro pin hpin hc
    rw [hpinned, hpinned]
    exact h.pins pin hpin hc
  · intro id hid
    rw [hreplyTo, hreplyTo]
    exact h.replied id hid

theorem oblivious_run {job : Job} (hjoin : ∀ ids v conversations, job ≠ .join ids v conversations)
    (hjoinAll : ∀ ids v c, job ≠ .joinAll ids v c) :
    Oblivious (Twin (.diagonal u kept) J) job.run fun _ => True := by
  cases job with
  | memberships socket v =>
    exact .bind (oblivious_service (oblivious_rest (fun _ _ h => h) fun _ _ _ => rfl)) fun _ _ =>
      oblivious_suspend
  | join ids v conversations => exact absurd rfl (hjoin ids v conversations)
  | fetchSockets v c => exact .bind (oblivious_look fun _ _ => rfl) fun _ _ => oblivious_suspend
  | joinAll ids v c => exact absurd rfl (hjoinAll ids v c)
  | leave socket v =>
    refine .bind (oblivious_look fun _ _ => rfl) fun _ _ => ?_
    refine .bind (oblivious_modify (fun _ _ => rfl) fun _ h => h) fun _ _ => ?_
    exact .weaken (.when (q := True) fun _ => oblivious_suspend) fun _ _ => trivial
  | setOnline v isOnline =>
    refine .bind (oblivious_service (.modify fun s t hst => hst.mapUsers fun u => ?_)) fun _ _ =>
      oblivious_suspend
    split <;> exact ⟨rfl, rfl⟩
  | announce v isOnline => exact oblivious_emit

/-- What `onModuleInit` does once the last process is gone. -/
theorem oblivious_pending {pending : List Message} :
    Oblivious (Twin (.diagonal u kept) J) (pending.forM fun msg => do
      let delay := msg.scheduledAt.getD 0 - now
      if 0 < delay then
        scheduleMessageDelivery now msg.id msg.conversationId delay
      else
        deliverScheduledMessage now msg.id msg.conversationId) fun _ => True := by
  refine .forM fun msg _ => ?_
  dsimp only
  split
  · exact oblivious_modify (fun _ _ => rfl) fun _ h => h
  · exact oblivious_deliverScheduledMessage

/-- The steps that change the sockets or their rooms. -/
def Gateway.Moves (s : Gateway) : Input → Prop
  | .connect _ _ _ | .event _ (.joinConversation _) | .disconnect _ => True
  | .resume job =>
    (∃ ids u conversations, s.jobs[job]? = some (.join ids u conversations)) ∨
      ∃ ids u c, s.jobs[job]? = some (.joinAll ids u c)
  | _ => False

theorem oblivious_program {s : Gateway} {input : Input} (hrestart : input ≠ .restart)
    (hJ : s.Moves input → ∀ l, J l)
    (hkept : ∀ v c target, input = .call v (.removeMember c target) → ¬kept c target) :
    ∃ u, Oblivious (Twin (.diagonal u kept) J) (s.program env now input) fun _ => True := by
  cases input with
  | connect socket v nickname =>
    exact ⟨v, .bind (oblivious_modify (fun _ _ => rfl) fun _ _ => hJ trivial _) fun _ _ =>
      oblivious_suspend⟩
  | event socket request =>
    rcases hk : s.socket? socket with _ | k
    · refine ⟨0, ?_⟩
      rw [Gateway.program, hk]
      exact .pure trivial
    refine ⟨k.userId, ?_⟩
    rw [Gateway.program, hk]
    refine oblivious_handle rfl ?_ fun c hc => hJ (hc ▸ trivial)
    cases request <;> first | trivial | exact fun _ _ _ => trivial | exact fun _ => trivial
  | call v route =>
    refine ⟨v, oblivious_call ?_⟩
    cases route with
    | getMessages id cursor after around =>
      cases after <;> cases around <;> first | trivial | exact fun _ _ _ => trivial
    | forwardMessage id c => exact fun _ => trivial
    | removeMember c target => exact hkept v c target rfl
    | _ => trivial
  | resume job =>
    refine ⟨0, .bind (oblivious_modify (fun _ _ => rfl) fun _ h => h) fun _ _ => ?_⟩
    rcases hjob : s.jobs[job]? with _ | j
    · exact .pure trivial
    by_cases hmoves : s.Moves (.resume job)
    · rcases hmoves with ⟨ids, v, conversations, h⟩ | ⟨ids, v, c, h⟩ <;>
        obtain rfl := Option.some.inj (hjob.symm.trans h)
      · refine .bind (oblivious_modify (fun _ _ => rfl) fun _ _ => hJ (.inl ⟨_, _, _, h⟩) _)
          fun _ _ => .bind (oblivious_look fun _ _ => rfl) fun _ _ => ?_
        exact .weaken (.when (q := True) fun _ => oblivious_suspend) fun _ _ => trivial
      · exact .bind (oblivious_modify (fun _ _ => rfl) fun _ _ => hJ (.inr ⟨_, _, _, h⟩) _)
          fun _ _ => oblivious_emit
    · refine oblivious_run ?_ ?_ <;> rintro _ _ _ rfl
      · exact hmoves (.inl ⟨_, _, _, hjob⟩)
      · exact hmoves (.inr ⟨_, _, _, hjob⟩)
  | timeout timer =>
    refine ⟨0, .bind (oblivious_modify (fun _ _ => rfl) fun _ h => h) fun _ _ => ?_⟩
    rcases s.timers[timer]? with _ | t
    · exact .pure trivial
    · exact oblivious_deliverScheduledMessage
  | disconnect socket =>
    refine ⟨0, ?_⟩
    rcases hk : s.socket? socket with _ | k
    · rw [Gateway.program, hk]
      exact .pure trivial
    · rw [Gateway.program, hk]
      exact .bind (oblivious_modify (fun _ _ => rfl) fun _ _ => hJ trivial _) fun _ _ =>
        oblivious_suspend
  | cleanup => exact ⟨0, oblivious_modify (fun _ _ => rfl) fun _ h => h⟩
  | restart => exact absurd rfl hrestart

/-! ## Rooms and memberships, step by step -/

variable {s : Gateway} {input : Input}

/-- What a step keeps of memberships and sockets. -/
theorem next_keeps (env : Environment) (now : Time) (input : Input)
    (kept : ConversationId → UserId → Prop) (J : List Socket → Prop) (hkeyed : s.db.Keyed) (hrestart : input ≠ .restart) (hJ : J s.sockets)
    (hmoves : s.Moves input → ∀ l, J l) (hkept : ∀ c v, kept c v → s.db.IsMember c v)
    (hremove : ∀ v c target, input = .call v (.removeMember c target) → ¬kept c target) :
    (s.next env (now, input)).db.Keyed ∧
      (∀ c v, kept c v → (s.next env (now, input)).db.IsMember c v) ∧
      J (s.next env (now, input)).sockets := by
  obtain ⟨u, h⟩ : ∃ u, Oblivious (Twin (.diagonal u kept) J) (s.program env now input) fun _ => True :=
    oblivious_program hrestart hmoves hremove
  exact keeps_of_oblivious (s := { s with emitted := [] }) h hkeyed hkept hJ

theorem next_restart (hkeyed : s.db.Keyed) :
    (s.next env (now, .restart)).db.Keyed ∧ (s.next env (now, .restart)).sockets = [] := by
  have h : Oblivious (Twin (.diagonal 0 fun _ _ => False) (· = []))
      ((s.db.messages.filter fun m => m.scheduledAt.any (now < ·) ∧ m.deletedAt = none).forM
        fun msg => do
          let delay := msg.scheduledAt.getD 0 - now
          if 0 < delay then
            scheduleMessageDelivery now msg.id msg.conversationId delay
          else
            deliverScheduledMessage now msg.id msg.conversationId) fun _ => True :=
    oblivious_pending
  have hkeeps := keeps_of_oblivious (s := { s with
      limiters := initialLimiters
      sockets := []
      activeUsers := fun _ => []
      jobs := []
      timers := []
      emitted := [] }) h hkeyed (fun _ _ h => h.elim) rfl
  exact ⟨hkeeps.1, hkeeps.2.2⟩

theorem next_keyed (hkeyed : s.db.Keyed) : (s.next env (now, input)).db.Keyed := by
  by_cases hrestart : input = .restart
  · rw [hrestart]
    exact (next_restart hkeyed).1
  · exact (next_keeps env now input (fun _ _ => False) (fun _ => True) hkeyed hrestart trivial
      (fun _ _ => trivial) (fun _ _ h => h.elim) fun _ _ _ _ h => h).1

/-- The steps that change neither rooms nor end a membership. -/
theorem next_quiet (hkeyed : s.db.Keyed) (hrestart : input ≠ .restart) (hmoves : ¬s.Moves input)
    (hremove : ∀ v c target, input ≠ .call v (.removeMember c target))
    (h : s.db.Holds s.sockets) :
    (s.next env (now, input)).db.Holds (s.next env (now, input)).sockets := by
  obtain ⟨-, hkept, hsockets⟩ := next_keeps env now input s.db.IsMember (· = s.sockets) hkeyed
    hrestart rfl (fun h => absurd h hmoves) (fun _ _ h => h)
    fun v c target h => absurd h (hremove v c target)
  rw [hsockets]
  exact fun k hk c hc => hkept c k.userId (h k hk c hc)

/-! ## Removals -/

theorem assertAdmin_spec {P : Database → Prop} {u : UserId} {c : ConversationId} :
    Triple P (assertAdmin u c) (fun m db => P db ∧ db.member? c u = some m ∧ m.role ≠ .member)
      fun db => P db ∧ ∀ m ∈ db.member? c u, m.role = .member := by
  unfold assertAdmin assertMember findMember
  refine .bind (Q := fun m db => P db ∧ db.member? c u = some m) ?_ fun m => ?_
  · refine .bind (Q := fun m db => P db ∧ db.member? c u = m) (.reads fun db h => ⟨h, rfl⟩) fun m => ?_
    refine .orThrow (fun m' db h hm => ⟨h.1, h.2.trans hm⟩) fun db h hm => ⟨h.1, ?_⟩
    rw [h.2, hm]
    rintro _ ⟨⟩
  · refine .bind (Q := fun _ db => (P db ∧ db.member? c u = some m) ∧ m.role ≠ .member)
      (.demand (fun db h hm => ⟨h, hm⟩) fun db h hm => ⟨h.1, ?_⟩) fun _ =>
        .pure fun db h => ⟨h.1.1, h.1.2, h.2⟩
    rw [h.2]
    rintro _ ⟨⟩
    exact not_not.mp hm

/-- `removeMember` takes the row of the member away if the checks pass and there is one. -/
theorem removeMember_row {db : Database} {u : UserId} {c : ConversationId} {target : UserId} :
    Triple (· = db) (removeMember u c target)
      (fun _ db' => db.MayRemove u c target ∧ ∃ senderKeys, db' = { db with
        senderKeys, members := db.members.filter fun m => ¬(m.conversationId = c ∧ m.userId = target) })
      fun db' => (db.MayRemove u c target → db.member? c target = none) ∧
        ∃ senderKeys, db' = { db with senderKeys } := by
  unfold removeMember
  refine .bind (Q := fun conv db' => db' = db ∧ conv = db.conversation? c)
    (.reads fun db' h => ⟨h, by rw [h]⟩) fun conv => ?_
  refine .bind (Q := fun _ db' => db' = db ∧ ∀ conv ∈ db.conversation? c, conv.type ≠ .direct)
    (.demand (fun _ h hc => ⟨h.1, h.2 ▸ hc⟩) fun db' h hc => ⟨fun hmay => ?_, db.senderKeys, h.1⟩)
    fun _ => ?_
  · exact absurd (h.2 ▸ hmay.1) hc
  refine .bind (Q := fun _ db' => db' = db ∧ db.MayRemove u c target) ?_ fun _ => ?_
  · unfold when
    split
    case isFalse hself => exact .pure fun _ h => ⟨h.1, h.2, fun hne => absurd hne hself⟩
    refine .bind (assertAdmin_spec.weaken (fun _ _ h => h)
      fun db' h => ⟨fun hmay => ?_, db.senderKeys, h.1.1⟩) fun admin => ?_
    · obtain ⟨m, hm, hrole⟩ := (hmay.2 ‹_›).1
      exact absurd (h.2 m (h.1.1 ▸ hm)) hrole
    refine .bind (Q := fun m db' => (db' = db ∧ ∀ conv ∈ db.conversation? c, conv.type ≠ .direct) ∧
      (∃ admin ∈ db.member? c u, admin.role ≠ .member) ∧ m = db.member? c target)
      (.reads fun db' h => ⟨h.1, ⟨admin, h.1.1 ▸ h.2⟩, by rw [h.1.1]⟩) fun m => ?_
    refine .demand (fun db' h hm => ⟨h.1.1, h.1.2, fun _ => ⟨h.2.1, h.2.2 ▸ hm⟩⟩)
      fun db' h hm => ⟨fun hmay => ?_, db.senderKeys, h.1.1⟩
    exact absurd (h.2.2 ▸ (hmay.2 ‹_›).2) hm
  refine .bind (Q := fun _ db' => db.MayRemove u c target ∧ ∃ senderKeys, db' = { db with senderKeys })
    (.modify fun db' h => ?_) fun _ => ?_
  · obtain ⟨rfl, hmay⟩ := h
    exact ⟨hmay, _, rfl⟩
  refine .bind (Q := fun m db' => (db.MayRemove u c target ∧ ∃ senderKeys, db' = { db with senderKeys }) ∧
    db.member? c target = m) (.reads fun db' h => ⟨h, ?_⟩) fun m => ?_
  · obtain ⟨-, _, rfl⟩ := h
    rfl
  refine .bind (Q := fun _ db' => db.MayRemove u c target ∧ ∃ senderKeys, db' = { db with senderKeys })
    (.demand (fun _ h _ => h.1) fun db' h hm => ⟨fun _ => h.2.trans (not_not.mp hm), h.1.2⟩) fun _ => ?_
  refine .bind (.modify fun db' h => ?_) fun _ => .pure fun _ h => h
  obtain ⟨hmay, senderKeys, rfl⟩ := h
  exact ⟨hmay, senderKeys, rfl⟩

/-- The member is gone if the checks pass, and has stayed if they do not. -/
theorem removeMember_spec {db : Database} {u : UserId} {c : ConversationId} {target : UserId} :
    ((removeMember u c target).exec db).2.IsMember c target ↔
      db.IsMember c target ∧ ¬db.MayRemove u c target := by
  refine (removeMember_row.weaken (fun _ db' h => ?_) fun db' h => ?_).after (P := (· = db))
    (E := fun db' => db'.IsMember c target ↔ db.IsMember c target ∧ ¬db.MayRemove u c target) rfl
  · obtain ⟨hmay, senderKeys, rfl⟩ := h
    refine iff_of_false ?_ fun h => h.2 hmay
    simp only [Database.isMember_iff, List.mem_filter]
    grind
  · obtain ⟨hgone, senderKeys, rfl⟩ := h
    refine ⟨fun hm => ⟨hm, fun hmay => ?_⟩, And.left⟩
    exact Option.isSome_iff_ne_none.mp hm (hgone hmay)

theorem next_removeMember {u : UserId} {c : ConversationId} {target : UserId}
    (hkeyed : s.db.Keyed) (h : s.db.Holds s.sockets) :
    (s.next env (now, .call u (.removeMember c target))).db.Holds
        (s.next env (now, .call u (.removeMember c target))).sockets ↔
      (s.db.MayRemove u c target → s.HasLeft c target) := by
  have hdb : (s.next env (now, .call u (.removeMember c target))).db =
      ((removeMember u c target).exec s.db).2 := by
    simp only [Gateway.next, Gateway.program, call, respond, exec_tryCatch, exec_bind, service,
      exec_zoom]
    rcases (removeMember u c target).exec s.db with ⟨_ | _, _⟩ <;> rfl
  obtain ⟨-, hkept, hsockets⟩ := next_keeps env now
    (.call u (.removeMember c target)) (fun c' v => s.db.IsMember c' v ∧ ¬(c' = c ∧ v = target))
    (· = s.sockets) hkeyed (fun h => by cases h) rfl False.elim (fun _ _ h => h.1)
    (fun v c' target' heq hk => by cases heq; exact hk.2 ⟨rfl, rfl⟩)
  have hspec : ((removeMember u c target).exec s.db).2.IsMember c target ↔
      s.db.IsMember c target ∧ ¬s.db.MayRemove u c target := removeMember_spec
  rw [← hdb] at hspec
  rw [hsockets]
  constructor
  · intro hafter hmay k hk hu hc
    have hmember := hafter k hk c hc
    rw [hu] at hmember
    exact (hspec.mp hmember).2 hmay
  · intro hleft k hk c' hc'
    by_cases hremoved : c' = c ∧ k.userId = target
    · obtain ⟨rfl, rfl⟩ := hremoved
      exact hspec.mpr ⟨h k hk c' hc', fun hmay => hleft hmay k hk rfl hc'⟩
    · exact hkept c' k.userId ⟨h k hk c' hc', hremoved⟩

/-! ## Rooms of members -/

theorem next_join {socket : SocketId} {c : ConversationId} (h : s.db.Holds s.sockets)
    (hsocket : (s.socket? socket).isSome) :
    (s.next env (now, .event socket (.joinConversation c))).db.Holds
        (s.next env (now, .event socket (.joinConversation c))).sockets ↔
      s.MayJoin [socket] [c] := by
  obtain ⟨k, hk⟩ := Option.isSome_iff_exists.mp hsocket
  obtain rfl : k.id = socket := by simpa [Gateway.socket?] using List.find?_some hk
  simp only [Gateway.next, Gateway.program, hk]
  exact holds_join h

theorem next_resume {job : Nat} (hkeyed : s.db.Keyed) (h : s.db.Holds s.sockets) :
    (s.next env (now, .resume job)).db.Holds (s.next env (now, .resume job)).sockets ↔
      s.KeepsRooms (.resume job) := by
  have hjoins : ∀ {ids u conversations}, s.jobs[job]? = some (.join ids u conversations) →
      ((s.next env (now, .resume job)).db.Holds (s.next env (now, .resume job)).sockets ↔
        s.MayJoin [ids] conversations) := by
    intro ids u conversations hjob
    have hnext : (s.next env (now, .resume job)).db = s.db ∧
        (s.next env (now, .resume job)).sockets = s.sockets.map fun k =>
          if k.id ∈ [ids] then { k with rooms := k.rooms ∪ conversations } else k := by
      simp only [Gateway.next, Gateway.program, hjob, Job.run, Option.elim_some, exec_bind, exec_modify,
        joinRooms, exec_reads, when]
      split <;> exact ⟨rfl, rfl⟩
    rw [hnext.1, hnext.2]
    exact holds_join h
  rcases hjob : s.jobs[job]? with _ | j
  case none =>
    refine iff_of_true (next_quiet hkeyed (fun h => by cases h) ?_ (fun _ _ _ h => by cases h) h) ?_
    · simp [Gateway.Moves, hjob]
    · simp [Gateway.KeepsRooms, hjob]
  cases j with
  | join ids u conversations =>
    rw [hjoins hjob]
    simp only [Gateway.KeepsRooms, hjob]
  | joinAll ids u c =>
    simp only [Gateway.next, Gateway.program, Gateway.KeepsRooms, hjob]
    exact holds_join h
  | _ =>
    refine iff_of_true (next_quiet hkeyed (fun h => by cases h) ?_ (fun _ _ _ h => by cases h) h) ?_
    · simp [Gateway.Moves, hjob]
    · simp [Gateway.KeepsRooms, hjob]

/-- **One step**: rooms still hold members only if and only if the step keeps them so. -/
theorem next_confidential (hkeyed : s.db.Keyed) (h : s.Confidential)
    (henabled : s.Enabled now input) :
    (s.next env (now, input)).Confidential ↔ s.KeepsRooms input := by
  rw [Gateway.confidential_iff] at h ⊢
  have hquiet : input ≠ .restart → ¬s.Moves input →
      (∀ v c target, input ≠ .call v (.removeMember c target)) →
      (s.next env (now, input)).db.Holds (s.next env (now, input)).sockets :=
    fun hrestart hmoves hremove => next_quiet hkeyed hrestart hmoves hremove h
  cases input with
  | connect socket u nickname =>
    refine iff_of_true (fun k hk c hc => ?_) trivial
    rcases List.mem_append.mp hk with hk | hk
    · exact h k hk c hc
    · rw [List.mem_singleton.mp hk] at hc
      cases hc
  | event socket request =>
    cases request with
    | joinConversation c => exact next_join h henabled
    | _ => exact iff_of_true (hquiet nofun id nofun) trivial
  | call u route =>
    cases route with
    | removeMember c target => exact next_removeMember hkeyed h
    | _ => exact iff_of_true (hquiet nofun id nofun) trivial
  | resume job => exact next_resume hkeyed h
  | timeout timer => exact iff_of_true (hquiet nofun id nofun) trivial
  | disconnect socket =>
    obtain ⟨k, hk⟩ := Option.isSome_iff_exists.mp henabled
    refine iff_of_true ?_ trivial
    simp only [Gateway.next, Gateway.program, hk]
    exact fun k' hk' => h k' (List.mem_filter.mp hk').1
  | cleanup => exact iff_of_true (hquiet nofun id nofun) trivial
  | restart =>
    refine iff_of_true ?_ trivial
    rw [(next_restart hkeyed).2]
    exact fun _ h => by cases h

end

/-- **Rooms hold members only**, in every state of a run, if and only if every step of the run
keeps them so: nobody joins the room of a conversation without being a member of it at that moment,
and no member is removed who is still in the room. -/
theorem rooms_confidential (env : Environment) (users : List User) (devices : List Device)
    (run : List (Time × Input)) (hrun : (gateway env users devices).Allowed (.start users devices) run) :
    (gateway env users devices).Throughout Gateway.Confidential (.start users devices) run ↔
      ((gateway env users devices).restrict fun s input => s.KeepsRooms input.2).Allowed
        (.start users devices) run := by
  refine Machine.throughout_iff (I := fun s => s.db.Keyed) (fun s input hs _ => next_keyed hs)
    (fun s input hs h henabled => next_confidential hs h henabled) ⟨List.nodup_nil, ?_⟩ ⟨?_, ?_⟩ hrun
  · exact fun _ h => by cases h
  · exact fun _ h => by cases h
  · exact fun _ h => by cases h

/-! ## Runs -/

instance (s : Gateway) (ids : List SocketId) (conversations : List ConversationId) :
    Decidable (s.MayJoin ids conversations) :=
  inferInstanceAs (Decidable (∀ k ∈ s.sockets, k.id ∈ ids → ∀ c ∈ conversations, s.db.IsMember c k.userId))

instance (s : Gateway) (c : ConversationId) (u : UserId) : Decidable (s.HasLeft c u) :=
  inferInstanceAs (Decidable (∀ k ∈ s.sockets, k.userId = u → c ∉ k.rooms))

instance (db : Database) (u : UserId) (c : ConversationId) (target : UserId) :
    Decidable (db.MayRemove u c target) :=
  inferInstanceAs (Decidable (_ ∧ (u ≠ target → (∃ _ ∈ db.member? c u, _) ∧ ∀ _ ∈ db.member? c target, _)))

instance (s : Gateway) (input : Input) : Decidable (s.KeepsRooms input) := by
  unfold Gateway.KeepsRooms
  split
  case h_3 => split <;> infer_instance
  all_goals infer_instance

def sampleEnvironment : Environment := ⟨fun _ => .ok none, fun _ _ => false⟩

def sampleUser (id : UserId) : User := ⟨id, [], [], [], none, false, 0⟩

def sampleMessage (c : ConversationId) : SendMessage :=
  ⟨c, some [0x76, 0x33], none, none, none, none, none, none, none, none, []⟩

/-- Users 1 and 2 open a conversation and connect, and user 1 writes. -/
def sampleRun : List (Time × Input) := [
  (0, .call 1 (.createDirect 2)),
  (1, .connect 10 1 []), (2, .resume 0), (3, .resume 0),
  (4, .connect 20 2 []), (5, .event 20 (.joinConversation 1)),
  (6, .event 10 (.sendMessage (sampleMessage 1)))]

theorem rooms_confidential_sample :
    (gateway sampleEnvironment [sampleUser 1, sampleUser 2] []).Throughout Gateway.Confidential
      (.start [sampleUser 1, sampleUser 2] []) sampleRun :=
  (rooms_confidential sampleEnvironment [sampleUser 1, sampleUser 2] [] sampleRun
    (by decide +kernel)).mpr (by decide +kernel)

/-- User 3 joins the room before the message is sent. -/
def strangerRun : List (Time × Input) := sampleRun.take 6 ++ [
  (6, .connect 30 3 []), (7, .event 30 (.joinConversation 1)),
  (8, .event 10 (.sendMessage (sampleMessage 1)))]

theorem stranger_receives : ∃ s,
    (gateway sampleEnvironment [sampleUser 1, sampleUser 2, sampleUser 3] []).Reachable s ∧
      (∃ k ∈ s.sockets, ∃ c ∈ k.rooms, ¬s.db.IsMember c k.userId) ∧
      ∃ emission ∈ s.emitted, ∃ c ∈ emission.1.room?, ∃ k ∈ s.receivers emission.1,
        ¬s.db.IsMember c k.userId :=
  ⟨_, Machine.reachable_iff.mpr ⟨strangerRun, by decide +kernel, rfl⟩, by decide +kernel,
    by decide +kernel⟩

end Vesper.Server
