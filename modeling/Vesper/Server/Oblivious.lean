import Vesper.Server.Isolation

/-!
# The service cannot tell agreeing databases apart

One lemma for each method of the service, called by the user of the outlook. A method that only
reads is oblivious of any relation within `Agree`; one that is given the identifier of a message
is followed in two cases, as the message is foreign or not.
-/

namespace Vesper.Server
open Program

variable {o : Outlook} {R : Database → Database → Prop} {c : ConversationId}

/-! ## Reading and writing -/

theorem oblivious_reads {α : Type} {f : Database → α} (h : ∀ s t, R s t → f s = f t) :
    Oblivious R (reads f : Service α) fun _ => True :=
  (Oblivious.reads h).weaken fun _ _ => trivial

/-- What is not read from the messages. -/
theorem oblivious_rest (hR : ∀ s t, R s t → Agree o s t) {α : Type} {f : Database → α}
    (h : ∀ db messages removedFiles, f db = f { db with messages, removedFiles }) :
    Oblivious R (reads f : Service α) fun a => ∃ s t, R s t ∧ f s = a := by
  refine .reads fun s t hst => ?_
  obtain ⟨messages, removedFiles, rfl⟩ := (hR s t hst).rest
  exact h s messages removedFiles

theorem oblivious_findMember (hR : ∀ s t, R s t → Agree o s t) {u : UserId} :
    Oblivious R (findMember c u) fun m => ∃ s t, R s t ∧ s.member? c u = m :=
  oblivious_rest hR fun _ _ _ => rfl

theorem oblivious_findConversation (hR : ∀ s t, R s t → Agree o s t) :
    Oblivious R (findConversation c) fun conv => ∃ s t, R s t ∧ s.conversation? c = conv :=
  oblivious_rest hR fun _ _ _ => rfl

theorem oblivious_findUser (hR : ∀ s t, R s t → Agree o s t) {u : UserId} :
    Oblivious R (findUser u) fun user => ∃ s t, R s t ∧ s.user? u = user :=
  oblivious_rest hR fun _ _ _ => rfl

theorem oblivious_assertMember (hR : ∀ s t, R s t → Agree o s t) :
    Oblivious R (assertMember o.user c) fun m => ¬o.foreign c ∧ m.conversationId = c := by
  refine (oblivious_findMember hR).bind fun m hm => (Oblivious.orThrow _ _).weaken ?_
  rintro m rfl
  obtain ⟨s, t, hst, hm⟩ := hm
  refine ⟨(hR s t hst).outsider c (Option.isSome_iff_exists.mpr ⟨m, hm⟩), ?_⟩
  rw [Database.member?] at hm
  have hkey := List.find?_some hm
  exact (of_decide_eq_true hkey).1

theorem oblivious_assertAdmin (hR : ∀ s t, R s t → Agree o s t) :
    Oblivious R (assertAdmin o.user c) fun m => ¬o.foreign c ∧ m.conversationId = c :=
  (oblivious_assertMember hR).bind fun _ hm => (Oblivious.demand _ _).bind fun _ _ => .pure hm

theorem oblivious_updateMembers {p : ConversationMember → Bool}
    {f : ConversationMember → ConversationMember}
    (hf : ∀ m, (f m).conversationId = m.conversationId ∧ (f m).userId = m.userId) :
    Oblivious (Agree o) (updateMembers p f) fun _ => True := by
  refine .modify fun s t hst => ?_
  obtain ⟨messages, removedFiles, rfl⟩ := hst.rest
  have hmap : ∀ m : ConversationMember, (if p m then f m else m).conversationId = m.conversationId ∧
      (if p m then f m else m).userId = m.userId := by
    intro m
    split
    · exact hf m
    · exact ⟨rfl, rfl⟩
  have hiff : ∀ c u, { s with members := s.members.map fun m => if p m then f m else m }.IsMember c u
      ↔ s.IsMember c u := by
    intro c u
    simp [Database.isMember_iff, hmap]
  exact hst.set hst.pins (fun c hc => hst.outsider c ((hiff c _).mp hc)) (Nat.le_refl _)
    fun c u hc => (hiff c u).mpr (hst.kept c u hc)

theorem oblivious_updateMessages {p : Message → Bool} {f : Message → Message}
    (hf : ∀ m, (f m).id = m.id ∧ (f m).conversationId = m.conversationId ∧
      (f m).senderId = m.senderId ∧ (f m).replyToId = m.replyToId ∧
      (f m).forwardedFromId = m.forwardedFromId)
    (hp : ∀ s t, Agree o s t → ∀ m, m ∈ s.messages ∨ m ∈ t.messages → p m →
      ¬o.foreign m.conversationId) :
    Oblivious (Agree o) (updateMessages p f) fun _ => True := by
  refine .modify fun s t hst => hst.mapMessages (fun m => ?_) fun m hm hforeign => ?_
  · split
    · exact hf m
    · exact ⟨rfl, rfl, rfl, rfl, rfl⟩
  · exact if_neg fun hpm => hp s t hst m hm hpm hforeign

theorem oblivious_touchConversation {now : Time} :
    Oblivious (Agree o) (touchConversation now c) fun _ => True := by
  refine .modify fun s t hst => ?_
  obtain ⟨messages, removedFiles, rfl⟩ := hst.rest
  exact hst.set hst.pins hst.outsider (Nat.le_refl _) hst.kept

/-! ## Conversations and members -/

theorem oblivious_setChatPinned {isPinned : Bool} :
    Oblivious (Agree o) (setChatPinned o.user c isPinned) fun _ => True := by
  unfold setChatPinned
  refine .bind (oblivious_assertMember fun _ _ => id) fun _ _ => ?_
  exact .bind (oblivious_updateMembers fun _ => ⟨rfl, rfl⟩) fun _ _ => .pure trivial

theorem oblivious_setChatArchived {isArchived : Bool} :
    Oblivious (Agree o) (setChatArchived o.user c isArchived) fun _ => True := by
  unfold setChatArchived
  refine .bind (oblivious_assertMember fun _ _ => id) fun _ _ => ?_
  exact .bind (oblivious_updateMembers fun _ => ⟨rfl, rfl⟩) fun _ _ => .pure trivial

theorem oblivious_markAsRead {now : Time} :
    Oblivious (Agree o) (markAsRead now o.user c) fun _ => True := by
  unfold markAsRead
  exact oblivious_updateMembers fun _ => ⟨rfl, rfl⟩

theorem oblivious_getConversation :
    Oblivious (Agree o) (getConversation o.user c) fun _ => True := by
  unfold getConversation
  refine .bind (oblivious_assertMember fun _ _ => id) fun _ _ => ?_
  exact .weaken (oblivious_rest (fun _ _ => id) fun _ _ _ => rfl) fun _ _ => trivial

theorem oblivious_updateConversation {now : Time} {dto : UpdateConversation} :
    Oblivious (Agree o) (updateConversation now o.user c dto) fun _ => True := by
  unfold updateConversation
  refine .bind (oblivious_assertAdmin fun _ _ => id) fun _ _ => ?_
  refine .bind (oblivious_findConversation fun _ _ => id) fun conv _ => ?_
  refine .bind (.orThrow _ _) fun conv _ => .bind (.modify fun s t hst => ?_) fun _ _ => .pure trivial
  obtain ⟨messages, removedFiles, rfl⟩ := hst.rest
  exact hst.set hst.pins hst.outsider (Nat.le_refl _) hst.kept

theorem oblivious_setMemberRole {target : UserId} {role : Option String} :
    Oblivious (Agree o) (setMemberRole o.user c target role) fun _ => True := by
  unfold setMemberRole
  refine .bind (oblivious_findMember fun _ _ => id) fun _ _ => .bind (.demand _ _) fun _ _ => ?_
  refine .bind (.demand _ _) fun _ _ => ?_
  refine .bind (oblivious_findMember fun _ _ => id) fun _ _ => .bind (.orThrow _ _) fun _ _ => ?_
  exact .bind (oblivious_updateMembers fun _ => ⟨rfl, rfl⟩) fun _ _ => .pure trivial

/-- New members: the user is none of them unless the conversation is theirs. -/
theorem Agree.addMembers {s t : Database} (h : Agree o s t) {conversations : List Conversation}
    {new : List ConversationMember}
    (hnew : ∀ m ∈ new, m.userId = o.user → ¬o.foreign m.conversationId) :
    Agree o { s with conversations, members := s.members ++ new }
      { t with conversations, members := s.members ++ new } := by
  obtain ⟨messages, removedFiles, rfl⟩ := h.rest
  have hiff : ∀ c u, { s with members := s.members ++ new }.IsMember c u ↔
      s.IsMember c u ∨ ∃ m ∈ new, m.conversationId = c ∧ m.userId = u := by
    intro c u
    simp only [Database.isMember_iff, List.mem_append, or_and_right, exists_or]
  refine h.set h.pins (fun c hc => ?_) (Nat.le_refl _) fun c u hc =>
    (hiff c u).mpr (.inl (h.kept c u hc))
  rcases (hiff c o.user).mp hc with hc | ⟨m, hm, rfl, hu⟩
  · exact h.outsider c hc
  · exact hnew m hm hu

theorem oblivious_addMember {now : Time} {target : UserId} :
    Oblivious (Agree o) (addMember now o.user c target) fun _ => True := by
  unfold addMember
  refine .bind (oblivious_findConversation fun _ _ => id) fun _ _ => .bind (.demand _ _) fun _ _ => ?_
  refine .bind (oblivious_assertAdmin fun _ _ => id) fun _ hc => ?_
  refine .bind (oblivious_findMember fun _ _ => id) fun _ _ => .bind (.demand _ _) fun _ _ => ?_
  refine .bind (oblivious_findUser fun _ _ => id) fun _ _ => .bind (.demand _ _) fun _ _ => ?_
  refine .bind (.modify fun s t hst => ?_) fun _ _ => .bind
    (oblivious_rest (fun _ _ => id) fun _ _ _ => rfl) fun _ _ => .pure trivial
  obtain ⟨messages, removedFiles, rfl⟩ := hst.rest
  refine hst.addMembers fun m hm _ => ?_
  rw [List.mem_singleton.mp hm]
  exact hc.1

theorem oblivious_removeMember {target : UserId} (hkept : ¬o.kept c target) :
    Oblivious (Agree o) (removeMember o.user c target) fun _ => True := by
  unfold removeMember
  refine .bind (oblivious_findConversation fun _ _ h => h) fun _ _ => .bind (.demand _ _) fun _ _ => ?_
  refine .bind (.when (q := True) fun _ => ?_) fun _ _ => ?_
  · refine .bind (oblivious_assertAdmin fun _ _ h => h) fun _ _ => ?_
    refine .bind (oblivious_findMember fun _ _ h => h) fun _ _ => ?_
    exact .weaken (.demand _ _) fun _ _ => trivial
  refine .bind (.modify fun s t hst => ?_) fun _ _ => ?_
  · obtain ⟨messages, removedFiles, rfl⟩ := hst.rest
    exact hst.set hst.pins hst.outsider (Nat.le_refl _) hst.kept
  refine .bind (oblivious_findMember fun _ _ h => h) fun _ _ => .bind (.demand _ _) fun _ _ => ?_
  refine .bind (.modify fun s t hst => ?_) fun _ _ => .pure trivial
  obtain ⟨messages, removedFiles, rfl⟩ := hst.rest
  refine hst.set hst.pins (fun c' hc' => hst.outsider c' ?_) (Nat.le_refl _) fun c' u hc' => ?_
  · obtain ⟨m, hm, hkey⟩ := Database.isMember_iff.mp hc'
    exact Database.isMember_iff.mpr ⟨m, List.mem_of_mem_filter hm, hkey⟩
  · obtain ⟨m, hm, rfl, rfl⟩ := Database.isMember_iff.mp (hst.kept c' u hc')
    refine Database.isMember_iff.mpr ⟨m, List.mem_filter.mpr ⟨hm, ?_⟩, rfl, rfl⟩
    refine decide_eq_true fun ⟨hconv, huser⟩ => hkept ?_
    rwa [← hconv, ← huser]

/-- A conversation starts under a number that no foreign one has. -/
theorem oblivious_createConversation {now : Time} {type : ConversationType}
    {name description : Option Text} {members : List (UserId × MemberRole)} :
    Oblivious (Agree o) (createConversation now type name description o.user members)
      fun _ => True := by
  unfold createConversation
  refine .bind (oblivious_rest (fun _ _ => id) fun _ _ _ => rfl) fun id hid => ?_
  have hown : ¬o.foreign id := by
    obtain ⟨s, t, hst, rfl⟩ := hid
    exact fun hf => Nat.lt_irrefl _ (hst.old _ hf)
  refine .bind (.modify fun s t hst => ?_) fun _ _ => ?_
  · obtain ⟨messages, removedFiles, rfl⟩ := hst.rest
    exact hst.set hst.pins hst.outsider (Nat.le_succ _) hst.kept
  refine .bind (oblivious_rest (fun _ _ h => h) fun _ _ _ => rfl) fun _ _ => ?_
  refine .bind (.demand _ _) fun _ _ => .bind (.modify fun s t hst => ?_) fun _ _ =>
    .weaken (oblivious_rest (fun _ _ h => h) fun _ _ _ => rfl) fun _ _ => trivial
  obtain ⟨messages, removedFiles, rfl⟩ := hst.rest
  refine hst.addMembers fun m hm _ => ?_
  obtain ⟨_, -, rfl⟩ := List.mem_map.mp hm
  exact hown

theorem oblivious_getOrCreateDirect {now : Time} {target : UserId} :
    Oblivious (Agree o) (getOrCreateDirect now o.user target) fun _ => True := by
  unfold getOrCreateDirect
  refine .bind (.when (q := True) fun _ => ?_) fun _ _ => ?_
  · exact .bind (oblivious_findUser fun _ _ => id) fun _ _ =>
      .weaken (.demand _ _) fun _ _ => trivial
  refine .bind (oblivious_rest (fun _ _ => id) fun _ _ _ => rfl) fun existing _ => ?_
  cases existing with
  | some existing => exact .weaken (oblivious_rest (fun _ _ => id) fun _ _ _ => rfl) fun _ _ => trivial
  | none => exact oblivious_createConversation

theorem oblivious_createGroup {now : Time} {name : Text} {description : Option Text}
    {memberIds : List UserId} :
    Oblivious (Agree o) (createGroup now o.user name description memberIds) fun _ => True :=
  oblivious_createConversation

theorem oblivious_createChannel {now : Time} {name : Text} {description : Option Text} :
    Oblivious (Agree o) (createChannel now o.user name description) fun _ => True :=
  oblivious_createConversation

/-! ## Sender keys -/

theorem oblivious_setSenderKey {keys : List (UserId × Text)} {version : Nat} :
    Oblivious (Agree o) (setSenderKey o.user c keys version) fun _ => True := by
  unfold setSenderKey
  refine .bind (oblivious_assertMember fun _ _ => id) fun _ _ => ?_
  refine .bind (oblivious_rest (fun _ _ => id) fun _ _ _ => rfl) fun _ _ => ?_
  refine .bind (.modify fun s t hst => ?_) fun _ _ => .weaken (.demand _ _) fun _ _ => trivial
  obtain ⟨messages, removedFiles, rfl⟩ := hst.rest
  exact hst.set hst.pins hst.outsider (Nat.le_refl _) hst.kept

theorem oblivious_deleteAllMySenderKeys :
    Oblivious (Agree o) (deleteAllMySenderKeys o.user) fun _ => True := by
  unfold deleteAllMySenderKeys
  refine .modify fun s t hst => ?_
  obtain ⟨messages, removedFiles, rfl⟩ := hst.rest
  exact hst.set hst.pins hst.outsider (Nat.le_refl _) hst.kept

theorem oblivious_getSenderKeysForMe :
    Oblivious (Agree o) (getSenderKeysForMe o.user c) fun _ => True := by
  unfold getSenderKeysForMe
  refine .bind (oblivious_assertMember fun _ _ => id) fun _ _ => ?_
  exact .weaken (oblivious_rest (fun _ _ => id) fun _ _ _ => rfl) fun _ _ => trivial

/-! ## Reading messages -/

namespace Agree
variable {s t : Database}

theorem select (h : Agree o s t) {m : Message} (hm : SameReferences s t m) :
    s.select m = t.select m := by
  obtain ⟨messages, removedFiles, rfl⟩ := h.rest
  have hreply := Option.bind_congr hm.1
  have hforward := Option.bind_congr hm.2
  simp only [Database.select, hreply, hforward]
  rfl

theorem newest (h : Agree o s t) (hc : ¬o.foreign c) {p : Message → Bool}
    (hp : ∀ m, p m → m.conversationId = c) : s.newest p = t.newest p := by
  rw [Database.newest, Database.newest, h.filter hc hp]

theorem oldest (h : Agree o s t) (hc : ¬o.foreign c) {p : Message → Bool}
    (hp : ∀ m, p m → m.conversationId = c) : s.oldest p = t.oldest p := by
  rw [Database.oldest, Database.oldest, h.filter hc hp]

/-- What a member is shown of the messages of a page. -/
theorem history (h : Agree o s t) {page page' : List Message} (hpage : page = page')
    (hown : ∀ m ∈ page, m ∈ s.messages ∧ ¬o.foreign m.conversationId) {u : UserId} :
    s.history u c page = t.history u c page' := by
  subst hpage
  have hread : s.otherMembersLastRead c u = t.otherMembersLastRead c u := by
    obtain ⟨messages, removedFiles, rfl⟩ := h.rest
    rfl
  refine List.map_congr_left fun m hm => ?_
  rw [hread, h.select (h.references m (hown m hm).1 (hown m hm).2)]

end Agree

theorem mem_newest {db : Database} {p : Message → Bool} {m : Message} :
    m ∈ db.newest p ↔ m ∈ db.messages ∧ p m := by
  rw [Database.newest, List.mem_insertionSort, List.mem_filter]

theorem mem_oldest {db : Database} {p : Message → Bool} {m : Message} :
    m ∈ db.oldest p ↔ m ∈ db.messages ∧ p m := by
  rw [Database.oldest, List.mem_insertionSort, List.mem_filter]

/-- A reading of the newest messages of a conversation that is not foreign. -/
theorem oblivious_newest (hc : ¬o.foreign c) {p : Message → Bool}
    (hp : ∀ m, p m → m.conversationId = c) {n : Nat} {u : UserId} :
    Oblivious (Agree o)
      (reads fun db => db.history u c ((db.newest p).take n).reverse : Service (List MessageView))
      fun _ => True := by
  refine oblivious_reads fun s t hst => hst.history (by rw [hst.newest hc hp]) fun m hm => ?_
  obtain ⟨hmem, hpm⟩ := mem_newest.mp (List.mem_of_mem_take (List.mem_reverse.mp hm))
  exact ⟨hmem, by rwa [hp m hpm]⟩

theorem oblivious_getMessages {now : Time} {cursor : Option MessageId}
    (hcursor : ¬o.foreign c → ∀ id ∈ cursor, o.sought id) :
    Oblivious (Agree o) (getMessages now o.user c cursor) fun _ => True := by
  unfold getMessages
  refine .bind (oblivious_assertMember fun _ _ => id) fun member hm => ?_
  generalize hfilter : cursor.filter (· ≠ 0) = cursor'
  cases cursor' with
  | none =>
    refine .bind (oblivious_newest hm.1 fun m hp => ?_) fun _ _ => .pure trivial
    simp only [Bool.and_eq_true, decide_eq_true_eq] at hp
    exact hp.1.1
  | some cursor' =>
    have hsought := hcursor hm.1 cursor' (Option.filter_eq_some_iff.mp hfilter).1
    refine .bind (oblivious_reads fun s t hst => ?_) fun _ _ => .pure trivial
    have hp : ∀ m : Message, (decide (m.conversationId = c) && scheduledFilter now o.user m &&
        decide (m.id ≤ cursor')) = true → m.conversationId = c := by
      intro m hp
      simp only [Bool.and_eq_true, decide_eq_true_eq] at hp
      exact hp.1.1
    refine hst.history ?_ fun m hm' => ?_
    · simp only [Database.pageAfter, hst.sought cursor' hsought, hst.newest hm.1 hp]
    · have hmem := List.mem_of_mem_take (List.mem_reverse.mp hm')
      rw [Database.pageAfter] at hmem
      split at hmem
      · obtain ⟨hmem', hpm⟩ := mem_newest.mp (List.mem_of_mem_drop hmem)
        exact ⟨hmem', by rw [hp m hpm]; exact hm.1⟩
      · cases hmem

theorem oblivious_getMessagesAround {now : Time} {around : MessageId} :
    Oblivious (Agree o) (getMessagesAround now o.user c around) fun _ => True := by
  unfold getMessagesAround
  refine .bind (oblivious_assertMember fun _ _ => id) fun _ hm => oblivious_newest hm.1 fun m hp => ?_
  simp only [Bool.and_eq_true, decide_eq_true_eq] at hp
  exact hp.1.1.1

theorem oblivious_getMessagesAfter {now : Time} {after : MessageId} :
    Oblivious (Agree o) (getMessagesAfter now o.user c after) fun _ => True := by
  unfold getMessagesAfter
  refine .bind (oblivious_assertMember fun _ _ => id) fun member hm => ?_
  have hp : ∀ m : Message, (decide (m.conversationId = c) && decide (after < m.id) &&
      notCleared member.clearedAt m && scheduledFilter now o.user m) = true →
      m.conversationId = c := by
    intro m hp
    simp only [Bool.and_eq_true, decide_eq_true_eq] at hp
    exact hp.1.1.1
  refine oblivious_reads fun s t hst => hst.history (by rw [hst.oldest hm.1 hp]) fun m hm' => ?_
  obtain ⟨hmem, hpm⟩ := mem_oldest.mp (List.mem_of_mem_take hm')
  exact ⟨hmem, by rw [hp m hpm]; exact hm.1⟩

theorem oblivious_searchMessages {env : Environment} {now : Time} {query : Text} :
    Oblivious (Agree o) (searchMessages env now o.user c query) fun _ => True := by
  unfold searchMessages
  refine .bind (oblivious_assertMember fun _ _ => id) fun _ hm => ?_
  dsimp only
  split
  · exact .pure trivial
  · refine oblivious_newest hm.1 fun m hp => ?_
    simp only [Bool.and_eq_true, decide_eq_true_eq] at hp
    exact hp.1.1.1

theorem oblivious_getMediaFiles {now : Time} :
    Oblivious (Agree o) (getMediaFiles now o.user c) fun _ => True := by
  unfold getMediaFiles
  refine .bind (oblivious_assertMember fun _ _ => id) fun _ hm => oblivious_reads fun s t hst => ?_
  rw [hst.newest hm.1 fun m hp => ?_]
  · obtain ⟨messages, removedFiles, rfl⟩ := hst.rest
    rfl
  · simp only [Bool.and_eq_true, decide_eq_true_eq] at hp
    exact hp.1.1.1

/-! ## Messages by their identifiers -/

/-- The row of an identifier, if there is one, is a foreign message that the user did not write. -/
def Database.IsForeign (o : Outlook) (id : MessageId) (db : Database) : Prop :=
  ∀ m, db.message? id = some m → o.foreign m.conversationId ∧ m.senderId ≠ o.user

/-- Two cases of the row of an identifier. -/
theorem Agree.cases {s t : Database} (h : Agree o s t) (id : MessageId) :
    Agree (o.own id) s t ∨ s.IsForeign o id ∧ t.IsForeign o id := by
  rcases h.row id with ⟨row, hrow, hs, ht⟩ | ⟨hs, ht⟩
  · refine .inl (h.own fun m hm hid => ?_)
    suffices m = row by rwa [this]
    rcases hm with hm | hm
    · exact Option.some.inj ((h.left.row?.mpr ⟨hm, hid⟩).symm.trans hs)
    · exact Option.some.inj ((h.right.row?.mpr ⟨hm, hid⟩).symm.trans ht)
  · refine .inr ⟨fun m hm => ?_, fun m hm => ?_⟩
    · exact ⟨hs m hm, h.left.author m (h.left.row?.mp hm).1 (hs m hm)⟩
    · exact ⟨ht m hm, h.right.author m (h.right.row?.mp hm).1 (ht m hm)⟩

theorem oblivious_by_row (id : MessageId) {α : Type} {m : Service α} {Q : α → Prop}
    (hown : Oblivious (Agree (o.own id)) m Q)
    (hforeign : Oblivious (fun s t => Agree o s t ∧ s.IsForeign o id ∧ t.IsForeign o id) m Q) :
    Oblivious (Agree o) m Q := by
  intro s t hst
  rcases hst.cases id with h | h
  · exact (hown s t h).imp_right Agree.disown
  · exact (hforeign s t ⟨hst, h⟩).imp_right And.left

theorem Agree.findMessage {s t : Database} (h : Agree o s t) {id : MessageId} (hid : o.Owns id) :
    s.message? id = t.message? id ∧
      ∀ m ∈ s.message? id, m.id = id ∧ ¬o.foreign m.conversationId := by
  rcases h.row id with ⟨m, hm, hs, ht⟩ | ⟨hs, ht⟩
  · refine ⟨hs.trans ht.symm, fun m' hm' => ?_⟩
    obtain rfl := Option.some.inj (hs.symm.trans hm')
    exact ⟨(h.left.row?.mp hs).2, hm⟩
  · have hnone : s.message? id = none := Option.eq_none_iff_forall_ne_some.mpr fun m hm => by
      obtain ⟨hmem, rfl⟩ := h.left.row?.mp hm
      exact h.owned m (.inl hmem) hid (hs m hm)
    have hnone' : t.message? id = none := Option.eq_none_iff_forall_ne_some.mpr fun m hm => by
      obtain ⟨hmem, rfl⟩ := h.right.row?.mp hm
      exact h.owned m (.inr hmem) hid (ht m hm)
    refine ⟨hnone.trans hnone'.symm, fun m hm => ?_⟩
    rw [hnone] at hm
    cases hm

theorem oblivious_findMessage {id : MessageId} (hid : o.Owns id) :
    Oblivious (Agree o) (findMessage id) fun msg =>
      ∀ m ∈ msg, m.id = id ∧ ¬o.foreign m.conversationId := by
  unfold Server.findMessage
  refine .weaken (.reads fun s t hst => (hst.findMessage hid).1) ?_
  rintro _ ⟨s, t, hst, rfl⟩
  exact (hst.findMessage hid).2

/-- A foreign message is found, or not, in both. -/
theorem related_findMessage {id : MessageId} (hid : o.sought id) :
    Related (fun s t => Agree o s t ∧ s.IsForeign o id ∧ t.IsForeign o id)
      (fun msg msg' => msg.isSome = msg'.isSome ∧
        (∀ m ∈ msg, o.foreign m.conversationId ∧ m.senderId ≠ o.user) ∧
        ∀ m ∈ msg', o.foreign m.conversationId ∧ m.senderId ≠ o.user)
      (findMessage id) (findMessage id) := by
  unfold findMessage
  exact .reads fun _ _ hst => ⟨hst.1.sought id hid, hst.2⟩

theorem oblivious_updateMessage {id : MessageId} {f : Message → Message} (hid : o.Owns id)
    (hf : ∀ m, (f m).id = m.id ∧ (f m).conversationId = m.conversationId ∧
      (f m).senderId = m.senderId ∧ (f m).replyToId = m.replyToId ∧
      (f m).forwardedFromId = m.forwardedFromId) :
    Oblivious (Agree o) (updateMessages (·.id = id) f) fun _ => True :=
  oblivious_updateMessages hf fun _ _ hst m hm hpm =>
    hst.owned m hm ((of_decide_eq_true hpm) ▸ hid)

/-- Which storage objects are removed may depend on foreign messages, but it is not shown. -/
theorem oblivious_releaseFile {msg : Message} :
    Oblivious (Agree o) (releaseFile msg) fun _ => True := by
  have hexec : ∀ s, ∃ files, (releaseFile msg).exec s = (.ok ⟨⟩, { s with removedFiles := files }) := by
    intro s
    unfold releaseFile Program.when
    split
    · rw [exec_bind, exec_reads]
      dsimp only
      split
      · exact ⟨_, rfl⟩
      · exact ⟨_, rfl⟩
    · exact ⟨_, rfl⟩
  intro s t hst
  obtain ⟨files, hs⟩ := hexec s
  obtain ⟨files', ht⟩ := hexec t
  rw [hs, ht]
  obtain ⟨messages, removedFiles, rfl⟩ := hst.rest
  exact ⟨⟨rfl, trivial⟩, { hst with rest := ⟨messages, files', rfl⟩ }⟩

/-- A user is a member of no foreign conversation. -/
theorem Agree.not_member {s t : Database} (h : Agree o s t) (hc : o.foreign c) :
    s.member? c o.user = none ∧ t.member? c o.user = none := by
  have hs : s.member? c o.user = none := by
    rw [← Option.not_isSome_iff_eq_none]
    exact fun hmember => h.outsider c hmember hc
  obtain ⟨messages, removedFiles, rfl⟩ := h.rest
  exact ⟨hs, hs⟩

theorem oblivious_deleteMessage_own {now : Time} {id : MessageId} (hid : o.Owns id) :
    Oblivious (Agree o) (deleteMessage now id o.user) fun _ => True := by
  unfold deleteMessage
  refine .bind (oblivious_findMessage hid) fun _ _ => .bind (.orThrow _ _) fun msg _ => ?_
  refine .bind (.when (q := True) fun _ => ?_) fun _ _ => ?_
  · exact .bind (oblivious_findMember fun _ _ h => h) fun _ _ =>
      .weaken (.demand _ _) fun _ _ => trivial
  split
  · exact .pure trivial
  · exact .bind (oblivious_updateMessage hid fun _ => ⟨rfl, rfl, rfl, rfl, rfl⟩) fun _ _ =>
      .bind oblivious_releaseFile fun _ _ => .pure trivial

theorem oblivious_deleteMessage {now : Time} {id : MessageId} (hid : o.sought id) :
    Oblivious (Agree o) (deleteMessage now id o.user) fun _ => True := by
  refine oblivious_by_row id (oblivious_deleteMessage_own (o.owns_own id)) ?_
  unfold deleteMessage
  refine Related.bind (related_findMessage hid) fun a b ⟨hsome, ha, hb⟩ => ?_
  refine Related.bind (Related.orThrowOf hsome _) fun msg msg' ⟨hmsg, hmsg'⟩ => ?_
  obtain ⟨hc, hsender⟩ := ha msg hmsg
  obtain ⟨hc', hsender'⟩ := hb msg' hmsg'
  -- neither an author nor an admin
  refine Related.bind (V := fun _ _ => False) ?_ fun _ _ h => h.elim
  unfold Program.when
  rw [if_pos hsender, if_pos hsender']
  refine Related.bind (V := fun m m' => m = none ∧ m' = none) ?_ ?_
  · unfold findMember
    exact .reads fun s t hst => ⟨(hst.1.not_member hc).1, (hst.1.not_member hc').2⟩
  · rintro _ _ ⟨rfl, rfl⟩
    exact (Related.demand Iff.rfl _).weaken fun _ _ h => by simpa using h.1

theorem oblivious_editMessage_own {now : Time} {id : MessageId} {content : Text}
    (hid : o.Owns id) : Oblivious (Agree o) (editMessage now id o.user content) fun _ => True := by
  unfold editMessage
  refine .bind (oblivious_findMessage hid) fun _ _ => .bind (.orThrow _ _) fun msg _ => ?_
  refine .bind (.demand _ _) fun _ _ => .bind (.demand _ _) fun _ _ => ?_
  refine .bind (.demand _ _) fun _ _ => .bind (.demand _ _) fun _ _ => ?_
  split
  · exact .pure trivial
  · exact .bind (oblivious_updateMessage hid fun _ => ⟨rfl, rfl, rfl, rfl, rfl⟩) fun _ _ =>
      .pure trivial

theorem oblivious_editMessage {now : Time} {id : MessageId} {content : Text} (hid : o.sought id) :
    Oblivious (Agree o) (editMessage now id o.user content) fun _ => True := by
  refine oblivious_by_row id (oblivious_editMessage_own (o.owns_own id)) ?_
  unfold editMessage
  refine Related.bind (related_findMessage hid) fun a b ⟨hsome, ha, hb⟩ => ?_
  refine Related.bind (Related.orThrowOf hsome _) fun msg msg' ⟨hmsg, hmsg'⟩ => ?_
  have hsender := (ha msg hmsg).2
  have hsender' := (hb msg' hmsg').2
  exact Related.bind (Related.demand (iff_of_false hsender hsender') _) fun _ _ h =>
    absurd h.1 hsender

theorem oblivious_toggleReaction {now : Time} {id : MessageId} {emoji : String} (hid : o.Owns id) :
    Oblivious (Agree o) (toggleReaction now id o.user emoji) fun _ => True := by
  unfold toggleReaction
  refine .bind (.demand _ _) fun _ _ => ?_
  refine .bind (oblivious_findMessage hid) fun _ _ => .bind (.orThrow _ _) fun msg _ => ?_
  refine .bind (.demand _ _) fun _ _ => .bind (oblivious_assertMember fun _ _ h => h) fun _ _ => ?_
  refine .bind (oblivious_updateMessage hid fun _ => ⟨rfl, rfl, rfl, rfl, rfl⟩) fun _ _ => ?_
  exact .bind (oblivious_rest (fun _ _ h => h) fun _ _ _ => rfl) fun _ _ => .pure trivial

/-- Nobody reacts to a foreign message; the error says why not. -/
theorem toggleReaction_foreign {now : Time} {id : MessageId} {emoji : String} {db : Database}
    (hmember : ∀ c, o.foreign c → db.member? c o.user = none) (hid : db.IsForeign o id) :
    Triple (· = db) (toggleReaction now id o.user emoji) (fun _ _ => False) (· = db) := by
  unfold toggleReaction
  refine .bind (Q := fun _ s => s = db) (.demand (fun _ hs _ => hs) fun _ hs _ => hs) fun _ => ?_
  refine .bind (Q := fun msg s => s = db ∧ db.message? id = msg) ?_ fun _ => ?_
  · unfold findMessage
    exact .reads fun s hs => ⟨hs, by rw [hs]⟩
  refine .bind (Q := fun msg s => s = db ∧ o.foreign msg.conversationId) (.orThrow ?_ ?_) fun msg => ?_
  · rintro msg s ⟨hs, hrow⟩ rfl
    exact ⟨hs, (hid msg hrow).1⟩
  · exact fun s hs _ => hs.1
  refine .bind (Q := fun _ s => s = db ∧ o.foreign msg.conversationId)
    (.demand (fun _ hs _ => hs) fun _ hs _ => hs.1) fun _ => ?_
  refine .bind (Q := fun _ _ => False) ?_ fun _ _ h => h.elim
  unfold assertMember findMember
  refine .bind (Q := fun m s => s = db ∧ m = none) (.reads ?_) fun m => .orThrow ?_ fun _ hs _ => hs.1
  · rintro s ⟨rfl, hc⟩
    exact ⟨rfl, hmember _ hc⟩
  · rintro _ s ⟨-, rfl⟩ hm
    cases hm

/-! ## New messages -/

theorem Agree.brokenKey {s t : Database} (h : Agree o s t) {m : Message}
    (hm : SameReferences s t m) : s.brokenKey m = t.brokenKey m := by
  have hreply : (∃ id ∈ m.replyToId, s.message? id = none) ↔
      ∃ id ∈ m.replyToId, t.message? id = none := by
    refine exists_congr fun id => and_congr_right fun hid => ?_
    have hnone := congrArg (· = none) (hm.1 id hid)
    simpa [Database.replyTo] using hnone
  have hforward : (∃ id ∈ m.forwardedFromId, s.message? id = none) ↔
      ∃ id ∈ m.forwardedFromId, t.message? id = none := by
    refine exists_congr fun id => and_congr_right fun hid => ?_
    have hnone := congrArg (· = none) (hm.2 id hid)
    simpa [Database.forwardedFrom] using hnone
  obtain ⟨messages, removedFiles, rfl⟩ := h.rest
  simp only [Database.brokenKey, hreply, hforward]
  rfl

theorem exec_createMessage (row : MessageId → Message) (db : Database) :
    (createMessage row).exec db = match db.brokenKey (row db.nextMessageId) with
      | some constraint =>
        (.error (.foreignKey constraint), { db with nextMessageId := db.nextMessageId + 1 })
      | none => (.ok (row db.nextMessageId), { db with
          nextMessageId := db.nextMessageId + 1
          messages := db.messages ++ [row db.nextMessageId] }) := by
  have hbroken : ∀ nextMessageId, { db with nextMessageId }.brokenKey (row db.nextMessageId) =
      db.brokenKey (row db.nextMessageId) := fun _ => rfl
  unfold createMessage
  simp only [exec_bind, exec_reads, exec_modify, hbroken]
  cases db.brokenKey (row db.nextMessageId) <;> rfl

theorem oblivious_createMessage {row : MessageId → Message} (hid : ∀ id, (row id).id = id)
    (hc : ∀ id, ¬o.foreign (row id).conversationId)
    (hreply : ∀ id, ∀ r ∈ (row id).replyToId, o.replied r)
    (hforward : ∀ id, ∀ r ∈ (row id).forwardedFromId, o.copied r) :
    Oblivious (Agree o) (createMessage row) fun m => ∃ id, m = row id ∧ o.Owns id := by
  intro s t hst
  have hm : SameReferences s t (row s.nextMessageId) := hst.named (hreply _) (hforward _)
  have hnext : t.nextMessageId = s.nextMessageId := by
    obtain ⟨_, _, rfl⟩ := hst.rest
    rfl
  rw [exec_createMessage, exec_createMessage, hnext, ← hst.brokenKey hm]
  cases s.brokenKey (row s.nextMessageId) with
  | some constraint =>
    have hskip := hst.skipMessageId
    rw [hnext] at hskip
    exact ⟨rfl, hskip⟩
  | none =>
    have hinsert := hst.insertMessage (hid _) (hc _) hm
    rw [hid] at hinsert
    exact ⟨⟨rfl, _, rfl, .inr hst.start⟩, hinsert⟩

theorem oblivious_createEnvelopes {id : MessageId} {envelopes : List MessageKeyEnvelope}
    (hid : o.Owns id) : Oblivious (Agree o) (createEnvelopes id envelopes) fun _ => True := by
  unfold createEnvelopes
  refine .bind (oblivious_rest (fun _ _ h => h) fun _ _ _ => rfl) fun _ _ => ?_
  exact .bind (.demand _ _) fun _ _ =>
    oblivious_updateMessage hid fun _ => ⟨rfl, rfl, rfl, rfl, rfl⟩

/-- The selection of a message that refers to named messages only. -/
theorem oblivious_select {m : Message} (hreply : ∀ r ∈ m.replyToId, o.replied r)
    (hforward : ∀ r ∈ m.forwardedFromId, o.copied r) :
    Oblivious (Agree o) (reads (·.select m) : Service Selected) fun _ => True :=
  oblivious_reads fun _ _ hst => hst.select (hst.named hreply hforward)

theorem oblivious_findSelected {id : MessageId} (hid : o.Owns id) :
    Oblivious (Agree o) (findSelected id) fun _ => True := by
  unfold findSelected
  refine oblivious_reads fun s t hst => ?_
  obtain ⟨hrow, hown⟩ := hst.findMessage hid
  rw [← hrow]
  rcases hm : s.message? id with _ | m
  · rfl
  · exact congrArg some (hst.select (hst.references m (hst.left.row?.mp hm).1 (hown m hm).2))

theorem oblivious_valid {α : Type} {a : Except String α} :
    Oblivious (Agree o) (valid a) fun _ => True := by
  cases a with
  | ok a => exact .pure trivial
  | error message => exact .throw _

theorem oblivious_saveMessage {env : Environment} {now : Time} {dto : NewMessage}
    (hreply : ¬o.foreign c → ∀ id ∈ dto.replyToId, o.replied id) :
    Oblivious (Agree o) (saveMessage env now o.user c dto) fun _ => True := by
  unfold saveMessage
  refine .bind (.demand _ _) fun _ _ => .bind (oblivious_assertMember fun _ _ h => h) fun _ hm => ?_
  refine .bind (oblivious_findConversation fun _ _ h => h) fun _ _ => .bind (.orThrow _ _) fun _ _ => ?_
  refine .bind (.demand _ _) fun _ _ => .bind oblivious_valid fun metadata _ => ?_
  have hreply := hreply hm.1
  refine .bind (oblivious_createMessage (fun _ => rfl) (fun _ => hm.1) (fun _ => hreply)
    fun _ => nofun) fun msg hmsg => ?_
  obtain ⟨id, rfl, hid⟩ := hmsg
  refine .bind (oblivious_select hreply nofun) fun _ _ => ?_
  split
  · refine .bind (oblivious_createEnvelopes hid) fun _ _ => .bind oblivious_touchConversation fun _ _ => ?_
    exact .bind (oblivious_findSelected hid) fun _ _ => .bind (.orThrow _ _) fun _ _ => .pure trivial
  · exact .bind oblivious_touchConversation fun _ _ => .pure trivial

theorem oblivious_forwardMessage {now : Time} {id : MessageId} {reEncrypted : Option Text}
    (hid : ¬o.foreign c → o.copied id) :
    Oblivious (Agree o) (forwardMessage now o.user id c reEncrypted) fun _ => True := by
  unfold forwardMessage
  refine .bind (oblivious_assertMember fun _ _ h => h) fun _ hm => ?_
  have hid := hid hm.1
  refine Related.bind (V := fun a b => a.map Message.copy = b.map Message.copy ∧
    ∀ m ∈ a, m.id = id) ?_ fun a b ⟨hcopy, ha⟩ => ?_
  · unfold findMessage
    exact .reads fun s t hst => ⟨hst.copied id hid, fun m hm => (hst.left.row?.mp hm).2⟩
  have hsome : a.isSome = b.isSome := by
    rw [← Option.isSome_map (f := Message.copy), hcopy, Option.isSome_map]
  refine Related.bind (Related.orThrowOf hsome _) fun m m' ⟨hm₁, hm₂⟩ => ?_
  have hsame : m.copy = m'.copy := by
    rw [hm₁, hm₂] at hcopy
    exact Option.some.inj hcopy
  simp only [Message.copy, Prod.mk.injEq] at hsame
  obtain ⟨hid', hcontent, hurl, hname, htype, hsize, hsender⟩ := hsame
  simp only [← hid', ← hcontent, ← hurl, ← hname, ← htype, ← hsize, ← hsender, ha m hm₁]
  have hforward : ∀ r ∈ some id, o.copied r := fun r hr => by
    obtain rfl := Option.some.inj hr
    exact hid
  refine Oblivious.bind (oblivious_createMessage (fun _ => rfl) (fun _ => hm.1) (fun _ => nofun)
    fun _ => hforward) fun msg hmsg => ?_
  obtain ⟨_, rfl, -⟩ := hmsg
  exact .bind (oblivious_select nofun hforward) fun _ _ =>
    .bind oblivious_touchConversation fun _ _ => .pure trivial

/-! ## Pinned messages -/

namespace Agree
variable {s t : Database}

theorem pinnedPreview (h : Agree o s t) {id : MessageId} (hid : s.pinned id = t.pinned id) :
    s.pinnedPreview id = t.pinnedPreview id := by
  obtain ⟨messages, removedFiles, rfl⟩ := h.rest
  have hview := congrArg (Option.map fun (id, content, sender, _, _) =>
    (⟨id, content, sender⟩ : PinnedPreview)) hid
  simp only [Database.pinned, Option.map_map] at hview
  exact hview

theorem mem_pinsOf {db : Database} {pin : PinnedMessage} (h : pin ∈ db.pinsOf c) :
    pin ∈ db.pins ∧ pin.conversationId = c := by
  rw [Database.pinsOf, List.mem_insertionSort, List.mem_filter] at h
  exact ⟨h.1, of_decide_eq_true h.2⟩

theorem pinned (h : Agree o s t) (hc : ¬o.foreign c) {pin : PinnedMessage}
    (hpin : pin ∈ s.pinsOf c) : s.pinned pin.messageId = t.pinned pin.messageId := by
  obtain ⟨hmem, rfl⟩ := mem_pinsOf hpin
  exact h.pins pin hmem hc

theorem pinsOf (h : Agree o s t) : s.pinsOf c = t.pinsOf c := by
  obtain ⟨messages, removedFiles, rfl⟩ := h.rest
  rfl

/-- The pinned message that a conversation shows. -/
theorem latestPin (h : Agree o s t) (hc : ¬o.foreign c) :
    ((s.pinsOf c).head?.bind fun pin => s.pinnedPreview pin.messageId) =
      (t.pinsOf c).head?.bind fun pin => t.pinnedPreview pin.messageId := by
  rw [← h.pinsOf]
  exact Option.bind_congr fun pin hpin =>
    h.pinnedPreview (h.pinned hc (List.mem_of_mem_head? hpin))

end Agree

theorem oblivious_removePinnedMessage {id : MessageId} :
    Oblivious (Agree o) (removePinnedMessage o.user c id) fun _ => True := by
  unfold removePinnedMessage
  refine .bind (oblivious_assertAdmin fun _ _ h => h) fun _ hm => ?_
  refine .bind (.modify fun s t hst => ?_) fun _ _ => ?_
  · obtain ⟨messages, removedFiles, rfl⟩ := hst.rest
    exact hst.set (fun pin hpin hc => hst.pins pin (List.mem_of_mem_filter hpin) hc) hst.outsider
      (Nat.le_refl _) hst.kept
  refine .bind (oblivious_rest (fun _ _ h => h) fun _ _ _ => rfl) fun _ _ => ?_
  exact .bind (oblivious_reads fun s t hst => hst.latestPin hm.1) fun _ _ => .pure trivial

theorem oblivious_getPinnedMessages :
    Oblivious (Agree o) (getPinnedMessages o.user c) fun _ => True := by
  unfold getPinnedMessages
  refine .bind (oblivious_assertMember fun _ _ h => h) fun _ hm => oblivious_reads fun s t hst => ?_
  rw [← hst.pinsOf]
  refine List.map_congr_left fun pin hpin => ?_
  have hpinned := hst.pinned hm.1 hpin
  have htype := congrArg (Option.bind · fun (_, _, _, fileType, _) => fileType) hpinned
  have hurl := congrArg (Option.bind · fun (_, _, _, _, fileUrl) => fileUrl) hpinned
  simp only [Database.pinned, Option.bind_map, Function.comp_def] at htype hurl
  rw [hst.pinnedPreview hpinned, htype, hurl]
  obtain ⟨messages, removedFiles, rfl⟩ := hst.rest
  rfl

theorem Agree.pinned_own {s t : Database} (h : Agree o s t) {id : MessageId} (hid : o.Owns id) :
    s.pinned id = t.pinned id := by
  have hrow := (h.findMessage hid).1
  obtain ⟨messages, removedFiles, rfl⟩ := h.rest
  exact congrArg (Option.map fun m => (m.id, m.content, s.author m.senderId, m.fileType, m.fileUrl))
    hrow

theorem oblivious_upsertPin {now : Time} {id : MessageId} (hid : o.Owns id) :
    Oblivious (Agree o) (upsertPin now o.user c id) fun _ => True := by
  unfold upsertPin
  refine .modify fun s t hst => ?_
  have hown := hst.pinned_own hid
  obtain ⟨messages, removedFiles, rfl⟩ := hst.rest
  dsimp only
  split
  · refine hst.set (fun pin' hpin' hc => ?_) hst.outsider (Nat.le_refl _) hst.kept
    obtain ⟨pin, hpin, rfl⟩ := List.mem_map.mp hpin'
    split
    · rw [if_pos ‹_›] at hc
      exact hst.pins pin hpin hc
    · rw [if_neg ‹_›] at hc
      exact hst.pins pin hpin hc
  · refine hst.set (fun pin hpin hc => ?_) hst.outsider (Nat.le_refl _) hst.kept
    rcases List.mem_append.mp hpin with hpin | hpin
    · exact hst.pins pin hpin hc
    · rw [List.mem_singleton.mp hpin]
      exact hown

theorem oblivious_addPinnedMessage_own {now : Time} {id : MessageId} (hid : o.Owns id) :
    Oblivious (Agree o) (addPinnedMessage now o.user c id) fun _ => True := by
  unfold addPinnedMessage
  refine .bind (oblivious_assertAdmin fun _ _ h => h) fun _ _ => ?_
  refine .bind (oblivious_findMessage hid) fun _ _ => .bind (.orThrow _ _) fun msg _ => ?_
  refine .bind (.demand _ _) fun _ _ => ?_
  refine .bind (oblivious_rest (fun _ _ h => h) fun _ _ _ => rfl) fun _ _ => .bind (.demand _ _) fun _ _ => ?_
  refine .bind (oblivious_upsertPin hid) fun _ _ => ?_
  refine .bind (oblivious_reads fun s t hst => hst.pinnedPreview (hst.pinned_own hid)) fun _ _ => ?_
  exact .bind (oblivious_rest (fun _ _ h => h) fun _ _ _ => rfl) fun _ _ => .pure trivial

/-- A message of another conversation cannot be pinned, whether it exists or not. -/
theorem oblivious_addPinnedMessage {now : Time} {id : MessageId} :
    Oblivious (Agree o) (addPinnedMessage now o.user c id) fun _ => True := by
  refine oblivious_by_row id (oblivious_addPinnedMessage_own (o.owns_own id)) ?_
  unfold addPinnedMessage
  refine Oblivious.bindRelated (oblivious_assertAdmin fun _ _ h => h.1) fun _ hown => ?_
  refine Related.bind (V := fun a b => a.filter (·.conversationId = c) = none ∧
    b.filter (·.conversationId = c) = none) ?_ fun a b ⟨ha, hb⟩ => ?_
  · unfold findMessage
    refine .reads fun s t hst => ?_
    have hother : ∀ {db : Database}, db.IsForeign o id →
        (db.message? id).filter (·.conversationId = c) = none := by
      intro db hdb
      rw [Option.filter_eq_none_iff]
      intro m hm hc
      exact hown.1 ((of_decide_eq_true hc) ▸ (hdb m hm).1)
    exact ⟨hother hst.2.1, hother hst.2.2⟩
  · rw [ha, hb]
    exact Related.bind (V := fun _ _ => False) (.throw _) fun _ _ h => h.elim

theorem oblivious_clearMessages {now : Time} {scope : Scope} :
    Oblivious (Agree o) (clearMessages now o.user c scope) fun _ => True := by
  unfold clearMessages
  refine .bind (oblivious_assertMember fun _ _ h => h) fun member hm => ?_
  refine .bind (oblivious_findConversation fun _ _ h => h) fun _ _ => .bind (.orThrow _ _) fun conv _ => ?_
  cases scope with
  | self => exact .bind (oblivious_updateMembers fun _ => ⟨rfl, rfl⟩) fun _ _ => .pure trivial
  | both =>
    refine .bind (.demand _ _) fun _ _ => ?_
    refine .bind (oblivious_updateMessages (fun _ => ⟨rfl, rfl, rfl, rfl, rfl⟩)
      fun s t hst m _ hp => ?_) fun _ _ => ?_
    · exact (of_decide_eq_true hp).1 ▸ hm.1
    refine .bind (.modify fun s t hst => ?_) fun _ _ => ?_
    · obtain ⟨messages, removedFiles, rfl⟩ := hst.rest
      exact hst.set (fun pin hpin hc => hst.pins pin (List.mem_of_mem_filter hpin) hc) hst.outsider
        (Nat.le_refl _) hst.kept
    refine .bind (oblivious_updateMembers fun _ => ⟨rfl, rfl⟩) fun _ _ => ?_
    exact .bind oblivious_touchConversation fun _ _ => .pure trivial

/-! ## The list of conversations -/

/-- What the list shows of a conversation that is not foreign. -/
theorem Agree.summary {s t : Database} (h : Agree o s t) {conv : Conversation}
    (hc : ¬o.foreign conv.id) {now : Time} {u : UserId} {m : ConversationMember} :
    s.summary now u m conv = t.summary now u m conv := by
  have hlast := h.newest hc (p := fun msg => decide (msg.conversationId = conv.id) &&
    msg.deletedAt.isNone && scheduledFilter now u msg) fun msg hmsg => by
      simp only [Bool.and_eq_true, decide_eq_true_eq] at hmsg
      exact hmsg.1.1
  have hunread := h.filter hc (p := fun msg => decide (msg.conversationId = conv.id) &&
    decide (msg.senderId ≠ u) && msg.deletedAt.isNone && decide (m.lastReadAt < msg.createdAt) &&
    scheduledFilter now u msg) fun msg hmsg => by
      simp only [Bool.and_eq_true, decide_eq_true_eq] at hmsg
      exact hmsg.1.1.1.1
  have hpin := h.latestPin hc
  obtain ⟨messages, removedFiles, rfl⟩ := h.rest
  simp only [Database.summary, hlast, hunread, hpin]
  rfl

theorem oblivious_getMyConversations {now : Time} {skip take : Nat} {showArchived : Bool} :
    Oblivious (Agree o) (getMyConversations now o.user skip take showArchived) fun _ => True := by
  unfold getMyConversations
  refine .bind (oblivious_rest (fun _ _ h => h) fun _ _ _ => rfl) fun memberships hmem => ?_
  have hown : ∀ m ∈ memberships, ¬o.foreign m.2.id := by
    obtain ⟨s, t, hst, rfl⟩ := hmem
    intro ⟨m, conv⟩ hm
    have hm' := List.mem_of_mem_drop (List.mem_of_mem_take hm)
    rw [Database.memberships, List.mem_insertionSort, List.mem_filterMap] at hm'
    obtain ⟨m', hm', hconv⟩ := hm'
    obtain ⟨hmem, hp⟩ := List.mem_filter.mp hm'
    obtain ⟨conv', hfind, heq⟩ := Option.map_eq_some_iff.mp hconv
    cases heq
    have hid : conv.id = m.conversationId := by simpa using List.find?_some hfind
    rw [hid]
    exact hst.outsider _ (Database.isMember_iff.mpr ⟨m, hmem, rfl, (of_decide_eq_true hp).1⟩)
  refine .bind (oblivious_reads fun s t hst => ?_) fun _ _ => .pure trivial
  exact List.map_congr_left fun m hm => hst.summary (hown m (List.mem_of_mem_take hm))

end Vesper.Server
