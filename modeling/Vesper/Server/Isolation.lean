import Vesper.Server.Gateway

/-!
# Databases that a user cannot tell apart

`Agree` relates two databases that differ only in the messages of conversations foreign to a user.
No method of the service tells them apart when that user calls it, as long as the foreign messages
that the call names look the same: each method is `Oblivious` of the difference, and keeps it. The
relation also carries memberships that no method here ends, so that on the diagonal it says what one
run keeps.
-/

namespace Vesper.Server
open Program

def Database.IsMember (db : Database) (c : ConversationId) (u : UserId) : Prop :=
  (db.member? c u).isSome

instance (db : Database) (c : ConversationId) (u : UserId) : Decidable (db.IsMember c u) :=
  inferInstanceAs (Decidable (_ = true))

theorem Database.isMember_iff {db : Database} {c : ConversationId} {u : UserId} :
    db.IsMember c u ↔ ∃ m ∈ db.members, m.conversationId = c ∧ m.userId = u := by
  simp [IsMember, member?]

/-- What a user is kept from, and the messages that the user names. -/
structure Outlook where
  user : UserId
  /-- The conversations that are none of the user's. -/
  foreign : ConversationId → Prop
  /-- Memberships that have to stay. -/
  kept : ConversationId → UserId → Prop
  /-- No foreign message has an identifier from here on. -/
  start : MessageId
  /-- Further identifiers of no foreign message. -/
  owned : MessageId → Prop
  /-- Messages that are replied to. -/
  replied : MessageId → Prop
  /-- Messages that are forwarded. -/
  copied : MessageId → Prop
  /-- Messages of which it may show whether they exist. -/
  sought : MessageId → Prop

def Outlook.Owns (o : Outlook) (id : MessageId) : Prop := o.owned id ∨ o.start ≤ id

/-- The outlook in which an identifier is known to be of no foreign message. -/
abbrev Outlook.own (o : Outlook) (id : MessageId) : Outlook :=
  { o with owned := fun id' => id' = id ∨ o.owned id' }

theorem Outlook.owns_own (o : Outlook) (id : MessageId) : (o.own id).Owns id := .inl (.inl rfl)

/-- What forwarding a message takes from it. -/
def Message.copy (m : Message) :=
  (m.id, m.content, m.fileUrl, m.fileName, m.fileType, m.fileSize, m.senderId)

/-- What the list of pins shows of a message. -/
def Database.pinned (db : Database) (id : MessageId) :=
  (db.message? id).map fun m => (m.id, m.content, db.author m.senderId, m.fileType, m.fileUrl)

/-- The messages that `m` refers to look the same. -/
def SameReferences (s t : Database) (m : Message) : Prop :=
  (∀ id ∈ m.replyToId, s.replyTo id = t.replyTo id) ∧
    ∀ id ∈ m.forwardedFromId, s.forwardedFrom id = t.forwardedFrom id

/-- The messages of one of two databases that agree: their keys are unique and drawn from the
sequence, and the user wrote none of the foreign ones. -/
structure Outlook.Table (o : Outlook) (next : MessageId) (messages : List Message) : Prop where
  keys : (messages.map (·.id)).Nodup
  below : ∀ m ∈ messages, m.id < next
  author : ∀ m ∈ messages, o.foreign m.conversationId → m.senderId ≠ o.user

structure Agree (o : Outlook) (s t : Database) : Prop where
  rest : ∃ messages removedFiles, t = { s with messages, removedFiles }
  left : o.Table s.nextMessageId s.messages
  right : o.Table t.nextMessageId t.messages
  visible : ∀ c, ¬o.foreign c →
    s.messages.filter (·.conversationId = c) = t.messages.filter (·.conversationId = c)
  references : ∀ m ∈ s.messages, ¬o.foreign m.conversationId → SameReferences s t m
  pins : ∀ pin ∈ s.pins, ¬o.foreign pin.conversationId →
    s.pinned pin.messageId = t.pinned pin.messageId
  outsider : ∀ c, s.IsMember c o.user → ¬o.foreign c
  old : ∀ c, o.foreign c → c < s.nextConversationId
  kept : ∀ c u, o.kept c u → s.IsMember c u
  owned : ∀ m, m ∈ s.messages ∨ m ∈ t.messages → o.Owns m.id → ¬o.foreign m.conversationId
  start : o.start ≤ s.nextMessageId
  replied : ∀ id, o.replied id → s.replyTo id = t.replyTo id
  copied : ∀ id, o.copied id → (s.message? id).map Message.copy = (t.message? id).map Message.copy
  sought : ∀ id, o.sought id → (s.message? id).isSome = (t.message? id).isSome

/-! ## Rows -/

/-- The row of an identifier in a table. -/
def row? (messages : List Message) (id : MessageId) : Option Message := messages.find? (·.id = id)

theorem row?_map {l : List Message} {g : Message → Message} (hid : ∀ m, (g m).id = m.id)
    (id : MessageId) : row? (l.map g) id = (row? l id).map g := by
  simp only [row?, List.find?_map, Function.comp_def, hid]

theorem row?_append (l : List Message) (m : Message) (id : MessageId) :
    row? (l ++ [m]) id = (row? l id).or (if m.id = id then some m else none) := by
  rw [row?, List.find?_append, List.find?_singleton]
  simp [row?]

theorem Outlook.Table.row? {o : Outlook} {next : MessageId} {l : List Message}
    (h : o.Table next l) {m : Message} {id : MessageId} :
    row? l id = some m ↔ m ∈ l ∧ m.id = id := by
  constructor
  · intro hm
    exact ⟨List.mem_of_find?_eq_some hm, by simpa using List.find?_some hm⟩
  · rintro ⟨hm, rfl⟩
    obtain ⟨m', hm'⟩ : ∃ m', Server.row? l m.id = some m' := by
      rw [← Option.isSome_iff_exists, Server.row?, List.find?_isSome]
      exact ⟨m, hm, by simp⟩
    have hid : m'.id = m.id := by simpa using List.find?_some hm'
    rw [hm', List.inj_on_of_nodup_map h.keys (List.mem_of_find?_eq_some hm') hm hid]

namespace Agree
variable {o : Outlook} {s t : Database}

/-- The rows of an identifier: the same one, or none that is not foreign. -/
theorem row (h : Agree o s t) (id : MessageId) :
    (∃ m, ¬o.foreign m.conversationId ∧ s.message? id = some m ∧ t.message? id = some m) ∨
      (∀ m, s.message? id = some m → o.foreign m.conversationId) ∧
        ∀ m, t.message? id = some m → o.foreign m.conversationId := by
  have hmem : ∀ m, ¬o.foreign m.conversationId → (m ∈ s.messages ↔ m ∈ t.messages) := by
    intro m hm
    have hfilter := congrArg (m ∈ ·) (h.visible _ hm)
    simpa [List.mem_filter] using hfilter
  by_cases hown : ∃ m, ¬o.foreign m.conversationId ∧ s.message? id = some m
  · obtain ⟨m, hm, hs⟩ := hown
    obtain ⟨hmem', hid⟩ := h.left.row?.mp hs
    exact .inl ⟨m, hm, hs, h.right.row?.mpr ⟨(hmem m hm).mp hmem', hid⟩⟩
  · refine .inr ⟨fun m hs => ?_, fun m ht => ?_⟩ <;> by_contra hm
    · exact hown ⟨m, hm, hs⟩
    · obtain ⟨hmem', hid⟩ := h.right.row?.mp ht
      exact hown ⟨m, hm, h.left.row?.mpr ⟨(hmem m hm).mpr hmem', hid⟩⟩

/-- The messages of one conversation that meet a condition. -/
theorem filter (h : Agree o s t) {c : ConversationId} (hc : ¬o.foreign c) {p : Message → Bool}
    (hp : ∀ m, p m → m.conversationId = c) : s.messages.filter p = t.messages.filter p := by
  have hsplit : p = fun m => p m && decide (m.conversationId = c) := by
    funext m
    rcases hm : p m
    · rfl
    · simp [hp m hm]
  rw [hsplit, ← List.filter_filter, ← List.filter_filter, h.visible c hc]

/-- Changes of the two tables of messages. What is read of a row stays the same if it was. -/
theorem change (h : Agree o s t) {next : MessageId} {l r : List Message}
    (hleft : o.Table next l) (hright : o.Table next r)
    (hvisible : ∀ c, ¬o.foreign c →
      l.filter (·.conversationId = c) = r.filter (·.conversationId = c))
    (hreferences : ∀ m ∈ l, ¬o.foreign m.conversationId → SameReferences s t m)
    (howned : ∀ m, m ∈ l ∨ m ∈ r → o.Owns m.id → ¬o.foreign m.conversationId)
    (hnext : s.nextMessageId ≤ next)
    (hrow : ∀ {α : Type} (view : Message → α) (id : MessageId),
      (s.message? id).map view = (t.message? id).map view →
      (row? l id).map view = (row? r id).map view) :
    Agree o { s with nextMessageId := next, messages := l }
      { t with nextMessageId := next, messages := r } := by
  obtain ⟨messages, removedFiles, rfl⟩ := h.rest
  exact {
    rest := ⟨r, removedFiles, rfl⟩
    left := hleft
    right := hright
    visible := hvisible
    references := fun m hm hc =>
      ⟨fun id hid => hrow _ id ((hreferences m hm hc).1 id hid),
        fun id hid => hrow _ id ((hreferences m hm hc).2 id hid)⟩
    pins := fun pin hpin hc => hrow _ _ (h.pins pin hpin hc)
    outsider := h.outsider
    old := h.old
    kept := h.kept
    owned := howned
    start := Nat.le_trans h.start hnext
    replied := fun id hid => hrow _ id (h.replied id hid)
    copied := fun id hid => hrow _ id (h.copied id hid)
    sought := fun id hid => by
      have hsome : ∀ {o o' : Option Message},
          o.map (fun _ => ()) = o'.map (fun _ => ()) ↔ o.isSome = o'.isSome := by
        intro o o'
        cases o <;> cases o' <;> simp
      exact hsome.mp (hrow _ id (hsome.mpr (h.sought id hid))) }

/-- An update of messages that are not foreign. -/
theorem mapMessages (h : Agree o s t) {g : Message → Message}
    (hg : ∀ m, (g m).id = m.id ∧ (g m).conversationId = m.conversationId ∧
      (g m).senderId = m.senderId ∧ (g m).replyToId = m.replyToId ∧
      (g m).forwardedFromId = m.forwardedFromId)
    (hforeign : ∀ m, m ∈ s.messages ∨ m ∈ t.messages → o.foreign m.conversationId → g m = m) :
    Agree o { s with messages := s.messages.map g } { t with messages := t.messages.map g } := by
  have htable : ∀ {next l}, o.Table next l → o.Table next (l.map g) := by
    intro next l hl
    refine ⟨by simpa [Function.comp_def, hg] using hl.keys, ?_, ?_⟩ <;> intro m' hm' <;>
      obtain ⟨m, hm, rfl⟩ := List.mem_map.mp hm' <;> simp only [hg]
    · exact hl.below m hm
    · exact hl.author m hm
  have hid := fun m => (hg m).1
  obtain ⟨messages, removedFiles, rfl⟩ := h.rest
  refine h.change (htable h.left) (htable h.right) ?_ ?_ ?_ (Nat.le_refl _) ?_
  · intro c hc
    simp only [List.filter_map, Function.comp_def, hg, h.visible c hc]
  · intro m' hm' hc
    obtain ⟨m, hm, rfl⟩ := List.mem_map.mp hm'
    rw [(hg m).2.1] at hc
    simpa only [SameReferences, hg] using h.references m hm hc
  · intro m' hm'
    rw [← List.mem_append, ← List.map_append] at hm'
    obtain ⟨m, hm, rfl⟩ := List.mem_map.mp hm'
    rw [(hg m).1, (hg m).2.1]
    exact h.owned m (List.mem_append.mp hm)
  · intro α view id hview
    have hstay : ∀ {db : Database}, (∀ m ∈ db.messages, o.foreign m.conversationId → g m = m) →
        (∀ m, db.message? id = some m → o.foreign m.conversationId) →
        (db.message? id).map g = db.message? id := by
      intro db hdb hrow
      rcases hm : db.message? id with _ | m
      · rfl
      · exact congrArg some (hdb m (List.mem_of_find?_eq_some hm) (hrow m hm))
    rw [row?_map hid, row?_map hid]
    rcases h.row id with ⟨m, -, hs, ht⟩ | ⟨hs, ht⟩
    · exact congrArg (fun r => (r.map g).map view) (hs.trans ht.symm)
    · exact ((congrArg _ (hstay (fun m hm => hforeign m (.inl hm)) hs)).trans hview).trans
        (congrArg _ (hstay (fun m hm => hforeign m (.inr hm)) ht)).symm

/-- A new message in a conversation that is not foreign. -/
theorem insertMessage (h : Agree o s t) {m : Message} (hid : m.id = s.nextMessageId)
    (hc : ¬o.foreign m.conversationId) (hm : SameReferences s t m) :
    Agree o { s with nextMessageId := m.id + 1, messages := s.messages ++ [m] }
      { t with nextMessageId := m.id + 1, messages := t.messages ++ [m] } := by
  have hnext : t.nextMessageId = m.id := by
    obtain ⟨_, _, rfl⟩ := h.rest
    exact hid.symm
  have htable : ∀ {l}, o.Table m.id l → o.Table (m.id + 1) (l ++ [m]) := by
    intro l hl
    refine ⟨?_, ?_, ?_⟩
    · rw [List.map_append, List.nodup_append]
      refine ⟨hl.keys, List.nodup_singleton _, fun a ha b hb => ?_⟩
      obtain ⟨m', hm', rfl⟩ := List.mem_map.mp ha
      rw [List.mem_singleton.mp hb]
      exact Nat.ne_of_lt (hl.below m' hm')
    · intro m' hm'
      rcases List.mem_append.mp hm' with hm' | hm'
      · exact Nat.lt_succ_of_lt (hl.below m' hm')
      · rw [List.mem_singleton.mp hm']
        exact Nat.lt_succ_self _
    · intro m' hm' hforeign
      rcases List.mem_append.mp hm' with hm' | hm'
      · exact hl.author m' hm' hforeign
      · rw [List.mem_singleton.mp hm'] at hforeign
        exact absurd hforeign hc
  refine h.change (htable (hid ▸ h.left)) (htable (hnext ▸ h.right)) ?_ ?_ ?_
    (hid ▸ Nat.le_succ _) ?_
  · intro c hc'
    rw [List.filter_append, List.filter_append, h.visible c hc']
  · intro m' hm' hc'
    rcases List.mem_append.mp hm' with hm' | hm'
    · exact h.references m' hm' hc'
    · rwa [List.mem_singleton.mp hm']
  · intro m' hm' ho
    simp only [List.mem_append, List.mem_singleton] at hm'
    rcases hm' with (hm' | rfl) | hm' | rfl
    · exact h.owned m' (.inl hm') ho
    · exact hc
    · exact h.owned m' (.inr hm') ho
    · exact hc
  · intro α view id hview
    rw [row?_append, row?_append, Option.map_or, Option.map_or]
    exact congrArg (Option.or · _) hview

/-- A failed insert advances the sequence. -/
theorem skipMessageId (h : Agree o s t) :
    Agree o { s with nextMessageId := s.nextMessageId + 1 }
      { t with nextMessageId := t.nextMessageId + 1 } := by
  obtain ⟨messages, removedFiles, rfl⟩ := h.rest
  have htable : ∀ {l}, o.Table s.nextMessageId l → o.Table (s.nextMessageId + 1) l :=
    fun hl => ⟨hl.keys, fun m hm => Nat.lt_succ_of_lt (hl.below m hm), hl.author⟩
  exact h.change (htable h.left) (htable h.right) h.visible h.references h.owned (Nat.le_succ _)
    fun view id hview => hview

/-- Changes of the other tables. -/
theorem set (h : Agree o s t) {conversations : List Conversation}
    {members : List ConversationMember} {pins : List PinnedMessage}
    {senderKeys : List GroupSenderKey} {nextConversationId nextPinId : Nat}
    (hpins : ∀ pin ∈ pins, ¬o.foreign pin.conversationId →
      s.pinned pin.messageId = t.pinned pin.messageId)
    (houtsider : ∀ c, { s with members }.IsMember c o.user → ¬o.foreign c)
    (hold : s.nextConversationId ≤ nextConversationId)
    (hkept : ∀ c u, o.kept c u → { s with members }.IsMember c u) :
    Agree o
      { s with conversations, members, pins, senderKeys, nextConversationId, nextPinId }
      { t with conversations, members, pins, senderKeys, nextConversationId, nextPinId } := by
  obtain ⟨messages, removedFiles, rfl⟩ := h.rest
  exact { h with
    rest := ⟨messages, removedFiles, rfl⟩
    pins := hpins
    outsider := houtsider
    old := fun c hc => Nat.lt_of_lt_of_le (h.old c hc) hold
    kept := hkept }

/-- What forwarding takes from a message is all that its copy shows of it. -/
theorem forwardedFrom (h : Agree o s t) {id : MessageId} (hid : o.copied id) :
    s.forwardedFrom id = t.forwardedFrom id := by
  have hcopy := h.copied id hid
  obtain ⟨messages, removedFiles, rfl⟩ := h.rest
  have hview := congrArg (Option.map fun (id, content, _, _, fileType, _, senderId) =>
    (⟨id, content, fileType, s.author senderId⟩ : ForwardedFrom)) hcopy
  simp only [Option.map_map] at hview
  exact hview

/-- A message that refers only to messages that were named. -/
theorem named (h : Agree o s t) {m : Message} (hreply : ∀ id ∈ m.replyToId, o.replied id)
    (hforward : ∀ id ∈ m.forwardedFromId, o.copied id) : SameReferences s t m :=
  ⟨fun id hid => h.replied id (hreply id hid), fun id hid => h.forwardedFrom (hforward id hid)⟩

theorem own (h : Agree o s t) {id : MessageId}
    (hid : ∀ m, m ∈ s.messages ∨ m ∈ t.messages → m.id = id → ¬o.foreign m.conversationId) :
    Agree (o.own id) s t :=
  { h with
    left := ⟨h.left.keys, h.left.below, h.left.author⟩
    right := ⟨h.right.keys, h.right.below, h.right.author⟩
    owned := fun m hm ho => (or_assoc.mp ho).elim (hid m hm) (h.owned m hm) }

theorem disown {id : MessageId} (h : Agree (o.own id) s t) : Agree o s t :=
  { h with
    left := ⟨h.left.keys, h.left.below, h.left.author⟩
    right := ⟨h.right.keys, h.right.below, h.right.author⟩
    owned := fun m hm ho => h.owned m hm (or_assoc.mpr (.inr ho)) }

end Agree

end Vesper.Server
