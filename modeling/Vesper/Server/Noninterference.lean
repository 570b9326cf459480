import Vesper.Server.Rooms

/-!
# What a user learns of foreign conversations

Two runs of the same requests of a user, from states that differ only in messages of conversations
that are foreign to the user. The server answers alike as long as a request names no foreign message
that the two states show differently: a reply target, the original of a forwarded message, a cursor,
or a message to delete or to edit.
-/

namespace Vesper.Server
open Program

/-! ## Two states -/

section
variable (u : UserId) (foreign : ConversationId → Prop) (s t : Database)

/-- The databases differ only in messages of foreign conversations. The user is no member of these and
has written nothing in them, as when the user has never been a member. -/
structure Database.Apart : Prop where
  rest : ∃ messages, t = { s with messages }
  left : s.Keyed
  right : t.Keyed
  visible : ∀ c, ¬foreign c →
    s.messages.filter (·.conversationId = c) = t.messages.filter (·.conversationId = c)
  outsider : ∀ c, foreign c → ¬s.IsMember c u
  author : ∀ m, m ∈ s.messages ∨ m ∈ t.messages → foreign m.conversationId → m.senderId ≠ u
  old : ∀ c, foreign c → c < s.nextConversationId

/-- The foreign messages that are shown elsewhere look the same: those that messages of other
conversations reply to or were forwarded from, and those that are pinned in other conversations. -/
structure Database.ShownAlike : Prop where
  references : ∀ m ∈ s.messages, ¬foreign m.conversationId → SameReferences s t m
  pins : ∀ pin ∈ s.pins, ¬foreign pin.conversationId → s.pinned pin.messageId = t.pinned pin.messageId

/-- The outlook that knows exactly of the messages that look the same. -/
def Outlook.between : Outlook where
  user := u
  foreign := foreign
  kept := fun _ _ => False
  start := s.nextMessageId
  owned := fun _ => False
  replied := fun id => s.replyTo id = t.replyTo id
  copied := fun id => (s.message? id).map Message.copy = (t.message? id).map Message.copy
  sought := fun id => (s.message? id).isSome = (t.message? id).isSome

end

section
variable {u : UserId} {foreign : ConversationId → Prop} {s t s₀ t₀ : Database}

theorem Database.Apart.agree (h : s.Apart u foreign t) (hshown : s.ShownAlike foreign t) :
    Agree (.between u foreign s t) s t := by
  obtain ⟨messages, rfl⟩ := h.rest
  exact {
    rest := ⟨messages, s.removedFiles, rfl⟩
    left := ⟨h.left.keys, h.left.below, fun m hm => h.author m (.inl hm)⟩
    right := ⟨h.right.keys, h.right.below, fun m hm => h.author m (.inr hm)⟩
    visible := h.visible
    references := hshown.references
    pins := hshown.pins
    outsider := fun c hc hforeign => h.outsider c hforeign hc
    old := h.old
    kept := fun _ _ h => h.elim
    owned := fun m hm ho => by
      have hbelow : m.id < s.nextMessageId := hm.elim (h.left.below m) (h.right.below m)
      exact absurd (ho.resolve_left id) (Nat.not_le.mpr hbelow)
    start := Nat.le_refl _
    replied := fun _ h => h
    copied := fun _ h => h
    sought := fun _ h => h }

/-- The outlook is taken anew at every step. -/
theorem Agree.renew (h : Agree (.between u foreign s₀ t₀) s t) : Agree (.between u foreign s t) s t := by
  obtain ⟨messages, removedFiles, rfl⟩ := h.rest
  exact { h with
    left := ⟨h.left.keys, h.left.below, h.left.author⟩
    right := ⟨h.right.keys, h.right.below, h.right.author⟩
    kept := fun _ _ h => h.elim
    owned := fun m hm ho => by
      have hbelow : m.id < s.nextMessageId := hm.elim (h.left.below m) (h.right.below m)
      exact absurd (ho.resolve_left id) (Nat.not_le.mpr hbelow)
    start := Nat.le_refl _
    replied := fun _ h => h
    copied := fun _ h => h
    sought := fun _ h => h }

end

/-! ## Requests in two states -/

namespace Gateway

/-- The request is one of the user's. -/
def Asks (s : Gateway) (u : UserId) : Input → Prop
  | .event socket _ => ∃ k ∈ s.socket? socket, k.userId = u
  | .call v _ => v = u
  | _ => False

/-- What the last step has sent to the user: the answer, and what reaches the user's sockets. -/
def received (s : Gateway) (u : UserId) : List Event :=
  (s.emitted.filter fun emission =>
    emission.1 = .caller u ∨ emission.1 = .subscriptions u ∨
      ∃ k ∈ s.receivers emission.1, k.userId = u).map (·.2)

end Gateway

/-- The requests of a user, made in two states. -/
def requests (env : Environment) (u : UserId) (s t : Gateway) :
    Machine (Gateway × Gateway) (Time × Input) where
  init := (s, t)
  enabled p input := p.1.Enabled input.1 input.2 ∧ p.1.Asks u input.2
  next p input := (p.1.next env input, p.2.next env input)

/-- The messages that a request names look the same in the two states, as far as the request shows
them. -/
def NamesAlike (u : UserId) (foreign : ConversationId → Prop) (p : Gateway × Gateway)
    (input : Time × Input) : Prop :=
  match input.2 with
  | .event _ request => request.Known (.between u foreign p.1.db p.2.db)
  | .call _ route => route.Known (.between u foreign p.1.db p.2.db)
  | _ => True

section
variable {env : Environment} {u : UserId} {foreign : ConversationId → Prop} {s t : Gateway}

/-- Two states that have received the same requests. -/
def Alongside (u : UserId) (foreign : ConversationId → Prop) (p : Gateway × Gateway) : Prop :=
  Twin (.between u foreign p.1.db p.2.db) (fun _ => True) p.1 p.2

theorem Alongside.after {p : Gateway × Gateway} (h : Alongside u foreign p) {m : Handler PUnit}
    (hm : Oblivious (Twin (.between u foreign p.1.db p.2.db) fun _ => True) m fun _ => True) :
    Alongside u foreign
      ((m.exec { p.1 with emitted := [] }).2, (m.exec { p.2 with emitted := [] }).2) := by
  have hafter := hm.after (s := { p.1 with emitted := [] }) (t := { p.2 with emitted := [] })
    ⟨h.db, by rw [h.rest], trivial⟩
  exact ⟨hafter.db.renew, hafter.rest, trivial⟩

/-- **One request**: the server does the same in both states. -/
theorem Alongside.next {p : Gateway × Gateway} {input : Time × Input} (h : Alongside u foreign p)
    (hasks : p.1.Asks u input.2) (hnames : NamesAlike u foreign p input) :
    Alongside u foreign (p.1.next env input, p.2.next env input) := by
  obtain ⟨now, input⟩ := input
  cases input with
  | event socket request =>
    obtain ⟨k, hk, hu⟩ := hasks
    have hk' : p.2.socket? socket = some k := by
      rw [h.rest]
      exact hk
    have hprogram : p.1.program env now (.event socket request) = handle env now k request ∧
        p.2.program env now (.event socket request) = handle env now k request := by
      simp only [Gateway.program, Option.mem_def.mp hk, hk', Option.elim_some, and_self]
    simp only [Gateway.next, hprogram]
    exact h.after (oblivious_handle hu hnames fun _ _ _ => trivial)
  | call v route =>
    obtain rfl : v = u := hasks
    exact h.after (oblivious_call hnames)
  | _ => exact hasks.elim

end

/-- **Foreign messages do not matter** to what a user receives, in every state of a run of the user's
requests whose requests name no foreign message that the two states show differently. -/
theorem read_noninterference (env : Environment) (u : UserId) (foreign : ConversationId → Prop)
    (s : Gateway) (db : Database) (hapart : s.db.Apart u foreign db)
    (hshown : s.db.ShownAlike foreign db) {p : Gateway × Gateway}
    (hp : ((requests env u s { s with db }).restrict (NamesAlike u foreign)).Reachable p) :
    p.1.received u = p.2.received u := by
  have halongside : Alongside u foreign p := by
    refine Machine.Reachable.invariant
      (M := (requests env u s { s with db }).restrict (NamesAlike u foreign))
      (I := Alongside u foreign) ⟨hapart.agree hshown, rfl, trivial⟩ ?_ hp
    exact fun p input _ h henabled => h.next henabled.1.2 henabled.2
  rw [halongside.rest]
  rfl

/-! ## Two chats -/

/-- Users 1 and 2 have a conversation with one message, user 3 has one alone. -/
def twoChats (content : Text) : Gateway where
  db := {
    users := [sampleUser 1, sampleUser 2, sampleUser 3]
    devices := []
    conversations := [⟨1, .direct, none, none, none, 1, 0, 0⟩, ⟨2, .direct, none, none, none, 3, 0, 0⟩]
    members := [.joining 0 1 1 .member, .joining 0 1 2 .member, .joining 0 2 3 .member]
    messages := [.blank 1 0 1 1 content]
    pins := []
    senderKeys := []
    nextMessageId := 2
    nextConversationId := 3
    nextPinId := 1
    removedFiles := [] }
  limiters := initialLimiters
  sockets := [⟨30, 3, [], [2]⟩]
  activeUsers := fun u => if u = 3 then [30] else []
  jobs := []
  timers := []
  emitted := []

theorem twoChats_apart (a b : Text) : (twoChats a).db.Apart 3 (· = 1) (twoChats b).db where
  rest := ⟨_, rfl⟩
  left := ⟨by simp [twoChats], by simp [twoChats, Message.blank]⟩
  right := ⟨by simp [twoChats], by simp [twoChats, Message.blank]⟩
  visible := fun c hc => by simp [twoChats, Message.blank, Ne.symm hc]
  outsider := by
    rintro _ rfl
    simp [Database.isMember_iff, twoChats, ConversationMember.joining]
  author := by
    simp [twoChats, Message.blank]
  old := by
    rintro _ rfl
    simp [twoChats]

theorem twoChats_shownAlike (a b : Text) : (twoChats a).db.ShownAlike (· = 1) (twoChats b).db where
  references := by simp [twoChats, Message.blank]
  pins := by simp [twoChats]

/-- User 3 writes, forwards the message and reads both. -/
def soloRun : List (Time × Input) := [
  (1, .event 30 (.sendMessage (sampleMessage 2))), (2, .call 3 (.forwardMessage 2 2)),
  (3, .call 3 (.getMessages 2 none none none))]

theorem read_noninterference_sample :
    ((requests sampleEnvironment 3 (twoChats [0x61]) (twoChats [0x62])).exec
        (twoChats [0x61], twoChats [0x62]) soloRun).1.received 3 =
      ((requests sampleEnvironment 3 (twoChats [0x61]) (twoChats [0x62])).exec
        (twoChats [0x61], twoChats [0x62]) soloRun).2.received 3 := by
  refine read_noninterference sampleEnvironment 3 (· = 1) (twoChats [0x61]) (twoChats [0x62]).db
    (twoChats_apart _ _) (twoChats_shownAlike _ _) (Machine.reachable_iff.mpr ⟨soloRun, ?_, rfl⟩)
  refine ⟨⟨⟨by decide +kernel, ⟨30, 3, [], [2]⟩, rfl, rfl⟩, fun _ _ h => by cases h⟩,
    ⟨⟨by decide +kernel, rfl⟩, fun _ => congrArg (Option.map Message.copy) ?_⟩,
    ⟨⟨by decide +kernel, rfl⟩, fun _ _ h => by cases h⟩, trivial⟩
  decide +kernel

/-- User 3 asks for message 1, which nothing but its number is known of. -/
theorem forward_leaks :
    (twoChats [0x61]).db.Apart 3 (· = 1) (twoChats [0x62]).db ∧
      (requests sampleEnvironment 3 (twoChats [0x61]) (twoChats [0x62])).enabled
        (twoChats [0x61], twoChats [0x62]) (1, .call 3 (.forwardMessage 1 2)) ∧
      ((twoChats [0x61]).next sampleEnvironment (1, .call 3 (.forwardMessage 1 2))).received 3 ≠
        ((twoChats [0x62]).next sampleEnvironment (1, .call 3 (.forwardMessage 1 2))).received 3 :=
  ⟨twoChats_apart _ _, ⟨by decide +kernel, rfl⟩, by decide +kernel⟩

end Vesper.Server
