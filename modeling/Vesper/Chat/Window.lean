import Vesper.Lib.Machine
import Vesper.Chat.Messages
import Vesper.Chat.Pages

/-!
# The window on the history

The loads of `useMessages` and the messages that come in live, on one list. A load suspends until the
server has answered, until the answer is there, and until its messages are decrypted; a live message
suspends while it is decrypted. What they are decrypted to is left out: the list is about identifiers here.
-/

namespace Vesper.Chat
open Server

/-! ## The hook -/

inductive Key
  | id (id : MessageId)
  | queueId (queueId : Nat)
  deriving DecidableEq

/-- `m.id ?? m._queueId` -/
def Message.key (m : Message) : Option Key :=
  match m.id with
  | some id => some (.id id)
  | none => m.queueId.map .queueId

/-- The loop of `deduplicateMessages`. -/
def deduplicate (seen : List Key) : List Message → List Message
  | [] => []
  | m :: ms =>
    match m.key with
    | none => deduplicate seen ms
    | some key => if key ∈ seen then deduplicate seen ms else m :: deduplicate (key :: seen) ms

def deduplicateMessages (msgs : List Message) : List Message := deduplicate [] msgs

/-- A message of a page. -/
def Message.ofServer (m : Server.Message) : Message where
  id := some m.id
  senderId := m.senderId
  content := m.content
  fileUrl := m.fileUrl
  editedAt := m.editedAt
  senderDeviceId := m.senderDeviceId
  envelopes := m.envelopes
  isPending := false
  queueId := none
  pendingCipher := none
  send := none

structure Flags where
  hasMore : Bool
  hasMoreNewer : Bool
  isLoadingMore : Bool
  isLoadingNewer : Bool
  deriving DecidableEq

/-- A load that is under way: the page, once the server has answered, and whether the answer is there. -/
structure Load where
  kind : LoadKind
  page : Option (List Message)
  received : Bool
  deriving DecidableEq

/-- A message that `onMessage` gets, or `messageScheduled`. -/
structure Live where
  msg : Message
  isScheduled : Bool
  deriving DecidableEq

/-- `inbox` is what the server has emitted to the socket, `rendered` are the flags that the callbacks see.
`loaded` tells whether a page has been put in since the conversation was opened; nothing reads it. -/
structure Window where
  view : View
  inbox : List Live
  handlers : List Live
  messages : List Message
  messagesRef : List Message
  flags : Flags
  rendered : Flags
  loads : List Load
  loaded : Bool

inductive WindowEvent
  /-- The server goes on, and announces messages to this client. -/
  | server (view : View) (announced : List Live)
  | disconnect
  | deliver
  | handle (j : Nat)
  /-- An entry of `sendMessage` or `sendFileMessage`. -/
  | optimistic (m : Message)
  | render
  /-- The effect of the initial load. -/
  | openConversation
  | loadMoreMessages
  | loadNewerMessages
  | jumpToMessage (messageId : MessageId)
  | resetToLatest
  | serve (j : Nat)
  | receive (j : Nat)
  | apply (j : Nat)
  | fail (j : Nat)

/-- The identifiers of the confirmed messages. -/
def confirmed (messages : List Message) : List MessageId := messages.filterMap (·.id)

namespace Window
variable (s : Window) (currentUserId : UserId) (conversationId : ConversationId)

def start (view : View) : Window :=
  ⟨view, [], [], [], [], ⟨true, false, false, false⟩, ⟨true, false, false, false⟩, [], false⟩

def request (kind : LoadKind) : Window := { s with loads := s.loads ++ [⟨kind, none, false⟩] }

def drop (j : Nat) : Window := { s with loads := s.loads.eraseIdx j }

/-- What the updater of the list makes of a live message, and whether it clears `hasMoreNewer`. -/
def placeLive (live : Live) (prev : List Message) : List Message × Bool :=
  if live.isScheduled then (addScheduled live.msg prev, false)
  else if live.msg.senderId = currentUserId then mergeEcho currentUserId live.msg.content live.msg prev
  else mergePeer live.msg prev

/-- What a load does once its answer is there. -/
def receive (j : Nat) (load : Load) (page : List Message) : Window :=
  let s := { s with loads := s.loads.set j { load with received := true } }
  match load.kind with
  | .more _ => if page.length < 30 then { s with flags := { s.flags with hasMore := false } } else s
  | .newer _ =>
    if page = [] then
      { s.drop j with flags := { s.flags with hasMoreNewer := false, isLoadingNewer := false } }
    else if page.length < 30 then { s with flags := { s.flags with hasMoreNewer := false } }
    else s
  | .initial | .around _ | .latest => s

/-- What a load does once its messages are decrypted. -/
def apply (kind : LoadKind) (page : List Message) : Window :=
  match kind with
  | .initial =>
    { s with messages := page, flags := { s.flags with hasMore := 30 ≤ page.length }, loaded := true }
  | .more _ =>
    { s with
      messages := deduplicateMessages (page ++ s.messages)
      flags := { s.flags with isLoadingMore := false } }
  | .newer _ =>
    { s with
      messages := deduplicateMessages (s.messages ++ page)
      flags := { s.flags with isLoadingNewer := false } }
  | .around _ =>
    { s with messages := page, flags := { s.flags with hasMore := true, hasMoreNewer := true }, loaded := true }
  | .latest =>
    { s with
      messages := page
      flags := { s.flags with hasMore := 30 ≤ page.length, hasMoreNewer := false }
      loaded := true }

/-- `finally`, after an error. -/
def fail (kind : LoadKind) : Window :=
  match kind with
  | .more _ => { s with flags := { s.flags with isLoadingMore := false } }
  | .newer _ => { s with flags := { s.flags with isLoadingNewer := false } }
  | .initial | .around _ | .latest => s

def step : WindowEvent → Window
  | .server view announced => { s with view, inbox := s.inbox ++ announced }
  | .disconnect => { s with inbox := [] }
  | .deliver => { s with inbox := s.inbox.drop 1, handlers := s.handlers ++ s.inbox.take 1 }
  | .handle j =>
    match s.handlers[j]? with
    | some live =>
      let (messages, appended) := placeLive currentUserId live s.messages
      { s with
        handlers := s.handlers.eraseIdx j
        messages
        flags := { s.flags with hasMoreNewer := s.flags.hasMoreNewer && !appended } }
    | none => s
  | .optimistic m => { s with messages := s.messages ++ [m] }
  | .render => { s with messagesRef := s.messages, rendered := s.flags }
  | .openConversation =>
    -- the abort reaches the initial loads whose answer is not there yet
    ({ s with
      messages := []
      flags := { s.flags with hasMoreNewer := false }
      loads := s.loads.filter fun load => load.kind ≠ .initial ∨ load.received
      loaded := false } : Window).request .initial
  | .loadMoreMessages =>
    if s.rendered.isLoadingMore ∨ ¬s.rendered.hasMore then s
    else match s.messagesRef with
      | [] => s
      | first :: _ => ({ s with flags := { s.flags with isLoadingMore := true } } : Window).request (.more first.id)
  | .loadNewerMessages =>
    if s.rendered.isLoadingNewer ∨ ¬s.rendered.hasMoreNewer then s
    else match s.messagesRef.getLast? with
      | none => s
      | some last => ({ s with flags := { s.flags with isLoadingNewer := true } } : Window).request (.newer last.id)
  | .jumpToMessage messageId =>
    if s.messagesRef.any (·.id = some messageId) then s else s.request (.around messageId)
  | .resetToLatest => s.request .latest
  | .serve j =>
    match s.loads[j]? with
    | some load =>
      let page := (s.view.page currentUserId conversationId load.kind).map .ofServer
      { s with loads := s.loads.set j { load with page := some page } }
    | none => s
  | .receive j =>
    match s.loads[j]? with
    | some load => load.page.elim s (s.receive j load)
    | none => s
  | .apply j =>
    match s.loads[j]? with
    | some load => load.page.elim s ((s.drop j).apply load.kind)
    | none => s
  | .fail j =>
    match s.loads[j]? with
    | some load => (s.drop j).fail load.kind
    | none => s

/-- A page is asked for after the last entry only if that is confirmed: the server rejects the request
otherwise. -/
def Enabled : WindowEvent → Prop
  | .server view announced => view.Sound ∧ ∀ live ∈ announced, live.msg.id.isSome
  | .handle j => s.handlers[j]?.isSome
  | .optimistic m => m.id = none ∧ m.senderId = currentUserId
  | .serve j => (s.view.db.member? conversationId currentUserId).isSome ∧
      ∃ load ∈ s.loads[j]?, load.page = none ∧ load.kind ≠ .newer none
  | .receive j => ∃ load ∈ s.loads[j]?, load.page.isSome ∧ ¬load.received
  | .apply j => ∃ load ∈ s.loads[j]?, load.received
  | .fail j => s.loads[j]?.isSome
  | .disconnect | .deliver | .render | .openConversation | .loadMoreMessages | .loadNewerMessages
  | .jumpToMessage _ | .resetToLatest => True

instance : DecidablePred (s.Enabled currentUserId conversationId) := fun e => by
  cases e <;> unfold Enabled <;> infer_instance

end Window

/-- All interleavings, from any state of the server. -/
def window (currentUserId : UserId) (conversationId : ConversationId) (view : View) : Machine Window WindowEvent where
  init := .start view
  enabled s e := s.Enabled currentUserId conversationId e
  next s e := s.step currentUserId conversationId e

instance (currentUserId : UserId) (conversationId : ConversationId) (view : View) (s : Window) (e : WindowEvent) :
    Decidable ((window currentUserId conversationId view).enabled s e) :=
  inferInstanceAs (Decidable (s.Enabled currentUserId conversationId e))

/-! ## A window without gaps -/

def LoadKind.isMore : LoadKind → Bool
  | .more _ => true
  | _ => false

def LoadKind.isNewer : LoadKind → Bool
  | .newer _ => true
  | _ => false

def Load.ids (load : Load) : List MessageId := confirmed (load.page.getD [])

namespace Window
variable (s : Window) (currentUserId : UserId) (conversationId : ConversationId)

def visible : List MessageId := s.view.visible currentUserId conversationId

/-- The live messages that have been announced and not handled. -/
def pipeline : List MessageId := (s.inbox ++ s.handlers).filterMap (·.msg.id)

/-- A message of a page of the kind that is there, and is being decrypted. -/
def InPage (isKind : LoadKind → Bool) (id : MessageId) : Prop :=
  ∃ load ∈ s.loads, load.received ∧ isKind load.kind ∧ id ∈ load.ids

/-- There is something in the list, or a page has been put in. -/
def Filled : Prop := s.loaded ∨ confirmed s.messages ≠ []

/-- The confirmed messages are a segment of the history. Where the flags say so, it reaches the newest
message, and the oldest, but for messages that are on their way into the list. -/
structure Contiguous : Prop where
  segment : confirmed s.messages <:+: s.visible currentUserId conversationId
  newest : s.Filled → s.flags.hasMoreNewer = false → ∀ id ∈ s.visible currentUserId conversationId,
    (id ∈ s.pipeline ∨ s.InPage LoadKind.isNewer id) ∨ ∃ w ∈ confirmed s.messages, id ≤ w
  oldest : s.Filled → s.flags.hasMore = false → ∀ id ∈ s.visible currentUserId conversationId,
    (confirmed s.messages = [] ∧ id ∈ s.pipeline ∨ s.InPage LoadKind.isMore id) ∨ ∃ w ∈ confirmed s.messages, w ≤ id

/-! ## The condition -/

/-- All messages that are newer than the page are still to be handled. -/
def UpToDate (page : List MessageId) : Prop :=
  ∀ id ∈ s.visible currentUserId conversationId, id ∈ s.pipeline ∨ ∃ x ∈ page, id ≤ x

/-- The message is the next after the list. The first of all is the oldest, unless the list is held to
start later; where no page has been put in, everything newer is still to be handled. -/
structure Next (id : MessageId) : Prop where
  visible : id ∈ s.visible currentUserId conversationId
  after : ∀ w ∈ confirmed s.messages, w < id
  adjacent : ∀ id' ∈ s.visible currentUserId conversationId, id' < id →
    (∃ w ∈ confirmed s.messages, id' ≤ w) ∨ confirmed s.messages = [] ∧ s.flags.hasMore
  first : ¬s.Filled → ∀ id' ∈ s.visible currentUserId conversationId, id < id' → id' ∈ s.pipeline

/-- The entry that the message takes is followed by no confirmed one; it is appended only where the list is
held to reach the newest message. -/
def AtEnd (live : Live) : Prop :=
  live.isScheduled ∨
    if live.msg.senderId = currentUserId then
      match pendingIndex currentUserId live.msg.content s.messages with
      | some idx => ∀ m ∈ s.messages.drop (idx + 1), m.id = none
      | none => s.flags.hasMoreNewer = false
    else s.flags.hasMoreNewer = false

/-- Whether the newest message has to be in the list, or on its way. -/
def Tracks : Prop := s.Filled ∧ (s.flags.hasMoreNewer = false ∨ confirmed s.messages = [])

/-- What the steps must meet. -/
def Timely : WindowEvent → Prop
  -- the history grows at its end only, and its new messages are announced
  | .server view announced =>
    s.visible currentUserId conversationId <+: view.visible currentUserId conversationId ∧
      (s.Tracks → ∀ id ∈ view.visible currentUserId conversationId,
        id ∈ s.visible currentUserId conversationId ∨ ∃ live ∈ announced, live.msg.id = some id)
  | .disconnect => s.Tracks → ∀ live ∈ s.inbox, ∀ id ∈ live.msg.id, id ∈ confirmed s.messages
  | .handle j => ∀ live ∈ s.handlers[j]?, ∀ id ∈ live.msg.id,
      id ∈ confirmed s.messages ∨ s.Next currentUserId conversationId id ∧ s.AtEnd currentUserId live
  | .receive j => ∀ load ∈ s.loads[j]?, load.ids.length < 30 → s.Filled →
      match load.kind with
      | .more cursor => cursor.isSome ∧ ((confirmed s.messages).head? = cursor ∨
          load.ids ≠ [] ∧ load.ids <+: confirmed s.messages)
      | .newer after => (after.isSome ∧ (confirmed s.messages).getLast? = after ∨
            ∀ id ∈ load.ids, id ∈ confirmed s.messages) ∧
          s.UpToDate currentUserId conversationId (load.ids ++ confirmed s.messages)
      | _ => True
  | .apply j => ∀ load ∈ s.loads[j]?,
      match load.kind with
      | .initial => s.flags.hasMoreNewer = false ∨ load.ids = [] → s.UpToDate currentUserId conversationId load.ids
      | .latest => s.UpToDate currentUserId conversationId load.ids
      | .around _ => True
      | .more cursor => cursor.isSome ∧ (confirmed s.messages).head? = cursor ∧
          (∀ id ∈ load.ids, id ∈ s.visible currentUserId conversationId) ∨ load.ids <+: confirmed s.messages
      | .newer after => after.isSome ∧ (confirmed s.messages).getLast? = after ∨
          ∀ id ∈ load.ids, id ∈ confirmed s.messages
  | .fail j => ∀ load ∈ s.loads[j]?, load.received →
      match load.kind with
      | .more _ => s.flags.hasMore ∨ ∀ id ∈ load.ids, id ∈ confirmed s.messages
      | .newer _ => s.flags.hasMoreNewer ∨ ∀ id ∈ load.ids, id ∈ confirmed s.messages
      | _ => True
  | .deliver | .optimistic _ | .render | .openConversation | .loadMoreMessages | .loadNewerMessages
  | .jumpToMessage _ | .resetToLatest | .serve _ => True

instance (page : List MessageId) : Decidable (s.UpToDate currentUserId conversationId page) :=
  inferInstanceAs (Decidable (∀ _ ∈ _, _ ∨ _))

instance : Decidable s.Filled := inferInstanceAs (Decidable (_ ∨ _))

instance : Decidable s.Tracks := inferInstanceAs (Decidable (_ ∧ _))

instance (id : MessageId) : Decidable (s.Next currentUserId conversationId id) :=
  decidable_of_iff
    (id ∈ s.visible currentUserId conversationId ∧ (∀ w ∈ confirmed s.messages, w < id) ∧
      (∀ id' ∈ s.visible currentUserId conversationId, id' < id →
        (∃ w ∈ confirmed s.messages, id' ≤ w) ∨ confirmed s.messages = [] ∧ s.flags.hasMore) ∧
      (¬s.Filled → ∀ id' ∈ s.visible currentUserId conversationId, id < id' → id' ∈ s.pipeline))
    ⟨fun ⟨h₁, h₂, h₃, h₄⟩ => ⟨h₁, h₂, h₃, h₄⟩, fun ⟨h₁, h₂, h₃, h₄⟩ => ⟨h₁, h₂, h₃, h₄⟩⟩

instance (live : Live) : Decidable (s.AtEnd currentUserId live) := by
  unfold AtEnd
  cases pendingIndex currentUserId live.msg.content s.messages <;> infer_instance

instance : DecidablePred (s.Timely currentUserId conversationId) := fun e => by
  unfold Timely
  cases e with
  | receive j =>
    refine @Option.decidableForallMem _ _ (fun load => ?_) _
    cases load.kind <;> infer_instance
  | apply j =>
    refine @Option.decidableForallMem _ _ (fun load => ?_) _
    cases load.kind <;> infer_instance
  | fail j =>
    refine @Option.decidableForallMem _ _ (fun load => ?_) _
    cases load.kind <;> infer_instance
  | _ => infer_instance

/-! ## What every run keeps -/

/-- What is known of a load: the message that it was asked for is in the history, and so is its page. -/
structure Load.Sound (visible : List MessageId) (load : Load) : Prop where
  cursor : ∀ c, load.kind = .more (some c) → c ∈ visible
  page : ∀ page ∈ load.page, (confirmed page).length = page.length ∧ (∀ m ∈ page, m.id ≠ none) ∧
    Fits visible (confirmed page) load.kind

structure Sound : Prop where
  view : s.view.Sound
  announced : ∀ live ∈ s.inbox ++ s.handlers, live.msg.id.isSome
  own : ∀ m ∈ s.messages, m.id = none → m.senderId = currentUserId
  ref : ∀ m ∈ s.messagesRef, ∀ id ∈ m.id, id ∈ s.visible currentUserId conversationId
  loads : ∀ load ∈ s.loads, Load.Sound (s.visible currentUserId conversationId) load

/-! ## Lists of messages -/

section
variable {currentUserId : UserId} {conversationId : ConversationId} {s t : Window} {id : MessageId}

@[simp] theorem mem_confirmed {messages : List Message} : id ∈ confirmed messages ↔ ∃ m ∈ messages, m.id = some id :=
  List.mem_filterMap

@[simp] theorem confirmed_append (l₁ l₂ : List Message) : confirmed (l₁ ++ l₂) = confirmed l₁ ++ confirmed l₂ :=
  List.filterMap_append ..

theorem confirmed_eq_nil {messages : List Message} (h : ∀ m ∈ messages, m.id = none) : confirmed messages = [] :=
  List.filterMap_eq_nil_iff.mpr h

/-- The identifiers among the keys that were seen. -/
def Key.id? : Key → Option MessageId
  | .id id => some id
  | .queueId _ => none

theorem confirmed_deduplicate (seen : List Key) (messages : List Message) :
    confirmed (deduplicate seen messages) = List.firsts (seen.filterMap Key.id?) (confirmed messages) := by
  induction messages generalizing seen with
  | nil => rfl
  | cons m messages ih =>
    rw [deduplicate]
    cases hid : m.id with
    | some id =>
      have hkey : m.key = some (.id id) := by rw [Message.key, hid]
      have hmem : Key.id id ∈ seen ↔ id ∈ seen.filterMap Key.id? := by
        refine ⟨fun h => List.mem_filterMap.mpr ⟨_, h, rfl⟩, fun h => ?_⟩
        obtain ⟨key, hkey, heq⟩ := List.mem_filterMap.mp h
        cases key with
        | id id' => cases heq; exact hkey
        | queueId queueId => cases heq
      have hcons : confirmed (m :: messages) = id :: confirmed messages := List.filterMap_cons_some hid
      rw [hkey, hcons, List.firsts]
      by_cases h : Key.id id ∈ seen
      · rw [if_pos (hmem.mp h)]
        exact (congrArg confirmed (if_pos h)).trans (ih seen)
      · rw [if_neg fun h' => h (hmem.mpr h')]
        refine (congrArg confirmed (if_neg h)).trans ((List.filterMap_cons_some hid).trans ?_)
        exact congrArg (id :: ·) (ih (.id id :: seen))
    | none =>
      have hcons : confirmed (m :: messages) = confirmed messages := List.filterMap_cons_none hid
      rw [hcons, Message.key, hid]
      cases m.queueId with
      | none => exact ih seen
      | some queueId =>
        dsimp only [Option.map_some]
        split
        · exact ih seen
        · exact (List.filterMap_cons_none hid).trans (ih (.queueId queueId :: seen))

theorem confirmed_deduplicateMessages_of_nodup {l₁ l₂ : List Message} (h : (confirmed l₁ ++ confirmed l₂).Nodup) :
    confirmed (deduplicateMessages (l₁ ++ l₂)) = confirmed l₁ ++ confirmed l₂ := by
  rw [deduplicateMessages, confirmed_deduplicate, confirmed_append]
  exact List.firsts_eq_self h fun x _ hx => by cases hx

theorem confirmed_deduplicateMessages_of_subset {l₁ l₂ : List Message} (h : (confirmed l₁).Nodup)
    (hsub : confirmed l₂ ⊆ confirmed l₁) : confirmed (deduplicateMessages (l₁ ++ l₂)) = confirmed l₁ := by
  rw [deduplicateMessages, confirmed_deduplicate, confirmed_append, List.firsts_append h fun x _ hx => by cases hx]
  rw [List.firsts_eq_nil, List.append_nil]
  exact fun x hx => List.mem_append_left _ (List.mem_reverse.mpr (hsub hx))

theorem confirmed_deduplicateMessages_of_start {l₁ l₂ : List Message} (h : (confirmed l₂).Nodup)
    (hstart : confirmed l₁ <+: confirmed l₂) : confirmed (deduplicateMessages (l₁ ++ l₂)) = confirmed l₂ := by
  obtain ⟨rest, hrest⟩ := hstart
  rw [← hrest] at h ⊢
  obtain ⟨hnodup, hnodup', hdisjoint⟩ := List.nodup_append'.mp h
  rw [deduplicateMessages, confirmed_deduplicate, confirmed_append, List.firsts_append hnodup (fun x _ hx => by cases hx),
    ← hrest, List.firsts_append_of_subset fun x hx => List.mem_append_left _ (List.mem_reverse.mpr hx)]
  refine congrArg _ (List.firsts_eq_self hnodup' fun x hx hx' => ?_)
  rcases List.mem_append.mp hx' with hx' | hx'
  · exact hdisjoint (List.mem_reverse.mp hx') hx
  · cases hx'

theorem mem_of_mem_deduplicate {seen : List Key} {messages : List Message} {m : Message}
    (h : m ∈ deduplicate seen messages) : m ∈ messages := by
  induction messages generalizing seen with
  | nil => exact h
  | cons m' messages ih =>
    rw [deduplicate] at h
    split at h
    · exact .tail _ (ih h)
    · split at h
      · exact .tail _ (ih h)
      · rcases List.mem_cons.mp h with rfl | h
        · exact .head _
        · exact .tail _ (ih h)

/-- A live message that is in the list leaves it as it is. -/
theorem placeLive_of_mem {live : Live} {messages : List Message} (hid : live.msg.id = some id)
    (h : id ∈ confirmed messages) : placeLive currentUserId live messages = (messages, false) := by
  have hany : messages.any (·.id = live.msg.id) = true := by
    obtain ⟨m, hm, hmid⟩ := mem_confirmed.mp h
    exact List.any_eq_true.mpr ⟨m, hm, decide_eq_true (hmid.trans hid.symm)⟩
  have hthere : (live.msg.id.isSome && messages.any (·.id = live.msg.id)) = true :=
    (Bool.and_eq_true _ _).mpr ⟨hid ▸ rfl, hany⟩
  rw [placeLive, addScheduled, mergeEcho, mergePeer, if_pos hany, if_pos hthere, if_pos hthere, ite_self, ite_self]

/-- Otherwise it becomes the last of the confirmed messages. -/
theorem placeLive_of_not_mem {live : Live} (hid : live.msg.id = some id) (h : id ∉ confirmed s.messages)
    (hown : ∀ m ∈ s.messages, m.id = none → m.senderId = currentUserId) (hend : s.AtEnd currentUserId live) :
    confirmed (placeLive currentUserId live s.messages).1 = confirmed s.messages ++ [id] ∧
      (s.flags.hasMoreNewer && !(placeLive currentUserId live s.messages).2) = s.flags.hasMoreNewer ∧
      ∀ m ∈ (placeLive currentUserId live s.messages).1, m.id = none → m ∈ s.messages := by
  have hany : ¬s.messages.any (·.id = live.msg.id) = true := by
    intro hany
    obtain ⟨m, hm, hmid⟩ := List.any_eq_true.mp hany
    exact h (mem_confirmed.mpr ⟨m, hm, (of_decide_eq_true hmid).trans hid⟩)
  have hthere : ¬(live.msg.id.isSome && s.messages.any (·.id = live.msg.id)) = true := fun hthere =>
    hany ((Bool.and_eq_true _ _).mp hthere).2
  have hlast : confirmed (s.messages ++ [live.msg]) = confirmed s.messages ++ [id] := by
    rw [confirmed_append]
    exact congrArg _ (List.filterMap_cons_some hid)
  have hunconfirmed : ∀ m ∈ s.messages ++ [live.msg], m.id = none → m ∈ s.messages := by
    intro m hm hnone
    rcases List.mem_append.mp hm with hm | hm
    · exact hm
    · cases List.mem_singleton.mp hm
      cases hid.symm.trans hnone
  unfold placeLive
  by_cases hscheduled : live.isScheduled = true
  · rw [if_pos hscheduled, addScheduled, if_neg hany]
    exact ⟨hlast, Bool.and_true _, hunconfirmed⟩
  · replace hend := hend.resolve_left hscheduled
    rw [if_neg hscheduled]
    by_cases hsender : live.msg.senderId = currentUserId
    · rw [if_pos hsender] at hend
      rw [if_pos hsender, mergeEcho, if_neg hthere]
      cases hindex : pendingIndex currentUserId live.msg.content s.messages with
      | some idx =>
        rw [hindex] at hend
        obtain ⟨l₁, opt, l₂, hlist, rfl, hpending⟩ := pendingIndex_eq_some hindex
        obtain ⟨-, hopt⟩ := unconfirmed_of_pendingMessage hpending
        have hnone : opt.id = none := Option.isNone_iff_eq_none.mp ((Bool.and_eq_true _ _).mp hopt).1
        have hrest : ∀ m ∈ l₂, m.id = none := by
          have hdrop : (l₁ ++ opt :: l₂).drop (l₁.length + 1) = l₂ := by simp [List.drop_append]
          replace hend : ∀ m ∈ s.messages.drop (l₁.length + 1), m.id = none := hend
          rw [hlist, hdrop] at hend
          exact hend
        dsimp only
        rw [hlist, modify_append_cons]
        refine ⟨?_, Bool.and_true _, fun m hm hm' => ?_⟩
        · have hmerged : (mergedWith live.msg opt).id = some id := hid
          rw [confirmed_append, confirmed_append]
          change _ ++ List.filterMap _ (mergedWith live.msg opt :: l₂) = _ ++ List.filterMap _ (opt :: l₂) ++ _
          rw [List.filterMap_cons_some hmerged, List.filterMap_cons_none hnone]
          have hnil : List.filterMap (·.id) l₂ = [] := confirmed_eq_nil hrest
          rw [hnil, List.append_nil]
        · rcases List.mem_append.mp hm with hm | hm
          · exact List.mem_append_left _ hm
          · rcases List.mem_cons.mp hm with rfl | hm
            · cases hid.symm.trans hm'
            · exact List.mem_append_right _ (.tail _ hm)
      | none =>
        rw [hindex] at hend
        exact ⟨hlast, by rw [hend]; rfl, hunconfirmed⟩
    · rw [if_neg hsender] at hend
      rw [if_neg hsender, mergePeer, if_neg hthere]
      have hnone : (s.messages.findIdx? fun m => m.id.isNone && m.senderId = live.msg.senderId &&
          m.fileUrl = live.msg.fileUrl && (truthy live.msg.fileUrl || m.content = live.msg.content)) = none := by
        refine List.findIdx?_eq_none_iff.mpr fun m hm => Bool.eq_false_iff.mpr fun hmatch => ?_
        simp only [Bool.and_eq_true, decide_eq_true_eq, Option.isNone_iff_eq_none] at hmatch
        exact hsender (hmatch.1.1.2.symm.trans (hown m hm hmatch.1.1.1))
      rw [hnone]
      exact ⟨hlast, by rw [hend]; rfl, hunconfirmed⟩

end

end Window

end Vesper.Chat
