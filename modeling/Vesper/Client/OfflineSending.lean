import Vesper.Client.OfflineQueue
import Vesper.Server.Database

/-!
# Sending what was queued

What `useMessages` hands to the offline queue carries the conversation in which it was written. When the
queue is flushed, `flushMessage` encrypts it for the conversation that is selected by then.
-/

namespace Vesper.Client
open Server (UserId ConversationId MessageId Text)

/-! ## Payloads -/

/-- What the hook is told of a conversation: its type, and the peer of a direct one. -/
inductive ConversationKind
  | direct (otherUserId : Option UserId)
  | group
  | channel
  deriving DecidableEq, Repr

/-- How a call of `encrypt` or `encryptForGroup` ends: without keys the text comes back as it is. -/
inductive Encryption
  | encrypted | plain | threw
  deriving DecidableEq, Repr

/-- The content of a message, with the session or the sender key it was encrypted under. -/
inductive SentContent
  | plain (text : Text)
  | forUser (otherUserId : UserId) (text : Text)
  | forGroup (conversationId : ConversationId) (text : Text)
  deriving DecidableEq, Repr

structure SendPayload where
  conversationId : ConversationId
  content : SentContent
  replyToId : Option MessageId
  metadata : Option Text
  deriving DecidableEq, Repr

def encryptContent (kinds : ConversationId → ConversationKind) (selected : Option ConversationId)
    (encrypts : Bool) (content : Text) : SentContent :=
  match selected with
  | none => .plain content
  | some conversationId =>
    match kinds conversationId with
    | .direct (some otherUserId) => if encrypts then .forUser otherUserId content else .plain content
    | .group => if encrypts then .forGroup conversationId content else .plain content
    | .direct none | .channel => .plain content

/-- What the members of a conversation make of the content; keys of the legacy format are left out. -/
def SentContent.readIn (kinds : ConversationId → ConversationKind) (conversationId : ConversationId) :
    SentContent → Option Text
  | plain text => some text
  | forUser otherUserId text =>
    if kinds conversationId = .direct (some otherUserId) then some text else none
  | forGroup group text => if group = conversationId ∧ kinds conversationId = .group then some text else none

/-- `destructAfterSeconds ? JSON.stringify({ destructAfterSeconds }) : undefined` -/
def destructMetadata (destructAfterSeconds : Option Nat) : Option Text :=
  (destructAfterSeconds.filter (0 < ·)).map fun seconds =>
    ("\x7b\"destructAfterSeconds\":" ++ toString seconds ++ "\x7d").toList.map fun c => c.toNat.toUInt16

/-- A queued message. The source keeps neither `destructAfterSeconds` nor any trace of it. -/
structure OfflineItem where
  conversationId : ConversationId
  content : Text
  replyToId : Option MessageId
  otherUserId : Option UserId
  destructAfterSeconds : Option Nat
  deriving DecidableEq, Repr

/-- What `flushMessage` emits. -/
def flushPayload (msg : OfflineItem) (content : SentContent) : SendPayload :=
  ⟨msg.conversationId, content, msg.replyToId, none⟩

/-- What `sendMessage` emits when it can send, in the conversation that is selected. -/
def sendPayload (conversationId : ConversationId) (content : SentContent) (replyToId : Option MessageId)
    (destructAfterSeconds : Option Nat) : SendPayload :=
  ⟨conversationId, content, replyToId, destructMetadata destructAfterSeconds⟩

structure Emission where
  payload : SendPayload
  item : OfflineItem
  deriving DecidableEq, Repr

/-- The emission is the one that the online path would have made, and the members can read it. -/
def Emission.AsOnline (kinds : ConversationId → ConversationKind) (e : Emission) : Prop :=
  (∃ content, e.payload =
    sendPayload e.item.conversationId content e.item.replyToId e.item.destructAfterSeconds) ∧
  e.payload.content.readIn kinds e.item.conversationId = some e.item.content

/-! ## The hook -/

/-- `flushing` is the connection and the selection as of the last call of `flushMessage`. -/
structure OfflineSender where
  selected : Option ConversationId
  connected : Bool
  queue : OfflineQueue OfflineItem
  flushing : Bool × Option ConversationId
  emitted : List Emission
  deriving DecidableEq

inductive SenderInput
  | select (conversationId : Option ConversationId)
  | connect
  | disconnect
  | goOnline
  | goOffline
  | sendMessage (content : Text) (replyToId : Option MessageId) (scheduled : Bool)
    (destructAfterSeconds : Option Nat)
  /-- The encryption of the message that is being flushed comes to its end. -/
  | settled (outcome : Encryption)
  deriving DecidableEq, Repr

namespace OfflineSender
variable (kinds : ConversationId → ConversationKind) (s : OfflineSender)

/-- The queue takes an input; a call of `flushMessage` closes over what is selected now. -/
def onQueue (input : QueueInput OfflineItem) : OfflineSender :=
  { s with
    queue := (s.queue.step input).1
    flushing := if handedBy (s.queue.step input).2 = [] then s.flushing else (s.connected, s.selected) }

def otherUserId : Option UserId :=
  s.selected.bind fun conversationId =>
    match kinds conversationId with
    | .direct otherUserId => otherUserId
    | .group | .channel => none

def sendMessage (content : Text) (replyToId : Option MessageId) (scheduled : Bool)
    (destructAfterSeconds : Option Nat) : OfflineSender :=
  match s.selected with
  | none => s
  | some conversationId =>
    if Server.trim content = [] then s
    -- the online path does not touch the queue
    else if s.connected ∧ s.queue.isOnline ∨ scheduled then s
    else s.onQueue (.enqueue ⟨conversationId, content, replyToId, s.otherUserId kinds, destructAfterSeconds⟩)

/-- `flushMessage` goes on after `encryptContent`. -/
def settled (outcome : Encryption) : OfflineSender :=
  match s.queue.suspended with
  | none => s
  | some f =>
    if s.flushing.1 ∧ outcome ≠ .threw then
      let content := encryptContent kinds s.flushing.2 (outcome = .encrypted) f.msg.msg.content
      ({ s with emitted := s.emitted ++ [⟨flushPayload f.msg.msg content, f.msg.msg⟩] } :
        OfflineSender).onQueue (.answered (.returned true))
    else s.onQueue (.answered (.returned false))

def step : SenderInput → OfflineSender
  | .select conversationId => { s with selected := conversationId }
  | .connect => ({ s with connected := true } : OfflineSender).onQueue .onConnect
  | .disconnect => { s with connected := false }
  | .goOnline => s.onQueue .goOnline
  | .goOffline => s.onQueue .goOffline
  | .sendMessage content replyToId scheduled destructAfterSeconds =>
    s.sendMessage kinds content replyToId scheduled destructAfterSeconds
  | .settled outcome => s.settled kinds outcome

def AsOnline : Prop := ∀ e ∈ s.emitted, e.AsOnline kinds

end OfflineSender

def offlineSender (kinds : ConversationId → ConversationKind) : Machine OfflineSender SenderInput where
  init := ⟨none, false, ⟨[], false, false, none, 0⟩, (false, none), []⟩
  enabled _ _ := True
  next s input := s.step kinds input

/-! ## For whom the content is encrypted -/

/-- What is encrypted for the selected conversation can be read in the other one. -/
def SameAudience (kinds : ConversationId → ConversationKind) (selected : Option ConversationId)
    (conversationId : ConversationId) : Prop :=
  match selected with
  | none => True
  | some current =>
    match kinds current with
    | .direct (some otherUserId) => kinds conversationId = .direct (some otherUserId)
    | .group => current = conversationId
    | .direct none | .channel => True

instance (kinds : ConversationId → ConversationKind) (conversationId : ConversationId) :
    (selected : Option ConversationId) → Decidable (SameAudience kinds selected conversationId)
  | none => .isTrue trivial
  | some current => by
    unfold SameAudience
    dsimp only
    split <;> infer_instance

/-- A message is emitted only without a self-destruct option, and in plain text or for those who read its
own conversation. -/
def OfflineSender.FlushesAlike (kinds : ConversationId → ConversationKind) (s : OfflineSender) :
    SenderInput → Prop
  | .settled outcome => ∀ f ∈ s.queue.suspended, s.flushing.1 → outcome ≠ .threw →
    destructMetadata f.msg.msg.destructAfterSeconds = none ∧
      (outcome = .plain ∨ SameAudience kinds s.flushing.2 f.msg.msg.conversationId)
  | .select _ | .connect | .disconnect | .goOnline | .goOffline | .sendMessage .. => True

instance (kinds : ConversationId → ConversationKind) (s : OfflineSender) :
    (input : SenderInput) → Decidable (s.FlushesAlike kinds input)
  | .settled _ => inferInstanceAs (Decidable (∀ f ∈ _, _ → _ → _ ∧ _))
  | .select _ | .connect | .disconnect | .goOnline | .goOffline | .sendMessage .. => .isTrue trivial

section
variable {kinds : ConversationId → ConversationKind} {s : OfflineSender} {c : ConversationId}
  {selected : Option ConversationId} {content : Text}

theorem readIn_encryptContent (encrypts : Bool) :
    (encryptContent kinds selected encrypts content).readIn kinds c = some content ↔
      encrypts = false ∨ SameAudience kinds selected c := by
  cases encrypts with
  | false =>
    refine iff_of_true ?_ (.inl rfl)
    unfold encryptContent
    split
    · rfl
    · split <;> rfl
  | true =>
    rw [or_iff_right (fun heq : true = false => nomatch heq)]
    unfold encryptContent SameAudience
    cases selected with
    | none => exact iff_of_true rfl trivial
    | some current =>
      cases hkind : kinds current with
      | direct otherUserId =>
        cases otherUserId with
        | none => simp [hkind, SentContent.readIn]
        | some peer => simp [hkind, SentContent.readIn]
      | group =>
        simp only [hkind, SentContent.readIn, if_true, Option.ite_none_right_eq_some, and_true]
        exact ⟨And.left, fun heq => ⟨heq, heq ▸ hkind⟩⟩
      | channel => simp [hkind, SentContent.readIn]

/-- The online path encrypts for the conversation in which it sends. -/
theorem sameAudience_self (kinds : ConversationId → ConversationKind) (c : ConversationId) :
    SameAudience kinds (some c) c := by
  unfold SameAudience
  cases hkind : kinds c with
  | direct otherUserId => cases otherUserId <;> simp [hkind]
  | group => simp [hkind]
  | channel => simp [hkind]

/-- A flushed message is what the online path would have sent, if and only if it lost no option and was
encrypted for its readers. -/
theorem asOnline_flush {msg : OfflineItem} {outcome : Encryption} (hreturned : outcome ≠ .threw) :
    (⟨flushPayload msg (encryptContent kinds selected (outcome = .encrypted) msg.content), msg⟩ :
      Emission).AsOnline kinds ↔
        destructMetadata msg.destructAfterSeconds = none ∧
          (outcome = .plain ∨ SameAudience kinds selected msg.conversationId) := by
  have hplain : decide (outcome = .encrypted) = false ↔ outcome = .plain := by
    cases outcome with
    | encrypted => simp
    | plain => simp
    | threw => exact absurd rfl hreturned
  refine and_congr ⟨?_, fun hnone => ?_⟩ ((readIn_encryptContent _).trans (or_congr_left hplain))
  · rintro ⟨content, heq⟩
    exact (congrArg SendPayload.metadata heq).symm
  · refine ⟨encryptContent kinds selected (outcome = .encrypted) msg.content, ?_⟩
    rw [sendPayload, hnone, flushPayload]

@[simp] theorem emitted_onQueue (input : QueueInput OfflineItem) : (s.onQueue input).emitted = s.emitted := rfl

theorem asOnline_settled (hs : s.AsOnline kinds) (outcome : Encryption) :
    (s.settled kinds outcome).AsOnline kinds ↔ s.FlushesAlike kinds (.settled outcome) := by
  unfold OfflineSender.settled
  cases hf : s.queue.suspended with
  | none => exact iff_of_true hs fun f hsome => nomatch hf.symm.trans hsome
  | some f =>
    have hcondition : s.FlushesAlike kinds (.settled outcome) ↔ (s.flushing.1 → outcome ≠ .threw →
        destructMetadata f.msg.msg.destructAfterSeconds = none ∧
          (outcome = .plain ∨ SameAudience kinds s.flushing.2 f.msg.msg.conversationId)) := by
      simp [OfflineSender.FlushesAlike, hf]
    rw [hcondition]
    by_cases hemits : s.flushing.1 ∧ outcome ≠ .threw
    · simp only [if_pos hemits, OfflineSender.AsOnline, emitted_onQueue, List.forall_mem_append,
        List.forall_mem_singleton]
      refine (and_iff_right hs).trans ((asOnline_flush hemits.2).trans ?_)
      exact ⟨fun h _ _ => h, fun h => h hemits.1 hemits.2⟩
    · simp only [if_neg hemits]
      exact iff_of_true hs fun hconnected hreturned => absurd ⟨hconnected, hreturned⟩ hemits

end

/-! ## Every run -/

/-- Throughout a run, what was queued is sent as the online path would have sent it, if and only if every
flushed message was queued without a self-destruct option and leaves in plain text or encrypted for the
readers of its own conversation. -/
theorem flushed_as_online (kinds : ConversationId → ConversationKind) (run : List SenderInput) :
    (offlineSender kinds).Throughout (·.AsOnline kinds) (offlineSender kinds).init run ↔
      ((offlineSender kinds).restrict (·.FlushesAlike kinds ·)).Allowed (offlineSender kinds).init run := by
  refine Machine.throughout_iff (I := fun _ => True) (fun _ _ _ _ => trivial) (fun s input _ hs _ => ?_)
    trivial (List.forall_mem_nil _) (Machine.allowed_of_enabled (fun _ _ => trivial) _ run)
  cases input with
  | settled outcome => exact asOnline_settled hs outcome
  | sendMessage content replyToId scheduled destructAfterSeconds =>
    refine iff_of_true ?_ trivial
    show (s.sendMessage kinds content replyToId scheduled destructAfterSeconds).AsOnline kinds
    unfold OfflineSender.sendMessage
    split
    · exact hs
    · split_ifs <;> exact hs
  | select | connect | disconnect | goOnline | goOffline => exact iff_of_true hs trivial

/-- She writes in one chat while offline, and opens another before the connection comes back. -/
def writesAndLeaves : List SenderInput :=
  [.select (some 1), .sendMessage [104, 105] none false none, .select (some 2), .connect, .settled .encrypted]

/-- The message is encrypted for the peer of the other chat. -/
theorem flushed_for_another : ¬∀ (kinds : ConversationId → ConversationKind) (run : List SenderInput),
    (offlineSender kinds).Throughout (·.AsOnline kinds) (offlineSender kinds).init run := by
  intro hall
  have hrun := (hall (fun c => .direct (some (c + 1))) writesAndLeaves).last
  have hread := (hrun ⟨⟨1, .forUser 3 [104, 105], none, none⟩, ⟨1, [104, 105], none, some 2, none⟩⟩
    (by decide)).2
  exact absurd hread (by decide)

end Vesper.Client
