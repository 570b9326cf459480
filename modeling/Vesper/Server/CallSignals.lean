import Vesper.Server.Gateway

/-!
# Call signalling

The handlers of `ChatGateway` for calls. Seven signals look up the call that they name and pass
something on to one of its parties; three of them also end it. None asks who sends it.
-/

namespace Vesper.Server

abbrev CallId := Text

inductive CallType
  | audio | video
  deriving DecidableEq, Repr

structure ActiveCall where
  callerId : UserId
  calleeId : UserId
  conversationId : ConversationId
  callType : CallType
  deriving DecidableEq, Repr

namespace ActiveCall
variable (call : ActiveCall) (userId : UserId)

def IsParty : Prop := userId = call.callerId ∨ userId = call.calleeId

instance : Decidable (call.IsParty userId) := inferInstanceAs (Decidable (_ ∨ _))

/-- The party that is not the user, or the caller. -/
def remoteOf : UserId := if userId = call.callerId then call.calleeId else call.callerId

end ActiveCall

/-- A call of `handleCallUser` that waits for the caller's name. -/
structure Ringing where
  callId : CallId
  call : ActiveCall
  deriving DecidableEq, Repr

structure CallServer where
  callLimiter : WsRateLimiter
  activeCalls : List (CallId × ActiveCall)
  ringing : List Ringing

inductive CallSignal
  | callAccept (callType : CallType)
  | callReject
  | callEnd
  | callBusy
  | sdpOffer (offer : Text)
  | sdpAnswer (answer : Text)
  | iceCandidate (candidate : Text)
  deriving DecidableEq, Repr

inductive CallEvent
  | rateLimited (event : String) (retryAfter : Int) (message : String)
  | incomingCall (callId : CallId) (conversationId : ConversationId) (callerId : UserId)
    (callerName : Text) (callerAvatar : Option Text) (callType : CallType)
  | callAccepted (callId : CallId) (callType : CallType)
  | callRejected (callId : CallId)
  | callEnded (callId : CallId)
  | callBusy (callId : CallId)
  | sdpOffer (callId : CallId) (offer : Text)
  | sdpAnswer (callId : CallId) (answer : Text)
  | iceCandidate (callId : CallId) (candidate : Text)
  deriving DecidableEq, Repr

abbrev CallEmission := Target × CallEvent

namespace CallServer
variable (s : CallServer) (users : List User) (now : Time) (client : SocketId) (userId : UserId)
  (callId : CallId)

def call? : Option ActiveCall := s.activeCalls.lookup callId

def delete : CallServer := { s with activeCalls := s.activeCalls.filter (·.1 ≠ callId) }

/-! ## Handlers -/

def handleCallUser (conversationId : ConversationId) (targetUserId : UserId) (callType : CallType) :
    CallServer × List CallEmission :=
  let limited := { s with callLimiter := s.callLimiter.hit now userId }
  if ! s.callLimiter.isAllowed now userId then
    let retryAfter := limited.callLimiter.retryAfter now userId
    (limited, [(.client client, .rateLimited "callUser" retryAfter
      s!"Too many callUser events. Try again in {retryAfter}s.")])
  else if (s.call? callId).isSome then (limited, [])
  else
    let call : ActiveCall := ⟨userId, targetUserId, conversationId, callType⟩
    ({ limited with
      activeCalls := s.activeCalls ++ [(callId, call)]
      ringing := s.ringing ++ [⟨callId, call⟩] }, [])

def unknownCaller : Text := "Unknown".toList.map fun c => c.val.toUInt16

/-- `handleCallUser` goes on once the caller is looked up. -/
def ring (r : Ringing) : CallEmission :=
  let caller := users.find? (·.id = r.call.callerId)
  (.user r.call.calleeId, .incomingCall r.callId r.call.conversationId r.call.callerId
    ((caller.map (·.nickname)).getD unknownCaller) (caller.bind (·.avatarUrl)) r.call.callType)

/-- What the handlers of the signals have in common: an event for one of the parties, and perhaps the end
of the call. -/
def relay (target : ActiveCall → UserId) (event : CallEvent) (ends : Bool) :
    CallServer × List CallEmission :=
  match s.call? callId with
  | none => (s, [])
  | some call => (if ends then s.delete callId else s, [(.user (target call), event)])

def handleCallAccept (callType : CallType) : CallServer × List CallEmission :=
  s.relay callId (·.callerId) (.callAccepted callId callType) false

def handleCallReject : CallServer × List CallEmission :=
  s.relay callId (·.callerId) (.callRejected callId) true

def handleCallEnd : CallServer × List CallEmission :=
  s.relay callId (·.remoteOf userId) (.callEnded callId) true

def handleCallBusy : CallServer × List CallEmission :=
  s.relay callId (·.callerId) (.callBusy callId) true

def handleSdpOffer (offer : Text) : CallServer × List CallEmission :=
  s.relay callId (·.remoteOf userId) (.sdpOffer callId offer) false

def handleSdpAnswer (answer : Text) : CallServer × List CallEmission :=
  s.relay callId (·.remoteOf userId) (.sdpAnswer callId answer) false

def handleIceCandidate (candidate : Text) : CallServer × List CallEmission :=
  s.relay callId (·.remoteOf userId) (.iceCandidate callId candidate) false

def handleSignal : CallSignal → CallServer × List CallEmission
  | .callAccept callType => s.handleCallAccept callId callType
  | .callReject => s.handleCallReject callId
  | .callEnd => s.handleCallEnd userId callId
  | .callBusy => s.handleCallBusy callId
  | .sdpOffer offer => s.handleSdpOffer userId callId offer
  | .sdpAnswer answer => s.handleSdpAnswer userId callId answer
  | .iceCandidate candidate => s.handleIceCandidate userId callId candidate

/-- `handleDisconnect` ends the calls of the user. -/
def endCallsOf : CallServer × List CallEmission :=
  ({ s with activeCalls := s.activeCalls.filter fun entry => ¬entry.2.IsParty userId },
    (s.activeCalls.filter fun entry => entry.2.IsParty userId).map fun entry =>
      (.user (entry.2.remoteOf userId), .callEnded entry.1))

end CallServer

/-! ## The machine -/

inductive CallInput
  | callUser (client : SocketId) (callId : CallId) (conversationId : ConversationId) (targetUserId : UserId)
    (callType : CallType)
  | signal (callId : CallId) (signal : CallSignal)
  | disconnect
  | ring (i : Nat)
  deriving DecidableEq, Repr

/-- An input, the time at which it comes and the user whose socket sent it. -/
structure CallStep where
  now : Time
  userId : UserId
  input : CallInput
  deriving DecidableEq, Repr

def CallServer.step (users : List User) (s : CallServer) (e : CallStep) : CallServer × List CallEmission :=
  match e.input with
  | .callUser client callId conversationId targetUserId callType =>
    s.handleCallUser e.now client e.userId callId conversationId targetUserId callType
  | .signal callId signal => s.handleSignal e.userId callId signal
  | .disconnect => s.endCallsOf e.userId
  | .ring i => ({ s with ringing := s.ringing.eraseIdx i }, s.ringing[i]?.toList.map (CallServer.ring users))

def callServer (users : List User) : Machine CallServer CallStep where
  init := ⟨.new 10 60, [], []⟩
  enabled _ _ := True
  next s e := (s.step users e).1

/-! ## Whose signals take effect -/

/-- Only the callee answers a call. -/
def CallSignal.forCallee : CallSignal → Bool
  | callAccept _ | callReject | callBusy => true
  | callEnd | sdpOffer _ | sdpAnswer _ | iceCandidate _ => false

/-- A signal that emitted something or changed the calls, with the call that it named at the time. -/
structure SignalEffect where
  userId : UserId
  signal : CallSignal
  call : Option ActiveCall
  deriving DecidableEq, Repr

/-- The sender of the signal is a party of the call, and its callee where the signal is the callee's. -/
def SignalEffect.Authorized (effect : SignalEffect) : Prop :=
  ∃ call ∈ effect.call, call.IsParty effect.userId ∧
    (effect.signal.forCallee → effect.userId = call.calleeId)

namespace CallServer
variable (s : CallServer)

/-- The effects of the signals so far. -/
def logEffects (users : List User) (e : CallStep) (effects : List SignalEffect) : List SignalEffect :=
  match e.input with
  | .signal callId signal =>
    if (s.step users e).2 = [] ∧ (s.step users e).1.activeCalls = s.activeCalls then effects
    else effects ++ [⟨e.userId, signal, s.call? callId⟩]
  | .callUser .. | .disconnect | .ring _ => effects

/-- A signal names no active call, or it comes from a party of the call and, where it is an answer, from
the callee. -/
def Permits (e : CallStep) : Prop :=
  match e.input with
  | .signal callId signal => ∀ call ∈ s.call? callId,
    if signal.forCallee then e.userId = call.calleeId else call.IsParty e.userId
  | .callUser .. | .disconnect | .ring _ => True

end CallServer

section
variable {s : CallServer} {users : List User} {callId : CallId} {u : UserId}

/-- A signal that names no active call does nothing, any other one emits something. -/
theorem relay_emits {target : ActiveCall → UserId} {event : CallEvent} {ends : Bool} :
    (s.relay callId target event ends).2 = [] ↔ s.call? callId = none := by
  unfold CallServer.relay
  cases s.call? callId with
  | none => exact iff_of_true rfl rfl
  | some call => exact iff_of_false nofun nofun

theorem relay_none {target : ActiveCall → UserId} {event : CallEvent} {ends : Bool}
    (hnone : s.call? callId = none) : s.relay callId target event ends = (s, []) := by
  simp only [CallServer.relay, hnone]

/-- Every signal is relayed. -/
theorem handleSignal_eq (signal : CallSignal) : ∃ target event ends,
    s.handleSignal u callId signal = s.relay callId target event ends := by
  cases signal <;> exact ⟨_, _, _, rfl⟩

/-- Whoever sends it, a signal has an effect if and only if it names an active call. -/
theorem ineffective_iff (signal : CallSignal) :
    ((s.handleSignal u callId signal).2 = [] ∧
      (s.handleSignal u callId signal).1.activeCalls = s.activeCalls) ↔ s.call? callId = none := by
  obtain ⟨target, event, ends, heq⟩ := @handleSignal_eq s callId u signal
  rw [heq]
  constructor
  · exact fun h => relay_emits.mp h.1
  · intro hnone
    rw [relay_none hnone]
    exact ⟨rfl, rfl⟩

theorem effect_authorized_iff {call : ActiveCall} {signal : CallSignal} :
    (⟨u, signal, some call⟩ : SignalEffect).Authorized ↔
      if signal.forCallee then u = call.calleeId else call.IsParty u := by
  have hsome : (⟨u, signal, some call⟩ : SignalEffect).Authorized ↔
      call.IsParty u ∧ (signal.forCallee → u = call.calleeId) := by
    simp [SignalEffect.Authorized]
  rw [hsome]
  split
  · rename_i hcallee
    exact ⟨fun h => h.2 hcallee, fun heq => ⟨.inr heq, fun _ => heq⟩⟩
  · rename_i hcallee
    exact ⟨And.left, fun hparty => ⟨hparty, fun hyes => absurd hyes hcallee⟩⟩

/-- A step adds an effect that is not authorized if and only if it is not permitted. -/
theorem logged_authorized_iff {effects : List SignalEffect} (heffects : ∀ effect ∈ effects, effect.Authorized)
    (e : CallStep) :
    (∀ effect ∈ s.logEffects users e effects, effect.Authorized) ↔ s.Permits e := by
  obtain ⟨now, u, input⟩ := e
  cases input with
  | signal callId signal =>
    have hstep : s.step users ⟨now, u, .signal callId signal⟩ = s.handleSignal u callId signal := rfl
    simp only [CallServer.logEffects, CallServer.Permits, hstep, ineffective_iff]
    cases hcall : s.call? callId with
    | none => exact iff_of_true heffects fun _ hnone => nomatch hnone
    | some call =>
      rw [if_neg nofun, List.forall_mem_append, List.forall_mem_singleton, and_iff_right heffects,
        effect_authorized_iff]
      exact ⟨fun h other hother => Option.some.inj hother ▸ h, fun h => h call rfl⟩
  | callUser | disconnect | ring => exact iff_of_true heffects trivial

end

/-! ## Every run -/

/-- The server with the effects of the signals so far. -/
def callLedger (users : List User) : Machine (CallServer × List SignalEffect) CallStep :=
  (callServer users).record [] fun s e => s.logEffects users e

/-- Throughout a run only parties of a call have had signals take effect, and only the callee has answered
it, if and only if every signal named no active call, or came from a party and, where it is an answer,
from the callee. -/
theorem signals_authorized_iff (users : List User) (run : List CallStep) :
    (callLedger users).Throughout (fun s => ∀ effect ∈ s.2, effect.Authorized) (callLedger users).init run ↔
      ((callServer users).restrict CallServer.Permits).Allowed (callServer users).init run :=
  Machine.throughout_record_iff (I := fun _ => True) (fun _ _ _ _ => trivial)
    (fun _ e _ heffects _ => logged_authorized_iff heffects e) trivial (List.forall_mem_nil _)
    (Machine.allowed_of_enabled (fun _ _ => trivial) _ run)

/-- User 1 calls user 2, and user 3 rejects the call. -/
def strangerRejects : List CallStep :=
  [⟨0, 1, .callUser 10 [7] 1 2 .video⟩, ⟨1, 3, .signal [7] .callReject⟩]

theorem stranger_ends_call : ¬∀ (users : List User) (run : List CallStep),
    (callLedger users).Throughout (fun s => ∀ effect ∈ s.2, effect.Authorized) (callLedger users).init
      run := by
  intro hall
  have heffect := (hall [] strangerRejects).last ⟨3, .callReject, some ⟨1, 2, 1, .video⟩⟩ (by decide)
  exact absurd (effect_authorized_iff.mp heffect) (by decide)

end Vesper.Server
