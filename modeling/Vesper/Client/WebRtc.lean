import Vesper.Lib.Machine
import Vesper.Server.CallSignals
import Mathlib.Logic.Function.Basic

/-!
# The hook of a call

`useWebRTC`: the state of the call as React holds it and as `callStateRef` does, the peer connection, the
streams, the timers, and the handlers that wait for the browser. Timers fire in any order. Screen
sharing, muting and what is only shown are left out.
-/

namespace Vesper.Client
open Server (UserId ConversationId Text CallId CallType truthy)

/-! ## Call states -/

inductive CallStatus
  | idle | calling | incoming | connecting | active | ended
  deriving DecidableEq, Repr

inductive EndReason
  | rejected | ended | noAnswer | error | busy
  deriving DecidableEq, Repr

structure IncomingCallData where
  callId : CallId
  conversationId : ConversationId
  callerId : UserId
  callerName : Text
  callerAvatar : Option Text
  callType : CallType
  deriving DecidableEq, Repr

structure CallState where
  status : CallStatus
  callId : Option CallId := none
  conversationId : Option ConversationId := none
  targetUserId : Option UserId := none
  callType : Option CallType := none
  incomingData : Option IncomingCallData := none
  startedAt : Option Server.Time := none
  endReason : Option EndReason := none
  deriving DecidableEq, Repr

/-! ## Connections, timers and handlers -/

abbrev StreamId := Text
abbrev TrackId := Nat
abbrev ConnectionId := Nat

inductive Operation
  | addTracks (stream : StreamId)
  | createOffer
  | createAnswer
  | setLocalDescription (sdp : Text)
  | setRemoteDescription (sdp : Text)
  | addIceCandidate (candidate : Text)
  | restartIce
  | close
  deriving DecidableEq, Repr

/-- The call whose id the callbacks send, what was asked of the connection, the tracks that came in, and
whether the callbacks are still set. -/
structure PeerConnection where
  callId : CallId
  operations : List Operation
  remoteMS : List TrackId
  attached : Bool
  deriving DecidableEq, Repr

/-- The ring timeouts of a caller and of a callee, and the return to idle once a call is over. -/
inductive CallTimer
  | noAnswer (callId : CallId) (conversationId : ConversationId)
  | notTaken (callId : CallId) (conversationId : ConversationId)
  | backToIdle
  deriving DecidableEq, Repr

/-- The call for which a timer was armed, unless that call was over. -/
def CallTimer.callId : CallTimer → Option CallId
  | noAnswer callId _ | notTaken callId _ => some callId
  | backToIdle => none

/-- What `getMedia` asks for. -/
inductive MediaAttempt
  | video
  | audio
  /-- Audio, after no camera was found. -/
  | fallback
  deriving DecidableEq, Repr

def MediaAttempt.first : CallType → MediaAttempt
  | .video => video
  | .audio => audio

/-- A handler that waits. `flush` has candidates left for the connection `target`, and if it belongs to
`onSdpOffer` goes on with the answer of `next`. -/
inductive Suspension
  | starting (callId : CallId) (conversationId : ConversationId) (targetUserId : UserId) (callType : CallType)
    (attempt : MediaAttempt)
  | accepting (callId : CallId) (conversationId : ConversationId) (mediaType : CallType)
    (attempt : MediaAttempt)
  | offer (callId : CallId) (pc : ConnectionId)
  | localOffer (callId : CallId) (sdp : Text)
  | remoteOffer (callId : CallId) (pc : ConnectionId)
  | remoteAnswer (callId : CallId)
  | flush (callId : CallId) (target : ConnectionId) (rest : List Text) (next : Option ConnectionId)
  | answer (callId : CallId) (pc : ConnectionId)
  | localAnswer (callId : CallId) (sdp : Text)
  | candidate (callId : CallId)
  deriving DecidableEq, Repr

/-- The call of the event that is being handled; the user's own actions handle none. -/
def Suspension.event : Suspension → Option CallId
  | starting .. | accepting .. => none
  | offer callId _ | localOffer callId _ | remoteOffer callId _ | remoteAnswer callId
  | flush callId _ _ _ | answer callId _ | localAnswer callId _ | candidate callId => some callId

/-- How an awaited promise settles: with a stream, a description or nothing, or with a named error. -/
inductive Settled
  | fulfilled (value : Text)
  | rejected (name : String)
  deriving DecidableEq, Repr

inductive SignalOut
  | callUser (callId : CallId) (conversationId : ConversationId) (targetUserId : UserId) (callType : CallType)
  | callAccept (callId : CallId) (callType : CallType)
  | callReject (callId : CallId) (conversationId : ConversationId)
  | callEnd (callId : CallId) (conversationId : Option ConversationId)
  | callBusy (callId : CallId)
  | sdpOffer (callId : CallId) (sdp : Text)
  | sdpAnswer (callId : CallId) (sdp : Text)
  | iceCandidate (callId : CallId) (candidate : Text)
  deriving DecidableEq, Repr

/-- `rendered` is the call state of the last render while its effect has not run. -/
structure WebRtc where
  callState : CallState
  callStateRef : CallState
  rendered : Option CallState
  pcs : ConnectionId → PeerConnection
  nextPc : ConnectionId
  pcRef : Option ConnectionId
  remoteDescSet : Bool
  iceCandidateBuffer : List Text
  localStream : Option StreamId
  localStreamRef : Option StreamId
  remoteStream : Option (List TrackId)
  stopped : List StreamId
  ringtone : Bool
  timers : List (Nat × CallTimer)
  nextTimer : Nat
  ringTimeoutRef : Option Nat
  tasks : List Suspension
  emitted : List SignalOut

namespace WebRtc

def init : WebRtc where
  callState := { status := .idle }
  callStateRef := { status := .idle }
  rendered := none
  pcs _ := ⟨[], [], [], false⟩
  nextPc := 0
  pcRef := none
  remoteDescSet := false
  iceCandidateBuffer := []
  localStream := none
  localStreamRef := none
  remoteStream := none
  stopped := []
  ringtone := false
  timers := []
  nextTimer := 0
  ringTimeoutRef := none
  tasks := []
  emitted := []

variable (s : WebRtc)

def setCallState (update : CallState → CallState) : WebRtc := { s with callState := update s.callState }

def emit (signal : SignalOut) : WebRtc := { s with emitted := s.emitted ++ [signal] }

def suspend (t : Suspension) : WebRtc := { s with tasks := s.tasks ++ [t] }

def setTimeout (timer : CallTimer) : WebRtc :=
  { s with timers := s.timers ++ [(s.nextTimer, timer)], nextTimer := s.nextTimer + 1 }

def setRingTimeout (timer : CallTimer) : WebRtc :=
  { s.setTimeout timer with ringTimeoutRef := some s.nextTimer }

def clearRingTimeout : WebRtc :=
  { s with
    timers := s.timers.filter fun entry => some entry.1 ≠ s.ringTimeoutRef
    ringTimeoutRef := none }

def operate (pc : ConnectionId) (operation : Operation) : WebRtc :=
  { s with
    pcs := Function.update s.pcs pc
      { s.pcs pc with operations := (s.pcs pc).operations ++ [operation] } }

/-! ## Connections -/

def closePc : WebRtc :=
  match s.pcRef with
  | none => s
  | some pc =>
    let closed := s.operate pc .close
    { closed with pcs := Function.update closed.pcs pc { closed.pcs pc with attached := false }, pcRef := none }

def cleanup : WebRtc :=
  { s.closePc.clearRingTimeout with
    localStreamRef := none
    stopped := s.stopped ++ s.localStreamRef.toList
    localStream := none
    remoteStream := none
    iceCandidateBuffer := []
    remoteDescSet := false
    ringtone := false }

/-- The new connection is the one numbered `nextPc`. -/
def createPC (callId : CallId) : WebRtc :=
  { s with
    pcs := Function.update s.pcs s.nextPc ⟨callId, [], [], true⟩
    nextPc := s.nextPc + 1
    pcRef := some s.nextPc
    remoteDescSet := false }

def addTracks (pc : ConnectionId) : WebRtc :=
  match s.localStreamRef with
  | none => s
  | some stream => s.operate pc (.addTracks stream)

/-- What follows `flushIceCandidates` in `onSdpOffer`. -/
def createAnswer (callId : CallId) : Option ConnectionId → WebRtc
  | none => s
  | some pc => (s.operate pc .createAnswer).suspend (.answer callId pc)

def addCandidates (callId : CallId) (target : ConnectionId) (next : Option ConnectionId) : List Text → WebRtc
  | [] => s.createAnswer callId next
  | candidate :: rest =>
    (s.operate target (.addIceCandidate candidate)).suspend (.flush callId target rest next)

def flushIceCandidates (callId : CallId) (next : Option ConnectionId) : WebRtc :=
  match s.pcRef with
  | none => s.createAnswer callId next
  | some pc => { s with iceCandidateBuffer := [] }.addCandidates callId pc next s.iceCandidateBuffer

/-! ## Media -/

inductive MediaResult
  | got | retry | failed

def setLocal (stream : StreamId) : WebRtc :=
  { s with localStreamRef := some stream, localStream := some stream }

/-- `getMedia` goes on once the browser has answered an attempt. -/
def getMedia : MediaAttempt → Settled → WebRtc × MediaResult
  | .fallback, .fulfilled stream =>
    let found := (s.setLocal stream).setCallState fun prev => { prev with callType := some .audio }
    ({ found with callStateRef := { s.callStateRef with callType := some .audio } }, .got)
  | .video, .fulfilled stream | .audio, .fulfilled stream => (s.setLocal stream, .got)
  | .video, .rejected name =>
    (s, if name = "NotFoundError" ∨ name = "DevicesNotFoundError" then .retry else .failed)
  | .audio, .rejected _ | .fallback, .rejected _ => (s, .failed)

/-! ## What the user does -/

/-- `${currentUserId}-${targetUserId}-${Date.now()}` -/
def callIdOf (currentUserId targetUserId : UserId) (now : Server.Time) : CallId :=
  s!"{currentUserId}-{targetUserId}-{now}".toList.map fun c => c.val.toUInt16

def startCall (currentUserId : UserId) (now : Server.Time) (conversationId : ConversationId)
    (targetUserId : UserId) (callType : CallType) : WebRtc :=
  if s.callStateRef.status ≠ .idle then s
  else
    s.suspend (.starting (callIdOf currentUserId targetUserId now) conversationId targetUserId callType
      (.first callType))

def acceptCall (asType : Option CallType) : WebRtc :=
  match s.callStateRef.status, s.callStateRef.incomingData with
  | .incoming, some data =>
    let mediaType := asType.getD data.callType
    ({ s with ringtone := false }.clearRingTimeout).suspend
      (.accepting data.callId data.conversationId mediaType (.first mediaType))
  | _, _ => s

def rejectCall : WebRtc :=
  match s.callStateRef.status, s.callStateRef.incomingData with
  | .incoming, some data =>
    (s.emit (.callReject data.callId data.conversationId)).cleanup.setCallState fun _ => { status := .idle }
  | _, _ => s

/-- The call is over, and the return to idle is scheduled. -/
def finish (endReason : EndReason) : WebRtc :=
  (s.cleanup.setCallState fun _ => { status := .ended, endReason := some endReason }).setTimeout .backToIdle

def endCall : WebRtc :=
  let state := s.callStateRef
  if state.status = .idle then s
  else
    match state.callId with
    | some (unit :: units) => (s.emit (.callEnd (unit :: units) state.conversationId)).finish .ended
    | _ => s.finish .ended

/-! ## What the server sends -/

def onIncomingCall (data : IncomingCallData) : WebRtc :=
  if s.callStateRef.status ≠ .idle then s.emit (.callBusy data.callId)
  else
    let newState : CallState :=
      { status := .incoming, callId := some data.callId, conversationId := some data.conversationId
        callType := some data.callType, incomingData := some data }
    { s with callStateRef := newState, callState := newState, ringtone := true }.setRingTimeout
      (.notTaken data.callId data.conversationId)

def onCallAccepted (callId : CallId) : WebRtc :=
  if s.callStateRef.status ≠ .calling then s
  else
    let newState := { s.callStateRef with status := .connecting }
    let created := { s.clearRingTimeout with callStateRef := newState, callState := newState }.createPC callId
    ((created.addTracks s.nextPc).operate s.nextPc .createOffer).suspend (.offer callId s.nextPc)

def onSdpOffer (callId : CallId) (offer : Text) : WebRtc :=
  if s.callStateRef.status ≠ .connecting ∧ s.callStateRef.status ≠ .incoming then s
  else
    (((s.createPC callId).addTracks s.nextPc).operate s.nextPc (.setRemoteDescription offer)).suspend
      (.remoteOffer callId s.nextPc)

def onSdpAnswer (callId : CallId) (answer : Text) : WebRtc :=
  match s.pcRef with
  | none => s
  | some pc => (s.operate pc (.setRemoteDescription answer)).suspend (.remoteAnswer callId)

def onIceCandidate (callId : CallId) : Option Text → WebRtc
  | none => s
  | some candidate =>
    if ! s.remoteDescSet then { s with iceCandidateBuffer := s.iceCandidateBuffer ++ [candidate] }
    else
      match s.pcRef with
      | none => s
      | some pc => (s.operate pc (.addIceCandidate candidate)).suspend (.candidate callId)

end WebRtc

/-! ## The machine -/

inductive SignalIn
  | incomingCall (data : IncomingCallData)
  | callAccepted (callId : CallId)
  | sdpOffer (callId : CallId) (offer : Text)
  | sdpAnswer (callId : CallId) (answer : Text)
  | iceCandidate (callId : CallId) (candidate : Option Text)
  | callRejected (callId : CallId)
  | callEnded (callId : CallId)
  | callBusy (callId : CallId)
  deriving DecidableEq, Repr

def SignalIn.callId : SignalIn → CallId
  | incomingCall data => data.callId
  | callAccepted callId | sdpOffer callId _ | sdpAnswer callId _ | iceCandidate callId _
  | callRejected callId | callEnded callId | callBusy callId => callId

inductive UserAction
  | startCall (now : Server.Time) (conversationId : ConversationId) (targetUserId : UserId)
    (callType : CallType)
  | acceptCall (asType : Option CallType)
  | rejectCall
  | endCall
  deriving DecidableEq, Repr

inductive ConnectionState
  | connected | completed | failed | disconnected | closed
  deriving DecidableEq, Repr

inductive ConnectionEvent
  | track (track : TrackId)
  | icecandidate (candidate : Text)
  | iceconnectionstatechange (now : Server.Time) (state : ConnectionState)
  deriving DecidableEq, Repr

inductive WebRtcEvent
  | user (action : UserAction)
  | signal (signal : SignalIn)
  | connection (pc : ConnectionId) (event : ConnectionEvent)
  | timeout (id : Nat)
  | resume (i : Nat) (settled : Settled)
  | render
  | effect
  deriving DecidableEq, Repr

namespace WebRtc
variable (s : WebRtc)

def act (currentUserId : UserId) : UserAction → WebRtc
  | .startCall now conversationId targetUserId callType =>
    s.startCall currentUserId now conversationId targetUserId callType
  | .acceptCall asType => s.acceptCall asType
  | .rejectCall => s.rejectCall
  | .endCall => s.endCall

def receive : SignalIn → WebRtc
  | .incomingCall data => s.onIncomingCall data
  | .callAccepted callId => s.onCallAccepted callId
  | .sdpOffer callId offer => s.onSdpOffer callId offer
  | .sdpAnswer callId answer => s.onSdpAnswer callId answer
  | .iceCandidate callId candidate => s.onIceCandidate callId candidate
  | .callRejected _ => s.finish .rejected
  | .callEnded _ => s.finish .ended
  | .callBusy _ => s.finish .busy

/-- The callbacks of `createPC`. -/
def observe (pc : ConnectionId) : ConnectionEvent → WebRtc
  | .track track =>
    let tracks := (s.pcs pc).remoteMS ++ [track]
    { s with
      pcs := Function.update s.pcs pc { s.pcs pc with remoteMS := tracks }
      remoteStream := some tracks }
  | .icecandidate candidate => s.emit (.iceCandidate (s.pcs pc).callId candidate)
  | .iceconnectionstatechange now .connected | .iceconnectionstatechange now .completed =>
    s.setCallState fun prev =>
      if prev.status = .connecting then { prev with status := .active, startedAt := some now } else prev
  | .iceconnectionstatechange _ .failed => s.operate pc .restartIce
  | .iceconnectionstatechange _ .disconnected | .iceconnectionstatechange _ .closed =>
    if s.callState.status = .active ∨ s.callState.status = .connecting then s.finish .ended else s

def fire : CallTimer → WebRtc
  | .noAnswer callId conversationId =>
    if s.callStateRef.status = .calling then
      (s.emit (.callEnd callId (some conversationId))).finish .noAnswer
    else s
  | .notTaken callId conversationId =>
    if s.callStateRef.status = .incoming then
      (s.emit (.callReject callId conversationId)).cleanup.setCallState fun _ => { status := .idle }
    else s
  | .backToIdle => s.setCallState fun _ => { status := .idle }

/-- A handler goes on. -/
def run : Suspension → Settled → WebRtc
  | .starting callId conversationId targetUserId callType attempt, settled =>
    match s.getMedia attempt settled with
    | (s', .got) =>
      let called := (s'.setCallState fun _ =>
        { status := .calling, callId := some callId, conversationId := some conversationId
          targetUserId := some targetUserId, callType := some callType }).emit
        (.callUser callId conversationId targetUserId callType)
      called.setRingTimeout (.noAnswer callId conversationId)
    | (s', .retry) => s'.suspend (.starting callId conversationId targetUserId callType .fallback)
    | (s', .failed) => s'.cleanup.setCallState fun _ => { status := .idle }
  | .accepting callId conversationId mediaType attempt, settled =>
    match s.getMedia attempt settled with
    | (s', .got) =>
      let newState : CallState :=
        { status := .connecting, callId := some callId, conversationId := some conversationId
          callType := some mediaType }
      { s' with callStateRef := newState, callState := newState }.emit (.callAccept callId mediaType)
    | (s', .retry) => s'.suspend (.accepting callId conversationId mediaType .fallback)
    | (s', .failed) => s'.rejectCall
  | .offer callId pc, .fulfilled sdp =>
    (s.operate pc (.setLocalDescription sdp)).suspend (.localOffer callId sdp)
  | .localOffer callId sdp, .fulfilled _ => s.emit (.sdpOffer callId sdp)
  | .remoteOffer callId pc, .fulfilled _ => { s with remoteDescSet := true }.flushIceCandidates callId (some pc)
  | .remoteAnswer callId, .fulfilled _ => { s with remoteDescSet := true }.flushIceCandidates callId none
  | .flush callId target rest next, _ => s.addCandidates callId target next rest
  | .answer callId pc, .fulfilled sdp =>
    (s.operate pc (.setLocalDescription sdp)).suspend (.localAnswer callId sdp)
  | .localAnswer callId sdp, .fulfilled _ => s.emit (.sdpAnswer callId sdp)
  | .candidate _, _ => s
  -- an error in `onCallAccepted`, `onSdpOffer` or `onSdpAnswer` is not caught
  | .offer .., .rejected _ | .localOffer .., .rejected _ | .remoteOffer .., .rejected _
  | .remoteAnswer _, .rejected _ | .answer .., .rejected _ | .localAnswer .., .rejected _ => s

/-- The effect of the last render. -/
def runEffect : WebRtc := { s with callStateRef := s.rendered.getD s.callStateRef, rendered := none }

def step (currentUserId : UserId) : WebRtcEvent → WebRtc
  | .user action => s.act currentUserId action
  | .signal signal => s.receive signal
  | .connection pc event => if (s.pcs pc).attached then s.observe pc event else s
  | .timeout id =>
    match s.timers.lookup id with
    | none => s
    | some timer => { s with timers := s.timers.filter (·.1 ≠ id) }.fire timer
  | .resume i settled =>
    match s.tasks[i]? with
    | none => s
    | some t => { s with tasks := s.tasks.eraseIdx i }.run t settled
  | .render => { s.runEffect with rendered := some s.callState }
  | .effect => s.runEffect

end WebRtc

def webRtc (currentUserId : UserId) : Machine WebRtc WebRtcEvent where
  init := .init
  enabled _ _ := True
  next s e := s.step currentUserId e

/-! ## Events of other calls -/

/-- What the current call has: its state, its connection with the candidates kept for it, and its
streams. `connections` counts the connections made so far, so that a new one is never the same. -/
structure CallView where
  callState : CallState
  connections : Nat
  pcRef : Option ConnectionId
  connection : Option PeerConnection
  remoteDescSet : Bool
  iceCandidateBuffer : List Text
  localStream : Option StreamId
  localStreamRef : Option StreamId
  remoteStream : Option (List TrackId)
  stopped : List StreamId
  deriving DecidableEq, Repr

namespace WebRtc
variable (s : WebRtc)

def view : CallView where
  callState := s.callState
  connections := s.nextPc
  pcRef := s.pcRef
  connection := s.pcRef.map s.pcs
  remoteDescSet := s.remoteDescSet
  iceCandidateBuffer := s.iceCandidateBuffer
  localStream := s.localStream
  localStreamRef := s.localStreamRef
  remoteStream := s.remoteStream
  stopped := s.stopped

/-- There is a current call, and the event is one of another call: the server sent it or the timer was
armed for that call, or a handler of such an event goes on. -/
def Stale : WebRtcEvent → Prop
  | .signal signal => ∃ callId ∈ s.callState.callId, signal.callId ≠ callId
  | .timeout id => ∃ callId ∈ s.callState.callId, ∃ timer ∈ s.timers.lookup id, timer.callId ≠ some callId
  | .resume i _ => ∃ callId ∈ s.callState.callId, ∃ t ∈ s.tasks[i]?, ∃ other ∈ t.event, other ≠ callId
  | .user _ | .connection .. | .render | .effect => False

/-- An event of another call leaves the current call as it is. -/
def Isolated (currentUserId : UserId) (e : WebRtcEvent) : Prop :=
  s.Stale e → (s.step currentUserId e).view = s.view

/-- No candidate waits for a connection. -/
def Drained : Prop := s.pcRef = none ∨ s.iceCandidateBuffer = []

def IgnoresSignal : SignalIn → Prop
  | .incomingCall _ => s.callStateRef.status ≠ .idle
  | .callAccepted _ => s.callStateRef.status ≠ .calling
  | .sdpOffer .. => s.callStateRef.status ≠ .connecting ∧ s.callStateRef.status ≠ .incoming
  | .sdpAnswer .. => s.pcRef = none
  | .iceCandidate _ candidate => candidate = none ∨ s.remoteDescSet ∧ s.pcRef = none
  | .callRejected _ | .callEnded _ | .callBusy _ => False

def IgnoresTimer : CallTimer → Prop
  | .noAnswer .. => s.callStateRef.status ≠ .calling
  | .notTaken .. => s.callStateRef.status ≠ .incoming
  | .backToIdle => False

/-- What the handler does next is not done to the connection in `pcRef`. -/
def IgnoresHandler : Suspension → Settled → Prop
  | .offer _ pc, .fulfilled _ | .answer _ pc, .fulfilled _ => s.pcRef ≠ some pc
  | .remoteOffer _ pc, .fulfilled _ => s.remoteDescSet ∧ s.Drained ∧ s.pcRef ≠ some pc
  | .remoteAnswer _, .fulfilled _ => s.remoteDescSet ∧ s.Drained
  | .flush _ target (_ :: _) _, _ => s.pcRef ≠ some target
  | .flush _ _ [] next, _ => ∀ pc ∈ next, s.pcRef ≠ some pc
  | .starting .., _ | .accepting .., _ | .localOffer .., _ | .localAnswer .., _ | .candidate _, _
  | .offer .., .rejected _ | .remoteOffer .., .rejected _ | .remoteAnswer _, .rejected _
  | .answer .., .rejected _ => True

/-- An event of another call finds the hook in a state in which it does nothing to the current one. -/
def Ignores : WebRtcEvent → Prop
  | .signal signal => s.IgnoresSignal signal
  | .timeout id => ∀ timer ∈ s.timers.lookup id, s.IgnoresTimer timer
  | .resume i settled => ∀ t ∈ s.tasks[i]?, s.IgnoresHandler t settled
  | .user _ | .connection .. | .render | .effect => True

end WebRtc

section
variable {s : WebRtc}

@[simp] theorem view_suspend (t : Suspension) : (s.suspend t).view = s.view := rfl

theorem view_operate {pc : ConnectionId} {operation : Operation} :
    (s.operate pc operation).view =
      { s.view with connection := s.pcRef.map (s.operate pc operation).pcs } := rfl

/-- To ask something of a connection changes what the current call has only where it is its own. -/
theorem view_operate_iff {pc : ConnectionId} {operation : Operation} :
    (s.operate pc operation).view = s.view ↔ s.pcRef ≠ some pc := by
  constructor
  · intro hview hpc
    have hoperations : ((s.operate pc operation).pcs pc).operations = (s.pcs pc).operations := by
      have hconnection := congrArg CallView.connection hview
      rw [view_operate, hpc] at hconnection
      simpa [WebRtc.view, hpc] using congrArg (Option.map (·.operations)) hconnection
    simp [WebRtc.operate] at hoperations
  · intro hpc
    have hconnection : s.pcRef.map (s.operate pc operation).pcs = s.pcRef.map s.pcs := by
      refine Option.map_congr fun other hother => Function.update_of_ne ?_ _ _
      rintro rfl
      exact hpc hother
    rw [view_operate, hconnection]
    rfl

theorem view_asked_iff {pc : ConnectionId} {operation : Operation} {t : Suspension} :
    ((s.operate pc operation).suspend t).view = s.view ↔ s.pcRef ≠ some pc := by
  rw [view_suspend]
  exact view_operate_iff

theorem view_createAnswer_iff {callId : CallId} {next : Option ConnectionId} :
    (s.createAnswer callId next).view = s.view ↔ ∀ pc ∈ next, s.pcRef ≠ some pc := by
  cases next with
  | none => exact iff_of_true rfl nofun
  | some pc =>
    simp only [Option.mem_some_iff, forall_eq']
    exact view_asked_iff

theorem view_flush_iff {callId : CallId} {next : Option ConnectionId} :
    (s.flushIceCandidates callId next).view = s.view ↔ s.Drained ∧ ∀ pc ∈ next, s.pcRef ≠ some pc := by
  cases hpc : s.pcRef with
  | none =>
    have hrun : s.flushIceCandidates callId next = s.createAnswer callId next := by
      simp only [WebRtc.flushIceCandidates, hpc]
    rw [hrun, view_createAnswer_iff, hpc, and_iff_right (.inl hpc)]
  | some target =>
    have hrun : s.flushIceCandidates callId next =
        { s with iceCandidateBuffer := [] }.addCandidates callId target next s.iceCandidateBuffer := by
      simp only [WebRtc.flushIceCandidates, hpc]
    cases hbuffer : s.iceCandidateBuffer with
    | nil =>
      have hsame : { s with iceCandidateBuffer := [] } = s := by rw [← hbuffer]
      rw [hrun, hsame, hbuffer, ← hpc, and_iff_right (.inr hbuffer)]
      exact view_createAnswer_iff
    | cons candidate rest =>
      refine iff_of_false (fun hview => ?_) fun h => ?_
      · rw [hrun, hbuffer] at hview
        have hempty : [] = s.iceCandidateBuffer := congrArg CallView.iceCandidateBuffer hview
        exact nomatch hempty.trans hbuffer
      · obtain hnone | hnil := h.1
        · exact nomatch hpc.symm.trans hnone
        · exact nomatch hbuffer.symm.trans hnil

theorem flush_remoteDescSet {callId : CallId} {next : Option ConnectionId} :
    (s.flushIceCandidates callId next).remoteDescSet = s.remoteDescSet := by
  unfold WebRtc.flushIceCandidates
  cases s.pcRef <;> cases s.iceCandidateBuffer <;> cases next <;> rfl

/-- What `onSdpOffer` and `onSdpAnswer` do once the description is set. -/
theorem view_described_iff {callId : CallId} {next : Option ConnectionId} :
    ({ s with remoteDescSet := true }.flushIceCandidates callId next).view = s.view ↔
      s.remoteDescSet ∧ s.Drained ∧ ∀ pc ∈ next, s.pcRef ≠ some pc := by
  cases hset : s.remoteDescSet with
  | false =>
    refine iff_of_false (fun hview => ?_) (fun h => nomatch h.1)
    have hsame : _ = s.remoteDescSet := congrArg CallView.remoteDescSet hview
    exact nomatch (flush_remoteDescSet.symm.trans hsame).trans hset
  | true =>
    have hsame : { s with remoteDescSet := true } = s := by rw [← hset]
    rw [hsame, view_flush_iff, and_iff_right rfl]

theorem addTracks_nextPc {pc : ConnectionId} : (s.addTracks pc).nextPc = s.nextPc := by
  unfold WebRtc.addTracks
  cases s.localStreamRef <;> rfl

/-- Whoever makes a connection changes what the current call has. -/
theorem view_ne_of_created {next : WebRtc} (hnext : next.nextPc = s.nextPc + 1) : next.view ≠ s.view := by
  intro hview
  have hsame : next.nextPc = s.nextPc := congrArg CallView.connections hview
  exact Nat.succ_ne_self s.nextPc (hnext.symm.trans hsame)

/-- Whoever ends a call or takes another one changes what the current call has. -/
theorem view_ne_of_callId {callId : CallId} {next : WebRtc} (hcall : s.callState.callId = some callId)
    (hnext : next.callState.callId ≠ some callId) : next.view ≠ s.view := by
  intro hview
  have hsame : next.callState = s.callState := congrArg CallView.callState hview
  exact hnext (hsame ▸ hcall)

/-! ## What the handlers do to the current call -/

theorem view_receive_iff {callId : CallId} (hcall : s.callState.callId = some callId) {signal : SignalIn}
    (hother : signal.callId ≠ callId) : (s.receive signal).view = s.view ↔ s.IgnoresSignal signal := by
  cases signal with
  | incomingCall data =>
    simp only [WebRtc.receive, WebRtc.onIncomingCall, WebRtc.IgnoresSignal]
    split
    · rename_i hbusy
      exact iff_of_true rfl hbusy
    · rename_i hidle
      exact iff_of_false (view_ne_of_callId hcall fun heq => hother (Option.some.inj heq)) hidle
  | callAccepted =>
    simp only [WebRtc.receive, WebRtc.onCallAccepted, WebRtc.IgnoresSignal]
    split
    · rename_i hnot
      exact iff_of_true rfl hnot
    · rename_i hcalling
      exact iff_of_false (view_ne_of_created addTracks_nextPc) hcalling
  | sdpOffer =>
    simp only [WebRtc.receive, WebRtc.onSdpOffer, WebRtc.IgnoresSignal]
    split
    · rename_i hnot
      exact iff_of_true rfl hnot
    · rename_i hwaits
      exact iff_of_false (view_ne_of_created addTracks_nextPc) hwaits
  | sdpAnswer =>
    simp only [WebRtc.receive, WebRtc.onSdpAnswer, WebRtc.IgnoresSignal]
    split
    · rename_i hnone
      exact iff_of_true rfl hnone
    · rename_i hpc
      exact iff_of_false (fun hview => view_asked_iff.mp hview hpc) fun hnone => nomatch hpc.symm.trans hnone
  | iceCandidate other candidate =>
    cases candidate with
    | none => exact iff_of_true rfl (.inl rfl)
    | some candidate =>
      simp only [WebRtc.receive, WebRtc.onIceCandidate, WebRtc.IgnoresSignal]
      cases hset : s.remoteDescSet with
      | false =>
        refine iff_of_false (fun hview => ?_) (by simp)
        have hsame : s.iceCandidateBuffer ++ [candidate] = s.iceCandidateBuffer :=
          congrArg CallView.iceCandidateBuffer hview
        simp at hsame
      | true =>
        rw [if_neg nofun]
        split
        · rename_i hnone
          exact iff_of_true rfl (.inr ⟨rfl, hnone⟩)
        · rename_i hpc
          exact iff_of_false (fun hview => view_asked_iff.mp hview hpc) (by simp [hpc])
  | callRejected | callEnded | callBusy => exact iff_of_false (view_ne_of_callId hcall nofun) id

theorem view_fire_iff {callId : CallId} (hcall : s.callState.callId = some callId) (timer : CallTimer) :
    (s.fire timer).view = s.view ↔ s.IgnoresTimer timer := by
  cases timer with
  | noAnswer | notTaken =>
    simp only [WebRtc.fire, WebRtc.IgnoresTimer]
    split
    · rename_i hrings
      exact iff_of_false (view_ne_of_callId hcall nofun) (not_not_intro hrings)
    · rename_i hnot
      exact iff_of_true rfl hnot
  | backToIdle => exact iff_of_false (view_ne_of_callId hcall nofun) id

theorem view_run_iff {t : Suspension} (ht : t.event ≠ none) (settled : Settled) :
    (s.run t settled).view = s.view ↔ s.IgnoresHandler t settled := by
  cases t with
  | starting | accepting => exact absurd rfl ht
  | flush callId target rest next =>
    cases rest with
    | nil => exact view_createAnswer_iff
    | cons candidate rest => exact view_asked_iff
  | offer | answer =>
    cases settled with
    | fulfilled sdp => exact view_asked_iff
    | rejected => exact iff_of_true rfl trivial
  | remoteOffer callId pc =>
    cases settled with
    | fulfilled =>
      refine view_described_iff.trans (and_congr_right fun _ => and_congr_right fun _ => ?_)
      simp only [Option.mem_some_iff, forall_eq']
    | rejected => exact iff_of_true rfl trivial
  | remoteAnswer =>
    cases settled with
    | fulfilled => exact view_described_iff.trans (and_congr_right fun _ => and_iff_left nofun)
    | rejected => exact iff_of_true rfl trivial
  | localOffer | localAnswer | candidate => cases settled <;> exact iff_of_true rfl trivial

/-- An event of another call leaves the current call as it is if and only if the hook ignores it. -/
theorem view_step_iff {currentUserId : UserId} {e : WebRtcEvent} (hstale : s.Stale e) :
    (s.step currentUserId e).view = s.view ↔ s.Ignores e := by
  cases e with
  | user | connection | render | effect => exact hstale.elim
  | signal signal =>
    obtain ⟨callId, hcall, hother⟩ := hstale
    exact view_receive_iff hcall hother
  | timeout id =>
    obtain ⟨callId, hcall, timer, htimer, -⟩ := hstale
    simp only [WebRtc.step, WebRtc.Ignores, Option.mem_def.mp htimer, Option.mem_some_iff, forall_eq']
    exact view_fire_iff (s := { s with timers := s.timers.filter (·.1 ≠ id) }) hcall timer
  | resume i settled =>
    obtain ⟨callId, -, t, ht, other, hevent, -⟩ := hstale
    have hsome : t.event ≠ none := fun hnone => nomatch hnone.symm.trans hevent
    simp only [WebRtc.step, WebRtc.Ignores, Option.mem_def.mp ht, Option.mem_some_iff, forall_eq']
    exact view_run_iff (s := { s with tasks := s.tasks.eraseIdx i }) hsome settled

end

/-! ## Every run -/

/-- From whatever state, every event of another call in a run leaves the current call as it is, if and
only if each finds the hook in a state in which it ignores the event. -/
theorem calls_isolated_iff (currentUserId : UserId) (s : WebRtc) (run : List WebRtcEvent) :
    ((webRtc currentUserId).restrict fun s e => s.Isolated currentUserId e).Allowed s run ↔
      ((webRtc currentUserId).restrict fun s e => s.Stale e → s.Ignores e).Allowed s run :=
  Machine.allowed_restrict_congr fun _ _ _ => forall_congr' view_step_iff

def callFrom (callId : CallId) : IncomingCallData := ⟨callId, 1, 2, [], none, .audio⟩

/-- The user declines a call, which its caller ends at the same time, and gets another one. -/
def endedAfterDeclined : List WebRtcEvent :=
  [.signal (.incomingCall (callFrom [7])), .user .rejectCall, .render, .effect,
    .signal (.incomingCall (callFrom [8])), .signal (.callEnded [7])]

theorem late_end_clears_call : ¬∀ (currentUserId : UserId) (s : WebRtc) (run : List WebRtcEvent),
    ((webRtc currentUserId).restrict fun s e => s.Isolated currentUserId e).Allowed s run := by
  intro hall
  have hisolated := (hall 1 .init endedAfterDeclined).2.2.2.2.2.1.2
  have hstate := congrArg (·.callState.status) (hisolated ⟨[8], rfl, by decide⟩)
  exact absurd hstate (by decide)

end Vesper.Client
