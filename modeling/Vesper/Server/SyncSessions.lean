import Vesper.Server.Gateway
import Mathlib.Data.List.AList

/-!
# Device synchronisation sessions

`SyncSessionService`, with its two stores, and the handlers of `ChatGateway` that use it. A handler
suspends at every access to the store. What follows an access up to the next one is a job, resumed by a
later step; the access itself is the first thing that the job does.
-/

namespace Vesper.Server

/-! ## The service -/

abbrev SessionId := Text

/-- `serial` numbers the sessions as they are stored, and is 0 before. The source has no such field, and
nothing reads it. -/
structure SyncSession where
  userId : UserId
  sourceSocketId : SocketId
  targetSocketId : Option SocketId
  expiresAt : Time
  ekSource : Option Text
  sdpOffer : Option Text
  serial : Nat
  deriving DecidableEq, Repr

inductive Backend
  | memory | redis
  deriving DecidableEq, Repr

def TTL_S : Int := 5 * 60

/-- A stored value, and when Redis drops it. -/
structure Kept (α : Type) where
  value : α
  expires : Option Time
  deriving DecidableEq

def Kept.live {α : Type} (e : Kept α) (now : Time) : Option α :=
  if e.expires.all (now < ·) then some e.value else none

/-- The maps `mem` and `sktMem`, or the keys `dsync:` and `dsync_skt:` of Redis. -/
structure SyncSessionService where
  backend : Backend
  mem : AList fun _ : SessionId => Kept SyncSession
  sktMem : AList fun _ : SocketId => Kept SessionId

theorem Kept.live_value {α : Type} {e : Kept α} {now : Time} {a : α} (h : e.live now = some a) :
    e.value = a := by
  unfold Kept.live at h
  split at h
  · exact Option.some.inj h
  · cases h

theorem Kept.live_earlier {α : Type} {e : Kept α} {now now' : Time} {a : α} (hle : now ≤ now')
    (h : e.live now' = some a) : e.live now = some a := by
  unfold Kept.live at h ⊢
  cases hexp : e.expires with
  | none => simpa [hexp] using h
  | some t =>
    simp only [hexp, Option.all_some, decide_eq_true_eq, Option.ite_none_right_eq_some] at h ⊢
    exact ⟨Int.lt_of_le_of_lt hle h.1, h.2⟩

namespace SyncSessionService
variable (s : SyncSessionService) (now : Time)

def keep {α : Type} (value : α) : Kept α where
  value
  expires := match s.backend with
    | .memory => none
    | .redis => some (now + TTL_S * 1000)

def get (sessionId : SessionId) : Option SyncSession := (s.mem.lookup sessionId).bind (·.live now)

def has (sessionId : SessionId) : Bool := (s.get now sessionId).isSome

def set (sessionId : SessionId) (session : SyncSession) : SyncSessionService :=
  { s with mem := s.mem.insert sessionId (s.keep now session) }

def trackSocket (socketId : SocketId) (sessionId : SessionId) : SyncSessionService :=
  { s with sktMem := s.sktMem.insert socketId (s.keep now sessionId) }

/-- The first half of `getSessionBySocket`. -/
def indexed (socketId : SocketId) : Option SessionId := (s.sktMem.lookup socketId).bind (·.live now)

/-- The second half of `deleteSession`, which has read the session. -/
def del (sessionId : SessionId) (session : SyncSession) : SyncSessionService where
  backend := s.backend
  mem := s.mem.erase sessionId
  sktMem := match session.targetSocketId with
    | some target => (s.sktMem.erase session.sourceSocketId).erase target
    | none => s.sktMem.erase session.sourceSocketId

def purgeExpired : SyncSessionService :=
  match s.backend with
  | .redis => s
  | .memory => s.mem.entries.foldl (fun s e =>
      if e.2.value.expiresAt ≤ now then s.del e.1 e.2.value else s) s

section
variable {s : SyncSessionService} {now : Time} {sessionId id : SessionId} {session : SyncSession}
  {socketId k : SocketId}

theorem lookup_set : (s.set now sessionId session).mem.lookup id =
    if id = sessionId then some (s.keep now session) else s.mem.lookup id := by
  split
  · rename_i heq
    exact heq ▸ AList.lookup_insert _
  · exact AList.lookup_insert_ne ‹_›

theorem lookup_trackSocket : (s.trackSocket now socketId sessionId).sktMem.lookup k =
    if k = socketId then some (s.keep now sessionId) else s.sktMem.lookup k := by
  split
  · rename_i heq
    exact heq ▸ AList.lookup_insert _
  · exact AList.lookup_insert_ne ‹_›

theorem lookup_del : (s.del sessionId session).mem.lookup id =
    if id = sessionId then none else s.mem.lookup id := by
  split
  · rename_i heq
    exact heq ▸ AList.lookup_erase _ _
  · exact AList.lookup_erase_ne ‹_›

theorem lookup_del_socket : (s.del sessionId session).sktMem.lookup k =
    if k = session.sourceSocketId ∨ some k = session.targetSocketId then none else s.sktMem.lookup k := by
  have herase : ∀ {m : AList fun _ : SocketId => Kept SessionId} {k' : SocketId},
      (m.erase k').lookup k = if k = k' then none else m.lookup k := by
    intro m k'
    split
    · rename_i heq
      exact heq ▸ AList.lookup_erase _ _
    · exact AList.lookup_erase_ne ‹_›
  unfold del
  cases session.targetSocketId with
  | none => simp only [herase, reduceCtorEq, or_false]
  | some target =>
    simp only [herase, Option.some.injEq]
    by_cases hsource : k = session.sourceSocketId <;> by_cases htarget : k = target <;>
      simp [hsource, htarget]

theorem get_earlier {now' : Time} (hle : now ≤ now') (h : s.get now' id = some session) :
    s.get now id = some session := by
  obtain ⟨e, he, hlive⟩ := Option.bind_eq_some_iff.mp h
  exact Option.bind_eq_some_iff.mpr ⟨e, he, Kept.live_earlier hle hlive⟩

theorem indexed_earlier {now' : Time} (hle : now ≤ now') (h : s.indexed now' k = some id) :
    s.indexed now k = some id := by
  obtain ⟨e, he, hlive⟩ := Option.bind_eq_some_iff.mp h
  exact Option.bind_eq_some_iff.mpr ⟨e, he, Kept.live_earlier hle hlive⟩

theorem live_keep {α : Type} {value : α} : (s.keep now value).live now = some value := by
  unfold keep Kept.live
  cases s.backend with
  | memory => rfl
  | redis => exact if_pos (decide_eq_true (Int.lt_add_of_pos_right _ (by decide)))

@[simp] theorem get_set : (s.set now sessionId session).get now id =
    if id = sessionId then some session else s.get now id := by
  rw [get, lookup_set]
  split
  · exact live_keep
  · rfl

@[simp] theorem indexed_set : (s.set now sessionId session).indexed now k = s.indexed now k := rfl

@[simp] theorem indexed_trackSocket : (s.trackSocket now socketId sessionId).indexed now k =
    if k = socketId then some sessionId else s.indexed now k := by
  rw [indexed, lookup_trackSocket]
  split
  · exact live_keep
  · rfl

@[simp] theorem get_trackSocket : (s.trackSocket now socketId sessionId).get now id = s.get now id := rfl

@[simp] theorem get_del : (s.del sessionId session).get now id =
    if id = sessionId then none else s.get now id := by
  rw [get, lookup_del]
  split <;> rfl

/-- What every deletion keeps is kept by `purgeExpired`. -/
theorem purge_rule {P : SyncSessionService → Prop} (h : P s)
    (hdel : ∀ s sessionId session, P s → P (del s sessionId session)) : P (s.purgeExpired now) := by
  unfold purgeExpired
  cases s.backend with
  | redis => exact h
  | memory =>
    dsimp only
    generalize s.mem.entries = entries
    induction entries generalizing s with
    | nil => exact h
    | cons e entries ih =>
      rw [List.foldl_cons]
      split
      · exact ih (hdel _ _ _ h)
      · exact ih h

end

end SyncSessionService

/-! ## The handlers -/

inductive SyncEvent
  | rateLimited (event : String) (retryAfter : Int) (message : String)
  | deviceSyncError (reason : String)
  | deviceSyncReady (sessionId : SessionId)
  | deviceSyncOffer (sessionId : SessionId) (ekSource sdpOffer : Option Text)
  | deviceSyncPeerJoined (sessionId : SessionId) (ekTarget : Text)
  | deviceSyncPeerAnswer (sessionId : SessionId) (sdpAnswer : Text)
  | deviceSyncIce (sessionId : SessionId) (candidate : Text)
  | deviceSyncAborted (sessionId : SessionId) (reason : String)
  deriving DecidableEq

/-- An event that is sent to a socket, and the session that the handler has read before. -/
structure SyncEmission where
  session : Option SyncSession
  target : SocketId
  event : SyncEvent
  deriving DecidableEq

/-- A missing session identifier is the empty one: no session has either. -/
inductive SyncRequest
  | deviceSyncStart (sessionId : SessionId) (ekSource sdpOffer : Option Text)
  | deviceSyncJoin (sessionId : SessionId) (ekTarget : Text)
  | deviceSyncRelayAnswer (sessionId : SessionId) (sdpAnswer : Text)
  | deviceSyncIce (sessionId : SessionId) (candidate : Text)
  | deviceSyncAbort (sessionId : SessionId)
  deriving DecidableEq

/-- The rest of a handler from one access to the store on. `session` is what the handler has read, and
`current` what `update` or `deleteSession` has read again. -/
inductive SyncJob
  | startHas (client : SocketId) (sessionId : SessionId) (ekSource sdpOffer : Option Text)
  | startSet (client : SocketId) (sessionId : SessionId) (session : SyncSession)
  | startTrack (client : SocketId) (sessionId : SessionId) (session : SyncSession)
  | joinGet (client : SocketId) (sessionId : SessionId) (ekTarget : Text)
  | joinUpdate (client : SocketId) (sessionId : SessionId) (ekTarget : Text) (session : SyncSession)
  | joinSet (client : SocketId) (sessionId : SessionId) (ekTarget : Text) (session current : SyncSession)
  | joinTrack (client : SocketId) (sessionId : SessionId) (ekTarget : Text) (session : SyncSession)
  | relayGet (client : SocketId) (sessionId : SessionId) (sdpAnswer : Text)
  | iceGet (client : SocketId) (sessionId : SessionId) (candidate : Text)
  | abortGet (client : SocketId) (sessionId : SessionId)
  | abortDelete (client : SocketId) (sessionId : SessionId) (session : SyncSession)
  | abortDel (client : SocketId) (sessionId : SessionId) (session current : SyncSession)
  | disconnectIndex (client : SocketId)
  | disconnectGet (client : SocketId) (sessionId : SessionId)
  | disconnectDelete (client : SocketId) (sessionId : SessionId) (session : SyncSession)
  | disconnectDel (client : SocketId) (sessionId : SessionId) (session current : SyncSession)
  deriving DecidableEq

def SyncJob.client : SyncJob → SocketId
  | startHas client .. | startSet client .. | startTrack client .. | joinGet client .. | joinUpdate client ..
  | joinSet client .. | joinTrack client .. | relayGet client .. | iceGet client .. | abortGet client ..
  | abortDelete client .. | abortDel client .. | disconnectIndex client | disconnectGet client _
  | disconnectDelete client .. | disconnectDel client .. => client

structure SyncGateway where
  syncSessions : SyncSessionService
  syncLimiter : WsRateLimiter
  connected : List SocketId
  jobs : List SyncJob
  /-- The number of sessions that have been stored. -/
  sessions : Nat
  emitted : List SyncEmission

namespace SyncGateway

def SYNC_SESSION_TTL_MS : Int := 5 * 60 * 1000

/-- `/^[0-9a-f]{32}$/` -/
def SESSION_ID_RE (sessionId : SessionId) : Bool :=
  sessionId.length = 32 ∧ sessionId.all fun unit =>
    (0x30 ≤ unit && unit ≤ 0x39) || (0x61 ≤ unit && unit ≤ 0x66)

def anId : SessionId := List.replicate 32 0x61

example : SESSION_ID_RE anId := by decide

variable (s : SyncGateway) (owner : SocketId → UserId) (now : Time)

def suspend (job : SyncJob) : SyncGateway := { s with jobs := s.jobs ++ [job] }

def emit (session : Option SyncSession) (target : SocketId) (event : SyncEvent) : SyncGateway :=
  { s with emitted := s.emitted ++ [⟨session, target, event⟩] }

/-- `rateLimit` with `syncLimiter`, around the rest of a handler. -/
def limited (client : SocketId) (event : String) (rest : SyncGateway → SyncGateway) : SyncGateway :=
  let limiter := s.syncLimiter.hit now (owner client)
  if s.syncLimiter.isAllowed now (owner client) then rest { s with syncLimiter := limiter }
  else
    let retryAfter := limiter.retryAfter now (owner client)
    ({ s with syncLimiter := limiter } : SyncGateway).emit none client
      (.rateLimited event retryAfter s!"Too many {event} events. Try again in {retryAfter}s.")

/-- What a handler does before it accesses the store. -/
def handle (client : SocketId) : SyncRequest → SyncGateway
  | .deviceSyncStart sessionId ekSource sdpOffer => s.limited owner now client "deviceSyncStart" fun s =>
    if SESSION_ID_RE sessionId then s.suspend (.startHas client sessionId ekSource sdpOffer)
    else s.emit none client (.deviceSyncError "invalid_session_id")
  | .deviceSyncJoin sessionId ekTarget => s.limited owner now client "deviceSyncJoin" fun s =>
    s.suspend (.joinGet client sessionId ekTarget)
  | .deviceSyncRelayAnswer sessionId sdpAnswer => s.suspend (.relayGet client sessionId sdpAnswer)
  | .deviceSyncIce sessionId candidate => s.suspend (.iceGet client sessionId candidate)
  | .deviceSyncAbort sessionId => s.suspend (.abortGet client sessionId)

/-- The other participant, where the client is one. -/
def peerSocketId (client : SocketId) (session : SyncSession) : Option SocketId :=
  if session.sourceSocketId = client then session.targetSocketId else some session.sourceSocketId

/-- The end of `handleDeviceSyncAbort`, once the session is deleted. -/
def abortEnd (client : SocketId) (sessionId : SessionId) (session : SyncSession) : SyncGateway :=
  let s := (peerSocketId client session).elim s fun peer =>
    s.emit (some session) peer (.deviceSyncAborted sessionId "peer_aborted")
  s.emit (some session) client (.deviceSyncAborted sessionId "self_aborted")

/-- What `handleDisconnect` does once the session is deleted. -/
def disconnectEnd (client : SocketId) (sessionId : SessionId) (session : SyncSession) : SyncGateway :=
  (peerSocketId client session).elim s fun peer =>
    s.emit (some session) peer (.deviceSyncAborted sessionId "peer_disconnected")

def run : SyncJob → SyncGateway
  | .startHas client sessionId ekSource sdpOffer =>
    if s.syncSessions.has now sessionId then s.emit none client (.deviceSyncError "session_exists")
    else s.suspend (.startSet client sessionId
      ⟨owner client, client, none, now + SYNC_SESSION_TTL_MS, ekSource, sdpOffer, 0⟩)
  | .startSet client sessionId session =>
    let session := { session with serial := s.sessions }
    ({ s with
      syncSessions := s.syncSessions.set now sessionId session
      sessions := s.sessions + 1 } : SyncGateway).suspend (.startTrack client sessionId session)
  | .startTrack client sessionId session =>
    ({ s with syncSessions := s.syncSessions.trackSocket now client sessionId } : SyncGateway).emit
      (some session) client (.deviceSyncReady sessionId)
  | .joinGet client sessionId ekTarget =>
    match s.syncSessions.get now sessionId with
    | none => s.emit none client (.deviceSyncError "not_found")
    | some session =>
      if session.expiresAt ≤ now then s.emit none client (.deviceSyncError "not_found")
      else if session.userId ≠ owner client then s.emit none client (.deviceSyncError "not_found")
      else if session.targetSocketId.isSome then
        s.emit none client (.deviceSyncError "not_available")
      else if session.sourceSocketId = client then
        s.emit none client (.deviceSyncError "not_available")
      else s.suspend (.joinUpdate client sessionId ekTarget session)
  | .joinUpdate client sessionId ekTarget session =>
    match s.syncSessions.get now sessionId with
    | none => s.suspend (.joinTrack client sessionId ekTarget session)
    | some current => s.suspend (.joinSet client sessionId ekTarget session current)
  | .joinSet client sessionId ekTarget session current =>
    let updated := { current with targetSocketId := some client, ekSource := none, sdpOffer := none }
    ({ s with syncSessions := s.syncSessions.set now sessionId updated } : SyncGateway).suspend
      (.joinTrack client sessionId ekTarget session)
  | .joinTrack client sessionId ekTarget session =>
    (({ s with syncSessions := s.syncSessions.trackSocket now client sessionId } : SyncGateway).emit
      (some session) client (.deviceSyncOffer sessionId session.ekSource session.sdpOffer)).emit
      (some session) session.sourceSocketId (.deviceSyncPeerJoined sessionId ekTarget)
  | .relayGet client sessionId sdpAnswer =>
    match s.syncSessions.get now sessionId with
    | none => s
    | some session =>
      if session.targetSocketId ≠ some client then s
      else s.emit (some session) session.sourceSocketId (.deviceSyncPeerAnswer sessionId sdpAnswer)
  | .iceGet client sessionId candidate =>
    match s.syncSessions.get now sessionId with
    | none => s
    | some session =>
      if session.expiresAt ≤ now then s
      else if ¬(session.sourceSocketId = client ∨ session.targetSocketId = some client) then s
      else (peerSocketId client session).elim s fun peer =>
        s.emit (some session) peer (.deviceSyncIce sessionId candidate)
  | .abortGet client sessionId =>
    match s.syncSessions.get now sessionId with
    | none => s
    | some session =>
      if ¬(session.sourceSocketId = client ∨ session.targetSocketId = some client) then s
      else s.suspend (.abortDelete client sessionId session)
  | .abortDelete client sessionId session =>
    match s.syncSessions.get now sessionId with
    | none => s.abortEnd client sessionId session
    | some current => s.suspend (.abortDel client sessionId session current)
  | .abortDel client sessionId session current =>
    ({ s with syncSessions := s.syncSessions.del sessionId current } : SyncGateway).abortEnd client
      sessionId session
  | .disconnectIndex client =>
    match s.syncSessions.indexed now client with
    | none => s
    | some sessionId => s.suspend (.disconnectGet client sessionId)
  | .disconnectGet client sessionId =>
    match s.syncSessions.get now sessionId with
    | none => s
    | some session => s.suspend (.disconnectDelete client sessionId session)
  | .disconnectDelete client sessionId session =>
    match s.syncSessions.get now sessionId with
    | none => s.disconnectEnd client sessionId session
    | some current => s.suspend (.disconnectDel client sessionId session current)
  | .disconnectDel client sessionId session current =>
    ({ s with syncSessions := s.syncSessions.del sessionId current } : SyncGateway).disconnectEnd client
      sessionId session

def cleanup : SyncGateway :=
  { s with syncLimiter := s.syncLimiter.cleanup now, syncSessions := s.syncSessions.purgeExpired now }

end SyncGateway

/-! ## The machine -/

inductive SyncInput
  | connect (socket : SocketId)
  | event (socket : SocketId) (request : SyncRequest)
  | resume (job : Nat)
  | disconnect (socket : SocketId)
  | cleanup
  deriving DecidableEq

namespace SyncGateway
variable (s : SyncGateway) (owner : SocketId → UserId)

def Enabled : SyncInput → Prop
  | .connect socket => socket ∉ s.connected ∧ owner socket ≠ 0
  | .event socket _ | .disconnect socket => socket ∈ s.connected
  | .resume job => job < s.jobs.length
  | .cleanup => True

instance : (input : SyncInput) → Decidable (s.Enabled owner input)
  | .connect _ => inferInstanceAs (Decidable (_ ∧ _))
  | .event _ _ | .disconnect _ => inferInstanceAs (Decidable (_ ∈ s.connected))
  | .resume _ => inferInstanceAs (Decidable (_ < _))
  | .cleanup => .isTrue trivial

/-- The socket whose handler runs. -/
def actor : SyncInput → Option SocketId
  | .connect socket | .event socket _ | .disconnect socket => some socket
  | .resume job => (s.jobs[job]?).map (·.client)
  | .cleanup => none

def step (now : Time) : SyncInput → SyncGateway
  | .connect socket => { s with connected := s.connected ++ [socket] }
  | .event socket request => s.handle owner now socket request
  | .resume job =>
    (s.jobs[job]?).elim s (({ s with jobs := s.jobs.eraseIdx job } : SyncGateway).run owner now)
  | .disconnect socket =>
    ({ s with connected := s.connected.filter (· ≠ socket) } : SyncGateway).suspend (.disconnectIndex socket)
  | .cleanup => s.cleanup now

def next (e : Time × SyncInput) : SyncGateway := ({ s with emitted := [] } : SyncGateway).step owner e.1 e.2

def start (backend : Backend) : SyncGateway := ⟨⟨backend, ∅, ∅⟩, .new 5 60, [], [], 0, []⟩

end SyncGateway

/-- All runs of the handlers, interleaved at their accesses to the store. `owner` tells as whom a socket
is authenticated, which it stays. -/
def syncGateway (backend : Backend) (owner : SocketId → UserId) : Machine SyncGateway (Time × SyncInput) where
  init := .start backend
  enabled s e := s.Enabled owner e.2
  next s e := s.next owner e

instance {backend : Backend} {owner : SocketId → UserId} (s : SyncGateway) (e : Time × SyncInput) :
    Decidable ((syncGateway backend owner).enabled s e) :=
  inferInstanceAs (Decidable (s.Enabled owner e.2))

end Vesper.Server
