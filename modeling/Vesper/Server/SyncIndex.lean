import Vesper.Server.SyncSessions
import Vesper.Lib.Machine

/-!
# The index of sockets

`handleDisconnect` finds the session of a socket through an index that has one entry for each socket.
Here every handler runs to its end before the next one starts. The index covers all sessions exactly as
long as no socket enters a session while it is in another, and no session is removed while one of its
participants is in another.
-/

namespace Vesper.Server

/-! ## Handlers that run to their end -/

namespace SyncGateway
variable (s : SyncGateway) (owner : SocketId → UserId)

/-- Resumes the first job, and what it suspends as, up to `n` times. -/
def settle (now : Time) : Nat → SyncGateway → SyncGateway
  | 0, s => s
  | n + 1, s =>
    match s.jobs with
    | [] => s
    | job :: jobs => settle now n (({ s with jobs } : SyncGateway).run owner now job)

/-- No handler accesses the store more often than that. -/
def whole (e : Time × SyncInput) : SyncGateway := settle owner e.1 4 (s.next owner e)

end SyncGateway

/-- All runs in which handlers do not overlap. -/
def syncServer (backend : Backend) (owner : SocketId → UserId) : Machine SyncGateway (Time × SyncInput) where
  init := .start backend
  enabled s e := s.Enabled owner e.2
  next s e := s.whole owner e

instance {backend : Backend} {owner : SocketId → UserId} (s : SyncGateway) (e : Time × SyncInput) :
    Decidable ((syncServer backend owner).enabled s e) :=
  inferInstanceAs (Decidable (s.Enabled owner e.2))

/-- The socket is the source or the target. -/
def SyncSession.Has (session : SyncSession) (k : SocketId) : Prop :=
  session.sourceSocketId = k ∨ session.targetSocketId = some k

instance (session : SyncSession) (k : SocketId) : Decidable (session.Has k) :=
  inferInstanceAs (Decidable (_ ∨ _))

namespace SyncGateway
variable (s : SyncGateway) (owner : SocketId → UserId)

/-- An unexpired session is stored under the id. -/
def Open (now : Time) (id : SessionId) (session : SyncSession) : Prop :=
  s.syncSessions.get now id = some session ∧ now < session.expiresAt

/-- What a disconnection of the socket has to do: every unexpired session in which it takes part is
deleted, and the other participant is told. -/
def CutsOff (now : Time) (k : SocketId) : Prop :=
  ∀ id session, s.Open now id session → session.Has k →
    (s.whole owner (now, .disconnect k)).syncSessions.get now id = none ∧
    ∀ peer, peerSocketId k session = some peer → ∃ m ∈ (s.whole owner (now, .disconnect k)).emitted,
      m.target = peer ∧ m.event = .deviceSyncAborted id "peer_disconnected"

/-- Any connected socket may disconnect at any time from now on. -/
def Covers (now : Time) : Prop :=
  ∀ k ∈ s.connected, ∀ now', now ≤ now' → s.CutsOff owner now' k

/-! ## The exact condition -/

/-- The checks of `handleDeviceSyncJoin`. -/
def Joinable (owner : SocketId → UserId) (now : Time) (client : SocketId) (session : SyncSession) : Prop :=
  ¬session.expiresAt ≤ now ∧ session.userId = owner client ∧ ¬session.targetSocketId.isSome ∧
    session.sourceSocketId ≠ client

instance {owner : SocketId → UserId} {now : Time} {client : SocketId} {session : SyncSession} :
    Decidable (Joinable owner now client session) :=
  inferInstanceAs (Decidable (_ ∧ _ ∧ _ ∧ _))

/-- The socket that enters a session, the id, and the session as it is stored then. -/
def enters (e : Time × SyncInput) : Option (SocketId × SessionId × SyncSession) :=
  match e.2 with
  | .event client (.deviceSyncStart sessionId ekSource sdpOffer) =>
    if s.syncLimiter.isAllowed e.1 (owner client) ∧ SESSION_ID_RE sessionId ∧
        ¬s.syncSessions.has e.1 sessionId then
      some (client, sessionId,
        ⟨owner client, client, none, e.1 + SYNC_SESSION_TTL_MS, ekSource, sdpOffer, s.sessions⟩)
    else none
  | .event client (.deviceSyncJoin sessionId _) =>
    (s.syncSessions.get e.1 sessionId).bind fun session =>
      if s.syncLimiter.isAllowed e.1 (owner client) ∧ Joinable owner e.1 client session then
        some (client, sessionId,
          { session with targetSocketId := some client, ekSource := none, sdpOffer := none })
      else none
  | _ => none

/-- The session that an abort or a disconnection deletes. -/
def drops (e : Time × SyncInput) : Option (SessionId × SyncSession) :=
  match e.2 with
  | .event client (.deviceSyncAbort sessionId) =>
    (s.syncSessions.get e.1 sessionId).bind fun session =>
      if session.Has client then some (sessionId, session) else none
  | .disconnect client =>
    (s.syncSessions.indexed e.1 client).bind fun sessionId =>
      (s.syncSessions.get e.1 sessionId).map (sessionId, ·)
  | _ => none

/-- What is removed, also by `purgeExpired`. -/
def Removes (e : Time × SyncInput) (id : SessionId) (session : SyncSession) : Prop :=
  s.drops e = some (id, session) ∨
    e.2 = .cleanup ∧ s.syncSessions.backend = .memory ∧ session.expiresAt ≤ e.1 ∧
      ∃ r, s.syncSessions.mem.lookup id = some r ∧ r.value = session

/-- A socket enters a session only while it is in no other unexpired one, and a session is removed
only while none of its participants is in another unexpired one. -/
structure OneEach (e : Time × SyncInput) : Prop where
  entering : ∀ k id session, s.enters owner e = some (k, id, session) →
    ∀ id' session', s.Open e.1 id' session' → session'.Has k → id' = id
  removing : ∀ id session, s.Removes e id session → ∀ k, session.Has k →
    ∀ id' session', s.Open e.1 id' session' → session'.Has k → id' = id

end SyncGateway

/-! ## What a handler does as a whole -/

namespace SyncGateway
section
variable {s : SyncGateway} {owner : SocketId → UserId} {now now' : Time} {client k : SocketId}
  {sessionId id : SessionId} {session : SyncSession}

theorem settle_nil (h : s.jobs = []) (n : Nat) : settle owner now n s = s := by
  cases n with
  | zero => rfl
  | succ n => rw [settle, h]

theorem settle_suspend (h : s.jobs = []) {job : SyncJob} {n : Nat} :
    settle owner now (n + 1) (s.suspend job) = settle owner now n (s.run owner now job) := by
  cases s
  cases h
  rfl

/-- What a handler leaves behind: nothing suspended, and `store` in the store. -/
structure Left (s : SyncGateway) (store : SyncSessionService) (s' : SyncGateway) : Prop where
  jobs : s'.jobs = []
  connected : s'.connected = s.connected
  store : s'.syncSessions = store

section
attribute [local simp] settle_nil settle_suspend run emit

theorem whole_start (hjobs : s.jobs = []) {ekSource sdpOffer : Option Text} :
    let e := (now, SyncInput.event client (.deviceSyncStart sessionId ekSource sdpOffer))
    s.Left ((s.enters owner e).elim s.syncSessions fun p =>
      (s.syncSessions.set now p.2.1 p.2.2).trackSocket now p.1 p.2.1) (s.whole owner e) := by
  dsimp only [whole, next, step, handle, limited, enters]
  by_cases hallowed : s.syncLimiter.isAllowed now (owner client) <;>
    by_cases hid : SESSION_ID_RE sessionId <;> by_cases hhas : s.syncSessions.has now sessionId <;>
    constructor <;> simp [hjobs, hallowed, hid, hhas]

theorem whole_join (hjobs : s.jobs = []) {ekTarget : Text} :
    let e := (now, SyncInput.event client (.deviceSyncJoin sessionId ekTarget))
    s.Left ((s.enters owner e).elim s.syncSessions fun p =>
      (s.syncSessions.set now p.2.1 p.2.2).trackSocket now p.1 p.2.1) (s.whole owner e) := by
  dsimp only [whole, next, step, handle, limited, enters]
  by_cases hallowed : s.syncLimiter.isAllowed now (owner client)
  · cases hget : s.syncSessions.get now sessionId with
    | none => constructor <;> simp [hjobs, hallowed, hget]
    | some session =>
      by_cases hexp : session.expiresAt ≤ now
      · have hjoin : ¬Joinable owner now client session := fun h => h.1 hexp
        constructor <;> simp [hjobs, hallowed, hget, hexp, hjoin]
      by_cases huser : session.userId = owner client
      · by_cases htarget : session.targetSocketId.isSome
        · have hjoin : ¬Joinable owner now client session := fun h => h.2.2.1 htarget
          constructor <;> simp [hjobs, hallowed, hget, hexp, huser, htarget, hjoin]
        by_cases hsource : session.sourceSocketId = client
        · have hjoin : ¬Joinable owner now client session := fun h => h.2.2.2 hsource
          constructor <;> simp [hjobs, hallowed, hget, hexp, huser, htarget, hsource, hjoin]
        · have hjoin : Joinable owner now client session := ⟨hexp, huser, htarget, hsource⟩
          constructor <;> simp [hjobs, hallowed, hget, hexp, huser, htarget, hsource, hjoin]
      · have hjoin : ¬Joinable owner now client session := fun h => huser h.2.1
        constructor <;> simp [hjobs, hallowed, hget, hexp, huser, hjoin]
  · cases s.syncSessions.get now sessionId <;> constructor <;> simp [hjobs, hallowed]

theorem whole_relay (hjobs : s.jobs = []) {sdpAnswer : Text} :
    s.Left s.syncSessions (s.whole owner (now, .event client (.deviceSyncRelayAnswer sessionId sdpAnswer))) := by
  dsimp only [whole, next, step, handle]
  cases hget : s.syncSessions.get now sessionId with
  | none => constructor <;> simp [hjobs, hget]
  | some session =>
    by_cases htarget : session.targetSocketId = some client <;> constructor <;> simp [hjobs, hget, htarget]

theorem whole_ice (hjobs : s.jobs = []) {candidate : Text} :
    s.Left s.syncSessions (s.whole owner (now, .event client (.deviceSyncIce sessionId candidate))) := by
  dsimp only [whole, next, step, handle]
  cases hget : s.syncSessions.get now sessionId with
  | none => constructor <;> simp [hjobs, hget]
  | some session =>
    by_cases hexp : session.expiresAt ≤ now
    · constructor <;> simp [hjobs, hget, hexp]
    by_cases hpart : session.sourceSocketId = client ∨ session.targetSocketId = some client
    · cases hpeer : peerSocketId client session <;> constructor <;>
        simp [hjobs, hget, hexp, hpart, hpeer]
    · constructor <;> simp [hjobs, hget, hexp, hpart]

theorem whole_abort (hjobs : s.jobs = []) :
    let e := (now, SyncInput.event client (.deviceSyncAbort sessionId))
    s.Left ((s.drops e).elim s.syncSessions fun p => s.syncSessions.del p.1 p.2) (s.whole owner e) := by
  dsimp only [whole, next, step, handle, drops]
  cases hget : s.syncSessions.get now sessionId with
  | none => constructor <;> simp [hjobs, hget]
  | some session =>
    by_cases hpart : session.sourceSocketId = client ∨ session.targetSocketId = some client
    · have hhas : session.Has client := hpart
      cases hpeer : peerSocketId client session <;> constructor <;>
        simp [abortEnd, hjobs, hget, hpart, hhas, hpeer]
    · have hhas : ¬session.Has client := hpart
      constructor <;> simp [hjobs, hget, hpart, hhas]

theorem whole_disconnect (hjobs : s.jobs = []) :
    let e := (now, SyncInput.disconnect client)
    (s.whole owner e).jobs = [] ∧ (s.whole owner e).connected = s.connected.filter (· ≠ client) ∧
      (s.whole owner e).syncSessions = (s.drops e).elim s.syncSessions fun p => s.syncSessions.del p.1 p.2 := by
  dsimp only [whole, next, step, handle, drops]
  cases hindex : s.syncSessions.indexed now client with
  | none => simp [hjobs, hindex]
  | some id =>
    cases hget : s.syncSessions.get now id with
    | none => simp [hjobs, hindex, hget]
    | some session =>
      cases hpeer : peerSocketId client session <;> simp [disconnectEnd, hjobs, hindex, hget, hpeer]

/-- What the other participant of the deleted session is told. -/
theorem disconnect_emitted (hjobs : s.jobs = []) {peer : SocketId}
    (hdrops : s.drops (now, .disconnect client) = some (id, session))
    (hpeer : peerSocketId client session = some peer) :
    (s.whole owner (now, .disconnect client)).emitted =
      [⟨some session, peer, .deviceSyncAborted id "peer_disconnected"⟩] := by
  obtain ⟨id', hindex, hmap⟩ := Option.bind_eq_some_iff.mp hdrops
  obtain ⟨session', hget, heq⟩ := Option.map_eq_some_iff.mp hmap
  cases heq
  simp [whole, next, step, disconnectEnd, hjobs, hindex, hget, hpeer]

end

/-! ## The invariant -/

/-- Every unexpired session is indexed under both of its participants. -/
def Covered (s : SyncGateway) (now : Time) : Prop :=
  ∀ k id session, s.Open now id session → session.Has k → s.syncSessions.indexed now k = some id

/-- What holds as long as disconnections do what they have to: index entries outlast the sessions, and
whoever is in an unexpired session is connected. -/
structure Lasting (s : SyncGateway) (now : Time) : Prop where
  idle : s.jobs = []
  soon : ∀ id r, s.syncSessions.mem.lookup id = some r → r.value.expiresAt ≤ now + SYNC_SESSION_TTL_MS
  lasting : ∀ k e r, s.syncSessions.sktMem.lookup k = some e → s.syncSessions.mem.lookup e.value = some r →
    r.value.Has k → ∀ t, e.expires = some t → r.value.expiresAt ≤ t
  present : ∀ id session k, s.Open now id session → session.Has k → k ∈ s.connected

theorem Open.earlier (hle : now ≤ now') (h : s.Open now' id session) : s.Open now id session :=
  ⟨SyncSessionService.get_earlier hle h.1, Int.lt_of_le_of_lt hle h.2⟩

theorem get_lookup (h : s.syncSessions.get now id = some session) :
    ∃ r, s.syncSessions.mem.lookup id = some r ∧ r.value = session := by
  obtain ⟨r, hr, hlive⟩ := Option.bind_eq_some_iff.mp h
  exact ⟨r, hr, Kept.live_value hlive⟩

theorem Lasting.later (h : s.Lasting now) (hle : now ≤ now') : s.Lasting now' where
  idle := h.idle
  soon id r hr := (h.soon id r hr).trans (Int.add_le_add_right hle _)
  lasting := h.lasting
  present id session k hopen := h.present id session k (hopen.earlier hle)

theorem Covered.later (h : s.Covered now) (hlasting : s.Lasting now) (hle : now ≤ now') : s.Covered now' := by
  intro k id session hopen hhas
  obtain ⟨e, he, hlive⟩ := Option.bind_eq_some_iff.mp (h k id session (hopen.earlier hle) hhas)
  obtain ⟨r, hr, rfl⟩ := get_lookup hopen.1
  obtain rfl := Kept.live_value hlive
  refine Option.bind_eq_some_iff.mpr ⟨e, he, ?_⟩
  unfold Kept.live
  refine if_pos ?_
  cases hexp : e.expires with
  | none => rfl
  | some t => exact decide_eq_true (Int.lt_of_lt_of_le hopen.2 (hlasting.lasting k e r he hr hhas t hexp))

/-- The index tells a disconnecting socket of one session only. -/
theorem covers_iff (h : s.Lasting now) : s.Covers owner now ↔ s.Covered now := by
  constructor
  · intro hcovers k id session hopen hhas
    obtain ⟨hgone, -⟩ := hcovers k (h.present id session k hopen hhas) now (Int.le_refl _) id session hopen hhas
    rw [(whole_disconnect h.idle).2.2] at hgone
    cases hdrops : s.drops (now, .disconnect k) with
    | none =>
      rw [hdrops] at hgone
      exact absurd hopen.1 (hgone ▸ nofun)
    | some p =>
      rw [hdrops, Option.elim_some, SyncSessionService.get_del] at hgone
      obtain ⟨id', hindex, hmap⟩ := Option.bind_eq_some_iff.mp hdrops
      obtain ⟨session', -, rfl⟩ := Option.map_eq_some_iff.mp hmap
      split at hgone
      · rename_i heq
        exact heq ▸ hindex
      · exact absurd hopen.1 (hgone ▸ nofun)
  · intro hcovered k _ now' hle id session hopen hhas
    have hindex := hcovered.later h hle k id session hopen hhas
    have hdrops : s.drops (now', .disconnect k) = some (id, session) := by
      simp [drops, hindex, hopen.1]
    refine ⟨?_, fun peer hpeer => ?_⟩
    · rw [(whole_disconnect h.idle).2.2, hdrops, Option.elim_some, SyncSessionService.get_del, if_pos rfl]
    · rw [disconnect_emitted h.idle hdrops hpeer]
      exact ⟨_, .head _, rfl, rfl⟩

/-! ## Entering a session -/

/-- The session that is stored, and who was in it before. -/
structure Entry (s : SyncGateway) (now : Time) (k : SocketId) (id : SessionId) (session : SyncSession) : Prop where
  has : session.Has k
  soon : session.expiresAt ≤ now + SYNC_SESSION_TTL_MS
  others : ∀ k', session.Has k' → k' = k ∨ ∃ old, s.syncSessions.get now id = some old ∧ old.Has k' ∧
    old.expiresAt = session.expiresAt

theorem entry_of_enters (h : s.Lasting now) {input : SyncInput}
    (henters : s.enters owner (now, input) = some (k, id, session)) :
    s.Entry now k id session ∧ ∃ request, input = .event k request := by
  cases input with
  | event client request =>
    cases request with
    | deviceSyncStart sessionId ekSource sdpOffer =>
      dsimp only [enters] at henters
      split at henters
      · cases henters
        refine ⟨⟨.inl rfl, Int.le_refl _, fun k' hhas => ?_⟩, _, rfl⟩
        rcases hhas with rfl | hnone
        · exact .inl rfl
        · cases hnone
      · cases henters
    | deviceSyncJoin sessionId ekTarget =>
      obtain ⟨old, hget, hif⟩ := Option.bind_eq_some_iff.mp henters
      split at hif
      · cases hif
        obtain ⟨r, hr, rfl⟩ := get_lookup hget
        refine ⟨⟨.inr rfl, h.soon _ r hr, fun k' hhas => ?_⟩, _, rfl⟩
        rcases hhas with hsource | htarget
        · exact .inr ⟨_, hget, .inl hsource, rfl⟩
        · exact .inl (Option.some.inj htarget).symm
      · cases hif
    | deviceSyncRelayAnswer | deviceSyncIce | deviceSyncAbort => cases henters
  | connect | resume | disconnect | cleanup => cases henters

theorem keep_expires {α : Type} {value : α} {store : SyncSessionService} {t : Time}
    (h : (store.keep now value).expires = some t) : t = now + TTL_S * 1000 := by
  unfold SyncSessionService.keep at h
  cases hbackend : store.backend with
  | memory =>
    rw [hbackend] at h
    cases h
  | redis =>
    rw [hbackend] at h
    exact (Option.some.inj h).symm

section
variable {s' : SyncGateway} (hs' : s.Left ((s.syncSessions.set now id session).trackSocket now k id) s')
include hs'

theorem get_entered (id' : SessionId) : s'.syncSessions.get now id' =
    if id' = id then some session else s.syncSessions.get now id' := by
  rw [hs'.store, SyncSessionService.get_trackSocket, SyncSessionService.get_set]

theorem indexed_entered (k' : SocketId) : s'.syncSessions.indexed now k' =
    if k' = k then some id else s.syncSessions.indexed now k' := by
  rw [hs'.store, SyncSessionService.indexed_trackSocket, SyncSessionService.indexed_set]

theorem Lasting.enter (h : s.Lasting now) (hentry : s.Entry now k id session) (hk : k ∈ s.connected) :
    s'.Lasting now := by
  refine ⟨hs'.jobs, fun id' r hr => ?_, fun k' e r he hr hhas t ht => ?_, fun id' session' k' hopen hhas => ?_⟩
  · rw [hs'.store] at hr
    replace hr := hr.symm.trans SyncSessionService.lookup_set
    split at hr
    · cases hr
      exact hentry.soon
    · exact h.soon id' r hr.symm
  · rw [hs'.store] at he hr
    have he' := he.symm.trans SyncSessionService.lookup_trackSocket
    have hr' := hr.symm.trans SyncSessionService.lookup_set
    split at hr'
    · cases hr'
      split at he'
      · cases he'
        -- the entry was made with the record, or after it
        have hexpires : t = now + TTL_S * 1000 := keep_expires ht
        exact hexpires ▸ hentry.soon
      · rcases hentry.others k' hhas with heq | ⟨old, hold, hhas, hexp⟩
        · exact absurd heq ‹_›
        · obtain ⟨r, hr, rfl⟩ := get_lookup hold
          refine Int.le_trans (Int.le_of_eq hexp.symm) (h.lasting k' e r he'.symm ?_ hhas t ht)
          rw [‹e.value = id›, hr]
    · split at he'
      · cases he'
        exact absurd rfl ‹_›
      · exact h.lasting k' e r he'.symm hr'.symm hhas t ht
  · rw [hs'.connected]
    obtain ⟨hget, hlt⟩ := hopen
    rw [get_entered hs'] at hget
    split at hget
    · cases hget
      rcases hentry.others k' hhas with rfl | ⟨old, hold, hhas, hexp⟩
      · exact hk
      · exact h.present id old k' ⟨hold, hexp ▸ hlt⟩ hhas
    · exact h.present id' session' k' ⟨hget, hlt⟩ hhas

theorem covered_enter (h : s.Covered now) (hentry : s.Entry now k id session) :
    s'.Covered now ↔ ∀ id' session', s.Open now id' session' → session'.Has k → id' = id := by
  constructor
  · intro hcovered id' session' hopen hhas
    by_contra hne
    have hopen' : s'.Open now id' session' := ⟨by rw [get_entered hs', if_neg hne, hopen.1], hopen.2⟩
    have hindex := hcovered k id' session' hopen' hhas
    rw [indexed_entered hs', if_pos rfl] at hindex
    exact hne (Option.some.inj hindex).symm
  · intro halone k' id' session' hopen hhas
    rw [indexed_entered hs']
    obtain ⟨hget, hlt⟩ := hopen
    rw [get_entered hs'] at hget
    split at hget
    · rename_i heq
      cases hget
      rcases hentry.others k' hhas with rfl | ⟨old, hold, hhas, hexp⟩
      · rw [if_pos rfl, heq]
      · have hindex := h k' id old ⟨hold, hexp ▸ hlt⟩ hhas
        split
        · rw [heq]
        · rw [heq, hindex]
    · rename_i hne
      have hindex := h k' id' session' ⟨hget, hlt⟩ hhas
      split
      · rename_i heq
        exact absurd (halone id' session' ⟨hget, hlt⟩ (heq ▸ hhas)) hne
      · exact hindex

end

/-! ## Removing sessions -/

/-- `R` is removed, with the index entries of all participants. -/
structure Removal (R : SessionId → SyncSession → Prop) (store store' : SyncSessionService) : Prop where
  mem : ∀ id r, store'.mem.lookup id = some r ↔
    store.mem.lookup id = some r ∧ ∀ session, ¬R id session
  skt : ∀ k e, store'.sktMem.lookup k = some e ↔
    store.sktMem.lookup k = some e ∧ ∀ id session, R id session → ¬session.Has k

theorem removal_del {store : SyncSessionService} :
    Removal (fun id' session' => id' = id ∧ session' = session) store (store.del id session) where
  mem id' r := by
    rw [SyncSessionService.lookup_del]
    split
    · rename_i heq
      exact iff_of_false nofun fun h => h.2 session ⟨heq, rfl⟩
    · rename_i hne
      exact (and_iff_left fun _ h => hne h.1).symm
  skt k e := by
    rw [SyncSessionService.lookup_del_socket]
    have hhas : (k = session.sourceSocketId ∨ some k = session.targetSocketId) ↔ session.Has k :=
      or_congr eq_comm eq_comm
    split
    · rename_i hin
      exact iff_of_false nofun fun h => h.2 id session ⟨rfl, rfl⟩ (hhas.mp hin)
    · rename_i hout
      refine (and_iff_left fun id' session' h hin => ?_).symm
      exact hout (hhas.mpr (h.2 ▸ hin))

theorem Removal.refl {R : SessionId → SyncSession → Prop} {store : SyncSessionService}
    (hR : ∀ id session, ¬R id session) : Removal R store store where
  mem id _ := (and_iff_left (hR id)).symm
  skt _ _ := (and_iff_left fun id session h => absurd h (hR id session)).symm

theorem Removal.trans {R R' : SessionId → SyncSession → Prop} {store₁ store₂ store₃ : SyncSessionService}
    (h : Removal R store₁ store₂) (h' : Removal R' store₂ store₃) :
    Removal (fun id session => R id session ∨ R' id session) store₁ store₃ where
  mem id r := by
    rw [h'.mem, h.mem, and_assoc]
    simp only [not_or, forall_and]
  skt k e := by
    rw [h'.skt, h.skt, and_assoc]
    simp only [or_imp, forall_and]

theorem Removal.congr {R R' : SessionId → SyncSession → Prop} {store store' : SyncSessionService}
    (h : Removal R store store') (hR : ∀ id session, R id session ↔ R' id session) : Removal R' store store' := by
  obtain rfl : R = R' := funext₂ fun id session => propext (hR id session)
  exact h

theorem removal_purge {store : SyncSessionService} (hbackend : store.backend = .memory) :
    Removal (fun id session => session.expiresAt ≤ now ∧ ∃ r, store.mem.lookup id = some r ∧ r.value = session)
      store (store.purgeExpired now) := by
  have hfold : ∀ (entries : List (Sigma fun _ : SessionId => Kept SyncSession)) (store : SyncSessionService),
      Removal (fun id session => ∃ e ∈ entries, e.1 = id ∧ e.2.value = session ∧ session.expiresAt ≤ now) store
        (entries.foldl (fun store e =>
          if e.2.value.expiresAt ≤ now then store.del e.1 e.2.value else store) store) := by
    intro entries
    induction entries with
    | nil => exact fun _ => .refl fun _ _ ⟨_, he, _⟩ => List.not_mem_nil he
    | cons e entries ih =>
      intro store
      rw [List.foldl_cons]
      have hrest := ih (if e.2.value.expiresAt ≤ now then store.del e.1 e.2.value else store)
      have hfirst : Removal (fun id session => e.1 = id ∧ e.2.value = session ∧ session.expiresAt ≤ now) store
          (if e.2.value.expiresAt ≤ now then store.del e.1 e.2.value else store) := by
        split
        · rename_i hexp
          refine removal_del.congr fun id session => ⟨?_, fun ⟨hid, hsession, _⟩ => ⟨hid.symm, hsession.symm⟩⟩
          rintro ⟨rfl, rfl⟩
          exact ⟨rfl, rfl, hexp⟩
        · rename_i hexp
          refine .refl fun id session ⟨_, hsession, hle⟩ => hexp ?_
          exact hsession ▸ hle
      exact (hfirst.trans hrest).congr fun id session => by simp
  unfold SyncSessionService.purgeExpired
  rw [hbackend]
  refine (hfold store.mem.entries store).congr fun id session => ?_
  constructor
  · rintro ⟨e, he, rfl, rfl, hexp⟩
    exact ⟨hexp, e.2, AList.mem_lookup_iff.mpr he, rfl⟩
  · rintro ⟨hexp, r, hr, rfl⟩
    exact ⟨⟨id, r⟩, AList.mem_lookup_iff.mp hr, rfl, rfl, hexp⟩

section
variable {R : SessionId → SyncSession → Prop} {s' : SyncGateway}
  (hR : Removal R s.syncSessions s'.syncSessions)
include hR

theorem open_removed : s'.Open now id session ↔ s.Open now id session ∧ ∀ session', ¬R id session' := by
  have hget : s'.syncSessions.get now id = some session ↔
      s.syncSessions.get now id = some session ∧ ∀ session', ¬R id session' := by
    unfold SyncSessionService.get
    simp only [Option.bind_eq_some_iff, hR.mem]
    exact ⟨fun ⟨r, ⟨hr, hnot⟩, hlive⟩ => ⟨⟨r, hr, hlive⟩, hnot⟩, fun ⟨⟨r, hr, hlive⟩, hnot⟩ => ⟨r, ⟨hr, hnot⟩, hlive⟩⟩
  unfold Open
  rw [hget, and_right_comm]

theorem indexed_removed : s'.syncSessions.indexed now k = some id ↔
    s.syncSessions.indexed now k = some id ∧ ∀ id' session, R id' session → ¬session.Has k := by
  unfold SyncSessionService.indexed
  simp only [Option.bind_eq_some_iff, hR.skt]
  exact ⟨fun ⟨r, ⟨hr, hnot⟩, hlive⟩ => ⟨⟨r, hr, hlive⟩, hnot⟩, fun ⟨⟨r, hr, hlive⟩, hnot⟩ => ⟨r, ⟨hr, hnot⟩, hlive⟩⟩

theorem Lasting.remove (h : s.Lasting now) (hidle : s'.jobs = [])
    (hpresent : ∀ id session k, s'.Open now id session → session.Has k → k ∈ s'.connected) : s'.Lasting now where
  idle := hidle
  soon id r hr := h.soon id r ((hR.mem id r).mp hr).1
  lasting k e r he hr := h.lasting k e r ((hR.skt k e).mp he).1 ((hR.mem _ r).mp hr).1
  present := hpresent

theorem covered_remove (h : s.Covered now) : s'.Covered now ↔
    ∀ id session, R id session → ∀ k, session.Has k →
      ∀ id' session', s.Open now id' session' → session'.Has k → ∃ session'', R id' session'' := by
  constructor
  · intro hcovered id session hremoved k hhas id' session' hopen hhas'
    by_contra hkept
    have hopen' : s'.Open now id' session' := (open_removed hR).mpr ⟨hopen, not_exists.mp hkept⟩
    exact ((indexed_removed hR).mp (hcovered k id' session' hopen' hhas')).2 id session hremoved hhas
  · intro halone k id session hopen hhas
    obtain ⟨hopen, hkept⟩ := (open_removed hR).mp hopen
    refine (indexed_removed hR).mpr ⟨h k id session hopen hhas, fun id' session' hremoved hhas' => ?_⟩
    obtain ⟨session'', h⟩ := halone id' session' hremoved k hhas' id session hopen hhas
    exact hkept session'' h

end

/-! ## The steps -/

/-- An unexpired session was not purged. -/
theorem not_purged (hopen : s.Open now id session) {session' : SyncSession} (hexp : session'.expiresAt ≤ now)
    (hstored : ∃ r, s.syncSessions.mem.lookup id = some r ∧ r.value = session') : False := by
  obtain ⟨r, hr, rfl⟩ := get_lookup hopen.1
  obtain ⟨r', hr', rfl⟩ := hstored
  obtain rfl : r = r' := Option.some.inj (hr.symm.trans hr')
  exact absurd hopen.2 (Int.not_lt.mpr hexp)

theorem not_removes {input : SyncInput} (hdrops : s.drops (now, input) = none) (hinput : input ≠ .cleanup) :
    ∀ id session, ¬s.Removes (now, input) id session := by
  rintro id session (hsome | ⟨hcleanup, -⟩)
  · exact absurd (hdrops.symm.trans hsome) nofun
  · exact hinput hcleanup

theorem step_kept {s' : SyncGateway} {input : SyncInput} (h : s.Lasting now) (hcovered : s.Covered now)
    (hidle : s'.jobs = []) (hstore : s'.syncSessions = s.syncSessions) (hconnected : s.connected ⊆ s'.connected)
    (henters : s.enters owner (now, input) = none) (hremoves : ∀ id session, ¬s.Removes (now, input) id session) :
    s'.Lasting now ∧ (s'.Covered now ↔ s.OneEach owner (now, input)) := by
  have hR : Removal (fun _ _ => False) s.syncSessions s'.syncSessions := hstore ▸ .refl fun _ _ => id
  refine ⟨h.remove hR hidle fun id session k hopen hhas => ?_, ?_⟩
  · exact hconnected (h.present id session k ((open_removed hR).mp hopen).1 hhas)
  · refine iff_of_true ((covered_remove hR hcovered).mpr fun _ _ hfalse => hfalse.elim) ⟨?_, ?_⟩
    · exact fun _ _ _ hsome => absurd (henters.symm.trans hsome) nofun
    · exact fun id session hremoved => absurd hremoved (hremoves id session)

theorem step_entered {s' : SyncGateway} {request : SyncRequest} (h : s.Lasting now) (hcovered : s.Covered now)
    (hclient : client ∈ s.connected)
    (hs' : s.Left ((s.enters owner (now, .event client request)).elim s.syncSessions fun p =>
      (s.syncSessions.set now p.2.1 p.2.2).trackSocket now p.1 p.2.1) s')
    (hdrops : s.drops (now, .event client request) = none) :
    s'.Lasting now ∧ (s'.Covered now ↔ s.OneEach owner (now, .event client request)) := by
  have hremoves := not_removes hdrops nofun
  cases henters : s.enters owner (now, .event client request) with
  | none =>
    rw [henters] at hs'
    exact step_kept h hcovered hs'.jobs hs'.store (hs'.connected ▸ List.Subset.refl _) henters hremoves
  | some p =>
    obtain ⟨k, id, session⟩ := p
    rw [henters] at hs'
    obtain ⟨hentry, request', hrequest⟩ := entry_of_enters h henters
    cases hrequest
    refine ⟨Lasting.enter hs' h hentry hclient, (covered_enter hs' hcovered hentry).trans ?_⟩
    constructor
    · intro halone
      refine ⟨fun k' id' session' hsome => ?_, fun id session hremoved => absurd hremoved (hremoves id session)⟩
      cases henters.symm.trans hsome
      exact halone
    · exact fun hone => hone.entering _ id session henters

theorem step_dropped {s' : SyncGateway} {input : SyncInput} (h : s.Lasting now) (hcovered : s.Covered now)
    (hstore : s'.syncSessions = (s.drops (now, input)).elim s.syncSessions fun p => s.syncSessions.del p.1 p.2)
    (hidle : s'.jobs = []) (henters : s.enters owner (now, input) = none) (hinput : input ≠ .cleanup)
    (hgone : ∀ k ∈ s.connected, k ∈ s'.connected ∨
      ∀ id session, s.Open now id session → session.Has k → s.drops (now, input) = some (id, session)) :
    s'.Lasting now ∧ (s'.Covered now ↔ s.OneEach owner (now, input)) := by
  have hR : Removal (fun id session => s.drops (now, input) = some (id, session)) s.syncSessions s'.syncSessions := by
    rw [hstore]
    cases s.drops (now, input) with
    | none => exact .refl fun _ _ => nofun
    | some p =>
      refine removal_del.congr fun id session => ⟨fun ⟨hid, hsession⟩ => ?_, fun heq => ?_⟩
      · rw [hid, hsession]
      · cases heq
        exact ⟨rfl, rfl⟩
  refine ⟨h.remove hR hidle fun id session k hopen hhas => ?_,
    (covered_remove hR hcovered).trans ⟨fun hone => ⟨?_, ?_⟩, fun hone => ?_⟩⟩
  · obtain ⟨hopen, hkept⟩ := (open_removed hR).mp hopen
    rcases hgone k (h.present id session k hopen hhas) with hmem | hdropped
    · exact hmem
    · exact absurd (hdropped id session hopen hhas) (hkept session)
  · exact fun _ _ _ hsome => absurd (henters.symm.trans hsome) nofun
  · rintro id session (hdrops | ⟨hcleanup, -⟩) k hhas id' session' hopen hhas'
    · obtain ⟨session'', hdrops'⟩ := hone id session hdrops k hhas id' session' hopen hhas'
      exact (congrArg Prod.fst (Option.some.inj (hdrops.symm.trans hdrops'))).symm
    · exact absurd hcleanup hinput
  · intro id session hdrops k hhas id' session' hopen hhas'
    exact ⟨session, hone.removing id session (.inl hdrops) k hhas id' session' hopen hhas' ▸ hdrops⟩

theorem step_cleanup (h : s.Lasting now) (hcovered : s.Covered now) :
    (s.whole owner (now, .cleanup)).Lasting now ∧
      ((s.whole owner (now, .cleanup)).Covered now ↔ s.OneEach owner (now, .cleanup)) := by
  have hwhole : s.whole owner (now, .cleanup) = ({ s with emitted := [] } : SyncGateway).cleanup now :=
    settle_nil (by exact h.idle) 4
  rw [hwhole]
  cases hbackend : s.syncSessions.backend with
  | redis =>
    have hsame : (({ s with emitted := [] } : SyncGateway).cleanup now).syncSessions = s.syncSessions := by
      rw [cleanup, SyncSessionService.purgeExpired, hbackend]
    refine step_kept h hcovered h.idle hsame (List.Subset.refl _) rfl ?_
    rintro id session (hdrops | ⟨-, hmemory, -⟩)
    · cases hdrops
    · exact absurd (hbackend.symm.trans hmemory) nofun
  | memory =>
    have hR : Removal _ s.syncSessions (({ s with emitted := [] } : SyncGateway).cleanup now).syncSessions :=
      removal_purge hbackend
    refine ⟨h.remove hR h.idle fun id session k hopen => ?_,
      (covered_remove hR hcovered).trans ⟨fun hone => ⟨fun _ _ _ hsome => (by cases hsome), ?_⟩, fun hone => ?_⟩⟩
    · exact h.present id session k ((open_removed hR).mp hopen).1
    · rintro id session (hdrops | ⟨-, -, hremoved⟩) k hhas id' session' hopen hhas'
      · cases hdrops
      · obtain ⟨session'', hexp, hr⟩ := hone id session hremoved k hhas id' session' hopen hhas'
        exact (not_purged hopen hexp hr).elim
    · intro id session hremoved k hhas id' session' hopen hhas'
      obtain rfl := hone.removing id session (.inr ⟨rfl, hbackend, hremoved⟩) k hhas id' session' hopen hhas'
      exact (not_purged hopen hremoved.1 hremoved.2).elim

/-- **The step lemma**: a handler leaves every unexpired session indexed if and only if it meets the
condition. -/
theorem step_covered (h : s.Lasting now) (hcovered : s.Covered now) {input : SyncInput}
    (hinput : s.Enabled owner input) :
    (s.whole owner (now, input)).Lasting now ∧
      ((s.whole owner (now, input)).Covered now ↔ s.OneEach owner (now, input)) := by
  cases input with
  | connect socket =>
    have hwhole : s.whole owner (now, .connect socket) =
        { s with emitted := [], connected := s.connected ++ [socket] } := settle_nil (by exact h.idle) 4
    rw [hwhole]
    exact step_kept h hcovered h.idle rfl (List.subset_append_left _ _) rfl (not_removes rfl nofun)
  | event client request =>
    cases request with
    | deviceSyncStart => exact step_entered h hcovered hinput (whole_start h.idle) rfl
    | deviceSyncJoin => exact step_entered h hcovered hinput (whole_join h.idle) rfl
    | deviceSyncRelayAnswer sessionId sdpAnswer =>
      have hs' : s.Left _ (s.whole owner (now, .event client (.deviceSyncRelayAnswer sessionId sdpAnswer))) :=
        whole_relay h.idle
      exact step_kept h hcovered hs'.jobs hs'.store (hs'.connected ▸ List.Subset.refl _) rfl (not_removes rfl nofun)
    | deviceSyncIce sessionId candidate =>
      have hs' : s.Left _ (s.whole owner (now, .event client (.deviceSyncIce sessionId candidate))) :=
        whole_ice h.idle
      exact step_kept h hcovered hs'.jobs hs'.store (hs'.connected ▸ List.Subset.refl _) rfl (not_removes rfl nofun)
    | deviceSyncAbort sessionId =>
      have hs' : s.Left _ (s.whole owner (now, .event client (.deviceSyncAbort sessionId))) := whole_abort h.idle
      exact step_dropped h hcovered hs'.store hs'.jobs rfl nofun fun k hk => .inl (hs'.connected ▸ hk)
  | resume j => exact absurd hinput (by simp [Enabled, h.idle])
  | disconnect socket =>
    obtain ⟨hidle, hconnected, hstore⟩ : (s.whole owner (now, .disconnect socket)).jobs = [] ∧ _ :=
      whole_disconnect h.idle
    refine step_dropped h hcovered hstore hidle rfl nofun fun k hk => ?_
    by_cases heq : k = socket
    · refine .inr fun id session hopen hhas => ?_
      have hindex := hcovered k id session hopen hhas
      simp [drops, ← heq, hindex, hopen.1]
    · exact .inl (hconnected ▸ List.mem_filter.mpr ⟨hk, decide_eq_true heq⟩)
  | cleanup => exact step_cleanup h hcovered

end

end SyncGateway

/-! ## All runs -/

open SyncGateway in
/-- In a run of handlers that do not overlap, every disconnection does all that it has to, in whichever
state it comes, if and only if no socket enters a session while it is in another unexpired one, and no
session is removed while a participant is in another unexpired one. -/
theorem index_covers {backend : Backend} {owner : SocketId → UserId} {start : Time} {es : List (Time × SyncInput)}
    (hes : ((syncServer backend owner).timed start).Allowed (.start backend, start) es) :
    ((syncServer backend owner).timed start).Throughout (fun s => s.1.Covers owner s.2) (.start backend, start) es ↔
      (((syncServer backend owner).timed start).restrict fun s e => s.1.OneEach owner e).Allowed
        (.start backend, start) es := by
  have hlasting : (SyncGateway.start backend).Lasting start :=
    ⟨rfl, fun _ _ hr => (by cases hr), fun _ _ _ he => (by cases he), fun _ _ _ hopen => (by cases hopen.1)⟩
  have hcovered : (SyncGateway.start backend).Covered start := fun _ _ _ hopen => (by cases hopen.1)
  refine Machine.throughout_iff_of (I := fun s => s.1.Lasting s.2) (fun s e h hcovers he _ => ?_)
    (fun s e h hcovers he => ?_) hlasting ((covers_iff hlasting).mpr hcovered) hes
  · have hcovered := ((covers_iff h).mp hcovers).later h he.1
    exact (step_covered (h.later he.1) hcovered he.2).1
  · have hcovered := ((covers_iff h).mp hcovers).later h he.1
    obtain ⟨hnext, hiff⟩ : (s.1.whole owner e).Lasting e.1 ∧ ((s.1.whole owner e).Covered e.1 ↔ s.1.OneEach owner e) :=
      step_covered (h.later he.1) hcovered he.2
    exact (covers_iff hnext).trans hiff

/-- A socket in one session. -/
theorem index_covers_first :
    ((syncServer .memory (· / 10)).timed 0).Throughout (fun s => s.1.Covers (· / 10) s.2)
      (.start .memory, 0) [(0, .connect 10), (0, .event 10 (.deviceSyncStart SyncGateway.anId none none))] := by
  refine (index_covers ?_).mpr ⟨⟨?_, ⟨?_, ?_⟩⟩, ⟨?_, ⟨?_, ?_⟩⟩, trivial⟩
  · decide
  · decide
  · exact fun _ _ _ h => by cases h
  · exact fun id session h => (SyncGateway.not_removes rfl (by decide) id session h).elim
  · decide
  · exact fun _ _ _ _ _ _ h => by cases h.1
  · exact fun id session h => (SyncGateway.not_removes rfl (by decide) id session h).elim

def anotherId : SessionId := List.replicate 32 0x62

/-- A socket starts two sessions. -/
def startedTwo : List (Time × SyncInput) :=
  [.connect 10, .event 10 (.deviceSyncStart SyncGateway.anId none none),
    .event 10 (.deviceSyncStart anotherId none none)].map (0, ·)

/-- When it disconnects, the first of them stays. -/
theorem session_left :
    let M := (syncServer .memory (· / 10)).timed 0
    M.Allowed (.start .memory, 0) startedTwo ∧
      ¬M.Throughout (fun s => s.1.Covers (· / 10) s.2) (.start .memory, 0) startedTwo := by
  intro M
  refine ⟨by decide, fun h => ?_⟩
  have hcovers := h.last
  have hopen : ∃ session, (M.exec (.start .memory, 0) startedTwo).1.Open 0 SyncGateway.anId session ∧
      session.Has 10 := ⟨_, ⟨rfl, by decide⟩, by decide⟩
  obtain ⟨session, hopen, hhas⟩ := hopen
  have hgone := (hcovers 10 (by decide) 0 (Int.le_refl 0) _ session hopen hhas).1
  have hstays : ((M.exec (.start .memory, 0) startedTwo).1.whole (· / 10) (0, .disconnect 10)).syncSessions.get 0
      SyncGateway.anId ≠ none := by decide
  exact hstays hgone

end Vesper.Server
