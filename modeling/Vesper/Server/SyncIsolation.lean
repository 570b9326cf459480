import Vesper.Server.SyncSessions
import Vesper.Lib.Machine

/-!
# Isolation of device synchronisation

An id of a session is used by whoever owns the record under it, has a socket indexed under it, or runs
a handler that has already passed its checks of it. `deviceSyncStart` checks for a record only. As long
as it never takes an id that somebody else uses, no user reaches the sessions of another.
-/

namespace Vesper.Server

/-! ## Who uses an id -/

/-- The id that a handler works on without a further check. -/
def SyncJob.engaged : SyncJob → Option SessionId
  | startSet _ sessionId _ | startTrack _ sessionId _ | joinUpdate _ sessionId .. | joinSet _ sessionId ..
  | joinTrack _ sessionId .. | abortDelete _ sessionId _ | abortDel _ sessionId .. | disconnectGet _ sessionId
  | disconnectDelete _ sessionId _ | disconnectDel _ sessionId .. => some sessionId
  | startHas .. | joinGet .. | relayGet .. | iceGet .. | abortGet .. | disconnectIndex _ => none

/-- The sessions that a handler has read or made. -/
def SyncJob.locals : SyncJob → List SyncSession
  | startSet _ _ session | startTrack _ _ session | joinUpdate _ _ _ session | joinTrack _ _ _ session
  | abortDelete _ _ session | disconnectDelete _ _ session => [session]
  | joinSet _ _ _ session current | abortDel _ _ session current | disconnectDel _ _ session current =>
    [session, current]
  | startHas .. | joinGet .. | relayGet .. | iceGet .. | abortGet .. | disconnectIndex _
  | disconnectGet .. => []

namespace SyncGateway
variable (s : SyncGateway) (owner : SocketId → UserId) (now : Time)

inductive Uses (id : SessionId) (u : UserId) : Prop
  | record (session : SyncSession) (h : s.syncSessions.get now id = some session) (hu : session.userId = u)
  | index (k : SocketId) (h : s.syncSessions.indexed now k = some id) (hu : owner k = u)
  | job (job : SyncJob) (h : job ∈ s.jobs) (hid : job.engaged = some id) (hu : owner job.client = u)

/-- What a step may do: it sends only to sockets of the user whose handler it is, and touches only that
user's records. -/
structure Isolated (e : Time × SyncInput) : Prop where
  sent : ∀ m ∈ (s.next owner e).emitted, ∃ k, s.actor e.2 = some k ∧ owner m.target = owner k
  kept : ∀ k id session, s.actor e.2 = some k → s.syncSessions.get e.1 id = some session →
    (s.next owner e).syncSessions.get e.1 id ≠ some session → session.userId = owner k

/-- A start that finds no record takes an id that nobody else uses. -/
def TakesFree (e : Time × SyncInput) : Prop :=
  ∀ j client sessionId ekSource sdpOffer, e.2 = .resume j →
    s.jobs[j]? = some (.startHas client sessionId ekSource sdpOffer) →
    s.syncSessions.get e.1 sessionId = none → ∀ u, s.Uses owner e.1 sessionId u → u = owner client

end SyncGateway

/-- Both participants are sockets of one user, and so is the session. -/
structure SyncSession.Of (owner : SocketId → UserId) (u : UserId) (session : SyncSession) : Prop where
  user : session.userId = u
  source : owner session.sourceSocketId = u
  target : ∀ k, session.targetSocketId = some k → owner k = u

namespace SyncGateway

/-- The invariant: no id has two users, and a handler holds sessions of its own user only. -/
structure Apart (owner : SocketId → UserId) (now : Time) (s : SyncGateway) : Prop where
  stored : ∀ id e, s.syncSessions.mem.lookup id = some e → e.value.Of owner e.value.userId
  held : ∀ job ∈ s.jobs, ∀ session ∈ job.locals, session.Of owner (owner job.client)
  alone : ∀ id u u', s.Uses owner now id u → s.Uses owner now id u' → u = u'

section
variable {s : SyncGateway} {owner : SocketId → UserId} {now now' : Time} {client k : SocketId}
  {session : SyncSession} {id sessionId : SessionId} {u : UserId}

theorem peer_owner (h : session.Of owner u) {peer : SocketId}
    (hpeer : peerSocketId client session = some peer) : owner peer = u := by
  unfold peerSocketId at hpeer
  split at hpeer
  · exact h.target peer hpeer
  · exact Option.some.inj hpeer ▸ h.source

theorem Uses.earlier (hle : now ≤ now') (h : s.Uses owner now' id u) : s.Uses owner now id u := by
  cases h with
  | record session h hu => exact .record session (SyncSessionService.get_earlier hle h) hu
  | index k h hu => exact .index k (SyncSessionService.indexed_earlier hle h) hu
  | job job h hid hu => exact .job job h hid hu

theorem get_stored (h : s.syncSessions.get now id = some session) :
    ∃ e, s.syncSessions.mem.lookup id = some e ∧ e.value = session := by
  obtain ⟨e, he, hlive⟩ := Option.bind_eq_some_iff.mp h
  exact ⟨e, he, Kept.live_value hlive⟩

theorem Apart.read (h : s.Apart owner now') (hget : s.syncSessions.get now id = some session) :
    session.Of owner session.userId := by
  obtain ⟨e, he, rfl⟩ := get_stored hget
  exact h.stored id e he

theorem Apart.later (h : s.Apart owner now) (hle : now ≤ now') : s.Apart owner now' where
  stored := h.stored
  held := h.held
  alone id u u' hu hu' := h.alone id u u' (hu.earlier hle) (hu'.earlier hle)

/-- What is read under an id that `u` uses is a session of `u`. -/
theorem Apart.reread (h : s.Apart owner now) (hget : s.syncSessions.get now id = some session)
    (huse : s.Uses owner now id u) : session.Of owner u :=
  h.alone id _ _ (.record session hget rfl) huse ▸ h.read hget

theorem Apart.read_of (h : s.Apart owner now') (hget : s.syncSessions.get now id = some session)
    (hpart : session.sourceSocketId = client ∨ session.targetSocketId = some client) :
    session.Of owner (owner client) := by
  have hof := h.read hget
  have huser : owner client = session.userId := by
    rcases hpart with hsource | htarget
    · exact hsource ▸ hof.source
    · exact hof.target client htarget
  exact huser ▸ hof

theorem held_pair {current : SyncSession} (h : ∀ session' ∈ [session], session'.Of owner u)
    (hcurrent : current.Of owner u) : ∀ session' ∈ [session, current], session'.Of owner u := by
  intro session' hmem
  rcases List.mem_pair.mp hmem with rfl | rfl
  · exact h _ (.head _)
  · exact hcurrent

/-! ## What a step adds

Each operation adds at most one use of an id, of the session or the socket that it is given. -/

theorem uses_suspend {job : SyncJob} (h : (s.suspend job).Uses owner now id u) :
    s.Uses owner now id u ∨ job.engaged = some id ∧ owner job.client = u := by
  cases h with
  | record session hget hu => exact .inl (.record session hget hu)
  | index k hk hu => exact .inl (.index k hk hu)
  | job job' hjob' hid hu =>
    rcases List.mem_append.mp hjob' with hold | hnew
    · exact .inl (.job job' hold hid hu)
    · cases List.mem_singleton.mp hnew
      exact .inr ⟨hid, hu⟩

theorem held_suspend {job : SyncJob}
    (h : ∀ job ∈ s.jobs, ∀ session ∈ job.locals, session.Of owner (owner job.client))
    (hlocals : ∀ session ∈ job.locals, session.Of owner (owner job.client)) :
    ∀ job' ∈ (s.suspend job).jobs, ∀ session ∈ job'.locals, session.Of owner (owner job'.client) := by
  intro job' hjob'
  rcases List.mem_append.mp hjob' with hold | hnew
  · exact h job' hold
  · cases List.mem_singleton.mp hnew
    exact hlocals

/-- An id that nobody else uses can be taken. -/
theorem Apart.suspend {job : SyncJob} (h : s.Apart owner now)
    (hfree : ∀ id, job.engaged = some id → ∀ u, s.Uses owner now id u → u = owner job.client)
    (hlocals : ∀ session ∈ job.locals, session.Of owner (owner job.client)) :
    (s.suspend job).Apart owner now := by
  refine ⟨h.stored, held_suspend h.held hlocals, fun id u u' hu hu' => ?_⟩
  rcases uses_suspend hu with hold | ⟨hid, rfl⟩ <;> rcases uses_suspend hu' with hold' | ⟨hid', rfl⟩
  · exact h.alone id u u' hold hold'
  · exact hfree id hid' u hold
  · exact (hfree id hid u' hold').symm
  · rfl

/-- The uses of `s'` are uses of `s`, and `s'` stores and holds only sessions of one user each. -/
structure Within (owner : SocketId → UserId) (now : Time) (s s' : SyncGateway) : Prop where
  uses : ∀ id u, s'.Uses owner now id u → s.Uses owner now id u
  stored : ∀ id e, s'.syncSessions.mem.lookup id = some e → e.value.Of owner e.value.userId
  held : ∀ job ∈ s'.jobs, ∀ session ∈ job.locals, session.Of owner (owner job.client)

theorem Within.apart {s' : SyncGateway} (h : s.Apart owner now) (hs : s.Within owner now s') :
    s'.Apart owner now where
  stored := hs.stored
  held := hs.held
  alone id u u' hu hu' := h.alone id u u' (hs.uses id u hu) (hs.uses id u' hu')

theorem Within.refl (h : s.Apart owner now) : s.Within owner now s := ⟨fun _ _ h => h, h.stored, h.held⟩

section
variable {s₀ : SyncGateway} (h : s₀.Within owner now s)
include h

theorem Within.of_eq {t : SyncGateway} (hstore : t.syncSessions = s.syncSessions)
    (hjobs : t.jobs ⊆ s.jobs) : s₀.Within owner now t := by
  refine ⟨fun id u hu => h.uses id u ?_, hstore ▸ h.stored, fun job hjob => h.held job (hjobs hjob)⟩
  cases hu with
  | record session hget hu => exact .record session (hstore ▸ hget) hu
  | index k hk hu => exact .index k (hstore ▸ hk) hu
  | job job hjob hid hu => exact .job job (hjobs hjob) hid hu

theorem Within.suspend {job : SyncJob}
    (huse : ∀ id, job.engaged = some id → s₀.Uses owner now id (owner job.client))
    (hlocals : ∀ session ∈ job.locals, session.Of owner (owner job.client)) :
    s₀.Within owner now (s.suspend job) := by
  refine ⟨fun id u hu => ?_, h.stored, held_suspend h.held hlocals⟩
  rcases uses_suspend hu with hold | ⟨hid, rfl⟩
  · exact h.uses id u hold
  · exact huse id hid

theorem Within.set (huse : s₀.Uses owner now sessionId session.userId)
    (hsession : session.Of owner session.userId) :
    s₀.Within owner now { s with syncSessions := s.syncSessions.set now sessionId session } := by
  refine ⟨fun id u hu => ?_, fun id e he => ?_, h.held⟩
  · cases hu with
    | record session' hget hu =>
      rw [SyncSessionService.get_set] at hget
      split at hget
      · rename_i heq
        cases hget
        exact heq ▸ hu ▸ huse
      · exact h.uses id u (.record session' hget hu)
    | index k hk hu => exact h.uses id u (.index k hk hu)
    | job job hjob hid hu => exact h.uses id u (.job job hjob hid hu)
  · rw [SyncSessionService.lookup_set] at he
    split at he
    · cases he
      exact hsession
    · exact h.stored id e he

theorem Within.trackSocket (huse : s₀.Uses owner now sessionId (owner k)) :
    s₀.Within owner now { s with syncSessions := s.syncSessions.trackSocket now k sessionId } := by
  refine ⟨fun id u hu => ?_, h.stored, h.held⟩
  cases hu with
  | record session hget hu => exact h.uses id u (.record session hget hu)
  | index k' hk hu =>
    obtain ⟨e, he, hlive⟩ := Option.bind_eq_some_iff.mp hk
    rw [SyncSessionService.lookup_trackSocket] at he
    split at he
    · rename_i heq
      obtain rfl : sessionId = id := by
        rw [← Kept.live_value hlive, ← Option.some.inj he]
        rfl
      exact hu ▸ heq ▸ huse
    · exact h.uses id u (.index k' (Option.bind_eq_some_iff.mpr ⟨e, he, hlive⟩) hu)
  | job job hjob hid hu => exact h.uses id u (.job job hjob hid hu)

theorem Within.del : s₀.Within owner now { s with syncSessions := s.syncSessions.del sessionId session } := by
  refine ⟨fun id u hu => h.uses id u ?_, fun id e he => ?_, h.held⟩
  · cases hu with
    | record session' hget hu =>
      rw [SyncSessionService.get_del] at hget
      exact .record session' (Option.ite_none_left_eq_some.mp hget).2 hu
    | index k hk hu =>
      obtain ⟨e, he, hlive⟩ := Option.bind_eq_some_iff.mp hk
      rw [SyncSessionService.lookup_del_socket] at he
      have hold := (Option.ite_none_left_eq_some.mp he).2
      exact .index k (Option.bind_eq_some_iff.mpr ⟨e, hold, hlive⟩) hu
    | job job hjob hid hu => exact .job job hjob hid hu
  · rw [SyncSessionService.lookup_del] at he
    exact h.stored id e (Option.ite_none_left_eq_some.mp he).2

end

/-- A step of `u` from `s₀` to `s`. -/
structure By (owner : SocketId → UserId) (now : Time) (u : UserId) (s₀ s : SyncGateway) : Prop
    extends Within owner now s₀ s where
  sent : ∀ m ∈ s.emitted, owner m.target = u
  kept : ∀ id session, s₀.syncSessions.get now id = some session →
    s.syncSessions.get now id ≠ some session → session.userId = u

theorem By.refl (h : s.Apart owner now) : By owner now u s { s with emitted := [] } where
  toWithin := (Within.refl h).of_eq rfl (List.Subset.refl _)
  sent _ hm := by cases hm
  kept _ _ hold hnew := absurd hold hnew

section
variable {s₀ : SyncGateway} (h : By owner now u s₀ s)
include h

theorem By.of_eq {t : SyncGateway} (hstore : t.syncSessions = s.syncSessions) (hjobs : t.jobs ⊆ s.jobs)
    (hemitted : t.emitted = s.emitted) : By owner now u s₀ t where
  toWithin := h.toWithin.of_eq hstore hjobs
  sent := hemitted ▸ h.sent
  kept := hstore ▸ h.kept

theorem By.emit {target : SocketId} {event : SyncEvent} {session : Option SyncSession}
    (htarget : owner target = u) : By owner now u s₀ (s.emit session target event) where
  toWithin := h.toWithin.of_eq rfl (List.Subset.refl _)
  sent m hm := by
    rcases List.mem_append.mp hm with hold | hnew
    · exact h.sent m hold
    · cases List.mem_singleton.mp hnew
      exact htarget
  kept := h.kept

theorem By.suspend {job : SyncJob} (hclient : owner job.client = u)
    (huse : ∀ id, job.engaged = some id → s₀.Uses owner now id u)
    (hlocals : ∀ session ∈ job.locals, session.Of owner u) : By owner now u s₀ (s.suspend job) where
  toWithin := h.toWithin.suspend (hclient ▸ huse) (hclient ▸ hlocals)
  sent := h.sent
  kept := h.kept

theorem By.set (h₀ : s₀.Apart owner now) (huse : s₀.Uses owner now sessionId u) (hsession : session.Of owner u) :
    By owner now u s₀ { s with syncSessions := s.syncSessions.set now sessionId session } where
  toWithin := h.toWithin.set (hsession.user.symm ▸ huse) (hsession.user.symm ▸ hsession)
  sent := h.sent
  kept id old hold hnew := by
    rw [SyncSessionService.get_set] at hnew
    split at hnew
    · rename_i heq
      exact h₀.alone id _ _ (.record old hold rfl) (heq ▸ huse)
    · exact h.kept id old hold hnew

theorem By.trackSocket (huse : s₀.Uses owner now sessionId u) (hk : owner k = u) :
    By owner now u s₀ { s with syncSessions := s.syncSessions.trackSocket now k sessionId } where
  toWithin := h.toWithin.trackSocket (hk ▸ huse)
  sent := h.sent
  kept := h.kept

theorem By.del (h₀ : s₀.Apart owner now) (huse : s₀.Uses owner now sessionId u) :
    By owner now u s₀ { s with syncSessions := s.syncSessions.del sessionId session } where
  toWithin := h.toWithin.del
  sent := h.sent
  kept id old hold hnew := by
    rw [SyncSessionService.get_del] at hnew
    split at hnew
    · rename_i heq
      exact h₀.alone id _ _ (.record old hold rfl) (heq ▸ huse)
    · exact h.kept id old hold hnew

theorem By.peer {event : SyncEvent} (hsession : session.Of owner u) :
    By owner now u s₀ ((peerSocketId client session).elim s fun peer => s.emit (some session) peer event) := by
  cases hpeer : peerSocketId client session with
  | none => exact h
  | some peer => exact h.emit (peer_owner hsession hpeer)

theorem By.abortEnd (hsession : session.Of owner u) (hclient : owner client = u) :
    By owner now u s₀ (s.abortEnd client sessionId session) := (h.peer hsession).emit hclient

end

/-! ## The steps -/

/-- A handler that has suspended does only what its own user may, unless it is a start that finds no
record. -/
theorem run_by (h : s.Apart owner now) {job : SyncJob} (hjob : job ∈ s.jobs) {s' : SyncGateway}
    (hs' : By owner now (owner job.client) s s') (hsame : s'.syncSessions = s.syncSessions)
    (hstart : ∀ client sessionId ekSource sdpOffer, job = .startHas client sessionId ekSource sdpOffer →
      s.syncSessions.has now sessionId) :
    By owner now (owner job.client) s (s'.run owner now job) := by
  have huse : ∀ id, job.engaged = some id → s.Uses owner now id (owner job.client) :=
    fun id hid => .job job hjob hid rfl
  have hlocal := h.held job hjob
  cases job with
  | startHas client sessionId ekSource sdpOffer =>
    rw [run, hsame, if_pos (hstart _ _ _ _ rfl)]
    exact hs'.emit rfl
  | startSet client sessionId session =>
    obtain ⟨huser, hsource, htarget⟩ := hlocal session (.head _)
    have hof : SyncSession.Of owner (owner client) { session with serial := s'.sessions } :=
      ⟨huser, hsource, htarget⟩
    have hset := (hs'.set h (huse sessionId rfl) hof).of_eq (t := { s' with
      syncSessions := s'.syncSessions.set now sessionId { session with serial := s'.sessions }
      sessions := s'.sessions + 1 }) rfl (List.Subset.refl _) rfl
    exact hset.suspend rfl (fun id hid => huse id hid) fun _ hmem => List.mem_singleton.mp hmem ▸ hof
  | startTrack client sessionId session => exact (hs'.trackSocket (huse sessionId rfl) rfl).emit rfl
  | joinGet client sessionId ekTarget =>
    rw [run, hsame]
    split
    · exact hs'.emit rfl
    · rename_i session hget
      have hof := h.read hget
      split_ifs with _ huser
      · exact hs'.emit rfl
      · exact hs'.emit rfl
      · exact hs'.emit rfl
      · exact hs'.emit rfl
      · have huser : session.userId = owner client := not_not.mp huser
        exact hs'.suspend rfl (fun id hid => Option.some.inj hid ▸ .record session hget huser)
          fun _ hmem => List.mem_singleton.mp hmem ▸ huser ▸ hof
  | joinUpdate client sessionId ekTarget session =>
    rw [run, hsame]
    split
    · exact hs'.suspend rfl huse hlocal
    · rename_i current hget
      exact hs'.suspend rfl huse (held_pair hlocal (h.reread hget (huse sessionId rfl)))
  | joinSet client sessionId ekTarget session current =>
    have hcurrent := hlocal current (.tail _ (.head _))
    refine (hs'.set h (huse sessionId rfl) ?_).suspend rfl huse fun _ hmem =>
      hlocal _ (List.mem_of_mem_head? (List.mem_singleton.mp hmem ▸ rfl))
    exact ⟨hcurrent.user, hcurrent.source, fun k hk => Option.some.inj hk ▸ rfl⟩
  | joinTrack client sessionId ekTarget session =>
    have hsession := hlocal session (.head _)
    exact ((hs'.trackSocket (huse sessionId rfl) rfl).emit rfl).emit hsession.source
  | relayGet client sessionId sdpAnswer =>
    rw [run, hsame]
    split
    · exact hs'
    · rename_i session hget
      split_ifs with htarget
      · exact hs'
      · have hof := h.read hget
        have huser := hof.target client (not_not.mp htarget)
        exact hs'.emit (hof.source.trans huser.symm)
  | iceGet client sessionId candidate =>
    rw [run, hsame]
    split
    · exact hs'
    · rename_i session hget
      split_ifs with _ hpart
      · exact hs'
      · exact hs'.peer (h.read_of hget hpart)
      · exact hs'
  | abortGet client sessionId =>
    rw [run, hsame]
    split
    · exact hs'
    · rename_i session hget
      split_ifs with hpart
      · have hof := h.read_of hget hpart
        exact hs'.suspend rfl (fun id hid => Option.some.inj hid ▸ .record session hget hof.user)
          fun _ hmem => List.mem_singleton.mp hmem ▸ hof
      · exact hs'
  | abortDelete client sessionId session =>
    rw [run, hsame]
    split
    · exact hs'.abortEnd (hlocal session (.head _)) rfl
    · rename_i current hget
      exact hs'.suspend rfl huse (held_pair hlocal (h.reread hget (huse sessionId rfl)))
  | abortDel client sessionId session current =>
    exact (hs'.del h (huse sessionId rfl)).abortEnd (hlocal session (.head _)) rfl
  | disconnectIndex client =>
    rw [run, hsame]
    split
    · exact hs'
    · rename_i sessionId hindex
      exact hs'.suspend rfl (fun id hid => Option.some.inj hid ▸ .index client hindex rfl) fun _ hmem => by
        cases hmem
  | disconnectGet client sessionId =>
    rw [run, hsame]
    split
    · exact hs'
    · rename_i session hget
      have hof := h.reread hget (huse sessionId rfl)
      exact hs'.suspend rfl huse fun _ hmem => List.mem_singleton.mp hmem ▸ hof
  | disconnectDelete client sessionId session =>
    rw [run, hsame]
    split
    · exact hs'.peer (hlocal session (.head _))
    · rename_i current hget
      exact hs'.suspend rfl huse (held_pair hlocal (h.reread hget (huse sessionId rfl)))
  | disconnectDel client sessionId session current =>
    exact (hs'.del h (huse sessionId rfl)).peer (hlocal session (.head _))

theorem within_purge (h : s.Apart owner now) :
    s.Within owner now { s with syncSessions := s.syncSessions.purgeExpired now } :=
  SyncSessionService.purge_rule (P := fun store => s.Within owner now { s with syncSessions := store })
    (.refl h) fun _ _ _ hstore => hstore.del

theorem By.isolated {input : SyncInput} (h : s.Apart owner now) (hactor : s.actor input = some k)
    (hby : By owner now (owner k) s (s.next owner (now, input))) :
    (s.next owner (now, input)).Apart owner now ∧ s.Isolated owner (now, input) := by
  refine ⟨hby.toWithin.apart h, fun m hm => ⟨k, hactor, hby.sent m hm⟩, fun k' id session hk' hold hnew => ?_⟩
  obtain rfl : k = k' := Option.some.inj (hactor.symm.trans hk')
  exact hby.kept id session hold hnew

theorem handle_by {s₀ : SyncGateway} (hs : By owner now (owner client) s₀ s) {request : SyncRequest} :
    By owner now (owner client) s₀ (s.handle owner now client request) := by
  have hlimited : ∀ (event : String) (rest : SyncGateway → SyncGateway),
      (∀ s, By owner now (owner client) s₀ s → By owner now (owner client) s₀ (rest s)) →
      By owner now (owner client) s₀ (s.limited owner now client event rest) := by
    intro event rest hrest
    have hhit := hs.of_eq (t := { s with syncLimiter := s.syncLimiter.hit now (owner client) }) rfl
      (List.Subset.refl _) rfl
    unfold limited
    split_ifs
    · exact hrest _ hhit
    · exact hhit.emit rfl
  cases request with
  | deviceSyncStart sessionId ekSource sdpOffer =>
    rw [handle]
    refine hlimited _ _ fun s hs => ?_
    split_ifs
    · exact hs.suspend rfl (fun _ hid => by cases hid) fun _ hmem => by cases hmem
    · exact hs.emit rfl
  | deviceSyncJoin =>
    exact hlimited _ _ fun s hs => hs.suspend rfl (fun _ hid => by cases hid) fun _ hmem => by cases hmem
  | deviceSyncRelayAnswer | deviceSyncIce | deviceSyncAbort =>
    exact hs.suspend rfl (fun _ hid => by cases hid) fun _ hmem => by cases hmem

/-- **The step lemma**: one step of any handler, up to its next access to the store. -/
theorem step_apart (h : s.Apart owner now) {input : SyncInput} (hinput : s.Enabled owner input)
    (hfree : s.TakesFree owner (now, input)) :
    (s.next owner (now, input)).Apart owner now ∧ s.Isolated owner (now, input) := by
  cases input with
  | connect socket => exact By.isolated h rfl ((By.refl h).of_eq rfl (List.Subset.refl _) rfl)
  | event socket request => exact By.isolated h rfl (handle_by (.refl h))
  | disconnect socket =>
    have hleft := (By.refl (u := owner socket) h).of_eq (t := { s with
      emitted := [], connected := s.connected.filter (· ≠ socket) }) rfl (List.Subset.refl _) rfl
    exact By.isolated (k := socket) h rfl
      (hleft.suspend rfl (fun _ hid => by cases hid) fun _ hmem => by cases hmem)
  | cleanup =>
    have hwithin := (within_purge h).of_eq (t := s.next owner (now, .cleanup)) rfl (List.Subset.refl _)
    refine ⟨hwithin.apart h, fun m hm => ?_, fun k _ _ hk => ?_⟩
    · cases hm
    · cases hk
  | resume j =>
    obtain ⟨job, hget⟩ : ∃ job, s.jobs[j]? = some job := ⟨_, List.getElem?_eq_getElem hinput⟩
    have hjob : job ∈ s.jobs := List.mem_of_getElem? hget
    have hactor : s.actor (.resume j) = some job.client := by
      rw [actor, hget]
      rfl
    have hnext : s.next owner (now, .resume j) =
        ({ s with emitted := [], jobs := s.jobs.eraseIdx j } : SyncGateway).run owner now job := by
      rw [next, step, hget]
      rfl
    have hunlinked : ∀ u, By owner now u s { s with emitted := [], jobs := s.jobs.eraseIdx j } :=
      fun u => (By.refl h).of_eq rfl List.eraseIdx_subset rfl
    by_cases hstart : ∀ client sessionId ekSource sdpOffer,
        job = .startHas client sessionId ekSource sdpOffer → s.syncSessions.has now sessionId
    · exact By.isolated h hactor (hnext ▸ run_by h hjob (hunlinked _) rfl hstart)
    · push Not at hstart
      obtain ⟨client, sessionId, ekSource, sdpOffer, rfl, hfresh⟩ := hstart
      rw [run, if_neg hfresh] at hnext
      have hs' := hunlinked (owner client)
      have hnone : s.syncSessions.get now sessionId = none := Option.not_isSome_iff_eq_none.mp hfresh
      refine ⟨?_, fun m hm => ?_, fun k id session _ hold hnew => ?_⟩
      · rw [hnext]
        refine (hs'.toWithin.apart h).suspend (fun id hid u hu => ?_) fun session hmem => ?_
        · cases hid
          exact hfree j client sessionId ekSource sdpOffer rfl hget hnone u (hs'.uses sessionId u hu)
        · cases List.mem_singleton.mp hmem
          exact ⟨rfl, rfl, fun _ hk => by cases hk⟩
      · rw [hnext] at hm
        cases hm
      · rw [hnext] at hnew
        exact absurd hold hnew

end

end SyncGateway

/-! ## All runs -/

open SyncGateway in
/-- In every run of the handlers, interleaved at their accesses to the store, whose starts take only
ids that no other user uses, a step sends only to sockets of the user that causes it, and deletes or
overwrites only records of that user. -/
theorem sync_isolated {backend : Backend} {owner : SocketId → UserId} {start : Time}
    {s : SyncGateway × Time}
    (hs : (((syncGateway backend owner).restrict (·.TakesFree owner)).timed start).Reachable s)
    {e : Time × SyncInput}
    (he : (((syncGateway backend owner).restrict (·.TakesFree owner)).timed start).enabled s e) :
    s.1.Isolated owner e := by
  have hinv : s.1.Apart owner s.2 := by
    refine hs.invariant (I := fun s => s.1.Apart owner s.2) ?_ fun s e _ h he => ?_
    · refine ⟨fun _ _ he => (by cases he), fun _ h => (by cases h), fun id u u' hu => ?_⟩
      cases hu with
      | record _ h => cases h
      | index _ h => cases h
      | job _ h => cases h
    · exact (step_apart (h.later he.1) he.2.1 he.2.2).1
  exact (step_apart (hinv.later he.1) he.2.1 he.2.2).2

/-- A start that meets nobody. -/
theorem sync_isolated_alone :
    let M := ((syncGateway .memory (· / 10)).restrict (·.TakesFree (· / 10))).timed 0
    let s := M.exec M.init [(0, .connect 10), (0, .event 10 (.deviceSyncStart SyncGateway.anId none none)),
      (0, .resume 0), (0, .resume 0)]
    s.1.Isolated (· / 10) (0, .resume 0) := by
  have hother : ∀ {s : SyncGateway} {job : SyncJob}, s.jobs[0]? = some job → job.engaged.isSome →
      s.TakesFree (· / 10) (0, .resume 0) := by
    intro s job hget hjob j client sessionId ekSource sdpOffer hj hstart
    cases hj
    cases hget.symm.trans hstart
    cases hjob
  refine sync_isolated (Machine.Reachable.init.exec ?_) ?_
  · refine ⟨⟨by decide, by decide, fun _ _ _ _ _ h => (by cases h)⟩,
      ⟨by decide, by decide, fun _ _ _ _ _ h => (by cases h)⟩,
      ⟨by decide, by decide, fun j client _ _ _ hj hget _ u hu => ?_⟩, ⟨by decide, by decide, hother rfl rfl⟩,
      trivial⟩
    cases hj
    cases hget
    cases hu with
    | record _ h => cases h
    | index _ h => cases h
    | job job h hid => exact absurd (List.mem_singleton.mp h ▸ hid) nofun
  · exact ⟨by decide, by decide, hother rfl rfl⟩

/-- Sockets of the users 1 and 2 start sessions of the same id. Both find it free, the second record
overwrites the first, and the first socket stays indexed under it. -/
def crossing : List (Time × SyncInput) :=
  [.connect 10, .connect 20, .event 10 (.deviceSyncStart SyncGateway.anId none none),
    .event 20 (.deviceSyncStart SyncGateway.anId none none), .resume 0, .resume 0, .resume 0, .resume 0, .resume 0,
    .resume 0, .disconnect 10, .resume 0, .resume 0, .resume 0].map (0, ·)

/-- When the first user's socket leaves, it deletes the second user's session, and tells that user so. -/
theorem session_crossed :
    let M := (syncGateway .memory (· / 10)).timed 0
    let s := M.exec M.init crossing
    M.Allowed M.init crossing ∧ M.enabled s (0, .resume 0) ∧ ¬s.1.Isolated (· / 10) (0, .resume 0) := by
  intro M s
  refine ⟨by decide, by decide, fun h => ?_⟩
  have hactor : s.1.actor (.resume 0) = some 10 := by decide
  have hsent : ∃ m ∈ (s.1.next (· / 10) (0, .resume 0)).emitted, m.target = 20 := by decide
  obtain ⟨m, hm, htarget⟩ := hsent
  obtain ⟨k, hk, howner⟩ := h.sent m hm
  cases hactor.symm.trans hk
  rw [htarget] at howner
  exact absurd howner (by decide)

end Vesper.Server
