import Vesper.Server.SyncSessions
import Vesper.Lib.Machine

/-!
# The target of a synchronisation session

`handleDeviceSyncJoin` checks that a session has no target, and records the target only two accesses to
the store later. Between the two the handler aims at the session. As long as no handler passes the check
while another one aims at the same session, a session is offered once, and its source is told of the
socket to which it was offered.
-/

namespace Vesper.Server

/-! ## Handlers that join -/

/-- The handler has found the session free, and is going to send its offer. -/
def SyncJob.aims (n : Nat) : SyncJob → Bool
  | joinUpdate _ _ _ session | joinSet _ _ _ session _ | joinTrack _ _ _ session => session.serial = n
  | _ => false

/-- The handler has recorded the target already, or found nothing to record it in. -/
def SyncJob.answers (n : Nat) : SyncJob → Bool
  | joinTrack _ _ _ session => session.serial = n
  | _ => false

/-- Where the handler still relies on a session being stored. -/
def SyncJob.pending : SyncJob → List (SessionId × Nat)
  | joinUpdate _ sessionId _ session => [(sessionId, session.serial)]
  | joinSet _ sessionId _ session current => [(sessionId, session.serial), (sessionId, current.serial)]
  | _ => []

def SyncEmission.offers (n : Nat) (m : SyncEmission) : Bool :=
  match m.event with
  | .deviceSyncOffer .. => m.session.any (·.serial = n)
  | _ => false

def SyncEmission.announces (n : Nat) (m : SyncEmission) : Bool :=
  match m.event with
  | .deviceSyncPeerJoined .. => m.session.any (·.serial = n)
  | _ => false

/-- All that was sent, and the socket whose handler sent it. -/
abbrev SyncHistory := List (SocketId × SyncEmission)

/-- One socket at most is offered the session of serial number `n`, and its source is told at most once
that a peer has joined: by that same socket. -/
structure OneTarget (h : SyncHistory) (n : Nat) : Prop where
  target : ∀ x ∈ h, ∀ y ∈ h, x.2.offers n → y.2.offers n → x.2.target = y.2.target
  once : h.countP (·.2.announces n) ≤ 1
  same : ∀ x ∈ h, ∀ y ∈ h, x.2.offers n → y.2.announces n → y.1 = x.2.target

namespace SyncGateway

def told (owner : SocketId → UserId) (s : SyncGateway) (e : Time × SyncInput) (h : SyncHistory) :
    SyncHistory :=
  (s.actor e.2).elim h fun client => h ++ (s.next owner e).emitted.map (client, ·)

/-- A handler that passes the checks of `handleDeviceSyncJoin` does so while no other one aims at the
same session. -/
def JoinsAlone (s : SyncGateway) (e : Time × SyncInput) : Prop :=
  ∀ j client sessionId ekTarget session, e.2 = .resume j →
    s.jobs[j]? = some (.joinGet client sessionId ekTarget) →
    s.syncSessions.get e.1 sessionId = some session → session.targetSocketId = none →
    ∀ job ∈ s.jobs, ¬job.aims session.serial

/-! ## The invariant -/

inductive Names (now : Time) (s : SyncGateway) (id : SessionId) (n : Nat) : Prop
  | record (session : SyncSession) (h : s.syncSessions.get now id = some session) (hn : session.serial = n)
  | job (job : SyncJob) (h : job ∈ s.jobs) (hn : (id, n) ∈ job.pending)

/-- The offers of a session that were made or will be. -/
def bids (s : SyncGateway) (h : SyncHistory) (n : Nat) : Nat :=
  s.jobs.countP (·.aims n) + h.countP (·.2.offers n)

structure Single (now : Time) (s : SyncGateway) (h : SyncHistory) : Prop where
  below : ∀ id n, s.Names now id n → n < s.sessions
  unused : ∀ n, s.sessions ≤ n → s.bids h n = 0
  place : ∀ id id' n, s.Names now id n → s.Names now id' n → id = id'
  once : ∀ n, s.bids h n ≤ 1
  closed : ∀ id session, s.syncSessions.get now id = some session → session.targetSocketId = none →
    (∀ job ∈ s.jobs, ¬job.answers session.serial) ∧ ∀ x ∈ h, ¬x.2.offers session.serial
  paired : ∀ n, (h.filter (·.2.announces n)).map (·.1) = (h.filter (·.2.offers n)).map (·.2.target)

section
variable {s : SyncGateway} {now now' : Time} {h : SyncHistory} {client : SocketId} {sessionId id : SessionId}
  {session : SyncSession} {n : Nat} {job : SyncJob}

theorem eq_of_length_le_one {α : Type} {l : List α} (hl : l.length ≤ 1) {a b : α} (ha : a ∈ l) (hb : b ∈ l) :
    a = b := by
  match l with
  | [_] => exact (List.mem_singleton.mp ha).trans (List.mem_singleton.mp hb).symm

theorem Single.oneTarget (hs : s.Single now h) (n : Nat) : OneTarget h n := by
  have honce : (h.filter (·.2.offers n)).length ≤ 1 := by
    rw [← List.countP_eq_length_filter]
    exact Nat.le_trans (Nat.le_add_left ..) (hs.once n)
  have hsame : ∀ {x y}, x ∈ h → y ∈ h → x.2.offers n → y.2.offers n → x = y := fun hx hy hxo hyo =>
    eq_of_length_le_one honce (List.mem_filter.mpr ⟨hx, hxo⟩) (List.mem_filter.mpr ⟨hy, hyo⟩)
  have hpaired := hs.paired n
  constructor
  · exact fun x hx y hy hxo hyo => hsame hx hy hxo hyo ▸ rfl
  · have hlength := congrArg List.length hpaired
    rw [List.length_map, List.length_map] at hlength
    rw [List.countP_eq_length_filter]
    exact hlength ▸ honce
  · intro x hx y hy hxo hyo
    have hy' : y.1 ∈ (h.filter (·.2.announces n)).map (·.1) :=
      List.mem_map.mpr ⟨y, List.mem_filter.mpr ⟨hy, hyo⟩, rfl⟩
    rw [hpaired] at hy'
    obtain ⟨z, hz, heq⟩ := List.mem_map.mp hy'
    obtain ⟨hz, hzo⟩ := List.mem_filter.mp hz
    exact heq ▸ hsame hz hx hzo hxo ▸ rfl

theorem aims_of_answers (h : job.answers n) : job.aims n := by
  cases job with
  | joinTrack => exact h
  | _ => exact absurd h Bool.false_ne_true

theorem Names.earlier (hle : now ≤ now') (h : s.Names now' id n) : s.Names now id n := by
  cases h with
  | record session h hn => exact .record session (SyncSessionService.get_earlier hle h) hn
  | job job h hn => exact .job job h hn

theorem Single.later (hs : s.Single now h) (hle : now ≤ now') : s.Single now' h where
  below id n hn := hs.below id n (hn.earlier hle)
  unused := hs.unused
  place id id' n hn hn' := hs.place id id' n (hn.earlier hle) (hn'.earlier hle)
  once := hs.once
  closed id session hget := hs.closed id session (SyncSessionService.get_earlier hle hget)
  paired := hs.paired

/-! ## What an operation does -/

/-- Less is stored, and fewer handlers run. -/
theorem Single.of_le {t : SyncGateway} (hs : s.Single now h)
    (hstore : ∀ id session, t.syncSessions.get now id = some session → s.syncSessions.get now id = some session)
    (hjobs : t.jobs.Sublist s.jobs) (hsessions : t.sessions = s.sessions) : t.Single now h := by
  have hnames : ∀ {id n}, t.Names now id n → s.Names now id n := by
    intro id n hn
    cases hn with
    | record session hget hn => exact .record session (hstore id session hget) hn
    | job job hjob hn => exact .job job (hjobs.subset hjob) hn
  have hbids : ∀ n, t.bids h n ≤ s.bids h n := fun n => Nat.add_le_add_right hjobs.countP_le _
  constructor
  · exact fun id n hn => hsessions ▸ hs.below id n (hnames hn)
  · exact fun n hn => Nat.le_zero.mp (hs.unused n (hsessions ▸ hn) ▸ hbids n)
  · exact fun id id' n hn hn' => hs.place id id' n (hnames hn) (hnames hn')
  · exact fun n => Nat.le_trans (hbids n) (hs.once n)
  · intro id session hget htarget
    obtain ⟨hanswers, hoffers⟩ := hs.closed id session (hstore id session hget) htarget
    exact ⟨fun job hjob => hanswers job (hjobs.subset hjob), hoffers⟩
  · exact hs.paired

/-- A handler may aim at a session that nothing has aimed at. -/
theorem Single.suspend (hs : s.Single now h)
    (hpending : ∀ id n, (id, n) ∈ job.pending → n < s.sessions ∧ ∀ id', s.Names now id' n → id' = id)
    (hpair : ∀ id id' n, (id, n) ∈ job.pending → (id', n) ∈ job.pending → id = id')
    (haims : ∀ n, job.aims n → n < s.sessions ∧ s.bids h n = 0)
    (hanswers : ∀ id session, s.syncSessions.get now id = some session → session.targetSocketId = none →
      ¬job.answers session.serial) : (s.suspend job).Single now h := by
  have hnames : ∀ {id n}, (s.suspend job).Names now id n → s.Names now id n ∨ (id, n) ∈ job.pending := by
    intro id n hn
    cases hn with
    | record session hget hn => exact .inl (.record session hget hn)
    | job job' hjob hn =>
      rcases List.mem_append.mp hjob with hold | hnew
      · exact .inl (.job job' hold hn)
      · exact .inr (List.mem_singleton.mp hnew ▸ hn)
  have hbids : ∀ n, (s.suspend job).bids h n = s.bids h n + if job.aims n then 1 else 0 := by
    intro n
    have hcount : (s.suspend job).jobs.countP (·.aims n) =
        s.jobs.countP (·.aims n) + if job.aims n then 1 else 0 := by
      rw [SyncGateway.suspend, List.countP_append, List.countP_singleton]
    rw [bids, hcount, bids]
    omega
  constructor
  · intro id n hn
    rcases hnames hn with hold | hnew
    · exact hs.below id n hold
    · exact (hpending id n hnew).1
  · intro n hn
    rw [hbids, hs.unused n hn]
    split_ifs with h
    · exact absurd (haims n h).1 (Nat.not_lt.mpr hn)
    · rfl
  · intro id id' n hn hn'
    rcases hnames hn with hold | hnew <;> rcases hnames hn' with hold' | hnew'
    · exact hs.place id id' n hold hold'
    · exact (hpending id' n hnew').2 id hold
    · exact ((hpending id n hnew).2 id' hold').symm
    · exact hpair id id' n hnew hnew'
  · intro n
    rw [hbids]
    split_ifs with h
    · rw [(haims n h).2]
    · exact hs.once n
  · intro id session hget htarget
    obtain ⟨hold, hoffers⟩ := hs.closed id session hget htarget
    refine ⟨fun job' hjob' => ?_, hoffers⟩
    rcases List.mem_append.mp hjob' with hmem | hnew
    · exact hold job' hmem
    · exact List.mem_singleton.mp hnew ▸ hanswers id session hget htarget
  · exact hs.paired

/-- A handler that does not join. -/
theorem Single.suspend_other (hs : s.Single now h) (hpending : job.pending = []) (haims : ∀ n, job.aims n = false)
    (hanswers : ∀ n, job.answers n = false) : (s.suspend job).Single now h := by
  refine hs.suspend (fun id n hn => ?_) (fun id id' n hn => ?_) (fun n hn => ?_) fun id session _ _ hn => ?_
  · exact absurd (hpending ▸ hn) List.not_mem_nil
  · exact absurd (hpending ▸ hn) List.not_mem_nil
  · exact absurd hn (haims n ▸ Bool.false_ne_true)
  · exact absurd hn (hanswers _ ▸ Bool.false_ne_true)

theorem Single.quiet (hs : s.Single now h) {x : SocketId × SyncEmission}
    (hx : ∀ n, x.2.offers n = false ∧ x.2.announces n = false) : s.Single now (h ++ [x]) := by
  have hbids : ∀ n, s.bids (h ++ [x]) n = s.bids h n := by
    intro n
    rw [bids, List.countP_append, List.countP_singleton, if_neg (by simp [hx n])]
    rfl
  constructor
  · exact hs.below
  · exact fun n hn => (hbids n).trans (hs.unused n hn)
  · exact hs.place
  · exact fun n => (hbids n).symm ▸ hs.once n
  · intro id session hget htarget
    obtain ⟨hanswers, hoffers⟩ := hs.closed id session hget htarget
    refine ⟨hanswers, fun y hy => ?_⟩
    rcases List.mem_append.mp hy with hold | hnew
    · exact hoffers y hold
    · rw [List.mem_singleton.mp hnew, (hx _).1]
      exact Bool.false_ne_true
  · intro n
    simp only [List.filter_append, List.filter_singleton, hx n, cond_false, List.append_nil]
    exact hs.paired n

/-- The offer of a session that has not been offered, and the word to its source. -/
theorem Single.offer (hs : s.Single now h) (client : SocketId) (sessionId : SessionId) (ekTarget : Text)
    {session : SyncSession} (hbelow : session.serial < s.sessions) (hfree : s.bids h session.serial = 0)
    (hclosed : ∀ id current, s.syncSessions.get now id = some current → current.targetSocketId = none →
      current.serial ≠ session.serial) :
    s.Single now (h ++ [(client, ⟨some session, client,
      .deviceSyncOffer sessionId session.ekSource session.sdpOffer⟩),
      (client, ⟨some session, session.sourceSocketId, .deviceSyncPeerJoined sessionId ekTarget⟩)]) := by
  have hbids : ∀ n, s.bids (h ++ [(client, ⟨some session, client,
      .deviceSyncOffer sessionId session.ekSource session.sdpOffer⟩),
      (client, ⟨some session, session.sourceSocketId, .deviceSyncPeerJoined sessionId ekTarget⟩)]) n =
      s.bids h n + if session.serial = n then 1 else 0 := by
    intro n
    simp [bids, List.countP_append, List.countP_cons, SyncEmission.offers, Nat.add_assoc]
  constructor
  · exact hs.below
  · intro n hn
    rw [hbids, hs.unused n hn, if_neg (Nat.ne_of_lt (Nat.lt_of_lt_of_le hbelow hn))]
  · exact hs.place
  · intro n
    rw [hbids]
    split_ifs with heq
    · rw [← heq, hfree]
    · exact hs.once n
  · intro id current hget htarget
    obtain ⟨hanswers, hoffers⟩ := hs.closed id current hget htarget
    have hne := hclosed id current hget htarget
    refine ⟨hanswers, fun y hy => ?_⟩
    rcases List.mem_append.mp hy with hold | hnew
    · exact hoffers y hold
    · rcases List.mem_pair.mp hnew with rfl | rfl
      · simpa [SyncEmission.offers] using Ne.symm hne
      · exact Bool.false_ne_true
  · intro n
    rw [List.filter_append, List.filter_append, List.map_append, List.map_append, hs.paired n]
    congr 1
    by_cases heq : session.serial = n <;>
      simp [SyncEmission.offers, SyncEmission.announces, heq]

theorem names_set {k : Nat} (hn : ({ s with
      syncSessions := s.syncSessions.set now sessionId session, sessions := k } : SyncGateway).Names now id n) :
    s.Names now id n ∨ id = sessionId ∧ n = session.serial := by
  cases hn with
  | record current hget hn =>
    rw [SyncSessionService.get_set] at hget
    split at hget
    · cases hget
      exact .inr ⟨‹_›, hn.symm⟩
    · exact .inl (.record current hget hn)
  | job job hjob hn => exact .inl (.job job hjob hn)

/-- A session that is stored for the first time. -/
theorem Single.set_fresh (hs : s.Single now h) :
    ({ s with
      syncSessions := s.syncSessions.set now sessionId { session with serial := s.sessions }
      sessions := s.sessions + 1 } : SyncGateway).Single now h := by
  have hlt : ∀ {id n}, s.Names now id n → n ≠ s.sessions := fun hn => Nat.ne_of_lt (hs.below _ _ hn)
  constructor
  · intro id n hn
    rcases names_set hn with hold | ⟨-, rfl⟩
    · exact Nat.lt_succ_of_lt (hs.below id n hold)
    · exact Nat.lt_succ_self _
  · exact fun n hn => hs.unused n (Nat.le_of_succ_le hn)
  · intro id id' n hn hn'
    rcases names_set hn with hold | ⟨rfl, rfl⟩ <;> rcases names_set hn' with hold' | ⟨rfl, heq⟩
    · exact hs.place id id' n hold hold'
    · exact absurd heq (hlt hold)
    · exact absurd rfl (hlt hold')
    · rfl
  · exact hs.once
  · intro id current hget htarget
    rw [SyncSessionService.get_set] at hget
    split at hget
    · cases hget
      -- nothing has been aimed at the new serial number
      have hunused := hs.unused s.sessions (Nat.le_refl _)
      obtain ⟨hjobs, hsent⟩ := Nat.add_eq_zero_iff.mp hunused
      refine ⟨fun job hjob hanswers => ?_, fun x hx ho => ?_⟩
      · exact List.countP_eq_zero.mp hjobs job hjob (aims_of_answers hanswers)
      · exact List.countP_eq_zero.mp hsent x hx ho
    · exact hs.closed id current hget htarget
  · exact hs.paired

/-- A target is recorded in what a handler has read. -/
theorem Single.set_target (hs : s.Single now h) (sessionId : SessionId) (current : SyncSession)
    (hbelow : current.serial < s.sessions)
    (hplace : ∀ id', s.Names now id' current.serial → id' = sessionId) (htarget : current.targetSocketId ≠ none) :
    ({ s with syncSessions := s.syncSessions.set now sessionId current } : SyncGateway).Single now h := by
  constructor
  · intro id n hn
    rcases names_set hn with hold | ⟨-, rfl⟩
    · exact hs.below id n hold
    · exact hbelow
  · exact hs.unused
  · intro id id' n hn hn'
    rcases names_set hn with hold | ⟨rfl, rfl⟩ <;> rcases names_set hn' with hold' | ⟨heq, heq'⟩
    · exact hs.place id id' n hold hold'
    · exact heq ▸ hplace id (heq' ▸ hold)
    · exact (hplace id' hold').symm
    · exact heq.symm
  · exact hs.once
  · intro id session hget hnone
    rw [SyncSessionService.get_set] at hget
    split at hget
    · cases hget
      exact absurd hnone htarget
    · exact hs.closed id session hget hnone
  · exact hs.paired

/-! ## The steps -/

/-- All that has been sent, in the middle of a step. -/
def sent (client : SocketId) (h : SyncHistory) (s : SyncGateway) : SyncHistory := h ++ s.emitted.map (client, ·)

theorem Single.emit (hs : s.Single now (s.sent client h)) {session : Option SyncSession} {target : SocketId}
    {event : SyncEvent} (hevent : ∀ n, SyncEmission.offers n ⟨session, target, event⟩ = false ∧
      SyncEmission.announces n ⟨session, target, event⟩ = false) :
    (s.emit session target event).Single now ((s.emit session target event).sent client h) := by
  have hsent : (s.emit session target event).sent client h =
      s.sent client h ++ [(client, ⟨session, target, event⟩)] := by
    simp [sent, SyncGateway.emit]
  rw [hsent]
  exact (hs.quiet hevent).of_le (fun _ _ h => h) (List.Sublist.refl _) rfl

theorem Single.peer (hs : s.Single now (s.sent client h)) {k : SocketId} {event : SyncEvent}
    (hevent : ∀ n peer, SyncEmission.offers n ⟨some session, peer, event⟩ = false ∧
      SyncEmission.announces n ⟨some session, peer, event⟩ = false) :
    Single now ((peerSocketId k session).elim s fun peer => s.emit (some session) peer event)
      (sent client h ((peerSocketId k session).elim s fun peer => s.emit (some session) peer event)) := by
  cases peerSocketId k session with
  | none => exact hs
  | some peer => exact hs.emit fun n => hevent n peer

theorem Single.del (hs : s.Single now h) :
    ({ s with syncSessions := s.syncSessions.del sessionId session } : SyncGateway).Single now h := by
  refine hs.of_le (fun id current hget => ?_) (List.Sublist.refl _) rfl
  rw [SyncSessionService.get_del] at hget
  exact (Option.ite_none_left_eq_some.mp hget).2

theorem Single.track (hs : s.Single now h) (k : SocketId) (sessionId : SessionId) :
    ({ s with syncSessions := s.syncSessions.trackSocket now k sessionId } : SyncGateway).Single now h :=
  hs.of_le (fun _ _ hget => hget) (List.Sublist.refl _) rfl

/-- What is left when a handler is resumed. -/
theorem Single.unlink (hs : s.Single now h) (client : SocketId) {j : Nat} (hget : s.jobs[j]? = some job) :
    let s' : SyncGateway := { s with emitted := [], jobs := s.jobs.eraseIdx j }
    s'.Single now (s'.sent client h) ∧ ∀ n, job.aims n → s'.bids (s'.sent client h) n = 0 ∧ n < s.sessions := by
  intro s'
  have hsent : s'.sent client h = h := List.append_nil h
  have hcount : ∀ n, s.jobs.countP (·.aims n) = s'.jobs.countP (·.aims n) + if job.aims n then 1 else 0 :=
    fun n => (countP_eraseIdx hget).symm
  rw [hsent]
  refine ⟨hs.of_le (fun _ _ h => h) (List.eraseIdx_sublist ..) rfl, fun n haims => ?_⟩
  have honce := hs.once n
  rw [bids, hcount n, if_pos haims] at honce
  refine ⟨by rw [bids]; omega, Nat.lt_of_not_le fun hle => ?_⟩
  have hunused := hs.unused n hle
  rw [bids, hcount n, if_pos haims] at hunused
  omega

/-- A handler that has suspended keeps the invariant, unless it is the check of a join that succeeds. -/
theorem Single.run {owner : SocketId → UserId} (hs : s.Single now h) {j : Nat} (hget : s.jobs[j]? = some job)
    (halone : s.JoinsAlone (now, .resume j)) :
    (({ s with emitted := [], jobs := s.jobs.eraseIdx j } : SyncGateway).run owner now job).Single now
      ((({ s with emitted := [], jobs := s.jobs.eraseIdx j } : SyncGateway).run owner now job).sent
        job.client h) := by
  have hjob : job ∈ s.jobs := List.mem_of_getElem? hget
  obtain ⟨hs', hfree⟩ := hs.unlink job.client hget
  have hnames : ∀ {id n}, ({ s with emitted := [], jobs := s.jobs.eraseIdx j } : SyncGateway).Names now id n →
      s.Names now id n := by
    intro id n hn
    cases hn with
    | record session h hn => exact .record session h hn
    | job job h hn => exact .job job (List.mem_of_mem_eraseIdx h) hn
  cases job with
  | startHas client sessionId ekSource sdpOffer =>
    rw [SyncGateway.run]
    split
    · exact hs'.emit fun n => ⟨rfl, rfl⟩
    · exact hs'.suspend_other rfl (fun _ => rfl) fun _ => rfl
  | startSet client sessionId session => exact hs'.set_fresh.suspend_other rfl (fun _ => rfl) fun _ => rfl
  | startTrack client sessionId session => exact (hs'.track client sessionId).emit fun _ => ⟨rfl, rfl⟩
  | joinGet client sessionId ekTarget =>
    rw [SyncGateway.run]
    split
    · exact hs'.emit fun _ => ⟨rfl, rfl⟩
    · rename_i session hread
      split_ifs with _ _ hnone
      · exact hs'.emit fun _ => ⟨rfl, rfl⟩
      · exact hs'.emit fun _ => ⟨rfl, rfl⟩
      · exact hs'.emit fun _ => ⟨rfl, rfl⟩
      · exact hs'.emit fun _ => ⟨rfl, rfl⟩
      · have hnone : session.targetSocketId = none := Option.not_isSome_iff_eq_none.mp hnone
        have hrecord : s.Names now sessionId session.serial := .record session hread rfl
        have hothers := halone j client sessionId ekTarget session rfl hget hread hnone
        refine hs'.suspend (fun id n hn => ?_) (fun id id' n hn hn' => ?_) (fun n haims => ?_)
          fun _ _ _ _ => Bool.false_ne_true
        · cases List.mem_singleton.mp hn
          exact ⟨hs.below _ _ hrecord, fun id' hn' => hs.place _ _ _ (hnames hn') hrecord⟩
        · cases List.mem_singleton.mp hn
          cases List.mem_singleton.mp hn'
          rfl
        · obtain rfl : session.serial = n := of_decide_eq_true haims
          refine ⟨hs.below _ _ hrecord, Nat.add_eq_zero_iff.mpr ⟨?_, ?_⟩⟩
          · exact List.countP_eq_zero.mpr fun job hjob => hothers job (List.mem_of_mem_eraseIdx hjob)
          · rw [sent, List.map_nil, List.append_nil]
            exact List.countP_eq_zero.mpr (hs.closed sessionId session hread hnone).2
  | joinUpdate client sessionId ekTarget session =>
    have hpending : s.Names now sessionId session.serial := .job _ hjob (.head _)
    have haims := hfree session.serial (decide_eq_true rfl)
    rw [SyncGateway.run]
    split
    · rename_i hread
      refine hs'.suspend (fun _ _ hn => by cases hn) (fun _ _ _ hn => by cases hn) (fun n hn => ?_)
        fun id current hcurrent _ hn => ?_
      · exact of_decide_eq_true hn ▸ haims.symm
      · -- the session is stored nowhere else
        have hserial : session.serial = current.serial := of_decide_eq_true hn
        obtain rfl := hs.place _ _ _ hpending (.record current hcurrent hserial.symm)
        rw [hread] at hcurrent
        cases hcurrent
    · rename_i current hread
      have hrecord : s.Names now sessionId current.serial := .record current hread rfl
      refine hs'.suspend (fun id n hn => ?_) (fun id id' n hn hn' => ?_) (fun n hn => ?_)
        fun _ _ _ _ => Bool.false_ne_true
      · rcases List.mem_pair.mp hn with heq | heq <;> cases heq
        · exact ⟨haims.2, fun id' hn' => hs.place _ _ _ (hnames hn') hpending⟩
        · exact ⟨hs.below _ _ hrecord, fun id' hn' => hs.place _ _ _ (hnames hn') hrecord⟩
      · rcases List.mem_pair.mp hn with heq | heq <;> rcases List.mem_pair.mp hn' with heq' | heq' <;>
          cases heq <;> exact (congrArg Prod.fst heq').symm
      · exact of_decide_eq_true hn ▸ haims.symm
  | joinSet client sessionId ekTarget session current =>
    have hpending : s.Names now sessionId session.serial := .job _ hjob (.head _)
    have hcurrent : s.Names now sessionId current.serial := .job _ hjob (.tail _ (.head _))
    have haims := hfree session.serial (decide_eq_true rfl)
    have hset := hs'.set_target sessionId
      { current with targetSocketId := some client, ekSource := none, sdpOffer := none }
      (hs.below _ _ hcurrent) (fun id' hn => hs.place _ _ _ (hnames hn) hcurrent)
      (Option.some_ne_none _)
    refine hset.suspend (fun _ _ hn => by cases hn) (fun _ _ _ hn => by cases hn) (fun n hn => ?_)
      fun id other hother hnone hn => ?_
    · exact of_decide_eq_true hn ▸ haims.symm
    · -- only the record that has just been given a target is under the id of the session
      have hserial : session.serial = other.serial := of_decide_eq_true hn
      rw [SyncSessionService.get_set] at hother
      split at hother
      · cases hother
        cases hnone
      · exact absurd (hs.place _ _ _ (.record other hother hserial.symm) hpending) ‹_›
  | joinTrack client sessionId ekTarget session =>
    have haims := hfree session.serial (decide_eq_true rfl)
    have hoffer := (hs'.track client sessionId).offer client sessionId ekTarget haims.2 haims.1
      fun id current hcurrent hnone heq =>
        (hs.closed id current hcurrent hnone).1 _ hjob (decide_eq_true heq.symm)
    rw [sent, List.map_nil, List.append_nil] at hoffer
    exact hoffer.of_le (fun _ _ hread => hread) (List.Sublist.refl _) rfl
  | relayGet client sessionId sdpAnswer =>
    rw [SyncGateway.run]
    split
    · exact hs'
    · split_ifs
      · exact hs'
      · exact hs'.emit fun _ => ⟨rfl, rfl⟩
  | iceGet client sessionId candidate =>
    rw [SyncGateway.run]
    split
    · exact hs'
    · split_ifs
      · exact hs'
      · exact hs'.peer fun _ _ => ⟨rfl, rfl⟩
      · exact hs'
  | abortGet client sessionId =>
    rw [SyncGateway.run]
    split
    · exact hs'
    · split_ifs
      · exact hs'.suspend_other rfl (fun _ => rfl) fun _ => rfl
      · exact hs'
  | abortDelete client sessionId session =>
    rw [SyncGateway.run]
    split
    · exact (hs'.peer fun _ _ => ⟨rfl, rfl⟩).emit fun _ => ⟨rfl, rfl⟩
    · exact hs'.suspend_other rfl (fun _ => rfl) fun _ => rfl
  | abortDel client sessionId session current =>
    exact (hs'.del.peer fun _ _ => ⟨rfl, rfl⟩).emit fun _ => ⟨rfl, rfl⟩
  | disconnectIndex client =>
    rw [SyncGateway.run]
    split
    · exact hs'
    · exact hs'.suspend_other rfl (fun _ => rfl) fun _ => rfl
  | disconnectGet client sessionId =>
    rw [SyncGateway.run]
    split
    · exact hs'
    · exact hs'.suspend_other rfl (fun _ => rfl) fun _ => rfl
  | disconnectDelete client sessionId session =>
    rw [SyncGateway.run]
    split
    · exact hs'.peer fun _ _ => ⟨rfl, rfl⟩
    · exact hs'.suspend_other rfl (fun _ => rfl) fun _ => rfl
  | disconnectDel client sessionId session current => exact hs'.del.peer fun _ _ => ⟨rfl, rfl⟩

theorem Single.handle {owner : SocketId → UserId} (hs : s.Single now (s.sent client h)) {request : SyncRequest} :
    (s.handle owner now client request).Single now ((s.handle owner now client request).sent client h) := by
  have hlimited : ∀ (event : String) (rest : SyncGateway → SyncGateway),
      (∀ s, s.Single now (s.sent client h) → (rest s).Single now ((rest s).sent client h)) →
      (s.limited owner now client event rest).Single now ((s.limited owner now client event rest).sent client h) := by
    intro event rest hrest
    have hhit : Single now { s with syncLimiter := s.syncLimiter.hit now (owner client) } (s.sent client h) :=
      hs.of_le (fun _ _ hget => hget) (List.Sublist.refl _) rfl
    unfold limited
    split_ifs
    · exact hrest _ hhit
    · exact Single.emit hhit fun _ => ⟨rfl, rfl⟩
  cases request with
  | deviceSyncStart sessionId ekSource sdpOffer =>
    rw [SyncGateway.handle]
    refine hlimited _ _ fun s hs => ?_
    split_ifs
    · exact hs.suspend_other rfl (fun _ => rfl) fun _ => rfl
    · exact hs.emit fun _ => ⟨rfl, rfl⟩
  | deviceSyncJoin => exact hlimited _ _ fun s hs => hs.suspend_other rfl (fun _ => rfl) fun _ => rfl
  | deviceSyncRelayAnswer | deviceSyncIce | deviceSyncAbort =>
    exact hs.suspend_other rfl (fun _ => rfl) fun _ => rfl

theorem Single.purge (hs : s.Single now h) :
    ({ s with syncSessions := s.syncSessions.purgeExpired now } : SyncGateway).Single now h :=
  SyncSessionService.purge_rule (P := fun store => Single now { s with syncSessions := store } h) hs
    fun _ _ _ hstore => hstore.del

/-- **The step lemma**: one step of any handler, up to its next access to the store. -/
theorem Single.step {owner : SocketId → UserId} (hs : s.Single now h) {input : SyncInput}
    (hinput : s.Enabled owner input) (halone : s.JoinsAlone (now, input)) :
    (s.next owner (now, input)).Single now (s.told owner (now, input) h) := by
  have hquiet : ∀ client, Single now { s with emitted := [] } (sent client h { s with emitted := [] }) := by
    intro client
    rw [sent, List.map_nil, List.append_nil]
    exact hs.of_le (fun _ _ hget => hget) (List.Sublist.refl _) rfl
  cases input with
  | connect socket => exact (hquiet socket).of_le (fun _ _ hget => hget) (List.Sublist.refl _) rfl
  | event socket request => exact (hquiet socket).handle
  | resume j =>
    obtain ⟨job, hget⟩ : ∃ job, s.jobs[j]? = some job := ⟨_, List.getElem?_eq_getElem hinput⟩
    have hrun : (({ s with emitted := [], jobs := s.jobs.eraseIdx j } : SyncGateway).run owner now job).Single now
        ((({ s with emitted := [], jobs := s.jobs.eraseIdx j } : SyncGateway).run owner now job).sent job.client h) :=
      hs.run hget halone
    have hnext : s.next owner (now, .resume j) =
        ({ s with emitted := [], jobs := s.jobs.eraseIdx j } : SyncGateway).run owner now job := by
      rw [next, SyncGateway.step, hget]
      rfl
    have hactor : s.actor (.resume j) = some job.client := by
      rw [actor, hget]
      rfl
    rw [told, hactor, hnext]
    exact hrun
  | disconnect socket =>
    have hleft := (hquiet socket).of_le (t := { s with
      emitted := [], connected := s.connected.filter (· ≠ socket) }) (fun _ _ hget => hget)
      (List.Sublist.refl _) rfl
    exact hleft.suspend_other rfl (fun _ => rfl) fun _ => rfl
  | cleanup =>
    exact hs.purge.of_le (fun _ _ hget => hget) (List.Sublist.refl _) rfl

end

end SyncGateway

/-! ## All runs -/

open SyncGateway in
/-- In every run of the handlers, interleaved at their accesses to the store, in which a join passes
its checks only while no other join of the same session is under way, every session has one target. -/
theorem one_target {backend : Backend} {owner : SocketId → UserId} {start : Time}
    {s : (SyncGateway × SyncHistory) × Time}
    (hs : ((((syncGateway backend owner).restrict JoinsAlone).record [] (told owner)).timed start).Reachable s)
    (n : Nat) : OneTarget s.1.2 n := by
  have hinv : s.1.1.Single s.2 s.1.2 := by
    refine hs.invariant (I := fun s => s.1.1.Single s.2 s.1.2) ?_ fun s e _ h he => ?_
    · have hnames : ∀ {id n}, ¬(SyncGateway.start backend).Names start id n := by
        intro id n hn
        cases hn with
        | record _ h => cases h
        | job _ h => cases h
      exact ⟨fun _ _ hn => absurd hn hnames, fun _ _ => rfl, fun _ _ _ hn => absurd hn hnames,
        fun _ => Nat.zero_le _, fun _ _ hget => (by cases hget), fun _ => rfl⟩
    · exact (h.later he.1).step he.2.1 he.2.2
  exact hinv.oneTarget n

/-- Socket 10 starts a session, and socket 11 joins it. -/
def joined : List (Time × SyncInput) :=
  [.connect 10, .connect 11, .event 10 (.deviceSyncStart SyncGateway.anId none none), .resume 0, .resume 0, .resume 0,
    .event 11 (.deviceSyncJoin SyncGateway.anId []), .resume 0, .resume 0, .resume 0, .resume 0].map (0, ·)

theorem one_target_joined :
    let M := (((syncGateway .memory (· / 10)).restrict SyncGateway.JoinsAlone).record []
      (SyncGateway.told (· / 10))).timed 0
    OneTarget (M.exec M.init joined).1.2 0 := by
  have halone : ∀ {s : SyncGateway} {job : SyncJob}, s.jobs = [job] →
      s.JoinsAlone (0, .resume 0) := by
    intro s job hjobs j client sessionId ekTarget session hj hget _ _ job' hjob'
    cases hj
    rw [hjobs] at hget hjob'
    cases hget
    cases List.mem_singleton.mp hjob'
    exact Bool.false_ne_true
  have hother : ∀ {s : SyncGateway} {input : SyncInput}, (∀ j, input ≠ .resume j) → s.JoinsAlone (0, input) :=
    fun hne j _ _ _ _ hj => absurd hj (hne j)
  refine one_target (Machine.Reachable.init.exec ?_) 0
  refine ⟨⟨by decide, by decide, hother nofun⟩, ⟨by decide, by decide, hother nofun⟩,
    ⟨by decide, by decide, hother nofun⟩, ⟨by decide, by decide, halone rfl⟩,
    ⟨by decide, by decide, halone rfl⟩, ⟨by decide, by decide, halone rfl⟩,
    ⟨by decide, by decide, hother nofun⟩, ⟨by decide, by decide, halone rfl⟩,
    ⟨by decide, by decide, halone rfl⟩, ⟨by decide, by decide, halone rfl⟩,
    ⟨by decide, by decide, halone rfl⟩, trivial⟩

/-- Sockets 11 and 12 both find the session free. -/
def joinedTwice : List (Time × SyncInput) :=
  [.connect 10, .connect 11, .connect 12, .event 10 (.deviceSyncStart SyncGateway.anId none none), .resume 0, .resume 0,
    .resume 0, .event 11 (.deviceSyncJoin SyncGateway.anId []), .event 12 (.deviceSyncJoin SyncGateway.anId []), .resume 0,
    .resume 0, .resume 0, .resume 0, .resume 0, .resume 0, .resume 0, .resume 0].map (0, ·)

/-- The session is offered to both. -/
theorem offered_twice :
    let M := ((syncGateway .memory (· / 10)).record [] (SyncGateway.told (· / 10))).timed 0
    M.Allowed M.init joinedTwice ∧ ¬OneTarget (M.exec M.init joinedTwice).1.2 0 := by
  intro M
  refine ⟨by decide, fun h => ?_⟩
  have hoffers : ∃ x ∈ (M.exec M.init joinedTwice).1.2, ∃ y ∈ (M.exec M.init joinedTwice).1.2,
      x.2.offers 0 ∧ y.2.offers 0 ∧ x.2.target ≠ y.2.target := by decide
  obtain ⟨x, hx, y, hy, hxo, hyo, hne⟩ := hoffers
  exact hne (h.target x hx y hy hxo hyo)

end Vesper.Server
