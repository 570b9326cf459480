import Vesper.Lib.Machine
import Vesper.Server.Gateway

/-!
# Presence

`handleConnection` and `handleDisconnect` as far as they tell who is online, from one query to the next.
An update that is sent takes effect when the database gets to it, and is announced when its answer comes
back. Sockets carry valid tokens, and their numbers are never used again.
-/

namespace Vesper.Server

/-! ## Handlers -/

/-- A handler that waits: `handleConnection` for the memberships and for its update, `handleDisconnect` for
the sync session of the socket, for its deletion and for its update, and either for the answer to an
update that has taken effect. -/
inductive PresenceTask
  | joining (client : SocketId) (userId : UserId)
  | goingOnline (client : SocketId) (userId : UserId)
  | leaving (client : SocketId) (userId : UserId)
  | aborting (client : SocketId) (userId : UserId)
  | goingOffline (userId : UserId)
  | announcing (userId : UserId) (isOnline : Bool)
  deriving DecidableEq, Repr

namespace PresenceTask

/-- The user whose sockets are still to be counted. -/
def checks : PresenceTask → Option UserId
  | joining _ userId => some userId
  | goingOnline .. | leaving .. | aborting .. | goingOffline _ | announcing .. => none

/-- The socket that is still to be removed. -/
def removes : PresenceTask → Option (SocketId × UserId)
  | leaving client userId | aborting client userId => some (client, userId)
  | joining .. | goingOnline .. | goingOffline _ | announcing .. => none

/-- The update that is still to take effect. -/
def writes : PresenceTask → Option (UserId × Bool)
  | goingOnline _ userId => some (userId, true)
  | goingOffline userId => some (userId, false)
  | joining .. | leaving .. | aborting .. | announcing .. => none

/-- The update that is still to be announced. -/
def announces : PresenceTask → Option (UserId × Bool)
  | goingOnline _ userId => some (userId, true)
  | goingOffline userId => some (userId, false)
  | announcing userId isOnline => some (userId, isOnline)
  | joining .. | leaving .. | aborting .. => none

end PresenceTask

/-- `announced` is what `userStatusChanged` last said of a user, and `requested` the last update that was
sent. -/
structure Presence where
  activeUsers : UserId → Option (List SocketId)
  connected : List (SocketId × UserId)
  nextSocket : SocketId
  isOnline : UserId → Bool
  announced : UserId → Option Bool
  requested : UserId → Bool
  tasks : List PresenceTask

/-- How a query ends; `findsSession` is for the lookup of a sync session. -/
inductive Reply
  | succeeds | findsSession | fails
  deriving DecidableEq, Repr

inductive PresenceEvent
  | connect (userId : UserId)
  | disconnect (client : SocketId) (userId : UserId)
  | resume (i : Nat) (reply : Reply)
  deriving DecidableEq, Repr

namespace Presence

def init : Presence := ⟨fun _ => none, [], 0, fun _ => false, fun _ => none, fun _ => false, []⟩

variable (s : Presence)

def members (userId : UserId) : List SocketId := (s.activeUsers userId).getD []

def suspend (t : PresenceTask) : Presence := { s with tasks := s.tasks ++ [t] }

def setActive (userId : UserId) (sockets : Option (List SocketId)) : Presence :=
  { s with activeUsers := Function.update s.activeUsers userId sockets }

/-- Sends an update of `isOnline`. -/
def request (userId : UserId) (isOnline : Bool) (t : PresenceTask) : Presence :=
  { s with requested := Function.update s.requested userId isOnline }.suspend t

def connect (userId : UserId) : Presence :=
  { s.setActive userId (some (s.members userId ++ [s.nextSocket])) with
    connected := s.connected ++ [(s.nextSocket, userId)]
    nextSocket := s.nextSocket + 1 }.suspend (.joining s.nextSocket userId)

/-- The connection of a socket is closed, from either side. -/
def disconnect (client : SocketId) (userId : UserId) : Presence :=
  if (client, userId) ∈ s.connected then
    { s with connected := s.connected.filter (· ≠ (client, userId)) }.suspend (.leaving client userId)
  else s

/-- `handleConnection` after the memberships; without an entry for the user it throws. -/
def check (client : SocketId) (userId : UserId) : Presence :=
  match s.activeUsers userId with
  | none => s.disconnect client userId
  | some sockets => if sockets.length = 1 then s.request userId true (.goingOnline client userId) else s

/-- `handleDisconnect` after the sync session. -/
def leave (client : SocketId) (userId : UserId) : Presence :=
  match s.activeUsers userId with
  | none => s
  | some sockets =>
    let left := sockets.filter (· ≠ client)
    if left = [] then (s.setActive userId none).request userId false (.goingOffline userId)
    else s.setActive userId (some left)

/-- An update takes effect. -/
def update (userId : UserId) (isOnline : Bool) : Presence :=
  { s with isOnline := Function.update s.isOnline userId isOnline }.suspend (.announcing userId isOnline)

/-- `userStatusChanged` -/
def announce (userId : UserId) (isOnline : Bool) : Presence :=
  { s with announced := Function.update s.announced userId (some isOnline) }

/-- An error in `handleConnection` closes the connection, one in `handleDisconnect` is not caught. -/
def run : PresenceTask → Reply → Presence
  | .joining client userId, .succeeds | .joining client userId, .findsSession => s.check client userId
  | .joining client userId, .fails | .goingOnline client userId, .fails => s.disconnect client userId
  | .goingOnline _ userId, .succeeds | .goingOnline _ userId, .findsSession => s.update userId true
  | .leaving client userId, .succeeds => s.leave client userId
  | .leaving client userId, .findsSession => s.suspend (.aborting client userId)
  | .aborting client userId, .succeeds | .aborting client userId, .findsSession => s.leave client userId
  | .goingOffline userId, .succeeds | .goingOffline userId, .findsSession => s.update userId false
  | .announcing userId isOnline, _ => s.announce userId isOnline
  | .leaving .., .fails | .aborting .., .fails | .goingOffline _, .fails => s

/-- The handler at `i` has gone on. -/
def drop (i : Nat) : Presence := { s with tasks := s.tasks.eraseIdx i }

def step : PresenceEvent → Presence
  | .connect userId => s.connect userId
  | .disconnect client userId => s.disconnect client userId
  | .resume i reply =>
    match s.tasks[i]? with
    | none => s
    | some t => (s.run t reply).drop i

end Presence

def presence : Machine Presence PresenceEvent where
  init := .init
  enabled _ _ := True
  next := Presence.step

namespace Presence
variable (s : Presence)

/-- The user is online if and only if a socket is connected, and was last announced as such; a user who
was never announced counts as offline. -/
def Accurate (userId : UserId) : Prop :=
  (s.isOnline userId = true ↔ ∃ client, (client, userId) ∈ s.connected) ∧
    (s.announced userId).getD false = s.isOnline userId

/-! ## Orderly steps -/

/-- The last update of the user that was sent has taken effect, or is still to. -/
def Written (tasks : List PresenceTask) (userId : UserId) : Prop :=
  s.isOnline userId = s.requested userId ∨ ∃ t ∈ tasks, t.writes = some (userId, s.requested userId)

/-- It has been announced, or is still to be. -/
def Announced (tasks : List PresenceTask) (userId : UserId) : Prop :=
  (s.announced userId).getD false = s.requested userId ∨
    ∃ t ∈ tasks, t.announces = some (userId, s.requested userId)

/-- The user was set online, or the sockets are still to be counted. -/
def Asked (tasks : List PresenceTask) (userId : UserId) : Prop :=
  s.requested userId = true ∨ ∃ t ∈ tasks, t.checks = some userId

/-- What a handler that goes on must find; `others` are the ones that wait besides it. -/
def OrderlyRun (others : List PresenceTask) : PresenceTask → Reply → Prop
  | .joining client userId, .fails =>
    (∃ entry ∈ s.connected, entry.2 = userId ∧ entry.1 ≠ client) → s.Asked others userId
  | .joining _ userId, .succeeds | .joining _ userId, .findsSession =>
    (s.members userId).length ≠ 1 → (∃ entry ∈ s.connected, entry.2 = userId) → s.Asked others userId
  | .goingOnline _ userId, .fails | .goingOffline userId, .fails =>
    s.Written others userId ∧ s.Announced others userId
  | .goingOnline _ userId, .succeeds | .goingOnline _ userId, .findsSession =>
    s.requested userId = true ∨ ∃ t ∈ others, t.writes = some (userId, s.requested userId)
  | .goingOffline userId, .succeeds | .goingOffline userId, .findsSession =>
    s.requested userId = false ∨ ∃ t ∈ others, t.writes = some (userId, s.requested userId)
  | .announcing userId isOnline, _ =>
    isOnline = s.requested userId ∨ ∃ t ∈ others, t.announces = some (userId, s.requested userId)
  | .leaving .., .fails | .aborting .., .fails => False
  | .leaving .., .succeeds | .leaving .., .findsSession | .aborting .., .succeeds
  | .aborting .., .findsSession => True

def Orderly : PresenceEvent → Prop
  | .resume i reply => ∀ t ∈ s.tasks[i]?, s.OrderlyRun (s.tasks.eraseIdx i) t reply
  | .connect _ | .disconnect .. => True

instance {tasks : List PresenceTask} {userId : UserId} : Decidable (s.Asked tasks userId) :=
  inferInstanceAs (Decidable (_ ∨ _))

instance {others : List PresenceTask} : (t : PresenceTask) → (reply : Reply) →
    Decidable (s.OrderlyRun others t reply)
  | .joining client userId, .fails =>
    inferInstanceAs (Decidable ((∃ entry ∈ s.connected, entry.2 = userId ∧ entry.1 ≠ client) →
      s.Asked others userId))
  | .joining _ userId, .succeeds | .joining _ userId, .findsSession =>
    inferInstanceAs (Decidable ((s.members userId).length ≠ 1 →
      (∃ entry ∈ s.connected, entry.2 = userId) → s.Asked others userId))
  | .goingOnline .., .fails | .goingOffline _, .fails => inferInstanceAs (Decidable ((_ ∨ _) ∧ (_ ∨ _)))
  | .goingOnline .., .succeeds | .goingOnline .., .findsSession | .goingOffline _, .succeeds
  | .goingOffline _, .findsSession | .announcing .., _ => inferInstanceAs (Decidable (_ ∨ _))
  | .leaving .., .fails | .aborting .., .fails => .isFalse id
  | .leaving .., .succeeds | .leaving .., .findsSession | .aborting .., .succeeds
  | .aborting .., .findsSession => .isTrue trivial

instance : (e : PresenceEvent) → Decidable (s.Orderly e)
  | .resume .. => inferInstanceAs (Decidable (∀ t ∈ _, _))
  | .connect _ | .disconnect .. => .isTrue trivial

instance {e : PresenceEvent} : Decidable ((presence.restrict Orderly).enabled s e) :=
  inferInstanceAs (Decidable (True ∧ s.Orderly e))

/-- The entries of `activeUsers` are the sockets that are connected or still to be removed, and every
transition was asked for, written and announced or is still to be. -/
structure Sound : Prop where
  known : ∀ entry ∈ s.connected, entry.1 < s.nextSocket
  gone : ∀ t ∈ s.tasks, ∀ entry ∈ t.removes, entry.1 < s.nextSocket ∧ entry ∉ s.connected
  held : ∀ userId, ∀ client ∈ s.members userId,
    (client, userId) ∈ s.connected ∨ ∃ t ∈ s.tasks, t.removes = some (client, userId)
  here : ∀ entry ∈ s.connected, entry.1 ∈ s.members entry.2
  filled : ∀ userId, s.requested userId = true → s.members userId ≠ []
  asked : ∀ userId, (∃ client, (client, userId) ∈ s.connected) → s.Asked s.tasks userId
  written : ∀ userId, s.Written s.tasks userId
  announced : ∀ userId, s.Announced s.tasks userId

/-- Nothing depends on what the handler was still to do. -/
structure Spared (others : List PresenceTask) (t : PresenceTask) : Prop where
  removes : ∀ entry ∈ t.removes, entry.1 ∈ s.members entry.2 → ∃ t' ∈ others, t'.removes = some entry
  checks : ∀ userId ∈ t.checks, (∃ client, (client, userId) ∈ s.connected) → s.Asked others userId
  writes : ∀ entry ∈ t.writes, s.Written others entry.1
  announces : ∀ entry ∈ t.announces, s.Announced others entry.1

end Presence

section
variable {s : Presence} {t : PresenceTask} {userId : UserId} {client : SocketId} {i : Nat}

/-- A handler that waits is the one at `i` or one of the others. -/
theorem exists_waiting {P : PresenceTask → Prop} {tasks : List PresenceTask} (hi : tasks[i]? = some t)
    (h : ∃ t' ∈ tasks, P t') : P t ∨ ∃ t' ∈ tasks.eraseIdx i, P t' := by
  obtain ⟨t', ht', hP⟩ := h
  obtain ⟨j, hj⟩ := List.mem_iff_getElem?.mp ht'
  by_cases hij : j = i
  · rw [hij, hi] at hj
    exact .inl (Option.some.inj hj ▸ hP)
  · exact .inr ⟨t', List.mem_eraseIdx_iff_getElem?.mpr ⟨j, hij, hj⟩, hP⟩

namespace Presence

theorem members_setActive {sockets : Option (List SocketId)} :
    (s.setActive userId sockets).members =
      Function.update s.members userId (sockets.getD []) := by
  funext u
  obtain rfl | hu := eq_or_ne u userId
  · simp [members, setActive]
  · simp [members, setActive, hu]

theorem Written.mono {tasks tasks' : List PresenceTask} (h : s.Written tasks userId) (hsub : tasks ⊆ tasks') :
    s.Written tasks' userId := h.imp_right fun ⟨t, ht, hwrites⟩ => ⟨t, hsub ht, hwrites⟩

theorem Announced.mono {tasks tasks' : List PresenceTask} (h : s.Announced tasks userId)
    (hsub : tasks ⊆ tasks') : s.Announced tasks' userId :=
  h.imp_right fun ⟨t, ht, hannounces⟩ => ⟨t, hsub ht, hannounces⟩

theorem Asked.mono {tasks tasks' : List PresenceTask} (h : s.Asked tasks userId) (hsub : tasks ⊆ tasks') :
    s.Asked tasks' userId := h.imp_right fun ⟨t, ht, hchecks⟩ => ⟨t, hsub ht, hchecks⟩

theorem mem_disconnect {entry : SocketId × UserId} (h : entry ∈ (s.disconnect client userId).connected) :
    entry ∈ s.connected ∧ entry ≠ (client, userId) := by
  unfold disconnect at h
  split at h
  · obtain ⟨hmem, hne⟩ := List.mem_filter.mp h
    exact ⟨hmem, of_decide_eq_true hne⟩
  · rename_i hnot
    exact ⟨h, fun heq => hnot (heq ▸ h)⟩

namespace Sound

theorem init : Presence.init.Sound where
  known := List.forall_mem_nil _
  gone := List.forall_mem_nil _
  held _ := List.forall_mem_nil _
  here := List.forall_mem_nil _
  filled _ h := nomatch h
  asked _ h := nomatch h
  written _ := .inl rfl
  announced _ := .inl rfl

/-- At rest everything that was asked for has been done. -/
theorem accurate (hs : s.Sound) (hrest : s.tasks = []) (userId : UserId) : s.Accurate userId := by
  have hdone : s.isOnline userId = s.requested userId := by
    obtain hdone | ⟨t, ht, -⟩ := hs.written userId
    · exact hdone
    · exact nomatch hrest ▸ ht
  have hannounced : (s.announced userId).getD false = s.requested userId := by
    obtain hdone | ⟨t, ht, -⟩ := hs.announced userId
    · exact hdone
    · exact nomatch hrest ▸ ht
  refine ⟨⟨fun honline => ?_, fun hconnected => ?_⟩, hannounced.trans hdone.symm⟩
  · have hmembers := hs.filled userId (hdone ▸ honline)
    obtain ⟨client, hclient⟩ := List.exists_mem_of_ne_nil _ hmembers
    obtain hconnected | ⟨t, ht, -⟩ := hs.held userId client hclient
    · exact ⟨client, hconnected⟩
    · exact nomatch hrest ▸ ht
  · obtain honline | ⟨t, ht, -⟩ := hs.asked userId hconnected
    · exact hdone.trans honline
    · exact nomatch hrest ▸ ht

/-! ## What the handlers do -/

theorem suspend (hs : s.Sound)
    (ht : ∀ entry ∈ t.removes, entry.1 < s.nextSocket ∧ entry ∉ s.connected) : (s.suspend t).Sound where
  known := hs.known
  gone t' ht' := by
    obtain ht' | ht' := List.mem_append.mp ht'
    · exact hs.gone t' ht'
    · rwa [List.mem_singleton.mp ht']
  held u c hc := (hs.held u c hc).imp_right fun ⟨t', ht', hremoves⟩ =>
    ⟨t', List.mem_append_left [t] ht', hremoves⟩
  here := hs.here
  filled := hs.filled
  asked u hu := (hs.asked u hu).mono (List.subset_append_left ..)
  written u := (hs.written u).mono (List.subset_append_left ..)
  announced u := (hs.announced u).mono (List.subset_append_left ..)

theorem connect (hs : s.Sound) (userId : UserId) : (s.connect userId).Sound := by
  have hmembers : (s.connect userId).members =
      Function.update s.members userId (s.members userId ++ [s.nextSocket]) := members_setActive
  have hstays : ∀ u, s.members u ⊆ (s.connect userId).members u := by
    intro u c hc
    rw [hmembers]
    obtain rfl | hu := eq_or_ne u userId
    · rw [Function.update_self]
      exact List.mem_append_left _ hc
    · rwa [Function.update_of_ne hu]
  have htasks : s.tasks ⊆ (s.connect userId).tasks := List.subset_append_left ..
  refine ⟨fun entry hentry => ?_, fun t ht entry hentry => ?_, fun u c hc => ?_, fun entry hentry => ?_,
    fun u hu hnil => ?_, fun u hu => ?_, fun u => (hs.written u).mono htasks,
    fun u => (hs.announced u).mono htasks⟩
  · obtain hentry | hentry := List.mem_append.mp hentry
    · exact Nat.lt_succ_of_lt (hs.known entry hentry)
    · rw [List.mem_singleton.mp hentry]
      exact Nat.lt_succ_self s.nextSocket
  · obtain ht | ht := List.mem_append.mp ht
    · obtain ⟨hlt, hnot⟩ := hs.gone t ht entry hentry
      refine ⟨Nat.lt_succ_of_lt hlt, fun hconnected => ?_⟩
      obtain hconnected | hnew := List.mem_append.mp hconnected
      · exact hnot hconnected
      · rw [List.mem_singleton.mp hnew] at hlt
        exact Nat.lt_irrefl s.nextSocket hlt
    · rw [List.mem_singleton.mp ht] at hentry
      exact nomatch hentry
  · rw [hmembers] at hc
    have hold : c ∈ s.members u ∨ (c, u) = (s.nextSocket, userId) := by
      obtain rfl | hu := eq_or_ne u userId
      · rw [Function.update_self] at hc
        obtain hc | hc := List.mem_append.mp hc
        · exact .inl hc
        · exact .inr (by rw [List.mem_singleton.mp hc])
      · rw [Function.update_of_ne hu] at hc
        exact .inl hc
    obtain hc | hnew := hold
    · obtain hconnected | ⟨t, ht, hremoves⟩ := hs.held u c hc
      · exact .inl (List.mem_append_left _ hconnected)
      · exact .inr ⟨t, htasks ht, hremoves⟩
    · rw [hnew]
      exact .inl (List.mem_append_right _ (List.mem_singleton_self _))
  · obtain hentry | hentry := List.mem_append.mp hentry
    · exact hstays _ (hs.here entry hentry)
    · rw [List.mem_singleton.mp hentry, hmembers, Function.update_self]
      exact List.mem_append_right _ (List.mem_singleton_self s.nextSocket)
  · obtain ⟨c, hc⟩ := List.exists_mem_of_ne_nil _ (hs.filled u hu)
    exact List.ne_nil_of_mem (hstays u hc) hnil
  · obtain rfl | hne := eq_or_ne u userId
    · exact .inr ⟨_, List.mem_append_right _ (List.mem_singleton_self _), rfl⟩
    · refine (hs.asked u ?_).mono htasks
      obtain ⟨c, hc⟩ := hu
      obtain hc | hc := List.mem_append.mp hc
      · exact ⟨c, hc⟩
      · exact absurd (congrArg Prod.snd (List.mem_singleton.mp hc)) hne

theorem disconnect (hs : s.Sound) (client : SocketId) (userId : UserId) :
    (s.disconnect client userId).Sound := by
  by_cases hclient : (client, userId) ∈ s.connected
  · have hrun : s.disconnect client userId =
        { s with connected := s.connected.filter (· ≠ (client, userId)) }.suspend (.leaving client userId) :=
      if_pos hclient
    have hless : ∀ entry ∈ (s.disconnect client userId).connected, entry ∈ s.connected :=
      fun entry hentry => (mem_disconnect hentry).1
    rw [hrun] at hless ⊢
    have htasks : s.tasks ⊆ s.tasks ++ [.leaving client userId] := List.subset_append_left ..
    refine ⟨fun entry hentry => hs.known entry (hless entry hentry), fun t ht entry hentry => ?_,
      fun u c hc => ?_, fun entry hentry => hs.here entry (hless entry hentry), hs.filled,
      fun u ⟨c, hc⟩ => (hs.asked u ⟨c, hless _ hc⟩).mono htasks, fun u => (hs.written u).mono htasks,
      fun u => (hs.announced u).mono htasks⟩
    · obtain ht | ht := List.mem_append.mp ht
      · obtain ⟨hlt, hnot⟩ := hs.gone t ht entry hentry
        exact ⟨hlt, fun hconnected => hnot (hless entry hconnected)⟩
      · rw [List.mem_singleton.mp ht] at hentry
        obtain rfl : (client, userId) = entry := Option.some.inj hentry
        exact ⟨hs.known _ hclient, fun hconnected => by simpa using (List.mem_filter.mp hconnected).2⟩
    · obtain hconnected | ⟨t, ht, hremoves⟩ := hs.held u c hc
      · by_cases hself : (c, u) = (client, userId)
        · exact .inr ⟨_, List.mem_append_right _ (List.mem_singleton_self _), congrArg some hself.symm⟩
        · exact .inl (List.mem_filter.mpr ⟨hconnected, decide_eq_true hself⟩)
      · exact .inr ⟨t, htasks ht, hremoves⟩
  · have hrun : s.disconnect client userId = s := if_neg hclient
    rwa [hrun]

theorem setActive (hs : s.Sound) (sockets : Option (List SocketId))
    (hsub : sockets.getD [] ⊆ s.members userId)
    (hhere : ∀ c, (c, userId) ∈ s.connected → c ∈ sockets.getD [])
    (hfilled : s.requested userId = true → sockets.getD [] ≠ []) : (s.setActive userId sockets).Sound := by
  refine { hs with held := fun u c hc => ?_, here := fun entry hentry => ?_, filled := fun u hu => ?_ }
  · rw [members_setActive] at hc
    obtain rfl | hne := eq_or_ne u userId
    · rw [Function.update_self] at hc
      exact hs.held u c (hsub hc)
    · rw [Function.update_of_ne hne] at hc
      exact hs.held u c hc
  · rw [members_setActive]
    obtain ⟨c, u⟩ := entry
    obtain rfl | hne := eq_or_ne u userId
    · rw [Function.update_self]
      exact hhere c hentry
    · rw [Function.update_of_ne hne]
      exact hs.here (c, u) hentry
  · rw [members_setActive]
    obtain rfl | hne := eq_or_ne u userId
    · rw [Function.update_self]
      exact hfilled hu
    · rw [Function.update_of_ne hne]
      exact hs.filled u hu

/-- An update is sent, by a handler that then waits for it. -/
theorem request (hs : s.Sound) {isOnline : Bool} (hremoves : t.removes = none)
    (hwrites : t.writes = some (userId, isOnline)) (hannounces : t.announces = some (userId, isOnline))
    (hfilled : isOnline = true → s.members userId ≠ [])
    (hasked : isOnline = false → ∀ c, (c, userId) ∉ s.connected) :
    (s.request userId isOnline t).Sound := by
  have hlast : t ∈ (s.request userId isOnline t).tasks :=
    List.mem_append_right _ (List.mem_singleton_self t)
  have htasks : s.tasks ⊆ (s.request userId isOnline t).tasks := List.subset_append_left ..
  have hself : (s.request userId isOnline t).requested userId = isOnline := Function.update_self ..
  have hother : ∀ {u}, u ≠ userId → (s.request userId isOnline t).requested u = s.requested u :=
    fun hu => Function.update_of_ne hu ..
  refine ⟨hs.known, fun t' ht' entry hentry => ?_, fun u c hc => ?_, hs.here, fun u hu => ?_, fun u hu => ?_,
    fun u => ?_, fun u => ?_⟩
  · obtain ht' | ht' := List.mem_append.mp ht'
    · exact hs.gone t' ht' entry hentry
    · rw [List.mem_singleton.mp ht', hremoves] at hentry
      exact nomatch hentry
  · exact (hs.held u c hc).imp_right fun ⟨t', ht', h⟩ => ⟨t', htasks ht', h⟩
  · obtain rfl | hne := eq_or_ne u userId
    · exact hfilled (hself.symm.trans hu)
    · exact hs.filled u ((hother hne).symm.trans hu)
  · obtain rfl | hne := eq_or_ne u userId
    · obtain ⟨c, hc⟩ := hu
      cases isOnline with
      | true => exact .inl hself
      | false => exact absurd hc (hasked rfl c)
    · rw [Asked, hother hne]
      exact (hs.asked u hu).mono htasks
  · obtain rfl | hne := eq_or_ne u userId
    · exact .inr ⟨t, hlast, by rw [hself, hwrites]⟩
    · rw [Written, hother hne]
      exact (hs.written u).mono htasks
  · obtain rfl | hne := eq_or_ne u userId
    · exact .inr ⟨t, hlast, by rw [hself, hannounces]⟩
    · rw [Announced, hother hne]
      exact (hs.announced u).mono htasks

theorem update (hs : s.Sound) {isOnline : Bool}
    (hlast : isOnline = s.requested userId ∨ ∃ t ∈ s.tasks, t.writes = some (userId, s.requested userId)) :
    (s.update userId isOnline).Sound := by
  have hsuspended := hs.suspend (t := .announcing userId isOnline) nofun
  refine { hsuspended with written := fun u => ?_ }
  obtain rfl | hne := eq_or_ne u userId
  · obtain heq | ⟨t, ht, hwrites⟩ := hlast
    · exact .inl ((Function.update_self ..).trans heq)
    · exact .inr ⟨t, List.mem_append_left _ ht, hwrites⟩
  · have hother : (s.update userId isOnline).isOnline u = s.isOnline u := Function.update_of_ne hne ..
    rw [Written, hother]
    exact (hs.written u).mono (List.subset_append_left ..)

theorem announce (hs : s.Sound) {isOnline : Bool}
    (hlast : isOnline = s.requested userId ∨
      ∃ t ∈ s.tasks, t.announces = some (userId, s.requested userId)) :
    (s.announce userId isOnline).Sound := by
  refine { hs with announced := fun u => ?_ }
  obtain rfl | hne := eq_or_ne u userId
  · have hself : (s.announce u isOnline).announced u = some isOnline := Function.update_self ..
    rw [Announced, hself]
    exact hlast
  · have hother : (s.announce userId isOnline).announced u = s.announced u := Function.update_of_ne hne ..
    rw [Announced, hother]
    exact hs.announced u

theorem check (hs : s.Sound) (client : SocketId) (userId : UserId) : (s.check client userId).Sound := by
  unfold Presence.check
  split
  · exact hs.disconnect client userId
  · rename_i sockets hsockets
    split
    · rename_i hone
      refine hs.request rfl rfl rfl (fun _ hnil => ?_) nofun
      have hmembers : s.members userId = sockets := congrArg (·.getD []) hsockets
      rw [← hmembers, hnil] at hone
      exact nomatch hone
    · exact hs

/-- The socket is closed, so that only its entry goes. -/
theorem leave (hs : s.Sound) (hgone : (client, userId) ∉ s.connected) : (s.leave client userId).Sound := by
  unfold Presence.leave
  split
  · exact hs
  · rename_i sockets hsockets
    have hmembers : s.members userId = sockets := congrArg (·.getD []) hsockets
    have hleft : ∀ c, (c, userId) ∈ s.connected → c ∈ sockets.filter (· ≠ client) := by
      intro c hc
      refine List.mem_filter.mpr ⟨hmembers ▸ hs.here _ hc, decide_eq_true fun heq => ?_⟩
      exact hgone (heq ▸ hc)
    dsimp only
    split
    · rename_i hnil
      have hnone : ∀ c, (c, userId) ∉ s.connected := fun c hc => List.not_mem_nil (hnil ▸ hleft c hc)
      have hrequested := hs.request (t := .goingOffline userId) rfl rfl rfl nofun fun _ => hnone
      refine hrequested.setActive none (List.nil_subset _) (fun c hc => absurd hc (hnone c)) ?_
      exact fun honline => nomatch (Function.update_self ..).symm.trans honline
    · rename_i hsome
      refine hs.setActive (some (sockets.filter (· ≠ client))) ?_ hleft fun _ => hsome
      rw [hmembers]
      exact List.filter_subset_self ..

/-- A handler that waited is dropped once nothing depends on it. -/
theorem drop (hs : s.Sound) (hi : s.tasks[i]? = some t) (ht : s.Spared (s.tasks.eraseIdx i) t) :
    (s.drop i).Sound where
  known := hs.known
  gone t' ht' := hs.gone t' (List.mem_of_mem_eraseIdx ht')
  held u c hc := by
    obtain hconnected | hwaits := hs.held u c hc
    · exact .inl hconnected
    · obtain hremoves | hothers := exists_waiting hi hwaits
      · exact .inr (ht.removes (c, u) hremoves hc)
      · exact .inr hothers
  here := hs.here
  filled := hs.filled
  asked u hu := by
    obtain honline | hwaits := hs.asked u hu
    · exact .inl honline
    · obtain hchecks | hothers := exists_waiting hi hwaits
      · exact ht.checks u hchecks hu
      · exact .inr hothers
  written u := by
    obtain hdone | hwaits := hs.written u
    · exact .inl hdone
    · obtain hwrites | hothers := exists_waiting hi hwaits
      · exact ht.writes _ hwrites
      · exact .inr hothers
  announced u := by
    obtain hdone | hwaits := hs.announced u
    · exact .inl hdone
    · obtain hannounces | hothers := exists_waiting hi hwaits
      · exact ht.announces _ hannounces
      · exact .inr hothers

/-- The same for a handler that has gone on to wait again, or not at all. -/
theorem goneOn {s' : Presence} {new : List PresenceTask} (hs : s'.Sound) (htasks : s'.tasks = s.tasks ++ new)
    (hi : s.tasks[i]? = some t) (ht : s'.Spared (s.tasks.eraseIdx i ++ new) t) : (s'.drop i).Sound := by
  obtain ⟨hlt, -⟩ := List.getElem?_eq_some_iff.mp hi
  have hi' : s'.tasks[i]? = some t := by rwa [htasks, List.getElem?_append_left hlt]
  refine hs.drop hi' ?_
  rwa [htasks, List.eraseIdx_append_of_lt_length hlt]

end Sound

/-! ## Handlers that go on -/

theorem written_disconnect {tasks : List PresenceTask} {u : UserId} (h : s.Written tasks u) :
    (s.disconnect client userId).Written tasks u := by
  unfold disconnect
  split <;> exact h

theorem announced_disconnect {tasks : List PresenceTask} {u : UserId} (h : s.Announced tasks u) :
    (s.disconnect client userId).Announced tasks u := by
  unfold disconnect
  split <;> exact h

theorem asked_disconnect {tasks : List PresenceTask} {u : UserId} (h : s.Asked tasks u) :
    (s.disconnect client userId).Asked tasks u := by
  unfold disconnect
  split <;> exact h

theorem asked_check (hs : s.Sound) {tasks : List PresenceTask}
    (h : (s.members userId).length ≠ 1 → (∃ entry ∈ s.connected, entry.2 = userId) → s.Asked tasks userId)
    (hconnected : ∃ c, (c, userId) ∈ (s.check client userId).connected) :
    (s.check client userId).Asked tasks userId := by
  unfold check at hconnected ⊢
  split at hconnected
  · rename_i hnone
    obtain ⟨c, hc⟩ := hconnected
    have hmember : c ∈ s.members userId := hs.here _ (mem_disconnect hc).1
    rw [members, hnone] at hmember
    exact absurd hmember List.not_mem_nil
  · rename_i sockets hsockets
    split at hconnected
    · rename_i hone
      rw [if_pos hone]
      exact .inl (Function.update_self ..)
    · rename_i hmore
      rw [if_neg hmore]
      have hmembers : s.members userId = sockets := congrArg (·.getD []) hsockets
      obtain ⟨c, hc⟩ := hconnected
      exact h (hmembers ▸ hmore) ⟨_, hc, rfl⟩

theorem left_leave : client ∉ (s.leave client userId).members userId := by
  unfold leave
  split
  · rename_i hnone
    rw [members, hnone]
    exact List.not_mem_nil
  · dsimp only
    split
    · show client ∉ (s.setActive userId none).members userId
      rw [members_setActive, Function.update_self]
      exact List.not_mem_nil
    · rw [members_setActive, Function.update_self]
      exact fun hmem => of_decide_eq_true (List.mem_filter.mp hmem).2 rfl

theorem disconnect_tasks (s : Presence) (client : SocketId) (userId : UserId) :
    ∃ new, (s.disconnect client userId).tasks = s.tasks ++ new := by
  unfold disconnect
  split
  · exact ⟨_, rfl⟩
  · exact ⟨[], (List.append_nil _).symm⟩

theorem check_tasks (s : Presence) (client : SocketId) (userId : UserId) :
    ∃ new, (s.check client userId).tasks = s.tasks ++ new := by
  unfold check
  split
  · exact disconnect_tasks s client userId
  · split
    · exact ⟨_, rfl⟩
    · exact ⟨[], (List.append_nil _).symm⟩

theorem leave_tasks (s : Presence) (client : SocketId) (userId : UserId) :
    ∃ new, (s.leave client userId).tasks = s.tasks ++ new := by
  unfold leave
  split
  · exact ⟨[], (List.append_nil _).symm⟩
  · dsimp only
    split
    · exact ⟨_, rfl⟩
    · exact ⟨[], (List.append_nil _).symm⟩

namespace Sound

theorem drop_disconnect (hs : s.Sound) (hi : s.tasks[i]? = some t) (hremoves : t.removes = none)
    (hchecks : ∀ u ∈ t.checks, (∃ c, (c, u) ∈ (s.disconnect client userId).connected) →
      s.Asked (s.tasks.eraseIdx i) u)
    (hwrites : ∀ entry ∈ t.writes, s.Written (s.tasks.eraseIdx i) entry.1)
    (hannounces : ∀ entry ∈ t.announces, s.Announced (s.tasks.eraseIdx i) entry.1) :
    ((s.disconnect client userId).drop i).Sound := by
  obtain ⟨new, htasks⟩ := disconnect_tasks s client userId
  have hsub : s.tasks.eraseIdx i ⊆ s.tasks.eraseIdx i ++ new := List.subset_append_left ..
  refine (hs.disconnect client userId).goneOn htasks hi ⟨?_, fun u hu hc => ?_, fun entry h => ?_,
    fun entry h => ?_⟩
  · rw [hremoves]
    exact nofun
  · exact asked_disconnect ((hchecks u hu hc).mono hsub)
  · exact written_disconnect ((hwrites entry h).mono hsub)
  · exact announced_disconnect ((hannounces entry h).mono hsub)

theorem drop_check (hs : s.Sound) (hi : s.tasks[i]? = some (.joining client userId))
    (horderly : (s.members userId).length ≠ 1 → (∃ entry ∈ s.connected, entry.2 = userId) →
      s.Asked (s.tasks.eraseIdx i) userId) : ((s.check client userId).drop i).Sound := by
  obtain ⟨new, htasks⟩ := check_tasks s client userId
  refine (hs.check client userId).goneOn htasks hi ⟨nofun, fun u hu hc => ?_, nofun, nofun⟩
  obtain rfl : userId = u := Option.some.inj hu
  exact (asked_check hs horderly hc).mono (List.subset_append_left ..)

theorem drop_leave (hs : s.Sound) (hi : s.tasks[i]? = some t) (hremoves : t.removes = some (client, userId))
    (hchecks : t.checks = none) (hwrites : t.writes = none) (hannounces : t.announces = none) :
    ((s.leave client userId).drop i).Sound := by
  obtain ⟨new, htasks⟩ := leave_tasks s client userId
  have hgone := (hs.gone t (List.mem_of_getElem? hi) _ hremoves).2
  refine (hs.leave hgone).goneOn htasks hi ⟨fun entry hentry hmem => ?_, ?_, ?_, ?_⟩
  · obtain rfl : (client, userId) = entry := Option.some.inj (hremoves.symm.trans hentry)
    exact absurd hmem left_leave
  · rw [hchecks]
    exact nofun
  · rw [hwrites]
    exact nofun
  · rw [hannounces]
    exact nofun

theorem drop_update (hs : s.Sound) {isOnline : Bool} (hi : s.tasks[i]? = some t)
    (hremoves : t.removes = none) (hchecks : t.checks = none) (hwrites : t.writes = some (userId, isOnline))
    (hannounces : t.announces = some (userId, isOnline))
    (hlast : isOnline = s.requested userId ∨
      ∃ t' ∈ s.tasks.eraseIdx i, t'.writes = some (userId, s.requested userId)) :
    ((s.update userId isOnline).drop i).Sound := by
  have hself : (s.update userId isOnline).isOnline userId = isOnline := Function.update_self ..
  have hupdated : (s.update userId isOnline).Sound := hs.update (hlast.imp_right
    fun ⟨t', ht', h⟩ => ⟨t', List.mem_of_mem_eraseIdx ht', h⟩)
  refine hupdated.goneOn rfl hi ⟨?_, ?_, fun entry hentry => ?_, fun entry hentry => ?_⟩
  · rw [hremoves]
    exact nofun
  · rw [hchecks]
    exact nofun
  · obtain rfl : (userId, isOnline) = entry := Option.some.inj (hwrites.symm.trans hentry)
    have hothers : (s.update userId isOnline).Written (s.tasks.eraseIdx i) userId :=
      hlast.imp_left hself.trans
    exact hothers.mono (List.subset_append_left ..)
  · obtain rfl : (userId, isOnline) = entry := Option.some.inj (hannounces.symm.trans hentry)
    by_cases heq : isOnline = s.requested userId
    · exact .inr ⟨_, List.mem_append_right _ (List.mem_singleton_self _), congrArg _ (congrArg _ heq)⟩
    · have hothers : s.Announced (s.tasks.eraseIdx i) userId := by
        obtain hdone | hwaits := hs.announced userId
        · exact .inl hdone
        · obtain hlater | hothers := exists_waiting hi hwaits
          · exact absurd (congrArg Prod.snd (Option.some.inj (hannounces.symm.trans hlater))) heq
          · exact .inr hothers
      exact hothers.mono (List.subset_append_left ..)

/-- A handler that goes on in an orderly way keeps the server sound. -/
theorem run (hs : s.Sound) {reply : Reply} (hi : s.tasks[i]? = some t)
    (horderly : s.OrderlyRun (s.tasks.eraseIdx i) t reply) : ((s.run t reply).drop i).Sound := by
  cases t with
  | joining client userId =>
    cases reply with
    | succeeds | findsSession => exact hs.drop_check hi horderly
    | fails =>
      refine hs.drop_disconnect hi rfl (fun u hu ⟨c, hc⟩ => ?_) nofun nofun
      obtain rfl : userId = u := Option.some.inj hu
      obtain ⟨hc, hne⟩ := mem_disconnect hc
      exact horderly ⟨_, hc, rfl, fun heq => hne (congrArg (·, userId) heq)⟩
  | goingOnline client userId =>
    cases reply with
    | succeeds | findsSession => exact hs.drop_update hi rfl rfl rfl rfl (horderly.imp_left Eq.symm)
    | fails =>
      refine hs.drop_disconnect hi rfl nofun (fun entry h => ?_) fun entry h => ?_
      · obtain rfl : (userId, true) = entry := Option.some.inj h
        exact horderly.1
      · obtain rfl : (userId, true) = entry := Option.some.inj h
        exact horderly.2
  | leaving client userId =>
    cases reply with
    | succeeds => exact hs.drop_leave hi rfl rfl rfl rfl
    | findsSession =>
      have haborting : (s.suspend (.aborting client userId)).Sound :=
        hs.suspend fun entry hentry => hs.gone _ (List.mem_of_getElem? hi) entry hentry
      refine haborting.goneOn rfl hi ⟨fun entry hentry _ => ?_, nofun, nofun, nofun⟩
      exact ⟨_, List.mem_append_right _ (List.mem_singleton_self _), hentry⟩
    | fails => exact horderly.elim
  | aborting client userId =>
    cases reply with
    | succeeds | findsSession => exact hs.drop_leave hi rfl rfl rfl rfl
    | fails => exact horderly.elim
  | goingOffline userId =>
    cases reply with
    | succeeds | findsSession => exact hs.drop_update hi rfl rfl rfl rfl (horderly.imp_left Eq.symm)
    | fails =>
      refine hs.drop hi ⟨nofun, nofun, fun entry h => ?_, fun entry h => ?_⟩
      · obtain rfl : (userId, false) = entry := Option.some.inj h
        exact horderly.1
      · obtain rfl : (userId, false) = entry := Option.some.inj h
        exact horderly.2
  | announcing userId isOnline =>
    have hself : (s.announce userId isOnline).announced userId = some isOnline := Function.update_self ..
    have hannounced : (s.announce userId isOnline).Sound := hs.announce (horderly.imp_right
      fun ⟨t', ht', h⟩ => ⟨t', List.mem_of_mem_eraseIdx ht', h⟩)
    refine hannounced.drop hi ⟨nofun, nofun, nofun, fun entry h => ?_⟩
    obtain rfl : (userId, isOnline) = entry := Option.some.inj h
    refine horderly.imp_left fun heq => ?_
    rw [hself]
    exact heq

/-- **The step lemma** -/
theorem step (hs : s.Sound) {e : PresenceEvent} (he : s.Orderly e) : (s.step e).Sound := by
  cases e with
  | connect userId => exact hs.connect userId
  | disconnect client userId => exact hs.disconnect client userId
  | resume i reply =>
    cases hi : s.tasks[i]? with
    | none =>
      simp only [Presence.step, hi]
      exact hs
    | some t =>
      simp only [Presence.step, hi]
      exact hs.run hi (he t hi)

end Sound
end Presence

end

/-! ## Every run -/

/-- Where every step of a run is orderly, at rest every user is online exactly while a socket of the user is
connected, and was last announced as such. -/
theorem presence_accurate {run : List PresenceEvent}
    (hrun : (presence.restrict Presence.Orderly).Allowed presence.init run) :
    presence.Throughout (fun s => s.tasks = [] → ∀ userId, s.Accurate userId) presence.init run := by
  have hkeep : ∀ s e, s.Sound → (presence.restrict Presence.Orderly).enabled s e →
      Presence.Sound ((presence.restrict Presence.Orderly).next s e) := fun s e hs he => hs.step he.2
  exact Machine.throughout_restrict.mp (Machine.throughout_of_invariant hkeep
    (fun _ hs hrest userId => hs.accurate hrest userId) .init hrun)

/-- Two sockets of a user come and go one after the other. -/
def inTurn : List PresenceEvent :=
  [.connect 1, .resume 0 .succeeds, .resume 0 .succeeds, .resume 0 .succeeds, .connect 1,
    .resume 0 .succeeds, .disconnect 0 1, .resume 0 .findsSession, .resume 0 .succeeds, .disconnect 1 1,
    .resume 0 .succeeds, .resume 0 .succeeds, .resume 0 .succeeds]

theorem presence_accurate_in_turn :
    presence.Throughout (fun s => s.tasks = [] → ∀ userId, s.Accurate userId) presence.init inTurn :=
  presence_accurate (by decide)

/-- Two sockets of a user connect before either has counted them. -/
def overlapping : List PresenceEvent :=
  [.connect 1, .connect 1, .resume 0 .succeeds, .resume 0 .succeeds]

theorem overlapping_stays_offline : ¬∀ run : List PresenceEvent,
    presence.Throughout (fun s => s.tasks = [] → ∀ userId, s.Accurate userId) presence.init run := by
  intro hall
  have haccurate := (hall overlapping).last rfl 1
  have honline := haccurate.1.mpr ⟨0, by decide⟩
  exact absurd honline (by decide)

end Vesper.Server
