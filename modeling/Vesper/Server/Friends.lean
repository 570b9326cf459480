import Vesper.Lib.Interleaving
import Vesper.Server.Conversations

/-!
# Friendships

Every operation on friendships reads a row and writes in a later access to the database. The database
has one row for a sender and a receiver, but it takes a second row in which they change places.
-/

namespace Vesper.Server

abbrev FriendshipId := Nat

inductive FriendshipStatus
  | pending | accepted | declined | blocked
  deriving DecidableEq, Repr

structure Friendship where
  id : FriendshipId
  senderId : UserId
  receiverId : UserId
  status : FriendshipStatus
  deriving DecidableEq, Repr

/-- What `respond` takes. -/
inductive FriendResponse
  | accepted | declined
  deriving DecidableEq, Repr

def FriendResponse.status : FriendResponse → FriendshipStatus
  | accepted => .accepted
  | declined => .declined

/-- The users that accepted are noted beside the tables. -/
structure FriendStore where
  users : List User
  /-- The users with `isEmailVerified`. -/
  verified : List UserId
  friendships : List Friendship
  nextFriendshipId : FriendshipId
  acceptedBy : List (FriendshipId × UserId)
  deriving DecidableEq, Repr

namespace Friendship
variable (f : Friendship)

/-- `{ senderId: a, receiverId: b }` or the other way around. -/
def Between (a b : UserId) : Prop :=
  f.senderId = a ∧ f.receiverId = b ∨ f.senderId = b ∧ f.receiverId = a

instance (a b : UserId) : Decidable (f.Between a b) := inferInstanceAs (Decidable (_ ∨ _))

end Friendship

namespace FriendStore
variable (s : FriendStore)

def friendship? (id : FriendshipId) : Option Friendship := s.friendships.find? (·.id = id)

/-- The row between two users, if it meets a condition. -/
def between? (p : FriendshipStatus → Bool) (a b : UserId) : Option Friendship :=
  s.friendships.find? fun f => p f.status ∧ f.Between a b

def user? (id : UserId) : Option User := s.users.find? (·.id = id)

/-- `delete` by id. -/
def delete (id : FriendshipId) : FriendStore :=
  { s with friendships := s.friendships.filter (·.id ≠ id) }

/-- `update` of the status by id. -/
def setStatus (id : FriendshipId) (status : FriendshipStatus) : FriendStore :=
  { s with friendships := s.friendships.map fun f => if f.id = id then { f with status } else f }

/-- The foreign keys of a new row, and `@@unique([senderId, receiverId])`. -/
def MayCreate (senderId receiverId : UserId) : Prop :=
  s.user? senderId ≠ none ∧ s.user? receiverId ≠ none ∧
    ∀ f ∈ s.friendships, ¬(f.senderId = senderId ∧ f.receiverId = receiverId)

instance (senderId receiverId : UserId) : Decidable (s.MayCreate senderId receiverId) :=
  inferInstanceAs (Decidable (_ ∧ _ ∧ _))

/-- `create` of a pending request. -/
def create (senderId receiverId : UserId) : FriendStore :=
  { s with
    nextFriendshipId := s.nextFriendshipId + 1
    friendships := s.friendships ++ [⟨s.nextFriendshipId, senderId, receiverId, .pending⟩] }

end FriendStore

/-! ## Handlers -/

inductive FriendRequest
  | sendRequest (senderId receiverId : UserId)
  | respond (userId : UserId) (friendshipId : FriendshipId) (action : FriendResponse)
  | cancelRequest (userId : UserId) (friendshipId : FriendshipId)
  | removeFriend (userId friendId : UserId)
  deriving DecidableEq, Repr

/-- A handler before its next access to the database. -/
inductive FriendTask
  /-- The handler throws. -/
  | refused
  | findReceiver (senderId receiverId : UserId)
  | findExisting (senderId receiverId : UserId)
  | deleteDeclined (id : FriendshipId) (senderId receiverId : UserId)
  | create (senderId receiverId : UserId)
  | findRequest (userId : UserId) (friendshipId : FriendshipId) (action : FriendResponse)
  | update (userId : UserId) (friendshipId : FriendshipId) (action : FriendResponse)
  | findSent (userId : UserId) (friendshipId : FriendshipId)
  | findFriend (userId friendId : UserId)
  | delete (friendshipId : FriendshipId)
  deriving DecidableEq, Repr

def FriendRequest.start : FriendRequest → FriendTask
  | sendRequest senderId receiverId =>
    if senderId = receiverId then .refused else .findReceiver senderId receiverId
  | respond userId friendshipId action => .findRequest userId friendshipId action
  | cancelRequest userId friendshipId => .findSent userId friendshipId
  | removeFriend userId friendId => .findFriend userId friendId

/-- What `sendRequest` does about the row that it found. -/
def sendAnyway (existing : Option Friendship) (senderId receiverId : UserId) : Option FriendTask :=
  match existing with
  | none => some (.create senderId receiverId)
  | some f =>
    match f.status with
    | .accepted | .pending | .blocked => none
    | .declined => some (.deleteDeclined f.id senderId receiverId)

def FriendTask.run : FriendTask → FriendStore → FriendStore × Option FriendTask
  | refused, s => (s, none)
  | findReceiver senderId receiverId, s =>
    (s, if s.user? receiverId = none then none else some (.findExisting senderId receiverId))
  | findExisting senderId receiverId, s =>
    (s, sendAnyway (s.between? (fun _ => true) senderId receiverId) senderId receiverId)
  | deleteDeclined id senderId receiverId, s =>
    if s.friendship? id = none then (s, none) else (s.delete id, some (.create senderId receiverId))
  | create senderId receiverId, s =>
    if s.MayCreate senderId receiverId then (s.create senderId receiverId, none)
    else ({ s with nextFriendshipId := s.nextFriendshipId + 1 }, none)
  | findRequest userId friendshipId action, s =>
    (s, if ∃ f ∈ s.friendship? friendshipId, f.receiverId = userId ∧ f.status = .pending then
      some (.update userId friendshipId action) else none)
  | update userId friendshipId action, s =>
    if s.friendship? friendshipId = none then (s, none)
    else
      let noted := match action with
        | .accepted => s.acceptedBy ++ [(friendshipId, userId)]
        | .declined => s.acceptedBy
      ({ s.setStatus friendshipId action.status with acceptedBy := noted }, none)
  | findSent userId friendshipId, s =>
    (s, if ∃ f ∈ s.friendship? friendshipId, f.senderId = userId ∧ f.status = .pending then
      some (.delete friendshipId) else none)
  | findFriend userId friendId, s =>
    (s, (s.between? (· = .accepted) userId friendId).map fun f => .delete f.id)
  | delete friendshipId, s => (s.delete friendshipId, none)

def friendHandlers : Handlers FriendStore FriendRequest FriendTask where
  start := FriendRequest.start
  run := FriendTask.run

def friendMachine (users : List User) (verified : List UserId) :
    Machine (Pool FriendStore FriendTask) (PoolEvent FriendRequest) :=
  friendHandlers.machine ⟨users, verified, [], 1, []⟩

/-! ## Readers -/

structure FriendView where
  friendshipId : FriendshipId
  friend : Option MemberUser
  deriving DecidableEq, Repr

structure FoundUser where
  id : UserId
  nickname : Text
  avatarUrl : Option Text
  isOnline : Bool
  friendshipId : Option FriendshipId
  friendshipStatus : Option FriendshipStatus
  isRequester : Bool
  deriving DecidableEq, Repr

namespace FriendStore
variable (s : FriendStore)

/-- `USER_SELECT` -/
def selectUser (id : UserId) : Option MemberUser :=
  (s.user? id).map fun u => ⟨u.id, u.nickname, u.avatarUrl, u.isOnline, u.lastSeen⟩

def getMyFriends (userId : UserId) : List FriendView :=
  (s.friendships.filter fun f => f.status = .accepted ∧ (f.senderId = userId ∨ f.receiverId = userId)).map
    fun f => ⟨f.id, s.selectUser (if f.senderId = userId then f.receiverId else f.senderId)⟩

/-- `contains` is that of the database, case-insensitive: the text first, then the query. -/
def searchUsers (contains : Text → Text → Bool) (currentUserId : UserId) (query : Text) : List FoundUser :=
  if (trim query).length < 2 then []
  else
    let users := (s.users.filter fun u => u.id ≠ currentUserId ∧ u.id ∈ s.verified ∧
      (contains u.nickname (trim query) ∨ contains u.email (trim query))).take 20
    let friendships := s.friendships.filter fun f =>
      f.senderId = currentUserId ∧ f.receiverId ∈ users.map (·.id) ∨
        f.receiverId = currentUserId ∧ f.senderId ∈ users.map (·.id)
    users.map fun u =>
      let f := friendships.find? fun f => f.senderId = u.id ∨ f.receiverId = u.id
      ⟨u.id, u.nickname, u.avatarUrl, u.isOnline, f.map (·.id), f.map (·.status),
        f.map (·.senderId) = some currentUserId⟩

def areFriends (a b : UserId) : Bool := (s.between? (· = .accepted) a b).isSome

/-- Two users have at most one row, which is accepted only once its receiver accepted, and the readers
agree on who are friends. -/
structure Consistent : Prop where
  unique : ∀ f ∈ s.friendships, ∀ g ∈ s.friendships, f.Between g.senderId g.receiverId → f = g
  responded : ∀ f ∈ s.friendships, f.status = .accepted →
    f.receiverId ≠ f.senderId ∧ (f.id, f.receiverId) ∈ s.acceptedBy
  symmetric : ∀ a b, s.areFriends a b = s.areFriends b a
  listed : ∀ a b, s.areFriends a b ↔ ∃ view ∈ s.getMyFriends a, ∃ friend ∈ view.friend, friend.id = b
  searched : ∀ contains a query, ∀ found ∈ s.searchUsers contains a query,
    s.areFriends a found.id ↔ found.friendshipStatus = some .accepted

end FriendStore

/-- A request is created only if there is none in the opposite direction by then. -/
def FriendTask.Unopposed : FriendTask → FriendStore → Prop
  | create senderId receiverId, s => s.MayCreate senderId receiverId →
    ∀ f ∈ s.friendships, ¬(f.senderId = receiverId ∧ f.receiverId = senderId)
  | refused, _ | findReceiver .., _ | findExisting .., _ | deleteDeclined .., _ | findRequest .., _
  | update .., _ | findSent .., _ | findFriend .., _ | delete .., _ => True

/-! ## The invariant -/

namespace Friendship
variable {f : Friendship} {a b : UserId}

theorem Between.symm (h : f.Between a b) : f.Between b a := Or.symm h

theorem between_comm : f.Between a b ↔ f.Between b a := or_comm

end Friendship

namespace FriendStore

structure Sound (s : FriendStore) : Prop where
  ids : ∀ f ∈ s.friendships, ∀ g ∈ s.friendships, f.id = g.id → f = g
  below : ∀ f ∈ s.friendships, f.id < s.nextFriendshipId
  keys : ∀ f ∈ s.friendships, ∀ g ∈ s.friendships, f.senderId = g.senderId → f.receiverId = g.receiverId →
    f = g
  apart : ∀ f ∈ s.friendships, f.receiverId ≠ f.senderId
  known : ∀ f ∈ s.friendships, s.user? f.senderId ≠ none ∧ s.user? f.receiverId ≠ none
  responded : ∀ f ∈ s.friendships, f.status = .accepted → (f.id, f.receiverId) ∈ s.acceptedBy

/-- No two rows between the same users. -/
def Unique (s : FriendStore) : Prop :=
  ∀ f ∈ s.friendships, ∀ g ∈ s.friendships, f.Between g.senderId g.receiverId → f = g

section
variable {s : FriendStore} {a b : UserId} {f : Friendship} {p : FriendshipStatus → Bool}

theorem between?_isSome : (s.between? p a b).isSome ↔ ∃ f ∈ s.friendships, p f.status ∧ f.Between a b := by
  simp [between?, List.find?_isSome]

theorem areFriends_iff : s.areFriends a b ↔
    ∃ f ∈ s.friendships, f.status = .accepted ∧ f.Between a b := by
  simp [areFriends, between?_isSome]

theorem areFriends_comm (s : FriendStore) (a b : UserId) : s.areFriends a b = s.areFriends b a := by
  rw [Bool.eq_iff_iff, areFriends_iff, areFriends_iff]
  exact exists_congr fun f => and_congr_right' (and_congr_right' Friendship.between_comm)

theorem selectUser_id {u : MemberUser} (h : s.selectUser a = some u) : u.id = a := by
  obtain ⟨user, hfound, rfl⟩ := Option.map_eq_some_iff.mp h
  have hid : user.id = a := by simpa using List.find?_some hfound
  exact hid

theorem selectUser_isSome (h : s.user? a ≠ none) : ∃ u, s.selectUser a = some u := by
  obtain ⟨user, huser⟩ := Option.ne_none_iff_exists'.mp h
  exact ⟨_, Option.map_eq_some_iff.mpr ⟨user, huser, rfl⟩⟩

/-- The list of friends names the other user of every accepted row. -/
theorem Sound.listed (h : s.Sound) : s.areFriends a b ↔
    ∃ view ∈ s.getMyFriends a, ∃ friend ∈ view.friend, friend.id = b := by
  rw [areFriends_iff]
  constructor
  · rintro ⟨f, hf, hstatus, hbetween⟩
    obtain ⟨hsender, hreceiver⟩ := h.known f hf
    have hother : s.user? (if f.senderId = a then f.receiverId else f.senderId) ≠ none := by
      split
      · exact hreceiver
      · exact hsender
    obtain ⟨friend, hfriend⟩ := selectUser_isSome hother
    refine ⟨⟨f.id, some friend⟩, ?_, friend, rfl, ?_⟩
    · refine List.mem_map.mpr ⟨f, List.mem_filter.mpr ⟨hf, decide_eq_true ⟨hstatus, ?_⟩⟩, by rw [hfriend]⟩
      exact hbetween.imp And.left And.right
    · rw [selectUser_id hfriend]
      obtain ⟨rfl, rfl⟩ | ⟨rfl, rfl⟩ := hbetween
      · exact if_pos rfl
      · exact if_neg (h.apart f hf).symm
  · rintro ⟨view, hview, friend, hfriend, rfl⟩
    obtain ⟨f, hf, rfl⟩ := List.mem_map.mp hview
    obtain ⟨hmem, htest⟩ := List.mem_filter.mp hf
    obtain ⟨hstatus, hone⟩ := of_decide_eq_true htest
    refine ⟨f, hmem, hstatus, ?_⟩
    rw [selectUser_id hfriend]
    split
    · rename_i hsender
      exact .inl ⟨hsender, rfl⟩
    · rename_i hsender
      exact .inr ⟨rfl, hone.resolve_left hsender⟩

theorem Unique.searched (hunique : s.Unique) (contains : Text → Text → Bool) (query : Text)
    {found : FoundUser} (hfound : found ∈ s.searchUsers contains a query) :
    s.areFriends a found.id ↔ found.friendshipStatus = some .accepted := by
  unfold searchUsers at hfound
  split at hfound
  · cases hfound
  obtain ⟨u, hu, rfl⟩ := List.mem_map.mp hfound
  have hne : u.id ≠ a := by
    have htest := List.of_mem_filter (List.mem_of_mem_take hu)
    exact (of_decide_eq_true htest).1
  set users := (s.users.filter _).take 20
  set rows := s.friendships.filter _ with hrows
  -- the rows that were read and name the user are those between the two
  have hpair : ∀ f, f ∈ rows ∧ (f.senderId = u.id ∨ f.receiverId = u.id) ↔
      f ∈ s.friendships ∧ f.Between a u.id := by
    intro f
    have hid : u.id ∈ users.map (·.id) := List.mem_map_of_mem hu
    rw [hrows, List.mem_filter, decide_eq_true_iff, and_assoc]
    refine and_congr_right fun _ => ?_
    constructor
    · rintro ⟨⟨hsender, -⟩ | ⟨hreceiver, -⟩, heq | heq⟩
      · exact absurd (heq.symm.trans hsender) hne
      · exact .inl ⟨hsender, heq⟩
      · exact .inr ⟨heq, hreceiver⟩
      · exact absurd (heq.symm.trans hreceiver) hne
    · rintro (⟨hsender, hreceiver⟩ | ⟨hsender, hreceiver⟩)
      · exact ⟨.inl ⟨hsender, hreceiver ▸ hid⟩, .inr hreceiver⟩
      · exact ⟨.inr ⟨hreceiver, hsender ▸ hid⟩, .inl hsender⟩
  rw [areFriends_iff]
  cases hfind : rows.find? fun f => f.senderId = u.id ∨ f.receiverId = u.id with
  | none =>
    refine iff_of_false ?_ nofun
    rintro ⟨f, hf, -, hbetween⟩
    obtain ⟨hmem, htest⟩ := (hpair f).mpr ⟨hf, hbetween⟩
    exact List.find?_eq_none.mp hfind f hmem (decide_eq_true htest)
  | some g =>
    have htest : g.senderId = u.id ∨ g.receiverId = u.id := by simpa using List.find?_some hfind
    obtain ⟨hg, hbetween⟩ := (hpair g).mp ⟨List.mem_of_find?_eq_some hfind, htest⟩
    simp only [Option.map_some, Option.some.injEq]
    constructor
    · rintro ⟨f, hf, hstatus, hbetween'⟩
      have hsame : f.Between g.senderId g.receiverId := by
        obtain ⟨hsender, hreceiver⟩ | ⟨hsender, hreceiver⟩ := hbetween <;> rw [hsender, hreceiver]
        · exact hbetween'
        · exact hbetween'.symm
      exact hunique f hf g hg hsame ▸ hstatus
    · exact fun hstatus => ⟨g, hg, hstatus, hbetween⟩

/-- With one row for two users, everything else agrees. -/
theorem Sound.consistent_iff (h : s.Sound) : s.Consistent ↔ s.Unique where
  mp hconsistent := hconsistent.unique
  mpr hunique := {
    unique := hunique
    responded := fun f hf hstatus => ⟨h.apart f hf, h.responded f hf hstatus⟩
    symmetric := s.areFriends_comm
    listed := fun _ _ => h.listed
    searched := fun contains _ query _ hfound => hunique.searched contains query hfound }

end

/-! ## What an operation does -/

/-- The rows with an old number were there before, between the same users. -/
structure Grows (s s' : FriendStore) : Prop where
  next : s.nextFriendshipId ≤ s'.nextFriendshipId
  old : ∀ f ∈ s'.friendships, f.id < s.nextFriendshipId →
    ∃ g ∈ s.friendships, g.id = f.id ∧ g.senderId = f.senderId ∧ g.receiverId = f.receiverId

section
variable {s : FriendStore} {a b u : UserId} {id : FriendshipId} {action : FriendResponse}

theorem Grows.refl (s : FriendStore) : s.Grows s := ⟨Nat.le_refl _, fun f hf _ => ⟨f, hf, rfl, rfl, rfl⟩⟩

theorem Sound.delete (h : s.Sound) (id : FriendshipId) : (s.delete id).Sound where
  ids f hf g hg := h.ids f (List.mem_of_mem_filter hf) g (List.mem_of_mem_filter hg)
  below f hf := h.below f (List.mem_of_mem_filter hf)
  keys f hf g hg := h.keys f (List.mem_of_mem_filter hf) g (List.mem_of_mem_filter hg)
  apart f hf := h.apart f (List.mem_of_mem_filter hf)
  known f hf := h.known f (List.mem_of_mem_filter hf)
  responded f hf := h.responded f (List.mem_of_mem_filter hf)

theorem Grows.delete (s : FriendStore) (id : FriendshipId) : s.Grows (s.delete id) :=
  ⟨Nat.le_refl _, fun f hf _ => ⟨f, List.mem_of_mem_filter hf, rfl, rfl, rfl⟩⟩

theorem Unique.delete (h : s.Unique) (id : FriendshipId) : (s.delete id).Unique :=
  fun f hf g hg => h f (List.mem_of_mem_filter hf) g (List.mem_of_mem_filter hg)

theorem Sound.advance (h : s.Sound) :
    ({ s with nextFriendshipId := s.nextFriendshipId + 1 } : FriendStore).Sound where
  ids := h.ids
  below f hf := Nat.lt_succ_of_lt (h.below f hf)
  keys := h.keys
  apart := h.apart
  known := h.known
  responded := h.responded

theorem mem_create {f : Friendship} (hf : f ∈ (s.create a b).friendships) :
    f ∈ s.friendships ∨ f = ⟨s.nextFriendshipId, a, b, .pending⟩ :=
  (List.mem_append.mp hf).imp_right List.mem_singleton.mp

theorem Sound.create (h : s.Sound) (hmay : s.MayCreate a b) (hne : b ≠ a) : (s.create a b).Sound where
  ids f hf g hg heq := by
    obtain hf | rfl := mem_create hf <;> obtain hg | rfl := mem_create hg
    · exact h.ids f hf g hg heq
    · exact absurd heq (Nat.ne_of_lt (h.below f hf))
    · exact absurd heq.symm (Nat.ne_of_lt (h.below g hg))
    · rfl
  below f hf := by
    obtain hf | rfl := mem_create hf
    · exact Nat.lt_succ_of_lt (h.below f hf)
    · exact Nat.lt_succ_self _
  keys f hf g hg hsender hreceiver := by
    obtain hf | rfl := mem_create hf <;> obtain hg | rfl := mem_create hg
    · exact h.keys f hf g hg hsender hreceiver
    · exact absurd ⟨hsender, hreceiver⟩ (hmay.2.2 f hf)
    · exact absurd ⟨hsender.symm, hreceiver.symm⟩ (hmay.2.2 g hg)
    · rfl
  apart f hf := by
    obtain hf | rfl := mem_create hf
    · exact h.apart f hf
    · exact hne
  known f hf := by
    obtain hf | rfl := mem_create hf
    · exact h.known f hf
    · exact ⟨hmay.1, hmay.2.1⟩
  responded f hf hstatus := by
    obtain hf | rfl := mem_create hf
    · exact h.responded f hf hstatus
    · cases hstatus

theorem Grows.create (s : FriendStore) (a b : UserId) : s.Grows (s.create a b) := by
  refine ⟨Nat.le_succ _, fun f hf hlt => ?_⟩
  obtain hf | rfl := mem_create hf
  · exact ⟨f, hf, rfl, rfl, rfl⟩
  · exact absurd hlt (Nat.lt_irrefl _)

/-- A new row is the only one between its users if and only if none is in the opposite direction. -/
theorem unique_create_iff (h : s.Sound) (hunique : s.Unique) (hmay : s.MayCreate a b) :
    (s.create a b).Unique ↔ ∀ f ∈ s.friendships, ¬(f.senderId = b ∧ f.receiverId = a) := by
  have hnew : (⟨s.nextFriendshipId, a, b, .pending⟩ : Friendship) ∈ (s.create a b).friendships :=
    List.mem_append_right _ (List.mem_singleton_self _)
  constructor
  · intro hcreated f hf hopposite
    have hsame := hcreated f (List.mem_append_left _ hf) _ hnew (.inr hopposite)
    exact absurd (congrArg Friendship.id hsame) (Nat.ne_of_lt (h.below f hf))
  · intro hnone f hf g hg hbetween
    obtain hf | rfl := mem_create hf <;> obtain hg | rfl := mem_create hg
    · exact hunique f hf g hg hbetween
    · exact absurd hbetween (not_or.mpr ⟨hmay.2.2 f hf, hnone f hf⟩)
    · obtain ⟨hsender, hreceiver⟩ | ⟨hsender, hreceiver⟩ := hbetween
      · exact absurd ⟨hsender.symm, hreceiver.symm⟩ (hmay.2.2 g hg)
      · exact absurd ⟨hreceiver.symm, hsender.symm⟩ (hnone g hg)
    · rfl

/-! ### Responses -/

/-- The store after a response of the user. -/
def respond (s : FriendStore) (u : UserId) (id : FriendshipId) (action : FriendResponse) : FriendStore :=
  { s.setStatus id action.status with
    acceptedBy := match action with
      | .accepted => s.acceptedBy ++ [(id, u)]
      | .declined => s.acceptedBy }

theorem mem_respond {f : Friendship} (hf : f ∈ (s.respond u id action).friendships) :
    ∃ g ∈ s.friendships, g.id = f.id ∧ g.senderId = f.senderId ∧ g.receiverId = f.receiverId ∧
      (f = g ∨ f.id = id ∧ f.status = action.status) := by
  obtain ⟨g, hg, rfl⟩ := List.mem_map.mp hf
  refine ⟨g, hg, ?_⟩
  split
  · rename_i hid
    exact ⟨rfl, rfl, rfl, .inr ⟨hid, rfl⟩⟩
  · exact ⟨rfl, rfl, rfl, .inl rfl⟩

theorem Grows.respond (s : FriendStore) (u : UserId) (id : FriendshipId) (action : FriendResponse) :
    s.Grows (s.respond u id action) := by
  refine ⟨Nat.le_refl _, fun f hf _ => ?_⟩
  obtain ⟨g, hg, hid, hsender, hreceiver, -⟩ := mem_respond hf
  exact ⟨g, hg, hid, hsender, hreceiver⟩

/-- Rows with the same number have come from the same row. -/
theorem respond_inj (h : s.Sound) {f g : Friendship} (hf : f ∈ (s.respond u id action).friendships)
    (hg : g ∈ (s.respond u id action).friendships) (heq : f.id = g.id) : f = g := by
  obtain ⟨f₀, hf₀, rfl⟩ := List.mem_map.mp hf
  obtain ⟨g₀, hg₀, rfl⟩ := List.mem_map.mp hg
  have hid : ∀ x : Friendship, (if x.id = id then { x with status := action.status } else x).id = x.id := by
    intro x
    split <;> rfl
  rw [hid, hid] at heq
  rw [h.ids f₀ hf₀ g₀ hg₀ heq]

theorem Sound.respond (h : s.Sound) (hreceiver : ∀ f ∈ s.friendships, f.id = id → f.receiverId = u) :
    (s.respond u id action).Sound where
  ids f hf g hg := respond_inj h hf hg
  below f hf := by
    obtain ⟨g, hg, hid, -⟩ := mem_respond hf
    exact hid ▸ h.below g hg
  keys f hf g hg hs hr := by
    obtain ⟨f₀, hf₀, hfid, hfs, hfr, -⟩ := mem_respond hf
    obtain ⟨g₀, hg₀, hgid, hgs, hgr, -⟩ := mem_respond hg
    have hsame := h.keys f₀ hf₀ g₀ hg₀ (hfs.trans (hs.trans hgs.symm)) (hfr.trans (hr.trans hgr.symm))
    exact respond_inj h hf hg (hfid.symm.trans ((congrArg Friendship.id hsame).trans hgid))
  apart f hf := by
    obtain ⟨g, hg, -, hs, hr, -⟩ := mem_respond hf
    exact hs ▸ hr ▸ h.apart g hg
  known f hf := by
    obtain ⟨g, hg, -, hs, hr, -⟩ := mem_respond hf
    exact hs ▸ hr ▸ h.known g hg
  responded f hf hstatus := by
    have hkeep : ∀ entry ∈ s.acceptedBy, entry ∈ (s.respond u id action).acceptedBy := by
      intro entry hentry
      cases action with
      | accepted => exact List.mem_append_left _ hentry
      | declined => exact hentry
    obtain ⟨g, hg, hid, -, hr, rfl | ⟨rfl, hset⟩⟩ := mem_respond hf
    · exact hkeep _ (h.responded f hg hstatus)
    · obtain rfl : action = .accepted := by
        cases action with
        | accepted => rfl
        | declined => cases hset.symm.trans hstatus
      rw [← hr, hreceiver g hg hid]
      exact List.mem_append_right _ (List.mem_singleton_self _)

theorem Unique.respond (h : s.Sound) (hunique : s.Unique) : (s.respond u id action).Unique := by
  intro f hf g hg hbetween
  obtain ⟨f₀, hf₀, hfid, hfs, hfr, -⟩ := mem_respond hf
  obtain ⟨g₀, hg₀, hgid, hgs, hgr, -⟩ := mem_respond hg
  refine respond_inj h hf hg (hfid.symm.trans (Eq.trans (congrArg Friendship.id ?_) hgid))
  refine hunique f₀ hf₀ g₀ hg₀ ?_
  rwa [Friendship.Between, hfs, hfr, hgs, hgr]

end

end FriendStore

namespace FriendTask

/-- What a handler knows: the receiver of a request is not its sender, and who responds is the receiver. -/
def Knows : FriendTask → FriendStore → Prop
  | findReceiver senderId receiverId, _ | findExisting senderId receiverId, _
  | deleteDeclined _ senderId receiverId, _ | create senderId receiverId, _ => receiverId ≠ senderId
  | update userId id _, s =>
    id < s.nextFriendshipId ∧ ∀ f ∈ s.friendships, f.id = id → f.receiverId = userId
  | refused, _ | findRequest .., _ | findSent .., _ | findFriend .., _ | delete .., _ => True

section
variable {s s' : FriendStore} {t : FriendTask} {a b u : UserId} {id : FriendshipId}

theorem Knows.grows (hgrows : s.Grows s') (h : t.Knows s) : t.Knows s' := by
  cases t with
  | update u id action =>
    refine ⟨Nat.lt_of_lt_of_le h.1 hgrows.next, fun f hf hid => ?_⟩
    obtain ⟨g, hg, hgid, -, hreceiver⟩ := hgrows.old f hf (hid ▸ h.1)
    exact hreceiver ▸ h.2 g hg (hgid.trans hid)
  | refused | findReceiver | findExisting | deleteDeclined | create | findRequest | findSent
  | findFriend | delete => exact h

theorem knows_start (r : FriendRequest) (s : FriendStore) : r.start.Knows s := by
  cases r with
  | sendRequest a b =>
    by_cases heq : a = b
    · rw [show (FriendRequest.sendRequest a b).start = .refused from if_pos heq]
      trivial
    · rw [show (FriendRequest.sendRequest a b).start = .findReceiver a b from if_neg heq]
      exact Ne.symm heq
  | respond | cancelRequest | removeFriend => trivial

/-- A response that is about to be written comes from the receiver. -/
theorem knows_update (h : s.Sound) {action : FriendResponse}
    (hfound : ∃ f ∈ s.friendship? id, f.receiverId = u ∧ f.status = .pending) :
    (update u id action).Knows s := by
  obtain ⟨f, hf, hreceiver, -⟩ := hfound
  have hmem := List.mem_of_find?_eq_some hf
  have hid : f.id = id := by simpa using List.find?_some hf
  refine ⟨hid ▸ h.below f hmem, fun g hg hgid => ?_⟩
  rw [h.ids g hg f hmem (hgid.trans hid.symm), hreceiver]

theorem knows_sendAnyway {existing : Option Friendship} (hne : b ≠ a) :
    ∀ t ∈ sendAnyway existing a b, t.Knows s := by
  intro t ht
  unfold sendAnyway at ht
  split at ht
  · obtain rfl := Option.some.inj ht
    exact hne
  · split at ht
    · cases ht
    · cases ht
    · cases ht
    · obtain rfl := Option.some.inj ht
      exact hne

/-- What a stretch of a handler keeps. -/
theorem stable_run (h : s.Sound) (hknows : t.Knows s) :
    friendHandlers.Stable FriendStore.Sound Knows t s := by
  have hread : ∀ {t : FriendTask} {next : Option FriendTask}, t.run s = (s, next) →
      (∀ t' ∈ next, t'.Knows s) → friendHandlers.Stable FriendStore.Sound Knows t s :=
    fun hrun hnext => .of_read hrun h hnext
  have hwrite : ∀ {t : FriendTask} {s' : FriendStore} {next : Option FriendTask}, t.run s = (s', next) →
      s'.Sound → s.Grows s' → (∀ t' ∈ next, t'.Knows s') →
      friendHandlers.Stable FriendStore.Sound Knows t s :=
    fun hrun hsound hgrows hnext => .of_run hrun hsound hnext fun _ => .grows hgrows
  cases t with
  | refused => exact hread rfl nofun
  | findReceiver a b =>
    refine hread rfl fun t' ht' => ?_
    split at ht'
    · cases ht'
    · obtain rfl := Option.some.inj ht'
      exact hknows
  | findExisting a b => exact hread rfl (knows_sendAnyway hknows)
  | deleteDeclined id a b =>
    by_cases hgone : s.friendship? id = none
    · exact hread (if_pos hgone) nofun
    · refine hwrite (if_neg hgone) (h.delete id) (.delete s id) fun t' ht' => ?_
      obtain rfl := Option.some.inj ht'
      exact hknows
  | create a b =>
    by_cases hmay : s.MayCreate a b
    · exact hwrite (if_pos hmay) (h.create hmay hknows) (.create s a b) nofun
    · exact hwrite (if_neg hmay) h.advance ⟨Nat.le_succ _, fun f hf _ => ⟨f, hf, rfl, rfl, rfl⟩⟩ nofun
  | findRequest u id action =>
    refine hread rfl fun t' ht' => ?_
    split at ht'
    · obtain rfl := Option.some.inj ht'
      exact knows_update h ‹_›
    · cases ht'
  | update u id action =>
    by_cases hgone : s.friendship? id = none
    · exact hread (if_pos hgone) nofun
    · have hrun : (update u id action).run s = (s.respond u id action, none) := if_neg hgone
      exact hwrite hrun (h.respond hknows.2) (.respond s u id action) nofun
  | findSent u id =>
    refine hread rfl fun t' ht' => ?_
    split at ht'
    · obtain rfl := Option.some.inj ht'
      trivial
    · cases ht'
  | findFriend u v =>
    refine hread rfl fun t' ht' => ?_
    obtain ⟨f, -, rfl⟩ := Option.map_eq_some_iff.mp ht'
    trivial
  | delete id => exact hwrite rfl (h.delete id) (.delete s id) nofun

/-- Only the creation of an opposite row puts two rows between two users. -/
theorem unique_run_iff (h : s.Sound) (hunique : s.Unique) (t : FriendTask) :
    (t.run s).1.Unique ↔ t.Unopposed s := by
  cases t with
  | create a b =>
    by_cases hmay : s.MayCreate a b
    · have hrun : (create a b).run s = (s.create a b, none) := if_pos hmay
      rw [hrun, FriendStore.unique_create_iff h hunique hmay]
      exact ⟨fun hnone _ => hnone, fun hnone => hnone hmay⟩
    · have hrun : (create a b).run s = ({ s with nextFriendshipId := s.nextFriendshipId + 1 }, none) :=
        if_neg hmay
      rw [hrun]
      exact iff_of_true hunique fun hyes => absurd hyes hmay
  | deleteDeclined id a b =>
    refine iff_of_true ?_ trivial
    by_cases hgone : s.friendship? id = none
    · rwa [show (deleteDeclined id a b).run s = (s, none) from if_pos hgone]
    · rw [show (deleteDeclined id a b).run s = (s.delete id, some (.create a b)) from if_neg hgone]
      exact hunique.delete id
  | update u id action =>
    refine iff_of_true ?_ trivial
    by_cases hgone : s.friendship? id = none
    · rwa [show (update u id action).run s = (s, none) from if_pos hgone]
    · rw [show (update u id action).run s = (s.respond u id action, none) from if_neg hgone]
      exact hunique.respond h
  | delete id => exact iff_of_true (hunique.delete id) trivial
  | refused | findReceiver | findExisting | findRequest | findSent | findFriend =>
    exact iff_of_true hunique trivial

end

end FriendTask

/-! ## Every interleaving -/

/-- Throughout a run two users have at most one row, it is accepted only after its receiver accepted, and
the readers agree, if and only if no request is created while one in the opposite direction exists. -/
theorem friendships_consistent_iff (users : List User) (verified : List UserId)
    (run : List (PoolEvent FriendRequest)) :
    (friendMachine users verified).Throughout (·.store.Consistent) (friendMachine users verified).init run ↔
      ((friendMachine users verified).restrict fun p e => p.Meets FriendTask.Unopposed e).Allowed
        (friendMachine users verified).init run := by
  have hsound : (friendMachine users verified).init.store.Sound :=
    ⟨List.forall_mem_nil _, List.forall_mem_nil _, List.forall_mem_nil _, List.forall_mem_nil _,
      List.forall_mem_nil _, List.forall_mem_nil _⟩
  refine Handlers.throughout_iff (I := FriendStore.Sound) (A := FriendTask.Knows)
    (fun r s _ => FriendTask.knows_start r s) (fun t s h hknows _ => FriendTask.stable_run h hknows)
    (fun t s h hknows hconsistent => ?_) ⟨hsound, List.forall_mem_nil _⟩
    (hsound.consistent_iff.mpr (List.forall_mem_nil _)) run
  have hafter : (t.run s).1.Sound := (FriendTask.stable_run h hknows).store
  exact hafter.consistent_iff.trans (FriendTask.unique_run_iff h hconsistent.unique t)

/-- Right after its own lookup, a request may be created. -/
theorem unopposed_after_lookup {s : FriendStore} {a b : UserId}
    (hnone : s.between? (fun _ => true) a b = none) : (FriendTask.create a b).Unopposed s := by
  intro _ f hf hopposite
  exact List.find?_eq_none.mp hnone f hf (decide_eq_true ⟨rfl, .inr hopposite⟩)

/-- Two users send each other requests at the same time. -/
def bothRequest : List (PoolEvent FriendRequest) :=
  [.call (.sendRequest 1 2), .call (.sendRequest 2 1), .resume 0, .resume 1, .resume 0, .resume 1,
    .resume 0, .resume 0]

theorem two_friendships : ¬∀ (users : List User) (verified : List UserId)
    (run : List (PoolEvent FriendRequest)),
    (friendMachine users verified).Throughout (·.store.Consistent)
      (friendMachine users verified).init run := by
  intro hall
  have hrun := (hall [⟨1, [], [], [], none, false, 0⟩, ⟨2, [], [], [], none, false, 0⟩] [] bothRequest).last
  have hsame := hrun.unique ⟨1, 1, 2, .pending⟩ (by decide) ⟨2, 2, 1, .pending⟩ (by decide) (by decide)
  cases hsame

end Vesper.Server
