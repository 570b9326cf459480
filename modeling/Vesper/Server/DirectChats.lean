import Vesper.Lib.Interleaving
import Vesper.Server.Conversations
import Mathlib.Data.Finset.Dedup
import Mathlib.Data.Finset.Insert

/-!
# One direct conversation for two users

`getOrCreateDirect` looks for the conversation and creates it in two accesses to the database, between
which other handlers run. No constraint of the database keeps two calls for the same users from
creating one each.
-/

namespace Vesper.Server
open Program

/-- What a call of `getOrCreateDirect` returned. -/
structure ReturnedDirect where
  userId : UserId
  targetId : UserId
  conversationId : ConversationId
  deriving DecidableEq, Repr

structure ConversationStore where
  db : Database
  returned : List ReturnedDirect
  deriving DecidableEq, Repr

inductive ConversationRequest
  | getOrCreateDirect (now : Time) (userId targetId : UserId)
  | createGroup (now : Time) (userId : UserId) (name : Text) (description : Option Text)
    (memberIds : List UserId)
  | createChannel (now : Time) (userId : UserId) (name : Text) (description : Option Text)
  deriving DecidableEq

/-- A handler before its next access to the database. -/
inductive ConversationTask
  | findTarget (now : Time) (userId targetId : UserId)
  | findExisting (now : Time) (userId targetId : UserId)
  | createDirect (now : Time) (userId targetId : UserId)
  | createGroup (now : Time) (userId : UserId) (name : Text) (description : Option Text)
    (memberIds : List UserId)
  | createChannel (now : Time) (userId : UserId) (name : Text) (description : Option Text)
  deriving DecidableEq

def directMembers (userId targetId : UserId) : List (UserId × MemberRole) :=
  if userId = targetId then [(userId, .member)] else [(userId, .member), (targetId, .member)]

def ConversationRequest.start : ConversationRequest → ConversationTask
  | getOrCreateDirect now userId targetId =>
    -- no target is looked up for one's own chat
    if userId = targetId then .findExisting now userId targetId else .findTarget now userId targetId
  | createGroup now userId name description memberIds =>
    .createGroup now userId name description memberIds
  | createChannel now userId name description => .createChannel now userId name description

def ConversationStore.return (s : ConversationStore) (userId targetId : UserId)
    (conversationId : ConversationId) : ConversationStore :=
  { s with returned := s.returned ++ [⟨userId, targetId, conversationId⟩] }

def ConversationTask.run :
    ConversationTask → ConversationStore → ConversationStore × Option ConversationTask
  | findTarget now userId targetId, s =>
    (s, if s.db.user? targetId = none then none else some (.findExisting now userId targetId))
  | findExisting now userId targetId, s =>
    match s.db.directOf userId targetId with
    | some existing => (s.return userId targetId existing.id, none)
    | none => (s, some (.createDirect now userId targetId))
  | createDirect now userId targetId, s =>
    match (createConversation now .direct none none userId (directMembers userId targetId)).exec s.db with
    | (.ok view, db) => (({ s with db } : ConversationStore).return userId targetId view.conversation.id, none)
    | (.error _, db) => ({ s with db }, none)
  | createGroup now userId name description memberIds, s =>
    ({ s with db := ((Server.createGroup now userId name description memberIds).exec s.db).2 }, none)
  | createChannel now userId name description, s =>
    ({ s with db := ((Server.createChannel now userId name description).exec s.db).2 }, none)

def conversationHandlers : Handlers ConversationStore ConversationRequest ConversationTask where
  start := ConversationRequest.start
  run := ConversationTask.run

/-- A database with users only. -/
def Database.fresh (users : List User) (devices : List Device) : Database :=
  ⟨users, devices, [], [], [], [], [], 1, 1, 1, []⟩

def conversationMachine (users : List User) (devices : List Device) :
    Machine (Pool ConversationStore ConversationTask) (PoolEvent ConversationRequest) :=
  conversationHandlers.machine ⟨.fresh users devices, []⟩

/-! ## Members of direct conversations -/

def Database.memberSet (db : Database) (c : ConversationId) : Finset UserId :=
  ((db.membersOf c).map (·.userId)).toFinset

/-- Two users have one direct conversation, which is the one that is returned for them, and for no
others. -/
structure ConversationStore.OnePerPair (s : ConversationStore) : Prop where
  unique : ∀ c ∈ s.db.conversations, ∀ c' ∈ s.db.conversations, c.type = .direct → c'.type = .direct →
    s.db.memberSet c.id = s.db.memberSet c'.id → c = c'
  returned : ∀ r ∈ s.returned, ∃ c ∈ s.db.conversations, c.type = .direct ∧ c.id = r.conversationId ∧
    s.db.memberSet c.id = {r.userId, r.targetId}

/-- A direct conversation is created only if the two have none by then. -/
def ConversationTask.FindsNone : ConversationTask → ConversationStore → Prop
  | createDirect _ userId targetId, s =>
    (∀ m ∈ directMembers userId targetId, ∃ u ∈ s.db.users, u.id = m.1) →
      s.db.directOf userId targetId = none
  | findTarget .., _ | findExisting .., _ | createGroup .., _ | createChannel .., _ => True

instance : (t : ConversationTask) → (s : ConversationStore) → Decidable (t.FindsNone s)
  | .createDirect .., _ => inferInstanceAs (Decidable (_ → _))
  | .findTarget .., _ | .findExisting .., _ | .createGroup .., _ | .createChannel .., _ => .isTrue trivial

section
variable {db : Database} {now : Time} {type : ConversationType} {name description : Option Text}
  {u : UserId} {members : List (UserId × MemberRole)}

/-- The row that `createConversation` creates. -/
def Database.conversationRow (db : Database) (now : Time) (type : ConversationType)
    (name description : Option Text) (u : UserId) : Conversation :=
  ⟨db.nextConversationId, type, name, description, none, u, now, now⟩

/-- The database after `createConversation`. -/
def Database.found (db : Database) (now : Time) (type : ConversationType)
    (name description : Option Text) (u : UserId) (members : List (UserId × MemberRole)) : Database :=
  { db with
    nextConversationId := db.nextConversationId + 1
    conversations := db.conversations ++ [db.conversationRow now type name description u]
    members := db.members ++ members.map fun m => .joining now db.nextConversationId m.1 m.2 }

theorem createConversation_exec : (createConversation now type name description u members).exec db =
    if ∀ m ∈ members, ∃ u ∈ db.users, u.id = m.1 then
      (.ok ((db.found now type name description u members).withMembers
        (db.conversationRow now type name description u)), db.found now type name description u members)
    else (.error (.foreignKey "ConversationMember_userId_fkey"),
      { db with nextConversationId := db.nextConversationId + 1 }) := by
  by_cases hkeys : ∀ m ∈ members, ∃ u ∈ db.users, u.id = m.1
  · simp only [createConversation, exec_bind, exec_reads, exec_modify, exec_demand, if_pos hkeys]
    rfl
  · simp only [createConversation, exec_bind, exec_reads, exec_modify, exec_demand, if_neg hkeys]

theorem mem_memberSet {c : ConversationId} {v : UserId} :
    v ∈ db.memberSet c ↔ ∃ m ∈ db.membersOf c, m.userId = v := by
  simp [Database.memberSet]

theorem memberSet_found {c : ConversationId} (hne : c ≠ db.nextConversationId) :
    (db.found now type name description u members).memberSet c = db.memberSet c := by
  have hnew : (members.map fun m => ConversationMember.joining now db.nextConversationId m.1 m.2).filter
      (·.conversationId = c) = [] := by
    refine List.filter_eq_nil_iff.mpr fun m hm => ?_
    obtain ⟨_, -, rfl⟩ := List.mem_map.mp hm
    exact fun heq => hne (of_decide_eq_true heq).symm
  rw [Database.memberSet, Database.membersOf, Database.found, List.filter_append, hnew, List.append_nil]
  rfl

theorem memberSet_founded (hbelow : ∀ m ∈ db.members, m.conversationId < db.nextConversationId) :
    (db.found now type name description u members).memberSet db.nextConversationId =
      (members.map (·.1)).toFinset := by
  have hold : db.members.filter (·.conversationId = db.nextConversationId) = [] :=
    List.filter_eq_nil_iff.mpr fun m hm => by simpa using Nat.ne_of_lt (hbelow m hm)
  have hnew : (members.map fun m => ConversationMember.joining now db.nextConversationId m.1 m.2).filter
      (·.conversationId = db.nextConversationId) = members.map fun m =>
        ConversationMember.joining now db.nextConversationId m.1 m.2 := by
    refine List.filter_eq_self.mpr fun m hm => ?_
    obtain ⟨_, -, rfl⟩ := List.mem_map.mp hm
    exact decide_eq_true rfl
  rw [Database.memberSet, Database.membersOf, Database.found, List.filter_append, hold, hnew,
    List.nil_append, List.map_map]
  rfl

theorem directMembers_toFinset (a b : UserId) :
    ((directMembers a b).map (·.1)).toFinset = {a, b} := by
  unfold directMembers
  split
  · subst b
    simp
  · simp

/-- What the lookup asks of the members, when they are a user or two. -/
theorem lookup_iff {s : Finset UserId} (hs : ∃ x y, s = {x, y}) (a b : UserId) :
    (if a = b then a ∈ s ∧ ∀ v ∈ s, v = a else a ∈ s ∧ b ∈ s) ↔ s = {a, b} := by
  split
  · subst b
    rw [Finset.pair_eq_singleton, Finset.eq_singleton_iff_unique_mem]
  · rename_i hne
    constructor
    · rintro ⟨ha, hb⟩
      obtain ⟨x, y, rfl⟩ := hs
      simp only [Finset.mem_insert, Finset.mem_singleton] at ha hb
      obtain rfl | rfl := ha <;> obtain rfl | rfl := hb
      · exact absurd rfl hne
      · rfl
      · exact Finset.pair_comm _ _
      · exact absurd rfl hne
    · rintro rfl
      simp

end

/-! ## The invariant -/

/-- Direct conversations have the members that they were created with. -/
structure Database.Paired (db : Database) : Prop where
  conversationBelow : ∀ c ∈ db.conversations, c.id < db.nextConversationId
  memberBelow : ∀ m ∈ db.members, m.conversationId < db.nextConversationId
  pairs : ∀ c ∈ db.conversations, c.type = .direct → ∃ a b, db.memberSet c.id = {a, b}

structure ConversationStore.Sound (s : ConversationStore) : Prop where
  paired : s.db.Paired
  returned : ∀ r ∈ s.returned, ∃ c ∈ s.db.conversations, c.type = .direct ∧ c.id = r.conversationId ∧
    s.db.memberSet c.id = {r.userId, r.targetId}

section
variable {db : Database} {now : Time} {type : ConversationType} {name description : Option Text}
  {u a b : UserId} {members : List (UserId × MemberRole)} {c : Conversation}

theorem directTest_iff (h : db.Paired) (hc : c ∈ db.conversations) :
    (c.type = .direct ∧ if a = b then
      (∃ m ∈ db.membersOf c.id, m.userId = a) ∧ ∀ m ∈ db.membersOf c.id, m.userId = a
    else (∃ m ∈ db.membersOf c.id, m.userId = a) ∧ ∃ m ∈ db.membersOf c.id, m.userId = b) ↔
      c.type = .direct ∧ db.memberSet c.id = {a, b} := by
  refine and_congr_right fun htype => ?_
  rw [← lookup_iff (h.pairs c hc htype) a b]
  simp only [mem_memberSet, forall_exists_index, and_imp, forall_apply_eq_imp_iff₂]

theorem directOf_eq_some (h : db.Paired) (hfound : db.directOf a b = some c) :
    c ∈ db.conversations ∧ c.type = .direct ∧ db.memberSet c.id = {a, b} := by
  have hmem := List.mem_of_find?_eq_some hfound
  exact ⟨hmem, (directTest_iff h hmem).mp (by simpa using List.find?_some hfound)⟩

theorem directOf_eq_none (h : db.Paired) : db.directOf a b = none ↔
    ∀ c ∈ db.conversations, c.type = .direct → db.memberSet c.id ≠ {a, b} := by
  rw [Database.directOf, List.find?_eq_none]
  refine forall₂_congr fun c hc => ?_
  rw [decide_eq_true_iff, directTest_iff h hc, not_and]

theorem Database.Paired.failed (h : db.Paired) :
    ({ db with nextConversationId := db.nextConversationId + 1 } : Database).Paired where
  conversationBelow c hc := Nat.lt_succ_of_lt (h.conversationBelow c hc)
  memberBelow m hm := Nat.lt_succ_of_lt (h.memberBelow m hm)
  pairs := h.pairs

theorem Database.Paired.memberSet_found (h : db.Paired) (hc : c ∈ db.conversations) :
    (db.found now type name description u members).memberSet c.id = db.memberSet c.id :=
  Server.memberSet_found (Nat.ne_of_lt (h.conversationBelow c hc))

theorem Database.Paired.found (h : db.Paired)
    (hpair : type = .direct → ∃ a b, (members.map (·.1)).toFinset = {a, b}) :
    (db.found now type name description u members).Paired where
  conversationBelow c hc := by
    obtain hc | hc := List.mem_append.mp hc
    · exact Nat.lt_succ_of_lt (h.conversationBelow c hc)
    · rw [List.mem_singleton.mp hc]
      exact Nat.lt_succ_self _
  memberBelow m hm := by
    obtain hm | hm := List.mem_append.mp hm
    · exact Nat.lt_succ_of_lt (h.memberBelow m hm)
    · obtain ⟨_, -, rfl⟩ := List.mem_map.mp hm
      exact Nat.lt_succ_self _
  pairs c hc htype := by
    obtain hc | hc := List.mem_append.mp hc
    · rw [h.memberSet_found hc]
      exact h.pairs c hc htype
    · obtain rfl := List.mem_singleton.mp hc
      exact memberSet_founded h.memberBelow ▸ hpair htype

end

section
variable {s : ConversationStore} {db : Database} {now : Time} {u a b : UserId} {t : ConversationTask}

/-- The conversations so far stay, with their members. -/
theorem ConversationStore.Sound.of_le (h : s.Sound) (hpaired : db.Paired)
    (hle : s.db.conversations ⊆ db.conversations)
    (hsame : ∀ c ∈ s.db.conversations, db.memberSet c.id = s.db.memberSet c.id) :
    ({ s with db } : ConversationStore).Sound where
  paired := hpaired
  returned r hr := by
    obtain ⟨c, hc, htype, hid, hset⟩ := h.returned r hr
    exact ⟨c, hle hc, htype, hid, (hsame c hc).trans hset⟩

theorem ConversationStore.Sound.return (h : s.Sound) {c : Conversation} (hc : c ∈ s.db.conversations)
    (htype : c.type = .direct) (hset : s.db.memberSet c.id = {a, b}) : (s.return a b c.id).Sound where
  paired := h.paired
  returned r hr := by
    obtain hr | hr := List.mem_append.mp hr
    · exact h.returned r hr
    · rw [List.mem_singleton.mp hr]
      exact ⟨c, hc, htype, rfl, hset⟩

/-- `create` of a conversation, in the store. -/
theorem ConversationStore.Sound.create (h : s.Sound) {type : ConversationType}
    {name description : Option Text} {members : List (UserId × MemberRole)}
    (hpair : type = .direct → ∃ a b, (members.map (·.1)).toFinset = {a, b}) :
    ({ s with db := ((createConversation now type name description u members).exec s.db).2 } :
      ConversationStore).Sound := by
  rw [createConversation_exec]
  split
  · exact h.of_le (h.paired.found hpair) (List.subset_append_left _ _) fun c hc =>
      h.paired.memberSet_found hc
  · exact h.of_le h.paired.failed (List.Subset.refl _) fun _ _ => rfl

namespace ConversationTask

theorem run_findExisting_some {c : Conversation} (hfound : s.db.directOf a b = some c) :
    (findExisting now a b).run s = (s.return a b c.id, none) := by
  simp only [run, hfound]

theorem run_findExisting_none (hnone : s.db.directOf a b = none) :
    (findExisting now a b).run s = (s, some (createDirect now a b)) := by
  simp only [run, hnone]

theorem run_createDirect (hkeys : ∀ m ∈ directMembers a b, ∃ u ∈ s.db.users, u.id = m.1) :
    (createDirect now a b).run s =
      (({ s with db := s.db.found now .direct none none a (directMembers a b) } :
        ConversationStore).return a b s.db.nextConversationId, none) := by
  simp only [run, createConversation_exec, if_pos hkeys]
  rfl

theorem run_createDirect_fails (hkeys : ¬∀ m ∈ directMembers a b, ∃ u ∈ s.db.users, u.id = m.1) :
    (createDirect now a b).run s =
      ({ s with db := { s.db with nextConversationId := s.db.nextConversationId + 1 } }, none) := by
  simp only [run, createConversation_exec, if_neg hkeys]

end ConversationTask

/-- What `createDirect` adds has the two members. -/
theorem ConversationStore.Sound.found (h : s.Sound) :
    (({ s with db := s.db.found now .direct none none a (directMembers a b) } :
      ConversationStore).return a b s.db.nextConversationId).Sound := by
  have hpaired : (s.db.found now .direct none none a (directMembers a b)).Paired :=
    h.paired.found fun _ => ⟨a, b, directMembers_toFinset a b⟩
  have hkeep := h.of_le hpaired (List.subset_append_left _ _) fun c hc => h.paired.memberSet_found hc
  refine hkeep.return (List.mem_append_right _ (List.mem_singleton_self _)) rfl ?_
  exact (memberSet_founded h.paired.memberBelow).trans (directMembers_toFinset a b)

theorem ConversationStore.Sound.run (h : s.Sound) (t : ConversationTask) : (t.run s).1.Sound := by
  cases t with
  | findTarget => exact h
  | findExisting now a b =>
    cases hfound : s.db.directOf a b with
    | none => rwa [ConversationTask.run_findExisting_none hfound]
    | some existing =>
      rw [ConversationTask.run_findExisting_some hfound]
      obtain ⟨hc, htype, hset⟩ := directOf_eq_some h.paired hfound
      exact h.return hc htype hset
  | createDirect now a b =>
    by_cases hkeys : ∀ m ∈ directMembers a b, ∃ u ∈ s.db.users, u.id = m.1
    · rw [ConversationTask.run_createDirect hkeys]
      exact h.found
    · rw [ConversationTask.run_createDirect_fails hkeys]
      exact h.of_le h.paired.failed (List.Subset.refl _) fun _ _ => rfl
  | createGroup => exact h.create nofun
  | createChannel => exact h.create nofun

/-- Where the direct conversations are the same, so is the property. -/
theorem ConversationStore.Sound.onePerPair_iff (h : s.Sound) : s.OnePerPair ↔
    ∀ c ∈ s.db.conversations, ∀ c' ∈ s.db.conversations, c.type = .direct → c'.type = .direct →
      s.db.memberSet c.id = s.db.memberSet c'.id → c = c' :=
  ⟨fun hone => hone.unique, fun hunique => ⟨hunique, h.returned⟩⟩

/-- A new conversation repeats none if and only if it is not direct, or its members have none. -/
theorem ConversationStore.Sound.unique_found (h : s.Sound) (hone : s.OnePerPair) {type : ConversationType}
    {name description : Option Text} {members : List (UserId × MemberRole)} {s' : ConversationStore}
    (hs' : s'.db = s.db.found now type name description u members) (hsound : s'.Sound) :
    s'.OnePerPair ↔ (type = .direct → ∀ c ∈ s.db.conversations, c.type = .direct →
      s.db.memberSet c.id ≠ (members.map (·.1)).toFinset) := by
  rw [hsound.onePerPair_iff, hs']
  set row := s.db.conversationRow now type name description u
  have hnew : (s.db.found now type name description u members).memberSet row.id =
      (members.map (·.1)).toFinset := memberSet_founded h.paired.memberBelow
  have hrow : row ∉ s.db.conversations := fun hmem =>
    Nat.lt_irrefl _ (h.paired.conversationBelow row hmem)
  constructor
  · intro hunique htype c hc hdirect heq
    have hlast : row ∈ s.db.conversations ++ [row] := List.mem_append_right _ (List.mem_singleton_self _)
    have hsame := hunique c (List.mem_append_left _ hc) row hlast hdirect htype
      (by rw [h.paired.memberSet_found hc, hnew, heq])
    exact hrow (hsame ▸ hc)
  · intro hfresh c hc c' hc' htype htype' heq
    obtain hc | hc := List.mem_append.mp hc <;> obtain hc' | hc' := List.mem_append.mp hc'
    · rw [h.paired.memberSet_found hc, h.paired.memberSet_found hc'] at heq
      exact hone.unique c hc c' hc' htype htype' heq
    · obtain rfl := List.mem_singleton.mp hc'
      rw [h.paired.memberSet_found hc, hnew] at heq
      exact absurd heq (hfresh htype' c hc htype)
    · obtain rfl := List.mem_singleton.mp hc
      rw [h.paired.memberSet_found hc', hnew] at heq
      exact absurd heq.symm (hfresh htype c' hc' htype')
    · rw [List.mem_singleton.mp hc, List.mem_singleton.mp hc']

/-- A failed `create` only uses up a number. -/
theorem ConversationStore.OnePerPair.failed (hone : s.OnePerPair) :
    ({ s with db := { s.db with nextConversationId := s.db.nextConversationId + 1 } } :
      ConversationStore).OnePerPair :=
  ⟨hone.unique, hone.returned⟩

/-- Groups and channels do not count. -/
theorem ConversationStore.Sound.onePerPair_create (h : s.Sound) (hone : s.OnePerPair)
    {type : ConversationType} {name description : Option Text} {members : List (UserId × MemberRole)}
    (htype : type ≠ .direct) :
    ({ s with db := ((createConversation now type name description u members).exec s.db).2 } :
      ConversationStore).OnePerPair := by
  have hsound : ({ s with db := ((createConversation now type name description u members).exec s.db).2 } :
      ConversationStore).Sound := h.create fun heq => absurd heq htype
  rw [createConversation_exec] at hsound ⊢
  split at hsound
  · rename_i hkeys
    rw [if_pos hkeys]
    exact (h.unique_found hone rfl hsound).mpr fun heq => absurd heq htype
  · rename_i hkeys
    rw [if_neg hkeys]
    exact hone.failed

/-- A stretch of a handler keeps the property if and only if it does not create a second conversation. -/
theorem ConversationTask.run_onePerPair_iff (h : s.Sound) (hone : s.OnePerPair) (t : ConversationTask) :
    (t.run s).1.OnePerPair ↔ t.FindsNone s := by
  have hsound := h.run t
  cases t with
  | findTarget => exact iff_of_true hone trivial
  | findExisting now a b =>
    refine iff_of_true (hsound.onePerPair_iff.mpr ?_) trivial
    cases hfound : s.db.directOf a b with
    | none =>
      rw [run_findExisting_none hfound]
      exact hone.unique
    | some existing =>
      rw [run_findExisting_some hfound]
      exact hone.unique
  | createDirect now a b =>
    by_cases hkeys : ∀ m ∈ directMembers a b, ∃ u ∈ s.db.users, u.id = m.1
    · rw [run_createDirect hkeys] at hsound ⊢
      have hiff := h.unique_found hone rfl hsound
      rw [directMembers_toFinset] at hiff
      refine hiff.trans ?_
      show _ ↔ (_ → _)
      rw [directOf_eq_none h.paired]
      exact ⟨fun hfresh _ => hfresh rfl, fun hfresh _ => hfresh hkeys⟩
    · rw [run_createDirect_fails hkeys]
      exact iff_of_true hone.failed fun hall => absurd hall hkeys
  | createGroup => exact iff_of_true (h.onePerPair_create hone nofun) trivial
  | createChannel => exact iff_of_true (h.onePerPair_create hone nofun) trivial

end

/-! ## Every interleaving -/

/-- The handlers of `getOrCreateDirect` leave one conversation to two users, and return it, throughout a
run if and only if none creates one after another has done so since its lookup. -/
theorem direct_chats_iff (users : List User) (devices : List Device)
    (run : List (PoolEvent ConversationRequest)) :
    (conversationMachine users devices).Throughout (·.store.OnePerPair)
        (conversationMachine users devices).init run ↔
      ((conversationMachine users devices).restrict fun p e =>
        p.Meets ConversationTask.FindsNone e).Allowed (conversationMachine users devices).init run := by
  refine Handlers.throughout_iff (I := ConversationStore.Sound) (A := fun _ _ => True)
    (fun _ _ _ => trivial) (fun t s h _ _ => ⟨h.run t, fun _ _ => trivial, fun _ _ => trivial⟩)
    (fun t s h _ hone => ConversationTask.run_onePerPair_iff h hone t) ⟨⟨?_, ?_⟩, ?_⟩ ⟨?_, ?_⟩ run
  · exact ⟨List.forall_mem_nil _, List.forall_mem_nil _, List.forall_mem_nil _⟩
  · exact List.forall_mem_nil _
  · exact List.forall_mem_nil _
  · exact List.forall_mem_nil _
  · exact List.forall_mem_nil _

/-- From its lookup on, a handler with nothing in between does what `getOrCreateDirect` does. -/
theorem findExisting_alone {s : ConversationStore} {now : Time} {a b : UserId} (n : Nat)
    (hknown : a ≠ b → s.db.user? b ≠ none) :
    (conversationHandlers.alone (n + 2) (.findExisting now a b) s).db =
      ((getOrCreateDirect now a b).exec s.db).2 := by
  have hcheck : ((Program.when (a ≠ b) do
      let target ← findUser b
      demand (target ≠ none) (.notFound "User not found")).exec s.db) = (.ok ⟨⟩, s.db) := by
    unfold Program.when
    split
    · simp only [findUser, exec_bind, exec_reads, exec_demand, if_pos (hknown ‹_›)]
    · rfl
  simp only [getOrCreateDirect, exec_bind, hcheck, exec_reads]
  cases hfound : s.db.directOf a b with
  | some existing =>
    rw [Handlers.alone_finishes (n + 1) (ConversationTask.run_findExisting_some hfound)]
    rfl
  | none =>
    rw [Handlers.alone_goes_on (n + 1) (ConversationTask.run_findExisting_none hfound)]
    show _ = ((createConversation now .direct none none a (directMembers a b)).exec s.db).2
    rw [createConversation_exec]
    by_cases hkeys : ∀ m ∈ directMembers a b, ∃ u ∈ s.db.users, u.id = m.1
    · rw [Handlers.alone_finishes n (ConversationTask.run_createDirect hkeys), if_pos hkeys]
      rfl
    · rw [Handlers.alone_finishes n (ConversationTask.run_createDirect_fails hkeys), if_neg hkeys]

theorem getOrCreateDirect_alone {s : ConversationStore} {now : Time} {a b : UserId} :
    (conversationHandlers.alone 3 (ConversationRequest.getOrCreateDirect now a b).start s).db =
      ((getOrCreateDirect now a b).exec s.db).2 := by
  by_cases hself : a = b
  · rw [show (ConversationRequest.getOrCreateDirect now a b).start = .findExisting now a b from if_pos hself]
    exact findExisting_alone 1 fun hne => absurd hself hne
  rw [show (ConversationRequest.getOrCreateDirect now a b).start = .findTarget now a b from if_neg hself]
  by_cases hnone : s.db.user? b = none
  · have hrun : conversationHandlers.run (.findTarget now a b) s = (s, none) := by
      simp only [conversationHandlers, ConversationTask.run, if_pos hnone]
    rw [Handlers.alone_finishes 2 hrun]
    simp [getOrCreateDirect, Program.when, hself, findUser, exec_bind, exec_demand, hnone]
  · have hrun : conversationHandlers.run (.findTarget now a b) s = (s, some (.findExisting now a b)) := by
      simp only [conversationHandlers, ConversationTask.run, if_neg hnone]
    rw [Handlers.alone_goes_on 2 hrun]
    exact findExisting_alone 0 fun _ => hnone

/-- Right after its own lookup, a call may create. -/
theorem findsNone_after_lookup {s s' : ConversationStore} {now : Time} {a b : UserId} {t : ConversationTask}
    (h : (ConversationTask.findExisting now a b).run s = (s', some t)) : t.FindsNone s' := by
  cases hfound : s.db.directOf a b with
  | none =>
    rw [ConversationTask.run_findExisting_none hfound] at h
    cases h
    exact fun _ => hfound
  | some existing =>
    rw [ConversationTask.run_findExisting_some hfound] at h
    cases (Prod.mk.inj h).2

/-- Both users open the chat at the same time. -/
def bothOpen : List (PoolEvent ConversationRequest) :=
  [.call (.getOrCreateDirect 5 1 2), .call (.getOrCreateDirect 5 2 1), .resume 0, .resume 1, .resume 0,
    .resume 1, .resume 0, .resume 0]

theorem two_direct_chats : ¬∀ (users : List User) (devices : List Device)
    (run : List (PoolEvent ConversationRequest)),
    (conversationMachine users devices).Throughout (·.store.OnePerPair)
      (conversationMachine users devices).init run := by
  intro hall
  have hrun := (hall [⟨1, [], [], [], none, false, 0⟩, ⟨2, [], [], [], none, false, 0⟩] [] bothOpen).last
  have hsame := hrun.unique ⟨1, .direct, none, none, none, 1, 5, 5⟩ (by decide)
    ⟨2, .direct, none, none, none, 2, 5, 5⟩ (by decide) rfl rfl (by decide)
  cases hsame

end Vesper.Server
