import Vesper.Server.Ownership

/-!
# Who writes in channels

Only owners and admins of a channel are to post in it. The history of a run keeps the role in which
every message was created, whatever becomes of the sender afterwards.
-/

namespace Vesper.Server
open Program

/-! ## Authorship -/

/-- The messages that a step creates, each with the role of its sender in the conversation. -/
def Gateway.births (s s' : Gateway) : List (MessageId × Option MemberRole) :=
  (s'.db.messages.filter fun m => s.db.message? m.id = none).map fun m =>
    (m.id, (s.db.member? m.conversationId m.senderId).map (·.role))

/-- The runs of the server, with the messages they have created. -/
def authorship (env : Environment) (users : List User) (devices : List Device) :
    Machine (Gateway × List (MessageId × Option MemberRole)) (Time × Input) :=
  (gateway env users devices).record [] fun s input births => births ++ s.births (s.next env input)

/-- Every message of a channel was created by one who was owner or admin then. -/
def Database.WrittenByAdmins (db : Database) (births : List (MessageId × Option MemberRole)) : Prop :=
  ∀ m ∈ db.messages, ∀ conv ∈ db.conversation? m.conversationId, conv.type = .channel →
    (m.id, some .owner) ∈ births ∨ (m.id, some .admin) ∈ births

/-- The steps that keep plain members from writing in channels: what is forwarded is forwarded by one
who may also post. -/
def Gateway.KeepsChannels (s : Gateway) (now : Time) : Input → Prop
  | .event socket (.forwardMessage id c _) => ∀ k ∈ s.socket? socket, s.Lets now k.userId .forward →
      s.db.MayForward k.userId c id → s.db.ledger.MayPost k.userId c
  | .call u (.forwardMessage id c) => s.db.MayForward u c id → s.db.ledger.MayPost u c
  | _ => True

/-! ## The ledger -/

def Ledger.WrittenByAdmins (l : Ledger) (births : List (MessageId × Option MemberRole)) : Prop :=
  ∀ p ∈ l.postings, l.type? p.conversationId = some .channel →
    (p.id, some .owner) ∈ births ∨ (p.id, some .admin) ∈ births

section
variable {s : Gateway} {env : Environment} {now : Time} {input : Input} {l : Ledger}
  {births : List (MessageId × Option MemberRole)}

theorem writtenByAdmins_iff {db : Database} :
    db.WrittenByAdmins births ↔ db.ledger.WrittenByAdmins births := by
  simp only [Database.WrittenByAdmins, Ledger.WrittenByAdmins, Database.type?_ledger,
    Option.map_eq_some_iff]
  simp only [Database.ledger, List.forall_mem_map, Message.posting]
  refine forall₂_congr fun m _ => ?_
  constructor
  · rintro h ⟨conv, hconv, htype⟩
    exact h conv hconv htype
  · exact fun h conv hconv htype => h ⟨conv, hconv, htype⟩

theorem births_ledger {s s' : Gateway} : s.births s' =
    (s'.db.ledger.postings.filter fun p => s.db.ledger.posting? p.id = none).map fun p =>
      (p.id, s.db.ledger.roleOf p.conversationId p.senderId) := by
  rw [show s'.db.ledger.postings = s'.db.messages.map (·.posting) from rfl, List.filter_map, List.map_map]
  simp only [Gateway.births, Function.comp_def, Message.posting, Database.posting?_ledger, roleOf_ledger,
    Option.map_eq_none_iff]

/-- No posting is new where none is added. -/
theorem births_of_fixed {s s' : Gateway}
    (h : s'.db.ledger.postings.map (·.fixed) = s.db.ledger.postings.map (·.fixed)) :
    s.births s' = [] := by
  rw [births_ledger, List.map_eq_nil_iff, List.filter_eq_nil_iff]
  intro p hp
  have hfixed : p.fixed ∈ s.db.ledger.postings.map (·.fixed) := h ▸ List.mem_map_of_mem hp
  obtain ⟨p', hp', heq⟩ := List.mem_map.mp hfixed
  have hid : p'.fixed.id = p.fixed.id := congrArg Posting.id heq
  rw [decide_eq_true_eq, Ledger.posting?, List.find?_eq_none]
  intro hnone
  have hne : p'.id ≠ p.id := by simpa using hnone p' hp'
  exact hne hid

theorem births_of_post {s s' : Gateway} {p : Posting} (hkeyed : s.db.Keyed)
    (hid : p.id = s.db.nextMessageId) (h : s'.db.ledger = s.db.ledger.post p) :
    s.births s' = [(p.id, s.db.ledger.roleOf p.conversationId p.senderId)] := by
  have hold : s.db.ledger.postings.filter (fun p => s.db.ledger.posting? p.id = none) = [] := by
    rw [List.filter_eq_nil_iff]
    intro p hp
    rw [decide_eq_true_eq, Ledger.posting?, List.find?_eq_none]
    intro hnone
    simpa using hnone p hp
  have hnew : s.db.ledger.posting? p.id = none := by
    rw [Ledger.posting?, List.find?_eq_none]
    intro p' hp'
    simpa [hid] using posted_fresh hkeyed p' hp'
  rw [births_ledger, h, Ledger.post, List.filter_append, hold]
  simp [hnew]

theorem mayPost_iff {u : UserId} {c : ConversationId} {seat : Seat} (htype : (s.db.ledger.type? c).isSome)
    (hseat : s.db.ledger.seat? c u = some seat) :
    s.db.ledger.MayPost u c ↔ (s.db.ledger.type? c = some .channel →
      seat.role = .owner ∨ seat.role = .admin) := by
  obtain ⟨t, ht⟩ := Option.isSome_iff_exists.mp htype
  have hrole : seat.role ≠ .member ↔ seat.role = .owner ∨ seat.role = .admin := by
    cases seat.role <;> simp
  simp [Ledger.MayPost, hseat, ht, hrole]

/-- **A new posting** in the name of a member is by an owner or admin if it is in a channel, if and
only if the member may post. -/
theorem written_post {s' : Gateway} {p : Posting} (hkeyed : s.db.Keyed)
    (hbirths : ∀ b ∈ births, ∃ p ∈ s.db.ledger.postings, p.id = b.1)
    (h : s.db.ledger.WrittenByAdmins births) (hid : p.id = s.db.nextMessageId)
    (htype : (s.db.ledger.type? p.conversationId).isSome) {seat : Seat}
    (hseat : s.db.ledger.seat? p.conversationId p.senderId = some seat)
    (hs' : s'.db.ledger = s.db.ledger.post p) :
    s'.db.ledger.WrittenByAdmins (births ++ s.births s') ↔
      s.db.ledger.MayPost p.senderId p.conversationId := by
  have hrole : s.db.ledger.roleOf p.conversationId p.senderId = some seat.role := by
    rw [Ledger.roleOf, hseat]
    rfl
  rw [births_of_post hkeyed hid hs', hrole, hs', mayPost_iff htype hseat]
  have hnew : ∀ role, (p.id, some role) ∈ births ++ [(p.id, some seat.role)] ↔ seat.role = role := by
    intro role
    rw [List.mem_append, List.mem_singleton, Prod.mk.injEq, Option.some_inj]
    refine ⟨fun h => h.elim (fun hold => ?_) fun h => h.2.symm, fun h => .inr ⟨rfl, h.symm⟩⟩
    obtain ⟨p', hp', hid'⟩ := hbirths _ hold
    exact absurd (hid'.trans hid) (posted_fresh hkeyed p' hp')
  constructor
  · intro hafter hchannel
    have hp := hafter p (List.mem_append_right _ List.mem_cons_self) hchannel
    rwa [hnew, hnew] at hp
  · intro hmay p' hp' hchannel
    rcases List.mem_append.mp hp' with hp' | hp'
    · exact (h p' hp' hchannel).imp (List.mem_append_left _) (List.mem_append_left _)
    · obtain rfl := List.mem_singleton.mp hp'
      rw [hnew, hnew]
      exact hmay hchannel

/-! ## Every step -/

/-- What every step keeps. -/
structure Recorded (s : Gateway) (births : List (MessageId × Option MemberRole)) : Prop where
  keyed : s.db.Keyed
  sound : s.db.ledger.Sound
  placed : s.db.ledger.Placed
  births : ∀ b ∈ births, ∃ p ∈ s.db.ledger.postings, p.id = b.1

/-- The condition on the step, for the one message that it forwards. -/
theorem keepsChannels_forward {u : UserId} {id : MessageId} {c : ConversationId}
    (h : s.Forwards now u id c input) (hmay : s.db.MayForward u c id) :
    s.KeepsChannels now input ↔ s.db.ledger.MayPost u c := by
  obtain ⟨socket, reEncrypted, k, rfl, hk, rfl, hlets⟩ | rfl := forwards_cases h
  · refine ⟨fun h => h k hk hlets hmay, fun h k' hk' _ _ => ?_⟩
    obtain rfl := Option.some.inj (hk.symm.trans hk')
    exact h
  · exact ⟨fun h => h hmay, fun h _ => h⟩

/-- A step that forwards nothing meets the condition. -/
theorem keepsChannels_of_not (h : ∀ u id c, s.Forwards now u id c input → ¬s.db.MayForward u c id) :
    s.KeepsChannels now input := by
  unfold Gateway.KeepsChannels
  split
  · exact fun k hk hlets hmay => absurd hmay (h _ _ _ ⟨⟨rfl, rfl⟩, k, hk, rfl, hlets⟩)
  · exact fun hmay => absurd hmay (h _ _ _ ⟨⟨rfl, rfl⟩, rfl⟩)
  · trivial

theorem sends_not_forwards {u v : UserId} {data : SendMessage} {id : MessageId} {c : ConversationId}
    (hsends : s.Sends u data input) : ¬s.Forwards now v id c input := by
  intro hforwards
  obtain ⟨_, _, _, rfl, -⟩ | rfl := forwards_cases hforwards <;> exact hsends

/-- **One step**: plain members have written nothing in channels still if and only if the step keeps
it so. -/
theorem next_written (hs : Recorded s births) (henabled : s.Enabled now input) :
    Recorded (s.next env (now, input)) (births ++ s.births (s.next env (now, input))) ∧
      (s.db.ledger.WrittenByAdmins births →
        ((s.next env (now, input)).db.ledger.WrittenByAdmins
          (births ++ s.births (s.next env (now, input))) ↔ s.KeepsChannels now input)) := by
  have hyields : s.Yields now input (s.next env (now, input)).db.ledger :=
    next_yields hs.keyed (sound_ids hs.sound) henabled
  have hkeyed : (s.next env (now, input)).db.Keyed := next_keyed hs.keyed
  have hsound : (s.next env (now, input)).db.ledger.Sound := next_sound hs.keyed hs.sound henabled
  have htypes := fun c => hyields.type? (c := c) hs.sound
  have hplaced := hyields.placed hs.sound hs.placed
  -- a step that posts
  have hpost : ∀ p : Posting, p.id = s.db.nextMessageId →
      (s.db.ledger.type? p.conversationId).isSome →
      (∃ seat, s.db.ledger.seat? p.conversationId p.senderId = some seat) →
      (s.next env (now, input)).db.ledger = s.db.ledger.post p →
      (s.KeepsChannels now input ↔ s.db.ledger.MayPost p.senderId p.conversationId) →
      Recorded (s.next env (now, input)) (births ++ s.births (s.next env (now, input))) ∧
      (s.db.ledger.WrittenByAdmins births →
        ((s.next env (now, input)).db.ledger.WrittenByAdmins
          (births ++ s.births (s.next env (now, input))) ↔ s.KeepsChannels now input)) := by
    rintro p hid htype ⟨seat, hseat⟩ hledger hcond
    refine ⟨⟨hkeyed, hsound, hplaced, ?_⟩, fun h =>
      (written_post hs.keyed hs.births h hid htype hseat hledger).trans hcond.symm⟩
    rw [births_of_post hs.keyed hid hledger, hledger]
    intro b hb
    rcases List.mem_append.mp hb with hb | hb
    · obtain ⟨p', hp', hid'⟩ := hs.births b hb
      exact ⟨p', List.mem_append_left _ hp', hid'⟩
    · rw [List.mem_singleton.mp hb]
      exact ⟨p, List.mem_append_right _ List.mem_cons_self, rfl⟩
  obtain ⟨hfixed, hnot⟩ | ⟨u, data, hsends, hmay, -, hledger⟩ | ⟨u, id, c, hforwards, hmay, hledger⟩ :=
    hyields.postings
  · rw [births_of_fixed hfixed, List.append_nil]
    refine ⟨⟨hkeyed, hsound, hplaced, fun b hb => ?_⟩, fun h =>
      iff_of_true (fun p hp hchannel => ?_) (keepsChannels_of_not hnot)⟩
    · obtain ⟨p, hp, hid⟩ := hs.births b hb
      obtain ⟨p', hp', hid', -, -⟩ := fixed_of_mem hfixed.symm hp
      exact ⟨p', hp', hid'.trans hid⟩
    · obtain ⟨p', hp', hid, -, hc⟩ := fixed_of_mem hfixed hp
      rw [← hc, htypes _ (hs.placed p' hp')] at hchannel
      rw [← hid]
      exact h p' hp' hchannel
  · obtain ⟨seat, hseat, t, ht, hrole⟩ := hmay
    refine hpost (s.db.saved now u data.conversationId (data.dto now)) rfl ?_ ⟨seat, hseat⟩ hledger ?_
    · exact Option.isSome_iff_exists.mpr ⟨t, ht⟩
    · exact iff_of_true (keepsChannels_of_not fun _ _ _ hf => absurd hf (sends_not_forwards hsends))
        ⟨seat, hseat, t, ht, hrole⟩
  · obtain ⟨htype, hseat⟩ := mayForward_placed hmay
    exact hpost (s.db.forwarded now u c id) rfl htype hseat hledger (keepsChannels_forward hforwards hmay)

end

instance (s : Gateway) (now : Time) (input : Input) : Decidable (s.KeepsChannels now input) := by
  unfold Gateway.KeepsChannels
  split <;> infer_instance

instance (env : Environment) (users : List User) (devices : List Device)
    (s : Gateway × List (MessageId × Option MemberRole)) (e : Time × Input) :
    Decidable ((authorship env users devices).enabled s e) :=
  inferInstanceAs (Decidable ((gateway env users devices).enabled s.1 e))

instance (db : Database) (births : List (MessageId × Option MemberRole)) :
    Decidable (db.WrittenByAdmins births) :=
  inferInstanceAs (Decidable (∀ m ∈ db.messages, ∀ conv ∈ db.conversation? m.conversationId, _ → _ ∨ _))

/-- User 1 founds a channel, makes user 2 an admin and user 3 a member, and user 2 writes and forwards
what was written. -/
def newsRun : List (Time × Input) := [
  (0, .call 1 (.createChannel [0x4E] none)), (1, .call 1 (.addMember 1 2)),
  (2, .call 1 (.addMember 1 3)), (3, .call 1 (.setRole 1 2 (some "ADMIN"))), (4, .connect 20 2 []),
  (5, .event 20 (.sendMessage (sampleMessage 1))), (6, .event 20 (.forwardMessage 1 1 none)),
  (7, .call 1 (.setRole 1 2 (some "MEMBER")))]

/-- User 3 forwards the message in the place of user 2. -/
def forwardRun : List (Time × Input) := newsRun.take 6 ++ [(6, .call 3 (.forwardMessage 1 1))]

end Vesper.Server
