import Vesper.Server.Mentions
import Vesper.Server.Noninterference
import Vesper.Server.Scheduling
import Vesper.Server.Watermarks
import Mathlib.Logic.Relation

/-!
# Scheduled messages stay hidden

A message that is scheduled is hidden from everybody but its sender until its time comes. The queries
of the server see to that; replies, copies, pins and the events that change a message do not. The
theorem says under which conditions on the requests nothing of such a message comes out all the same.
-/

namespace Vesper.Server
open Program

/-- The first message shows the content of the second one, which it was forwarded from, perhaps by way
of others. -/
def Ledger.StemsFrom (l : Ledger) : MessageId → MessageId → Prop :=
  Relation.ReflTransGen fun id origin => ∃ p ∈ l.postings, p.id = id ∧ p.forwardedFromId = some origin

/-- What the last step has sent to a user shows nothing of another user's message whose time has not
come. -/
def Gateway.Hidden (s : Gateway) (clock : Time) : Prop :=
  ∀ v, ∀ e ∈ s.received v, ∀ id ∈ e.mentions, ∀ m ∈ s.db.messages, s.db.ledger.StemsFrom id m.id →
    m.senderId ≠ v → ∀ time ∈ m.scheduledAt, time ≤ clock

/-- The time of the message has not come. -/
def Message.Ahead (m : Message) (now : Time) : Prop := ∃ time ∈ m.scheduledAt, now < time

namespace Gateway
variable (s : Gateway) (env : Environment) (now : Time)

/-- Only the user's sockets are in the room. -/
def Private (c : ConversationId) (u : UserId) : Prop := ∀ k ∈ s.sockets, c ∈ k.rooms → k.userId = u

/-- A request that touches a message ahead of its time, as far as it does not give the message away. A
reply comes from the sender and not before the message; an event about the message stays in a room with
nobody else; the message is not pinned and not forwarded. -/
def KeepsEvent (k : Socket) : Request → Prop
  | .sendMessage data => s.Stores env now k.userId data →
      (∀ time ∈ data.deliverAt now, time - now ≤ MAX_DELAY) ∧
      ∀ id ∈ data.replyToId, ∀ m ∈ s.db.message? id, m.Ahead now →
        m.senderId = k.userId ∧ ∃ due ∈ data.deliverAt now, ¬m.Ahead due
  | .deleteMessage id => s.Lets now k.userId .mutate → ∀ m ∈ s.db.message? id, m.Ahead now →
      s.db.MayDelete k.userId m ∧ s.Private m.conversationId m.senderId
  | .editMessage id content => s.Lets now k.userId .mutate → ∀ m ∈ s.db.message? id, m.Ahead now →
      m.senderId = k.userId ∧ (m.Editable now k.userId content → s.Private m.conversationId m.senderId)
  | .toggleReaction id emoji => s.Lets now k.userId .react → ∀ m ∈ s.db.message? id, m.Ahead now →
      s.db.MayReact k.userId emoji m → s.Private m.conversationId m.senderId
  | .pinMessage c id => s.Lets now k.userId .mutate → ∀ m ∈ s.db.message? id, m.Ahead now →
      ¬s.db.MayPin k.userId c id
  | .forwardMessage id c _ => s.Lets now k.userId .forward → ∀ m ∈ s.db.message? id, m.Ahead now →
      ¬s.db.MayForward k.userId c id
  | _ => True

def KeepsCall (u : UserId) : Route → Prop
  | .pinMessage c id => ∀ m ∈ s.db.message? id, m.Ahead now → ¬s.db.MayPin u c id
  | .unpinMessage c id => ∀ m ∈ s.db.message? id, m.Ahead now →
      (∃ member ∈ s.db.member? c u, member.role ≠ .member) → m.senderId = u
  | .forwardMessage id c => ∀ m ∈ s.db.message? id, m.Ahead now → ¬s.db.MayForward u c id
  | _ => True

/-- The steps that give nothing away. -/
def KeepsSecret : Input → Prop
  | .event socket request => ∀ k ∈ s.socket? socket, s.KeepsEvent env now k request
  | .call u route => s.KeepsCall now u route
  | _ => True

end Gateway

/-! ## What is stored -/

/-- The time of the message has come. -/
def Posting.Open (p : Posting) (now : Time) : Prop := ∀ time ∈ p.scheduledAt, time ≤ now

/-- Nothing that is stored shows a message before its time: a reply is as late as what it shows, or the
time of that has come; so it has for what was forwarded or pinned. -/
structure Guarded (l : Ledger) (clock : Time) : Prop where
  replies : ∀ p ∈ l.record, ∀ id ∈ p.replyToId, ∃ q ∈ l.record, q.id = id ∧
    (q.Open clock ∨ q.senderId = p.senderId ∧ ∃ due ∈ p.scheduledAt, q.Open due)
  copies : ∀ p ∈ l.record, ∀ id ∈ p.forwardedFromId, ∃ q ∈ l.record, q.id = id ∧ q.Open clock
  pins : ∀ pin ∈ l.pins, ∃ q ∈ l.record, q.id = pin.2 ∧ q.Open clock

/-- The message that a step posts. -/
inductive Gateway.Posts (s : Gateway) (env : Environment) (now : Time) : Input → Posting → Prop
  | sent : s.socket? socket = some k → s.Stores env now k.userId data →
      Posts s env now (.event socket (.sendMessage data)) (s.sent now k.userId data)
  | forwarded {i : MessageId} : s.Forwards now u i c input → s.db.MayForward u c i →
      Posts s env now input (s.db.forwarded now u c i)

section
variable {s : Gateway} {env : Environment} {now clock : Time} {input : Input} {l : Ledger}

theorem Posting.Open.mono {p : Posting} (h : p.Open clock) (hclock : clock ≤ now) : p.Open now :=
  fun time htime => (h time htime).trans hclock

theorem ahead_or_open (m : Message) (now : Time) : m.Ahead now ∨ m.posting.fixed.Open now := by
  by_cases h : m.Ahead now
  · exact .inl h
  · exact .inr fun time htime => Int.not_lt.mp fun hlt => h ⟨time, htime, hlt⟩

/-- The row of a posting. -/
theorem record_message (hkeyed : s.db.Keyed) {p : Posting} (hp : p ∈ s.db.ledger.record) :
    ∃ m, s.db.message? p.id = some m ∧ m.posting.fixed = p := by
  obtain ⟨q, hq, rfl⟩ := List.mem_map.mp hp
  obtain ⟨m, hm, rfl⟩ := List.mem_map.mp hq
  exact ⟨m, hkeyed.message? hm, rfl⟩

theorem message_record {id : MessageId} {m : Message} (hm : s.db.message? id = some m) :
    m.posting.fixed ∈ s.db.ledger.record ∧ m.posting.fixed.id = id := by
  have hid : m.id = id := by simpa using List.find?_some hm
  exact ⟨List.mem_map_of_mem (List.mem_map_of_mem (List.mem_of_find?_eq_some hm)), hid⟩

/-- The input pins the message, and no limit and no check stands in the way. -/
def Gateway.Pins (s : Gateway) (now : Time) (c : ConversationId) (id : MessageId) : Input → Prop
  | .event socket (.pinMessage c' id') => (c' = c ∧ id' = id) ∧
      ∃ k ∈ s.socket? socket, s.Lets now k.userId .mutate ∧ s.db.MayPin k.userId c id
  | .call u (.pinMessage c' id') => (c' = c ∧ id' = id) ∧ s.db.MayPin u c id
  | _ => False

/-- **Where pins come from**. -/
theorem Gateway.Yields.pins (h : s.Yields now input l) :
    ∀ pin ∈ l.pins, pin ∈ s.db.ledger.pins ∨ s.Pins now pin.1 pin.2 input := by
  have hsame : ∀ {l : Ledger}, l.pins = s.db.ledger.pins → ∀ pin ∈ l.pins,
      pin ∈ s.db.ledger.pins ∨ s.Pins now pin.1 pin.2 input := fun hpins pin hpin => .inl (hpins ▸ hpin)
  have hpin : ∀ {checks c id l}, s.YieldsPin checks c id l → (checks → s.Pins now c id input) →
      ∀ pin ∈ l.pins, pin ∈ s.db.ledger.pins ∨ s.Pins now pin.1 pin.2 input := by
    rintro checks c id _ (rfl | ⟨hchecks, rfl⟩) hpins pin hpin
    · exact .inl hpin
    · unfold Ledger.pin at hpin
      split at hpin
      · exact .inl hpin
      · refine (List.mem_append.mp hpin).imp_right fun hpin => ?_
        obtain rfl := List.mem_singleton.mp hpin
        exact hpins hchecks
  have hunpin : ∀ {c id l}, s.YieldsUnpin c id l → ∀ pin ∈ l.pins,
      pin ∈ s.db.ledger.pins ∨ s.Pins now pin.1 pin.2 input := by
    rintro c id _ (rfl | rfl) pin hpin
    · exact .inl hpin
    · exact .inl (List.mem_filter.mp hpin).1
  have hforward : ∀ {u id c l}, s.YieldsForward now u id c l → l.pins = s.db.ledger.pins := by
    rintro u id c _ (⟨-, rfl⟩ | ⟨-, rfl⟩) <;> rfl
  cases input with
  | event socket request =>
    obtain ⟨k, hk, h⟩ := h
    cases request with
    | sendMessage data => exact hsame (h.elim (congrArg _) fun h => by rw [h.2.2]; rfl)
    | markAsRead c => exact hsame (by rw [h]; rfl)
    | deleteMessage id => exact hsame (h.elim (congrArg _) fun h => by rw [h]; rfl)
    | pinMessage c id => exact hpin h fun hchecks => ⟨⟨rfl, rfl⟩, k, hk, hchecks⟩
    | unpinMessage c id => exact hunpin h
    | forwardMessage id c reEncrypted =>
      simp only [YieldsEvent] at h
      split at h
      · exact hsame (hforward h)
      · exact hsame (congrArg _ h)
    | _ => exact hsame (congrArg _ h)
  | call u route =>
    cases route with
    | createDirect target =>
      obtain h | rfl | ⟨members, -, rfl⟩ := h
      · exact hsame (congrArg _ h)
      · exact hsame rfl
      · exact hsame rfl
    | createGroup name description memberIds => obtain rfl | rfl := h <;> exact hsame rfl
    | createChannel name description => obtain rfl | rfl := h <;> exact hsame rfl
    | clearMessages c scope =>
      obtain ⟨-, h⟩ | ⟨-, rfl⟩ := h
      · exact hsame (congrArg _ h)
      · cases scope with
        | self => exact hsame rfl
        | both => exact fun pin hpin => .inl (List.mem_filter.mp hpin).1
    | addMember c target =>
      obtain ⟨-, h⟩ | ⟨-, rfl⟩ := h
      · exact hsame (congrArg _ h)
      · exact hsame rfl
    | removeMember c target =>
      by_cases hmay : s.db.ledger.MayRemove u c target
      · exact hsame (by rw [h.1 hmay]; rfl)
      · exact hsame (congrArg _ (h.2 hmay))
    | setRole c target role =>
      obtain ⟨-, h⟩ | ⟨-, seat, -, rfl⟩ := h
      · exact hsame (congrArg _ h)
      · exact hsame rfl
    | pinMessage c id => exact hpin h fun hchecks => ⟨⟨rfl, rfl⟩, hchecks⟩
    | unpinMessage c id => exact hunpin h
    | forwardMessage id c => exact hsame (hforward h)
    | _ => exact hsame (congrArg _ h)
  | timeout timer =>
    obtain h | ⟨t, -, rfl⟩ := h
    · exact hsame (congrArg _ h)
    · exact hsame rfl
  | _ => exact hsame (congrArg _ h)

theorem Gateway.Posts.id_eq {p : Posting} (h : s.Posts env now input p) : p.id = s.db.nextMessageId := by
  cases h <;> rfl

theorem Gateway.Posts.fixed {p : Posting} (h : s.Posts env now input p) : p.fixed = p := by
  cases h <;> rfl

theorem Gateway.Schedules.posts {a : Agenda} (h : s.Schedules env now input l a) :
    l.record = s.db.ledger.record ∨ ∃ p, s.Posts env now input p ∧ l = s.db.ledger.post p := by
  cases h with
  | scheduled hk haccepts _ => exact .inr ⟨_, .sent hk haccepts.1, rfl⟩
  | sent hk haccepts _ => exact .inr ⟨_, .sent hk haccepts.1, rfl⟩
  | orphaned hk hstores _ => exact .inr ⟨_, .sent hk hstores, rfl⟩
  | forwarded hforwards hmay _ => exact .inr ⟨_, .forwarded hforwards hmay, rfl⟩
  | delivered => exact .inl rfl
  | dropped _ _ hfixed _ => exact .inl hfixed
  | restarted => exact .inl rfl
  | kept _ _ _ hfixed => exact .inl hfixed

theorem Gateway.Schedules.mem_record {a : Agenda} (h : s.Schedules env now input l a) {p : Posting}
    (hp : p ∈ l.record) : p ∈ s.db.ledger.record ∨ s.Posts env now input p := by
  obtain hsame | ⟨q, hq, rfl⟩ := h.posts
  · exact .inl (hsame ▸ hp)
  · rw [record_post] at hp
    refine (List.mem_append.mp hp).imp_right fun hp => ?_
    obtain rfl := List.mem_singleton.mp hp
    rwa [hq.fixed]

/-! ## Who is told -/

/-- What is sent to the target reaches the user. -/
def Gateway.Reaches (s : Gateway) (target : Target) (v : UserId) : Prop :=
  target = .caller v ∨ target = .subscriptions v ∨ ∃ k ∈ s.receivers target, k.userId = v

/-- What is sent to the target reaches nobody but the user. -/
def Gateway.OnlyTo (s : Gateway) (target : Target) (u : UserId) : Prop := ∀ v, s.Reaches target v → v = u

theorem onlyTo_caller {u : UserId} : s.OnlyTo (.caller u) u := by
  rintro v (h | h | ⟨k, hk, -⟩)
  · exact (Target.caller.inj h).symm
  · cases h
  · cases hk

theorem onlyTo_room {c : ConversationId} {u : UserId} (h : s.Private c u) : s.OnlyTo (.room c) u := by
  rintro v (hv | hv | ⟨k, hk, rfl⟩)
  · cases hv
  · cases hv
  · simp only [Gateway.receivers, List.mem_filter, decide_eq_true_eq] at hk
    exact h k hk.1 hk.2

theorem onlyTo_client {socket : SocketId} {k : Socket} (hids : (s.sockets.map (·.id)).Nodup)
    (hk : s.socket? socket = some k) : s.OnlyTo (.client k.id) k.userId := by
  rintro v (hv | hv | ⟨k', hk', rfl⟩)
  · cases hv
  · cases hv
  · simp only [Gateway.receivers, List.mem_filter, decide_eq_true_eq] at hk'
    rw [List.inj_on_of_nodup_map hids hk'.1 (List.mem_of_find?_eq_some hk) hk'.2]

/-! ## One step -/

theorem lt_of_message (hkeyed : s.db.Keyed) {id : MessageId} {m : Message} (hm : s.db.message? id = some m) :
    id < s.db.nextMessageId := by
  have hid : m.id = id := by simpa using List.find?_some hm
  exact hid ▸ hkeyed.below m (List.mem_of_find?_eq_some hm)

/-- A message that refers to one ahead of its time comes from the same sender, and is ahead itself. -/
theorem Guarded.ahead (hguarded : Guarded s.db.ledger clock) (hkeyed : s.db.Keyed) (hclock : clock ≤ now)
    {m m' : Message} {id : MessageId} (hm' : m' ∈ s.db.messages) (hm : s.db.message? id = some m)
    (hid : id ∈ m'.posting.refs) (hahead : m.Ahead now) : m'.senderId = m.senderId ∧ m'.Ahead now := by
  obtain ⟨time, htime, hlt⟩ := hahead
  have hrecord : m'.posting.fixed ∈ s.db.ledger.record := List.mem_map_of_mem (List.mem_map_of_mem hm')
  have hrow : ∀ {q : Posting}, q ∈ s.db.ledger.record → q.id = id → q = m.posting.fixed := fun hq hqid =>
    record_unique hkeyed hq (message_record hm).1 (hqid.trans (message_record hm).2.symm)
  have hnot : ¬m.posting.fixed.Open clock := fun hopen =>
    absurd (hlt.trans_le ((hopen time htime).trans hclock)) (lt_irrefl now)
  simp only [Posting.refs, List.mem_cons, List.mem_append, Option.mem_toList] at hid
  obtain rfl | hid | hid := hid
  · obtain rfl := Option.some.inj ((hkeyed.message? hm').symm.trans hm)
    exact ⟨rfl, time, htime, hlt⟩
  · obtain ⟨q, hq, hqid, hopen | ⟨hsender, due, hdue, hopen⟩⟩ := hguarded.replies _ hrecord id hid
    · exact absurd (hrow hq hqid ▸ hopen) hnot
    · obtain rfl := hrow hq hqid
      exact ⟨hsender.symm, due, hdue, hlt.trans_le (hopen time htime)⟩
  · obtain ⟨q, hq, hqid, hopen⟩ := hguarded.copies _ hrecord id hid
    exact absurd (hrow hq hqid ▸ hopen) hnot

/-- A message that the step posts is only told to its sender, unless its time has come. -/
theorem Gateway.Mentions.posted {target : Target} {p : Posting} (h : s.Mentions env now input target p.id)
    (hp : s.Posts env now input p) (hids : (s.sockets.map (·.id)).Nodup) :
    p.Open now ∨ s.OnlyTo target p.senderId := by
  cases hp with
  | forwarded => exact .inl nofun
  | sent hk hstores =>
    generalize hi : (s.sent now _ _).id = i at h
    cases h with
    | scheduled hk' _ _ _ =>
      obtain rfl := Option.some.inj (hk.symm.trans hk')
      exact .inr (onlyTo_client hids hk)
    | sent _ _ hat _ =>
      refine .inl fun time htime => ?_
      cases hat.symm.trans htime

/-- **One step**: a message ahead of its time is only told to its sender, where the step gives nothing
away. -/
theorem Gateway.Mentions.concealed {target : Target} {id : MessageId} {m : Message}
    (h : s.Mentions env now input target id) (hkeyed : s.db.Keyed) (hids : (s.sockets.map (·.id)).Nodup)
    (hguarded : Guarded s.db.ledger clock) (hontime : OnTime s.db.ledger s.timers clock [])
    (hclock : clock ≤ now) (henabled : s.Enabled now input) (hsecret : s.KeepsSecret env now input)
    (hm : s.db.message? id = some m) (hahead : m.Ahead now) : s.OnlyTo target m.senderId := by
  have hold : id ≠ s.db.nextMessageId := Nat.ne_of_lt (lt_of_message hkeyed hm)
  cases h with
  | scheduled hk hstores hat hid =>
    simp only [Posting.refs, List.mem_cons, List.mem_append, Option.mem_toList] at hid
    obtain hid | hid | hid := hid
    · exact absurd hid hold
    · obtain ⟨hsender, -⟩ := (hsecret _ hk hstores).2 id hid m hm hahead
      exact hsender ▸ onlyTo_client hids hk
    · cases hid
  | sent hk hstores hat hid =>
    simp only [Posting.refs, List.mem_cons, List.mem_append, Option.mem_toList] at hid
    obtain hid | hid | hid := hid
    · exact absurd hid hold
    · obtain ⟨-, due, hdue, -⟩ := (hsecret _ hk hstores).2 id hid m hm hahead
      cases hat.symm.trans hdue
    · cases hid
  | deleted hk hlets hm' _ =>
    obtain rfl := Option.some.inj (hm.symm.trans hm')
    exact onlyTo_room (hsecret _ hk hlets m hm hahead).2
  | notDeleted hk hlets hnot => exact absurd (hsecret _ hk hlets m hm hahead).1 (hnot m hm)
  | edited hk hlets hm' hedit =>
    obtain rfl := Option.some.inj (hm.symm.trans hm')
    exact onlyTo_room ((hsecret _ hk hlets m hm hahead).2 hedit)
  | notEdited hk hlets => exact (hsecret _ hk hlets m hm hahead).1 ▸ onlyTo_client hids hk
  | reacted hk hlets hm' hmay =>
    obtain rfl := Option.some.inj (hm.symm.trans hm')
    exact onlyTo_room (hsecret _ hk hlets m hm hahead hmay)
  | pinned hk hlets hmay => exact absurd hmay (hsecret _ hk hlets m hm hahead)
  | forwarded hk hlets hmay hid =>
    simp only [Posting.refs, List.mem_cons, List.mem_append, Option.mem_toList] at hid
    obtain hid | hid | hid := hid
    · exact absurd hid hold
    · cases hid
    · obtain rfl := Option.some.inj hid
      exact absurd hmay (hsecret _ hk hlets m hm hahead)
  | read hm' hvisible hid =>
    obtain ⟨hsender, time, htime, hlt⟩ := hguarded.ahead hkeyed hclock hm' hm hid hahead
    simp only [scheduledFilter, Option.mem_def.mp htime, Option.all_some, Bool.or_eq_true,
      decide_eq_true_eq] at hvisible
    obtain hle | hu := hvisible
    · exact absurd hlt (Int.not_lt.mpr hle)
    · exact hsender ▸ hu ▸ onlyTo_caller
  | listed hpin =>
    obtain ⟨q, hq, hqid, hopen⟩ := hguarded.pins _ hpin
    obtain ⟨time, htime, hlt⟩ := hahead
    obtain rfl := record_unique hkeyed hq (message_record hm).1 (hqid.trans (message_record hm).2.symm)
    exact absurd ((hopen time htime).trans hclock) (Int.not_le.mpr hlt)
  | pinnedFor hmay => exact absurd hmay (hsecret m hm hahead)
  | unpinnedFor hadmin => exact hsecret m hm hahead hadmin ▸ onlyTo_caller
  | forwardedFor hmay hid =>
    simp only [Posting.refs, List.mem_cons, List.mem_append, Option.mem_toList] at hid
    obtain hid | hid | hid := hid
    · exact absurd hid hold
    · cases hid
    · obtain rfl := Option.some.inj hid
      exact absurd hmay (hsecret m hm hahead)
  | delivered ht hm' hid =>
    obtain ⟨t, ht', hdue⟩ := henabled
    obtain rfl := Option.some.inj (ht.symm.trans ht')
    obtain ⟨-, time, htime, hlt⟩ :=
      hguarded.ahead hkeyed hclock (List.mem_of_find?_eq_some hm') hm hid hahead
    obtain ⟨q, hq, hqid, hat⟩ := hontime.timers _ (List.mem_of_getElem? ht)
    obtain rfl := record_unique hkeyed hq (message_record hm').1 (hqid.trans (message_record hm').2.symm)
    obtain rfl := Option.some.inj (hat.symm.trans htime)
    exact absurd hlt (Int.not_lt.mpr hdue)

theorem open_of_not_ahead {m : Message} (h : ¬m.Ahead now) : m.posting.fixed.Open now :=
  (ahead_or_open m now).resolve_left h

theorem Gateway.KeepsSecret.forwards (h : s.KeepsSecret env now input) {u : UserId} {c : ConversationId}
    {id : MessageId} (hforwards : s.Forwards now u id c input) (hmay : s.db.MayForward u c id) {m : Message}
    (hm : s.db.message? id = some m) : ¬m.Ahead now := by
  intro hahead
  obtain ⟨socket, content, k, rfl, hk, rfl, hlets⟩ | rfl := forwards_cases hforwards
  · exact h k hk hlets m hm hahead hmay
  · exact h m hm hahead hmay

theorem Gateway.KeepsSecret.pins (h : s.KeepsSecret env now input) {c : ConversationId} {id : MessageId}
    (hpins : s.Pins now c id input) : ∃ m, s.db.message? id = some m ∧ ¬m.Ahead now := by
  unfold Gateway.Pins at hpins
  split at hpins
  · obtain ⟨⟨rfl, rfl⟩, k, hk, hlets, hmay⟩ := hpins
    obtain ⟨m, hm, -⟩ := hmay.2.1
    exact ⟨m, hm, fun hahead => h k hk hlets m hm hahead hmay⟩
  · obtain ⟨⟨rfl, rfl⟩, hmay⟩ := hpins
    obtain ⟨m, hm, -⟩ := hmay.2.1
    exact ⟨m, hm, fun hahead => h m hm hahead hmay⟩
  · exact hpins.elim

/-- What is stored stays guarded. -/
theorem Guarded.next (hguarded : Guarded s.db.ledger clock) (hclock : clock ≤ now)
    (hsecret : s.KeepsSecret env now input) {a : Agenda} (hstep : s.Schedules env now input l a)
    (hyields : s.Yields now input l) : Guarded l now := by
  have hstays : ∀ {q}, q ∈ s.db.ledger.record → q ∈ l.record := by
    intro q hq
    obtain hsame | ⟨p, -, rfl⟩ := hstep.posts
    · exact hsame ▸ hq
    · exact record_post ▸ List.mem_append_left _ hq
  have hrow : ∀ {id : MessageId} {m : Message}, s.db.message? id = some m → ¬m.Ahead now →
      ∃ q ∈ l.record, q.id = id ∧ q.Open now := fun hm hnot =>
    ⟨_, hstays (message_record hm).1, (message_record hm).2, open_of_not_ahead hnot⟩
  refine ⟨fun p hp id hid => ?_, fun p hp id hid => ?_, fun pin hpin => ?_⟩
  · obtain hp | hp := hstep.mem_record hp
    · obtain ⟨q, hq, hqid, hopen⟩ := hguarded.replies p hp id hid
      exact ⟨q, hstays hq, hqid, hopen.imp_left fun h => h.mono hclock⟩
    cases hp with
    | forwarded => cases hid
    | sent hk hstores =>
      have hreplies := hstores.2.2.2.2.2.2.2.1
      obtain ⟨m, hm⟩ := Option.ne_none_iff_exists'.mp (hreplies id hid)
      by_cases hahead : m.Ahead now
      · obtain ⟨hsender, due, hdue, hnot⟩ := (hsecret _ hk hstores).2 id hid m hm hahead
        exact ⟨_, hstays (message_record hm).1, (message_record hm).2,
          .inr ⟨hsender, due, hdue, open_of_not_ahead hnot⟩⟩
      · obtain ⟨q, hq, hqid, hopen⟩ := hrow hm hahead
        exact ⟨q, hq, hqid, .inl hopen⟩
  · obtain hp | hp := hstep.mem_record hp
    · obtain ⟨q, hq, hqid, hopen⟩ := hguarded.copies p hp id hid
      exact ⟨q, hstays hq, hqid, hopen.mono hclock⟩
    cases hp with
    | sent => cases hid
    | forwarded hforwards hmay =>
      obtain rfl := Option.some.inj hid
      obtain ⟨m, hm, -⟩ := hmay.2
      exact hrow hm (hsecret.forwards hforwards hmay hm)
  · obtain hpin | hpins := hyields.pins pin hpin
    · obtain ⟨q, hq, hqid, hopen⟩ := hguarded.pins pin hpin
      exact ⟨q, hstays hq, hqid, hopen.mono hclock⟩
    · obtain ⟨m, hm, hnot⟩ := hsecret.pins hpins
      exact hrow hm hnot

/-! ## Runs -/

theorem keepsIds_joinRooms {sockets : List SocketId} {conversations : List ConversationId} :
    Keeps (fun g => g.sockets.map (·.id)) (joinRooms sockets conversations) := by
  refine .modify fun g => ?_
  rw [List.map_map]
  refine List.map_congr_left fun k _ => ?_
  simp only [Function.comp_apply]
  split <;> rfl

/-- No two sockets have the same identifier. -/
theorem next_ids (hkeyed : s.db.Keyed) (henabled : s.Enabled now input)
    (hids : (s.sockets.map (·.id)).Nodup) : ((s.next env (now, input)).sockets.map (·.id)).Nodup := by
  have hkept : ∀ {n : Handler PUnit}, Keeps (fun g => g.sockets.map (·.id)) n →
      ((n.exec { s with emitted := [] }).2.sockets.map (·.id)).Nodup :=
    fun hn => (congrArg List.Nodup (hn { s with emitted := [] })).mpr hids
  by_cases hmoves : s.Moves input
  case neg =>
    by_cases hrestart : input = .restart
    · rw [hrestart, (next_restart hkeyed).2]
      exact List.nodup_nil
    · have hsame := (next_keeps env now input (fun _ _ => False) (· = s.sockets) hkeyed hrestart rfl
        (fun h => absurd h hmoves) (fun _ _ h => h.elim) fun _ _ _ _ h => h).2.2
      rwa [hsame]
  cases input with
  | connect socket u nickname =>
    have hnew : ∀ k ∈ s.sockets, k.id ≠ socket := by simpa using List.find?_eq_none.mp henabled.1
    have hnext : (s.next env (now, .connect socket u nickname)).sockets = s.sockets ++ [⟨socket, u, nickname, []⟩] :=
      rfl
    rw [hnext, List.map_append, List.nodup_append]
    refine ⟨hids, List.nodup_singleton _, fun a ha b hb => ?_⟩
    obtain ⟨k, hk, rfl⟩ := List.mem_map.mp ha
    obtain rfl := List.mem_singleton.mp hb
    exact hnew k hk
  | event socket request =>
    obtain ⟨k, hk⟩ := Option.isSome_iff_exists.mp henabled
    rw [Gateway.next, Gateway.program, hk]
    cases request with
    | joinConversation c => exact hkept (.bind keepsIds_joinRooms fun _ => .modify fun _ => rfl)
    | _ => exact hmoves.elim
  | disconnect socket =>
    obtain ⟨k, hk⟩ := Option.isSome_iff_exists.mp henabled
    rw [Gateway.next, Gateway.program, hk]
    exact hids.sublist (List.filter_sublist.map _)
  | resume job =>
    refine hkept (.bind (.modify fun _ => rfl) fun _ => ?_)
    obtain ⟨socket, u, conversations, hjob⟩ | ⟨sockets, u, c, hjob⟩ := hmoves <;> rw [hjob]
    · refine .bind keepsIds_joinRooms fun _ => .bind .reads fun _ => .when fun _ => .modify fun _ => rfl
    · exact .bind keepsIds_joinRooms fun _ => .modify fun _ => rfl
  | _ => exact hmoves.elim

/-- The steps that mention a message leave the sockets alone. -/
theorem Gateway.Mentions.sockets {target : Target} {id : MessageId} (h : s.Mentions env now input target id)
    (hkeyed : s.db.Keyed) : (s.next env (now, input)).sockets = s.sockets := by
  have hstill : input ≠ .restart ∧ ¬s.Moves input := by
    cases h <;> exact ⟨nofun, not_false⟩
  exact (next_keeps env now input (fun _ _ => False) (· = s.sockets) hkeyed hstill.1 rfl
    (fun h => absurd h hstill.2) (fun _ _ h => h.elim) fun _ _ _ _ h => h).2.2

/-- A message that another one stems from has been forwarded, after its time. -/
theorem Guarded.stems (hguarded : Guarded s.db.ledger clock) (hkeyed : s.db.Keyed) {id : MessageId} {m : Message}
    (hm : m ∈ s.db.messages) (hstems : s.db.ledger.StemsFrom id m.id) : id = m.id ∨ m.posting.fixed.Open clock := by
  obtain heq | ⟨x, -, p, hp, -, horigin⟩ := Relation.ReflTransGen.cases_tail hstems
  · exact .inl heq.symm
  obtain ⟨q, hq, hqid, hopen⟩ := hguarded.copies p.fixed (List.mem_map_of_mem hp) m.id horigin
  have hrow := message_record (hkeyed.message? hm)
  exact .inr (record_unique hkeyed hq hrow.1 (hqid.trans hrow.2.symm) ▸ hopen)

/-- What every step keeps that meets the condition. -/
structure Discreet (s : Gateway × Time) : Prop where
  steady : Steady s
  ids : (s.1.sockets.map (·.id)).Nodup
  onTime : OnTime s.1.db.ledger s.1.timers s.2 []
  guarded : Guarded s.1.db.ledger s.2
  hidden : s.1.Hidden s.2

theorem discreet_start {users : List User} {devices : List Device} {start : Time} :
    Discreet (.start users devices, start) where
  steady := steady_start
  ids := List.nodup_nil
  onTime := by refine ⟨?_, ?_, ?_⟩ <;> exact fun _ h => by cases h
  guarded := by refine ⟨?_, ?_, ?_⟩ <;> exact fun _ h => by cases h
  hidden := fun _ _ h => by cases h

theorem Discreet.next (h : Discreet (s, clock)) (hclock : clock ≤ now) (henabled : s.Enabled now input)
    (hsecret : s.KeepsSecret env now input) : Discreet (s.next env (now, input), now) := by
  obtain ⟨hsteady, hids, hontime, hguarded, -⟩ := h
  have hsteady' : Steady (s.next env (now, input), now) := hsteady.next hclock henabled
  have hstep : s.Schedules env now input _ _ :=
    next_schedules hsteady.keyed (sound_ids hsteady.sound) henabled
  have hyields : s.Yields now input (s.next env (now, input)).db.ledger :=
    next_yields hsteady.keyed (sound_ids hsteady.sound) henabled
  have hreach : s.InReach env now input := by
    cases input with
    | event socket request =>
      cases request with
      | sendMessage data => exact fun k hk hstores => (hsecret k hk hstores).1
      | _ => trivial
    | _ => trivial
  have hontime' := hstep.onTime hsteady.keyed hclock henabled hreach hontime
  have hguarded' : Guarded (s.next env (now, input)).db.ledger now := hguarded.next hclock hsecret hstep hyields
  refine ⟨hsteady', next_ids hsteady.keyed henabled hids, ⟨hontime'.timers, hontime'.inReach, nofun⟩,
    hguarded', fun v e he id hid m hm hstems hother => ?_⟩
  obtain ⟨⟨target, e⟩, hemission, rfl⟩ := List.mem_map.mp he
  obtain ⟨hemission, hreaches⟩ := List.mem_filter.mp hemission
  rw [decide_eq_true_eq] at hreaches
  have hmentions : s.Mentions env now input target id :=
    next_mentions hsteady.keyed henabled (target, e) hemission id hid
  obtain rfl | hopen := hguarded'.stems hsteady'.keyed hm hstems
  case inr => exact hopen
  have honly : ¬s.OnlyTo target m.senderId := by
    refine fun honly => hother (honly v ?_).symm
    simpa only [Gateway.Reaches, Gateway.receivers, hmentions.sockets hsteady.keyed] using hreaches
  obtain hold | hposts := hstep.mem_record (List.mem_map_of_mem (List.mem_map_of_mem hm))
  · obtain ⟨m', hm', hposting⟩ := record_message hsteady.keyed hold
    obtain hahead | hopen := ahead_or_open m' now
    · have hsame : m'.senderId = m.senderId := congrArg Posting.senderId hposting
      exact absurd (hsame ▸ hmentions.concealed hsteady.keyed hids hguarded hontime hclock henabled
        hsecret hm' hahead) honly
    · exact fun time htime => hopen time ((congrArg Posting.scheduledAt hposting).symm ▸ htime)
  · exact ((hmentions.posted hposts hids).resolve_right honly)

end

/-- **Scheduled messages stay hidden**: where every step of a run keeps the secrets, no user is sent
anything that shows a message of somebody else before its time. The queries filter such messages, but
the events of edits, deletions and reactions go to the whole room, the pins are not filtered, and
neither are replies and copies. -/
theorem scheduled_hidden (env : Environment) (users : List User) (devices : List Device) (start : Time)
    {s : Gateway × Time} (hs : (((gateway env users devices).timed start).restrict fun s e =>
      s.1.KeepsSecret env e.1 e.2).Reachable s) : s.1.Hidden s.2 := by
  have hdiscreet : Discreet s := by
    refine Machine.Reachable.invariant
      (M := ((gateway env users devices).timed start).restrict fun s e => s.1.KeepsSecret env e.1 e.2)
      (I := Discreet) discreet_start (fun s e _ h he => ?_) hs
    exact h.next he.1.1 he.1.2 he.2
  exact hdiscreet.hidden

/-! ## Runs -/

instance (m : Message) (now : Time) : Decidable (m.Ahead now) :=
  inferInstanceAs (Decidable (∃ time ∈ m.scheduledAt, _))

instance (s : Gateway) (c : ConversationId) (u : UserId) : Decidable (s.Private c u) :=
  inferInstanceAs (Decidable (∀ k ∈ s.sockets, _ → _))

instance (db : Database) (u : UserId) (m : Message) : Decidable (db.MayDelete u m) :=
  inferInstanceAs (Decidable (_ ∨ ∃ member ∈ db.member? m.conversationId u, _))

instance (db : Database) (u : UserId) (emoji : String) (m : Message) : Decidable (db.MayReact u emoji m) :=
  inferInstanceAs (Decidable (_ ∧ _ ∧ _))

instance (db : Database) (u : UserId) (c : ConversationId) (id : MessageId) : Decidable (db.MayPin u c id) :=
  inferInstanceAs (Decidable ((∃ member ∈ db.member? c u, _) ∧ (∃ m ∈ db.message? id, _) ∧ _))

instance (s : Gateway) (env : Environment) (now : Time) (k : Socket) :
    (request : Request) → Decidable (s.KeepsEvent env now k request)
  | .sendMessage _ => inferInstanceAs (Decidable (_ → (∀ time ∈ _, _) ∧ ∀ id ∈ _, ∀ m ∈ _, _ → _ ∧ ∃ due ∈ _, _))
  | .deleteMessage _ => inferInstanceAs (Decidable (_ → ∀ m ∈ _, _ → _ ∧ _))
  | .editMessage .. => inferInstanceAs (Decidable (_ → ∀ m ∈ _, _ → _ ∧ (_ → _)))
  | .toggleReaction .. => inferInstanceAs (Decidable (_ → ∀ m ∈ _, _ → _ → _))
  | .pinMessage .. | .forwardMessage .. => inferInstanceAs (Decidable (_ → ∀ m ∈ _, _ → ¬_))
  | .markAsRead _ | .typing .. | .joinConversation _ | .unpinMessage ..
  | .requestSenderKeyRedistribution .. | .notifyKeyRotated => .isTrue trivial

instance (s : Gateway) (now : Time) (u : UserId) (route : Route) : Decidable (s.KeepsCall now u route) := by
  unfold Gateway.KeepsCall
  split <;> infer_instance

instance (s : Gateway) (env : Environment) (now : Time) : (input : Input) → Decidable (s.KeepsSecret env now input)
  | .event .. => inferInstanceAs (Decidable (∀ k ∈ _, _))
  | .call u route => inferInstanceAs (Decidable (s.KeepsCall now u route))
  | .connect .. | .resume _ | .timeout _ | .disconnect _ | .cleanup | .restart => .isTrue trivial

/-- User 2 joins the conversation while the message waits and asks for the history, and gets the message
in time. -/
def quietRun : List (Time × Input) := waitingRun ++ [
  (3, .event 20 (.joinConversation 1)), (4, .call 2 (.getMessages 1 none none none)), (5000, .timeout 0)]

theorem scheduled_hidden_quiet :
    let s := ((gateway sampleEnvironment [sampleUser 1, sampleUser 2] []).timed 0).exec
      (.start [sampleUser 1, sampleUser 2] [], 0) quietRun
    s.1.Hidden s.2 :=
  scheduled_hidden sampleEnvironment [sampleUser 1, sampleUser 2] [] 0
    (Machine.reachable_iff.mpr ⟨quietRun, by decide +kernel, rfl⟩)

theorem Gateway.Hidden.untold {s : Gateway} {clock : Time} (h : s.Hidden clock) (v : UserId) :
    ∀ e ∈ s.received v, ∀ m ∈ s.db.messages, m.id ∈ e.mentions → m.senderId ≠ v → ¬m.Ahead clock :=
  fun e he m hm hid hother ⟨time, htime, hlt⟩ =>
    absurd (h v e he m.id hid m hm .refl hother time htime) (Int.not_le.mpr hlt)

/-- User 1 edits the message in the place of that, and user 2 is sent the new text at once. -/
theorem told_early : ∃ s,
    ((gateway sampleEnvironment [sampleUser 1, sampleUser 2] []).timed 0).Reachable s ∧ ¬s.1.Hidden s.2 :=
  ⟨_, Machine.reachable_iff.mpr
    ⟨quietRun.take 5 ++ [(4, .event 10 (.editMessage 1 [0x78]))], by decide +kernel, rfl⟩,
    fun h => absurd (h.untold 2) (by decide +kernel)⟩

end Vesper.Server
