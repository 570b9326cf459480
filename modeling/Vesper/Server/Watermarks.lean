import Vesper.Server.Reads
import Vesper.Server.Timers
import Vesper.Server.Ownership

/-!
# What is new to a member

The server keeps two times of a member, those of the last reading and of the last clearing, and compares
them with the time at which a message was created. A scheduled message is shown to the others later than
that, and is new to them then if no time of theirs was set while it waited.
-/

namespace Vesper.Server
open Program

/-! ## News -/

/-- The read asks for messages among which this one is. -/
def Route.Spans (env : Environment) (db : Database) (now : Time) (u : UserId) (m : Message) : Route → Prop
  | .getMessages c cursor after around => c = m.conversationId ∧
      match around, after, cursor.filter (· ≠ 0) with
      | some around, _, _ => m.id ≤ around
      | none, some after, _ => after < m.id
      | none, none, some cursor => m.id < cursor ∧
          ∃ m' ∈ db.message? cursor, m'.conversationId = c ∧ scheduledFilter now u m'
      | none, none, none => True
  | .searchMessages c q =>
      c = m.conversationId ∧ 2 ≤ (trim q).length ∧ env.contains m.content (trim q)
  | .getMedia c => c = m.conversationId ∧ m.fileUrl.isSome
  | _ => False

/-- How many messages a read returns at most. -/
def Route.window : Route → Nat
  | .getMedia _ => 200
  | _ => 30

/-- The read comes to the one message before it comes to the other. -/
def Route.Passes : Route → MessageId → MessageId → Prop
  | .getMessages _ _ after around, id, id' =>
    match around, after with
    | none, some _ => id < id'
    | _, _ => id' < id
  | _, id, id' => id' < id

/-- The database without a message. -/
def Database.without (db : Database) (id : MessageId) : Database :=
  { db with messages := db.messages.filter (·.id ≠ id) }

/-- The message is new to a member: it is among the unread ones, the reads that come to it return it, and
its sender is not told that the member has read it. -/
structure Gateway.NewTo (g : Gateway) (env : Environment) (now : Time) (member : ConversationMember)
    (m : Message) : Prop where
  counted : ∀ conv : Conversation, conv.id = m.conversationId →
    (g.db.summary now member.userId member conv).unreadCount =
      ((g.db.without m.id).summary now member.userId member conv).unreadCount + 1
  returned : ∀ route : Route, route.Spans env g.db now member.userId m →
    ∃ response, g.answer env now member.userId route = .ok response ∧
      (m.id ∈ response.returned ∨
        response.returned.length = route.window ∧ ∀ id ∈ response.returned, route.Passes id m.id)
  unreported : ∀ route response, g.answer env now m.senderId route = .ok response →
    ∀ view ∈ response.views, view.rest.id = m.id →
      (∀ readers ∈ view.readBy, ∀ reader ∈ readers, reader.1 ≠ member.userId) ∧
      (view.isRead → ∃ readers ∈ view.readBy, readers ≠ [])

/-- A scheduled message is new, from its time on, to every other member who has neither read nor cleared
the conversation since. Deleted messages are left out. -/
def Gateway.NewsIsNew (s : Gateway) (env : Environment) (clock : Time) : Prop :=
  ∀ m ∈ s.db.messages, m.deletedAt = none → ∀ time ∈ m.scheduledAt,
    ∀ member ∈ s.db.membersOf m.conversationId, member.userId ≠ m.senderId →
    member.lastReadAt < time → (∀ cleared ∈ member.clearedAt, cleared < time) →
    ∀ now, clock ≤ now → time ≤ now → s.NewTo env now member m

/-- A message of another waits for its time in the conversation. -/
def Database.Awaits (db : Database) (now : Time) (u : UserId) (c : ConversationId) : Prop :=
  ∃ m ∈ db.messages, m.conversationId = c ∧ m.senderId ≠ u ∧ m.Pending now

/-- The steps after which news is new: nobody reads or clears a conversation, or joins it, while a message
of another waits there, and no message is scheduled in the very millisecond in which another member has
read or cleared. -/
def Gateway.KeepsNews (s : Gateway) (env : Environment) (now : Time) : Input → Prop
  | .event socket (.sendMessage data) => ∀ k ∈ s.socket? socket, s.Stores env now k.userId data →
      data.deliverAt now ≠ none → ∀ member ∈ s.db.membersOf data.conversationId,
      member.userId ≠ k.userId → member.lastReadAt < now ∧ ∀ cleared ∈ member.clearedAt, cleared < now
  | .event socket (.markAsRead c) => ∀ k ∈ s.socket? socket, s.db.IsMember c k.userId →
      ¬s.db.Awaits now k.userId c
  | .call u (.clearMessages c .self) => s.db.IsMember c u → ¬s.db.Awaits now u c
  | .call u (.addMember c target) => s.db.ledger.MayAdd u c target → s.db.user? target ≠ none →
      ¬s.db.Awaits now target c
  | _ => True

/-! ## What the reads tell -/

section
variable {g : Gateway} {env : Environment} {now : Time} {u : UserId} {c : ConversationId} {m : Message}
  {member : ConversationMember}

/-- Rows are found by conversation and user. -/
theorem Ledger.Sound.member?_eq {db : Database} (h : db.ledger.Sound) (hmember : member ∈ db.members) :
    db.member? member.conversationId member.userId = some member := by
  have hkeys : (db.members.map fun m => (m.conversationId, m.userId)).Nodup := by
    simpa [Database.ledger, Function.comp_def, ConversationMember.seat] using h.keys
  rcases hfound : db.member? member.conversationId member.userId with _ | member'
  · simpa using List.find?_eq_none.mp hfound member hmember
  · have hkey : member'.conversationId = member.conversationId ∧ member'.userId = member.userId := by
      simpa using List.find?_some hfound
    exact congrArg some (List.inj_on_of_nodup_map hkeys (List.mem_of_find?_eq_some hfound) hmember
      (Prod.ext hkey.1 hkey.2))

/-- A row counts for one where it meets the condition. -/
theorem length_filter_without {l : List Message} (hl : (l.map (·.id)).Nodup) (hm : m ∈ l)
    (p : Message → Bool) :
    (l.filter p).length = ((l.filter (·.id ≠ m.id)).filter p).length + if p m then 1 else 0 := by
  induction l with
  | nil => cases hm
  | cons a l ih =>
    obtain ⟨ha, hl⟩ := List.nodup_cons.mp hl
    have hids : ∀ b ∈ l, b.id ≠ a.id := fun b hb hid => ha (List.mem_map.mpr ⟨b, hb, hid⟩)
    rcases List.mem_cons.mp hm with rfl | hm
    · have hrest : l.filter (fun b => decide (b.id ≠ m.id)) = l :=
        List.filter_eq_self.mpr fun b hb => decide_eq_true (hids b hb)
      rw [List.filter_cons (p := fun b : Message => decide (b.id ≠ m.id)), if_neg (by simp), hrest,
        List.filter_cons]
      split <;> rfl
    · rw [List.filter_cons (p := fun b : Message => decide (b.id ≠ m.id)),
        if_pos (decide_eq_true (hids m hm).symm), List.filter_cons, List.filter_cons]
      split
      · rw [List.length_cons, List.length_cons, ih hl hm]
        exact Nat.add_right_comm ..
      · exact ih hl hm

theorem counted_iff (hkeyed : g.db.Keyed) (hm : m ∈ g.db.messages) (hother : member.userId ≠ m.senderId)
    (hlive : m.deletedAt = none) (hvisible : scheduledFilter now member.userId m = true)
    {conv : Conversation} (hconv : conv.id = m.conversationId) :
    (g.db.summary now member.userId member conv).unreadCount =
      ((g.db.without m.id).summary now member.userId member conv).unreadCount + 1 ↔
      member.lastReadAt < m.createdAt := by
  simp only [Database.summary, Database.without]
  rw [length_filter_without hkeyed.keys hm]
  simp [hconv, hlive, hvisible, Ne.symm hother]

/-- A window that misses a message is full of ones that come before it. -/
theorem returned_window {l : List Message} {r : MessageId → MessageId → Prop}
    (hl : l.Pairwise fun a b => r a.id b.id) (hm : m ∈ l) (n : Nat) :
    m.id ∈ (l.take n).map (·.id) ∨
      ((l.take n).map (·.id)).length = n ∧ ∀ id ∈ (l.take n).map (·.id), r id m.id := by
  obtain hmem | ⟨hlength, hbefore⟩ := mem_take_or_full hl hm n
  · exact .inl (List.mem_map_of_mem hmem)
  · exact .inr ⟨by rw [List.length_map, hlength], List.forall_mem_map.mpr hbefore⟩

/-- **Reads return news** that has not been cleared. -/
theorem returned_spanned (hkeyed : g.db.Keyed) (hm : m ∈ g.db.messages)
    (hmember : g.db.member? m.conversationId member.userId = some member) (hlive : m.deletedAt = none)
    (hvisible : scheduledFilter now member.userId m = true) (hcleared : notCleared member.clearedAt m = true)
    {route : Route} (h : route.Spans env g.db now member.userId m) :
    ∃ response, g.answer env now member.userId route = .ok response ∧
      (m.id ∈ response.returned ∨
        response.returned.length = route.window ∧ ∀ id ∈ response.returned, route.Passes id m.id) := by
  have hnewest : ∀ {p : Message → Bool}, p m = true → m ∈ g.db.newest p := fun hp => mem_newest.mpr ⟨hm, hp⟩
  cases route with
  | getMessages c cursor after around =>
    obtain ⟨rfl, h⟩ := h
    refine ⟨_, by rw [Gateway.answer, respond_getMessages, hmember, Option.elim_some], ?_⟩
    rw [returned_answerPage]
    rcases around with _ | around
    · rcases after with _ | after
      · rcases hcursor : cursor.filter (· ≠ 0) with _ | cursor' <;>
          simp only [hcursor, Database.page, List.map_reverse, List.mem_reverse, List.length_reverse] at h ⊢
        · exact returned_window (r := fun id id' => id' < id) (newest_sorted hkeyed _)
            (hnewest (by simp [hvisible, hcleared])) 30
        · obtain ⟨hlt, m', hm', hc, hvisible'⟩ := h
          have hid : m'.id = cursor' := by simpa using List.find?_some hm'
          rw [Database.pageAfter, if_pos (by rw [Option.mem_def.mp hm']; rfl)]
          refine returned_window (r := fun id id' => id' < id)
            ((newest_sorted hkeyed _).sublist (List.drop_sublist ..)) ?_ 30
          refine mem_drop_one (newest_sorted hkeyed _) (hnewest (by simp [hvisible, hlt.le]))
            (mem_newest.mpr ⟨List.mem_of_find?_eq_some hm', ?_⟩) (hid ▸ hlt)
          simp [hc, hvisible', hid]
      · exact returned_window (r := fun id id' => id < id') (oldest_sorted hkeyed _)
          (mem_oldest.mpr ⟨hm, by simpa [hvisible, hcleared] using h⟩) 30
    · simp only [Database.page, List.map_reverse, List.mem_reverse, List.length_reverse]
      exact returned_window (r := fun id id' => id' < id) (newest_sorted hkeyed _)
        (hnewest (by simpa [hvisible, hcleared] using h)) 30
  | searchMessages c q =>
    obtain ⟨rfl, hlength, hmatch⟩ := h
    refine ⟨_, by rw [Gateway.answer, respond_searchMessages, hmember, Option.elim_some], ?_⟩
    have hreturned : (Response.messages (g.db.history member.userId m.conversationId
        (g.db.matching env now member.userId m.conversationId q))).returned =
        (g.db.matching env now member.userId m.conversationId q).map (·.id) := List.map_map
    rw [hreturned, Database.matching, if_neg (Nat.not_lt.mpr hlength)]
    simp only [List.map_reverse, List.mem_reverse, List.length_reverse]
    exact returned_window (r := fun id id' => id' < id) (newest_sorted hkeyed _)
      (hnewest (by simp [hvisible, hlive, hmatch])) 30
  | getMedia c =>
    obtain ⟨rfl, hfile⟩ := h
    refine ⟨_, by rw [Gateway.answer, respond_getMedia, hmember, Option.elim_some], ?_⟩
    simp only [Response.returned, List.map_map]
    exact returned_window (r := fun id id' => id' < id) (newest_sorted hkeyed _)
      (hnewest (by simp [hvisible, hlive, hfile])) 200
  | _ => exact h.elim

/-- The read around a message shows whether it has been cleared. -/
theorem returned_around (hkeyed : g.db.Keyed) (hm : m ∈ g.db.messages)
    (hmember : g.db.member? m.conversationId member.userId = some member)
    (h : ∃ response, g.answer env now member.userId
        (.getMessages m.conversationId none none (some m.id)) = .ok response ∧
      (m.id ∈ response.returned ∨ response.returned.length = 30 ∧ ∀ id ∈ response.returned, m.id < id)) :
    notCleared member.clearedAt m = true := by
  obtain ⟨response, hresponse, h⟩ := h
  rw [Gateway.answer, respond_getMessages, hmember, Option.elim_some] at hresponse
  obtain rfl := Except.ok.inj hresponse
  rw [returned_answerPage] at h
  simp only [Database.page, List.map_reverse, List.mem_reverse, List.length_reverse] at h
  have hpage : ∀ m' ∈ (g.db.newest fun m' => m'.conversationId = m.conversationId && m'.id ≤ m.id &&
      notCleared member.clearedAt m' && scheduledFilter now member.userId m').take 30,
      m' ∈ g.db.messages ∧ m'.id ≤ m.id ∧ notCleared member.clearedAt m' = true := by
    intro m' hm'
    have hm' := mem_newest.mp (List.mem_of_mem_take hm')
    simp only [Bool.and_eq_true, decide_eq_true_eq] at hm'
    exact ⟨hm'.1, hm'.2.1.1.2, hm'.2.1.2⟩
  obtain hmem | ⟨hlength, hbefore⟩ := h
  · obtain ⟨m', hm', hid⟩ := List.mem_map.mp hmem
    obtain ⟨hmem', -, hcleared⟩ := hpage m' hm'
    rwa [List.inj_on_of_nodup_map hkeyed.keys hmem' hm hid] at hcleared
  · obtain ⟨id, hid⟩ := List.exists_mem_of_length_pos (by rw [hlength]; decide)
    obtain ⟨m', hm', rfl⟩ := List.mem_map.mp hid
    exact absurd (hpage m' hm').2.1 (Nat.not_le.mpr (hbefore m'.id hid))

/-- **Receipts**: the sender is told of the readers who have read since the message was created. -/
theorem unreported_unread (hkeyed : g.db.Keyed) (hsound : g.db.ledger.Sound) (hm : m ∈ g.db.messages)
    (hmember : g.db.member? m.conversationId member.userId = some member)
    (hread : member.lastReadAt < m.createdAt) {route : Route} {response : Response}
    (h : g.answer env now m.senderId route = .ok response) {view : MessageView} (hview : view ∈ response.views)
    (hid : view.rest.id = m.id) :
    (∀ readers ∈ view.readBy, ∀ reader ∈ readers, reader.1 ≠ member.userId) ∧
      (view.isRead → ∃ readers ∈ view.readBy, readers ≠ []) := by
  obtain ⟨m', hm', -, rfl⟩ := views_answer h hview
  obtain rfl : m' = m := List.inj_on_of_nodup_map hkeyed.keys hm' hm hid
  constructor
  · intro readers hreaders reader hreader
    obtain rfl := Option.some.inj hreaders
    obtain ⟨last, hlast, rfl⟩ := List.mem_map.mp hreader
    obtain ⟨hlast, hsince⟩ := List.mem_filter.mp hlast
    obtain ⟨other, hother, rfl⟩ := List.mem_map.mp hlast
    obtain ⟨hmem, hc⟩ := mem_membersOf.mp (List.mem_filter.mp hother).1
    intro heq
    have hsame := hsound.member?_eq hmem
    rw [hc, show other.userId = member.userId from heq, hmember] at hsame
    obtain rfl := Option.some.inj hsame
    exact absurd hread (Int.not_lt.mpr (of_decide_eq_true hsince))
  · intro hisRead
    refine ⟨_, rfl, fun hnone => ?_⟩
    simp only [mapMessageWithRead, List.map_eq_nil_iff.mp hnone] at hisRead
    simp [Database.select] at hisRead

/-- What makes a message new that the member may see. -/
theorem newTo_iff (hkeyed : g.db.Keyed) (hsound : g.db.ledger.Sound) (hm : m ∈ g.db.messages)
    (hmember : member ∈ g.db.membersOf m.conversationId) (hother : member.userId ≠ m.senderId)
    (hlive : m.deletedAt = none) (hvisible : scheduledFilter now member.userId m = true) :
    g.NewTo env now member m ↔
      member.lastReadAt < m.createdAt ∧ ∀ cleared ∈ member.clearedAt, cleared < m.createdAt := by
  obtain ⟨hmem, hc⟩ := mem_membersOf.mp hmember
  have hfound : g.db.member? m.conversationId member.userId = some member := hc ▸ hsound.member?_eq hmem
  have hcleared : notCleared member.clearedAt m = true ↔
      ∀ cleared ∈ member.clearedAt, cleared < m.createdAt := by
    rcases member.clearedAt with _ | time <;> simp [notCleared]
  rw [← hcleared]
  constructor
  · intro hnew
    have hconv : (⟨m.conversationId, .direct, none, none, none, 0, 0, 0⟩ : Conversation).id =
        m.conversationId := rfl
    refine ⟨(counted_iff hkeyed hm hother hlive hvisible hconv).mp (hnew.counted _ rfl),
      @returned_around g env now m member hkeyed hm hfound ?_⟩
    exact hnew.returned (.getMessages m.conversationId none none (some m.id)) ⟨rfl, Nat.le_refl m.id⟩
  · rintro ⟨hread, hcleared⟩
    exact ⟨fun conv hconv => (counted_iff hkeyed hm hother hlive hvisible hconv).mpr hread,
      fun route => returned_spanned hkeyed hm hfound hlive hvisible hcleared,
      fun route response h view => unreported_unread hkeyed hsound hm hfound hread h⟩

end

/-! ## The ledger -/

/-- The member has neither read nor cleared the conversation since. -/
def Seat.IdleSince (seat : Seat) (time : Time) : Prop :=
  seat.lastReadAt < time ∧ ∀ cleared ∈ seat.clearedAt, cleared < time

instance (seat : Seat) (time : Time) : Decidable (seat.IdleSince time) :=
  inferInstanceAs (Decidable (_ ∧ ∀ cleared ∈ seat.clearedAt, _))

/-- The member reads or clears the conversation now, or joins it. -/
structure Seat.Touched (seat : Seat) (now : Time) : Prop where
  read : seat.lastReadAt ≤ now
  cleared : ∀ cleared ∈ seat.clearedAt, cleared ≤ now
  one : seat.lastReadAt = now ∨ seat.clearedAt = some now

namespace Ledger
variable {l l' : Ledger} {c : ConversationId} {u : UserId} {now clock : Time}

/-- Members who have been idle since a message was due have been so since it was posted. -/
def Fresh (l : Ledger) : Prop :=
  ∀ p ∈ l.postings, p.deleted = false → ∀ time ∈ p.scheduledAt, ∀ seat ∈ l.seats,
    seat.conversationId = p.conversationId → seat.userId ≠ p.senderId → seat.IdleSince time →
    seat.IdleSince p.createdAt

def Awaits (l : Ledger) (now : Time) (u : UserId) (c : ConversationId) : Prop :=
  ∃ p ∈ l.postings, p.conversationId = c ∧ p.senderId ≠ u ∧ p.Pending now

/-- No time of the ledger lies ahead. -/
structure Past (l : Ledger) (clock : Time) : Prop where
  seats : ∀ seat ∈ l.seats, seat.lastReadAt ≤ clock ∧ ∀ cleared ∈ seat.clearedAt, cleared ≤ clock
  postings : ∀ p ∈ l.postings, p.createdAt ≤ clock

/-- Where no posting is scheduled anew and no member reads or clears. -/
theorem Fresh.mono (h : l.Fresh)
    (hpostings : ∀ p ∈ l'.postings, p.deleted = false → p ∈ l.postings ∨ p.scheduledAt = none)
    (hseats : ∀ p ∈ l'.postings, p.deleted = false → ∀ seat ∈ l'.seats,
      seat.conversationId = p.conversationId → ∃ seat' ∈ l.seats, { seat' with role := seat.role } = seat) :
    l'.Fresh := by
  intro p hp hlive time htime seat hseat hc hu hidle
  obtain hold | hnone := hpostings p hp hlive
  · obtain ⟨seat', hseat', heq⟩ := hseats p hp hlive seat hseat hc
    rw [← heq] at hc hu hidle ⊢
    exact h p hold hlive time htime seat' hseat' hc hu hidle
  · rw [hnone] at htime
    cases htime

/-- A member who is touched overlooks what waits. -/
theorem fresh_touched (h : l.Fresh) (hpast : l.Past now) (hpostings : l'.postings = l.postings)
    (hseats : ∀ seat ∈ l'.seats,
      seat ∈ l.seats ∨ (seat.conversationId = c ∧ seat.userId = u) ∧ seat.Touched now)
    (hseat : ∃ seat ∈ l'.seats, (seat.conversationId = c ∧ seat.userId = u) ∧ seat.Touched now) :
    l'.Fresh ↔ ¬l.Awaits now u c := by
  constructor
  · rintro hfresh ⟨p, hp, rfl, hother, hpending, hlive⟩
    obtain ⟨seat, hseat, ⟨hc, rfl⟩, htouched⟩ := hseat
    obtain ⟨time, htime, hlt⟩ := (Option.any_eq_true _ _).mp hpending
    have hlt : now < time := of_decide_eq_true hlt
    have hidle : seat.IdleSince time :=
      ⟨htouched.read.trans_lt hlt, fun cleared hcleared => (htouched.cleared cleared hcleared).trans_lt hlt⟩
    obtain ⟨hread, hcleared⟩ := hfresh p (hpostings ▸ hp) hlive time htime seat hseat hc (Ne.symm hother) hidle
    have hposted := hpast.postings p hp
    obtain heq | heq := htouched.one
    · exact absurd (heq ▸ hread) (Int.not_lt.mpr hposted)
    · exact absurd (hcleared now heq) (Int.not_lt.mpr hposted)
  · intro hnot p hp hlive time htime seat hseat hc hu hidle
    rw [hpostings] at hp
    obtain hold | ⟨⟨rfl, rfl⟩, htouched⟩ := hseats seat hseat
    · exact h p hp hlive time htime seat hold hc hu hidle
    · refine absurd ⟨p, hp, hc.symm, Ne.symm hu, (Option.any_eq_true _ _).mpr ⟨time, htime, ?_⟩, hlive⟩ hnot
      obtain heq | heq := htouched.one
      · exact decide_eq_true (heq ▸ hidle.1)
      · exact decide_eq_true (hidle.2 now heq)

theorem fresh_set (h : l.Fresh) (hpast : l.Past now) (hseat : (l.seat? c u).isSome) {f : Seat → Seat}
    (hf : ∀ seat ∈ l.seats, ((f seat).conversationId = seat.conversationId ∧
      (f seat).userId = seat.userId) ∧ (f seat).Touched now) :
    { l with seats := l.seats.map fun seat : Seat =>
        if decide (seat.conversationId = c ∧ seat.userId = u) = true then f seat else seat }.Fresh ↔
      ¬l.Awaits now u c := by
  refine fresh_touched h hpast rfl (fun seat' hseat' => ?_) ?_
  · obtain ⟨seat, hseat, rfl⟩ := List.mem_map.mp hseat'
    by_cases hkey : seat.conversationId = c ∧ seat.userId = u
    · obtain ⟨⟨hc, hu⟩, htouched⟩ := hf seat hseat
      rw [if_pos (decide_eq_true hkey)]
      exact .inr ⟨⟨hc.trans hkey.1, hu.trans hkey.2⟩, htouched⟩
    · rw [if_neg (by simpa using hkey)]
      exact .inl hseat
  · obtain ⟨seat, hseat⟩ := Option.isSome_iff_exists.mp hseat
    obtain ⟨hmem, hkey⟩ := seat?_mem hseat
    obtain ⟨⟨hc, hu⟩, htouched⟩ := hf seat hmem
    exact ⟨f seat, List.mem_map.mpr ⟨seat, hmem, if_pos (decide_eq_true hkey)⟩,
      ⟨hc.trans hkey.1, hu.trans hkey.2⟩, htouched⟩

theorem fresh_read (h : l.Fresh) (hpast : l.Past now) (hseat : (l.seat? c u).isSome) :
    (l.read (fun seat => seat.conversationId = c ∧ seat.userId = u) now).Fresh ↔ ¬l.Awaits now u c :=
  fresh_set h hpast hseat (f := fun seat => { seat with lastReadAt := now }) fun seat hseat =>
    ⟨⟨rfl, rfl⟩, Int.le_refl now, (hpast.seats seat hseat).2, .inl rfl⟩

theorem fresh_clear (h : l.Fresh) (hpast : l.Past now) (hseat : (l.seat? c u).isSome) :
    (l.clear (fun seat => seat.conversationId = c ∧ seat.userId = u) now).Fresh ↔ ¬l.Awaits now u c := by
  refine fresh_set h hpast hseat (f := fun seat => { seat with clearedAt := some now })
    fun seat hseat => ⟨⟨rfl, rfl⟩, (hpast.seats seat hseat).1, ?_, .inr rfl⟩
  intro cleared hcleared
  rw [← Option.some.inj hcleared]

theorem fresh_join (h : l.Fresh) (hpast : l.Past now) : (l.join now c u).Fresh ↔ ¬l.Awaits now u c := by
  have htouched : Seat.Touched ⟨c, u, .member, now, none⟩ now := ⟨Int.le_refl now, nofun, .inl rfl⟩
  refine fresh_touched h hpast rfl (fun seat hseat => ?_) ?_
  · rcases List.mem_append.mp hseat with hseat | hseat
    · exact .inl hseat
    · rw [List.mem_singleton.mp hseat]
      exact .inr ⟨⟨rfl, rfl⟩, htouched⟩
  · exact ⟨_, List.mem_append_right _ List.mem_cons_self, ⟨rfl, rfl⟩, htouched⟩

/-- A message that is scheduled now. -/
theorem fresh_post (h : l.Fresh) (hpast : l.Past clock) (hclock : clock ≤ now) {p : Posting}
    (hcreated : p.createdAt = now) (hlive : p.deleted = false) (hlater : ∀ time ∈ p.scheduledAt, now < time) :
    (l.post p).Fresh ↔ (p.scheduledAt ≠ none → ∀ seat ∈ l.seats,
      seat.conversationId = p.conversationId → seat.userId ≠ p.senderId → seat.IdleSince now) := by
  constructor
  · intro hfresh hscheduled seat hseat hc hu
    obtain ⟨time, htime⟩ := Option.ne_none_iff_exists'.mp hscheduled
    have hlt := hclock.trans_lt (hlater time htime)
    obtain ⟨hread, hcleared⟩ := hpast.seats seat hseat
    rw [← hcreated]
    exact hfresh p (List.mem_append_right _ List.mem_cons_self) hlive time htime seat hseat hc hu
      ⟨hread.trans_lt hlt, fun cleared h => (hcleared cleared h).trans_lt hlt⟩
  · intro hidle q hq hlive time htime seat hseat hc hu hsince
    rcases List.mem_append.mp hq with hq | hq
    · exact h q hq hlive time htime seat hseat hc hu hsince
    · obtain rfl := List.mem_singleton.mp hq
      rw [hcreated]
      exact hidle (by rw [htime]; exact Option.some_ne_none _) seat hseat hc hu

end Ledger

/-! ## Every step -/

section
variable {s : Gateway} {env : Environment} {now clock : Time} {input : Input} {l : Ledger}

theorem touched_read {l : Ledger} (h : l.Past now) {q : Seat → Bool} {seat : Seat}
    (hseat : seat ∈ (l.read q now).seats) : seat ∈ l.seats ∨ seat.Touched now := by
  obtain ⟨old, hold, rfl⟩ := List.mem_map.mp hseat
  split
  · exact .inr ⟨Int.le_refl now, (h.seats old hold).2, .inl rfl⟩
  · exact .inl hold

theorem touched_clear {l : Ledger} (h : l.Past now) {q : Seat → Bool} {seat : Seat}
    (hseat : seat ∈ (l.clear q now).seats) : seat ∈ l.seats ∨ seat.Touched now := by
  obtain ⟨old, hold, rfl⟩ := List.mem_map.mp hseat
  split
  · refine .inr ⟨(h.seats old hold).1, fun cleared hcleared => ?_, .inr rfl⟩
    rw [← Option.some.inj hcleared]
  · exact .inl hold

theorem touched_found {l : Ledger} {type : ConversationType} {members : List (UserId × MemberRole)}
    {seat : Seat} (hseat : seat ∈ (l.found now type members).seats) :
    seat ∈ l.seats ∨ seat.conversationId = l.nextConversationId ∧ seat.Touched now := by
  rcases List.mem_append.mp hseat with hseat | hseat
  · exact .inl hseat
  · obtain ⟨m, -, rfl⟩ := List.mem_map.mp hseat
    exact .inr ⟨rfl, Int.le_refl now, nofun, .inl rfl⟩

/-- A seat that a step leaves has the times it had, or is touched now. -/
theorem Gateway.Yields.seats (h : s.Yields now input l) (hpast : s.db.ledger.Past now) :
    ∀ seat ∈ l.seats,
      (∃ seat' ∈ s.db.ledger.seats, { seat' with role := seat.role } = seat) ∨ seat.Touched now := by
  have hsame : ∀ {l : Ledger}, l.seats = s.db.ledger.seats → ∀ seat ∈ l.seats,
      (∃ seat' ∈ s.db.ledger.seats, { seat' with role := seat.role } = seat) ∨ seat.Touched now :=
    fun hseats seat hseat => .inl ⟨seat, hseats ▸ hseat, rfl⟩
  have hold : ∀ {seat : Seat}, seat ∈ s.db.ledger.seats ∨ seat.Touched now →
      (∃ seat' ∈ s.db.ledger.seats, { seat' with role := seat.role } = seat) ∨ seat.Touched now :=
    fun h => h.imp_left fun hseat => ⟨_, hseat, rfl⟩
  have hpin : ∀ {checks c id l}, s.YieldsPin checks c id l → l.seats = s.db.ledger.seats := by
    rintro checks c id _ (rfl | ⟨-, rfl⟩)
    · rfl
    · unfold Ledger.pin
      split <;> rfl
  have hunpin : ∀ {c id l}, s.YieldsUnpin c id l → l.seats = s.db.ledger.seats := by
    rintro c id _ (rfl | rfl) <;> rfl
  have hforward : ∀ {u id c l}, s.YieldsForward now u id c l → l.seats = s.db.ledger.seats := by
    rintro u id c _ (⟨-, rfl⟩ | ⟨-, rfl⟩) <;> rfl
  cases input with
  | event socket request =>
    obtain ⟨k, -, h⟩ := h
    cases request with
    | sendMessage data => exact hsame (h.elim (congrArg _) fun h => by rw [h.2.2]; rfl)
    | markAsRead c =>
      subst h
      exact fun seat hseat => hold (touched_read hpast hseat)
    | deleteMessage id => exact hsame (h.elim (congrArg _) fun h => by rw [h]; rfl)
    | pinMessage c id => exact hsame (hpin h)
    | unpinMessage c id => exact hsame (hunpin h)
    | forwardMessage id c reEncrypted =>
      simp only [YieldsEvent] at h
      split at h
      · exact hsame (hforward h)
      · exact hsame (congrArg _ h)
    | _ => exact hsame (congrArg _ h)
  | call u route =>
    cases route with
    | createDirect target =>
      obtain h | rfl | ⟨members, -, rfl⟩ := h
      · exact hsame (congrArg _ h)
      · exact hsame rfl
      · exact fun seat hseat => hold ((touched_found hseat).imp_right (·.2))
    | createGroup name description memberIds =>
      obtain rfl | rfl := h
      · exact hsame rfl
      · exact fun seat hseat => hold ((touched_found hseat).imp_right (·.2))
    | createChannel name description =>
      obtain rfl | rfl := h
      · exact hsame rfl
      · exact fun seat hseat => hold ((touched_found hseat).imp_right (·.2))
    | clearMessages c scope =>
      obtain ⟨-, h⟩ | ⟨-, rfl⟩ := h
      · exact hsame (congrArg _ h)
      · have hpast' : ((s.db.ledger.strike (·.conversationId = c)).unpin (·.1 = c)).Past now := by
          refine ⟨hpast.seats, List.forall_mem_map.mpr fun p hp => ?_⟩
          split <;> exact hpast.postings p hp
        cases scope with
        | self => exact fun seat hseat => hold (touched_clear hpast hseat)
        | both => exact fun seat hseat => hold (touched_clear hpast' hseat)
    | addMember c target =>
      obtain ⟨-, h⟩ | ⟨-, rfl⟩ := h
      · exact hsame (congrArg _ h)
      · intro seat hseat
        rcases List.mem_append.mp hseat with hseat | hseat
        · exact hold (.inl hseat)
        · rw [List.mem_singleton.mp hseat]
          exact .inr ⟨Int.le_refl now, (fun _ hcleared => by cases hcleared), .inl rfl⟩
    | removeMember c target =>
      by_cases hmay : s.db.ledger.MayRemove u c target
      · rw [h.1 hmay]
        exact fun seat hseat => hold (.inl (List.mem_filter.mp hseat).1)
      · exact hsame (congrArg _ (h.2 hmay))
    | setRole c target role =>
      obtain ⟨-, h⟩ | ⟨-, seat, -, rfl⟩ := h
      · exact hsame (congrArg _ h)
      · intro seat hseat
        obtain ⟨seat', hseat', rfl⟩ := List.mem_map.mp hseat
        refine .inl ⟨seat', hseat', ?_⟩
        split <;> rfl
    | pinMessage c id => exact hsame (hpin h)
    | unpinMessage c id => exact hsame (hunpin h)
    | forwardMessage id c => exact hsame (hforward h)
    | _ => exact hsame (congrArg _ h)
  | timeout timer =>
    obtain h | ⟨t, -, rfl⟩ := h
    · exact hsame (congrArg _ h)
    · exact hsame rfl
  | _ => exact hsame (congrArg _ h)

theorem Gateway.Yields.past (h : s.Yields now input l) (hpast : s.db.ledger.Past now) : l.Past now where
  seats := by
    intro seat hseat
    obtain ⟨seat', hseat', heq⟩ | htouched := h.seats hpast seat hseat
    · rw [← heq]
      exact hpast.seats seat' hseat'
    · exact ⟨htouched.read, htouched.cleared⟩
  postings := by
    have hpost : ∀ {p : Posting}, p.createdAt = now →
        ∀ p' ∈ (s.db.ledger.post p).postings, p'.createdAt ≤ now := by
      intro p hcreated p' hp'
      rcases List.mem_append.mp hp' with hp' | hp'
      · exact hpast.postings p' hp'
      · rw [List.mem_singleton.mp hp', hcreated]
    obtain ⟨hfixed, -⟩ | ⟨u, data, -, -, -, rfl⟩ | ⟨u, id, c, -, -, rfl⟩ := h.postings
    · intro p hp
      obtain ⟨p', hp', -, hcreated, -⟩ := fixed_of_mem hfixed hp
      exact hcreated ▸ hpast.postings p' hp'
    · exact hpost (p := s.db.saved now u data.conversationId (data.dto now)) rfl
    · exact hpost (p := s.db.forwarded now u c id) rfl

theorem awaits_ledger {db : Database} {u : UserId} {c : ConversationId} :
    db.Awaits now u c ↔ db.ledger.Awaits now u c := by
  constructor
  · rintro ⟨m, hm, hc, hu, hpending⟩
    exact ⟨m.posting, List.mem_map_of_mem hm, hc, hu, pending_posting.mpr hpending⟩
  · rintro ⟨_, hp, hc, hu, hpending⟩
    obtain ⟨m, hm, rfl⟩ := List.mem_map.mp hp
    exact ⟨m, hm, hc, hu, pending_posting.mp hpending⟩

/-! ### Operations that touch nobody -/

theorem fresh_strike {l : Ledger} (h : l.Fresh) (q : Posting → Bool) : (l.strike q).Fresh := by
  refine h.mono (fun p hp hlive => ?_) fun _ _ _ seat hseat _ => ⟨seat, hseat, rfl⟩
  obtain ⟨old, hold, rfl⟩ := List.mem_map.mp hp
  split at hlive
  · cases hlive
  · rw [if_neg ‹_›]
    exact .inl hold

/-- Those who clear for everyone leave nothing that waits. -/
theorem fresh_clearBoth {l : Ledger} (h : l.Fresh) (c : ConversationId) (now : Time) :
    (((l.strike (·.conversationId = c)).unpin (·.1 = c)).clear (·.conversationId = c) now).Fresh := by
  have hpostings : ∀ p ∈ (l.strike (·.conversationId = c)).postings, p.deleted = false →
      p ∈ l.postings ∧ p.conversationId ≠ c := by
    intro p hp hlive
    obtain ⟨old, hold, rfl⟩ := List.mem_map.mp hp
    split at hlive
    · cases hlive
    · rw [if_neg ‹_›]
      exact ⟨hold, fun hc => ‹¬_› (decide_eq_true hc)⟩
  refine h.mono (fun p hp hlive => .inl (hpostings p hp hlive).1) fun p hp hlive seat hseat hc => ?_
  obtain ⟨old, hold, rfl⟩ := List.mem_map.mp hseat
  have hother : ¬decide (old.conversationId = c) = true := by
    intro hin
    rw [if_pos hin] at hc
    exact (hpostings p hp hlive).2 (hc.symm.trans (of_decide_eq_true hin))
  rw [if_neg hother]
  exact ⟨old, hold, rfl⟩

theorem fresh_found {l : Ledger} (h : l.Fresh) (hsound : l.Sound) (hplaced : l.Placed)
    (type : ConversationType) (members : List (UserId × MemberRole)) :
    (l.found now type members).Fresh := by
  refine h.mono (fun _ hp _ => .inl hp) fun p hp _ seat hseat hc => ?_
  obtain hold | ⟨hnew, -⟩ := touched_found hseat
  · exact ⟨seat, hold, rfl⟩
  · have hsome := hplaced p hp
    rw [← hc, hnew, hsound.type?_next] at hsome
    cases hsome

theorem fresh_leave {l : Ledger} (h : l.Fresh) (c : ConversationId) (u : UserId) : (l.leave c u).Fresh :=
  h.mono (fun _ hp _ => .inl hp) fun _ _ _ seat hseat _ => ⟨seat, (List.mem_filter.mp hseat).1, rfl⟩

theorem fresh_appoint {l : Ledger} (h : l.Fresh) (c : ConversationId) (u : UserId) (role : MemberRole) :
    (l.appoint c u role).Fresh := by
  refine h.mono (fun _ hp _ => .inl hp) fun _ _ _ seat hseat _ => ?_
  obtain ⟨old, hold, rfl⟩ := List.mem_map.mp hseat
  refine ⟨old, hold, ?_⟩
  split <;> rfl

theorem fresh_pin (h : s.db.ledger.Fresh) {checks : Prop} {c : ConversationId} {id : MessageId}
    (hl : s.YieldsPin checks c id l) : l.Fresh := by
  obtain rfl | ⟨-, rfl⟩ := hl
  · exact h
  · unfold Ledger.pin
    split <;> exact h

theorem fresh_unpin (h : s.db.ledger.Fresh) {c : ConversationId} {id : MessageId}
    (hl : s.YieldsUnpin c id l) : l.Fresh := by
  obtain rfl | rfl := hl <;> exact h

theorem fresh_forward (h : s.db.ledger.Fresh) (hpast : s.db.ledger.Past now) {u : UserId}
    {c : ConversationId} {id : MessageId} (hl : s.YieldsForward now u id c l) : l.Fresh := by
  obtain ⟨-, rfl⟩ | ⟨-, rfl⟩ := hl
  · exact (Ledger.fresh_post h hpast (Int.le_refl now) (p := s.db.forwarded now u c id) rfl rfl
      fun _ h => by cases h).mpr fun hnot => absurd rfl hnot
  · exact h

/-! ### Operations that may touch somebody -/

theorem fresh_sendMessage (hkeyed : s.db.Keyed) (hpast : s.db.ledger.Past now) (h : s.db.ledger.Fresh)
    {socket : SocketId} {k : Socket} {data : SendMessage} (hk : s.socket? socket = some k) :
    (s.next env (now, .event socket (.sendMessage data))).db.ledger.Fresh ↔
      s.KeepsNews env now (.event socket (.sendMessage data)) := by
  have hcond : s.KeepsNews env now (.event socket (.sendMessage data)) ↔
      (s.Stores env now k.userId data → data.deliverAt now ≠ none → ∀ seat ∈ s.db.ledger.seats,
        seat.conversationId = data.conversationId → seat.userId ≠ k.userId → seat.IdleSince now) := by
    constructor
    · intro hkeeps hstores hat seat hseat hc hu
      obtain ⟨member, hmember, rfl⟩ := List.mem_map.mp hseat
      exact hkeeps k hk hstores hat member (mem_membersOf.mpr ⟨hmember, hc⟩) hu
    · intro hidle k' hk' hstores hat member hmember hu
      obtain rfl := Option.some.inj (hk.symm.trans hk')
      obtain ⟨hmem, hc⟩ := mem_membersOf.mp hmember
      exact hidle hstores hat member.seat (List.mem_map_of_mem hmem) hc hu
  rw [hcond]
  obtain ⟨hstores, hledger⟩ | ⟨hnot, hledger⟩ := @next_sendMessage env now s _ k data hkeyed hk
  · rw [hledger, Ledger.fresh_post h hpast (Int.le_refl now) (p := s.sent now k.userId data) rfl rfl
      fun time htime => ?_]
    · exact ⟨fun hidle _ => hidle, fun hidle => hidle hstores⟩
    · simpa using (Option.filter_eq_some_iff.mp htime).2
  · rw [hledger]
    exact iff_of_true h fun hstores => absurd hstores hnot

theorem fresh_markAsRead (hpast : s.db.ledger.Past now) (h : s.db.ledger.Fresh)
    {socket : SocketId} {k : Socket} {c : ConversationId} (hk : s.socket? socket = some k) :
    (s.db.ledger.read (fun seat => seat.conversationId = c ∧ seat.userId = k.userId) now).Fresh ↔
      s.KeepsNews env now (.event socket (.markAsRead c)) := by
  have hcond : s.KeepsNews env now (.event socket (.markAsRead c)) ↔
      ((s.db.ledger.seat? c k.userId).isSome → ¬s.db.ledger.Awaits now k.userId c) := by
    rw [← awaits_ledger, ← Database.isMember_ledger]
    refine ⟨fun hkeeps => hkeeps k hk, fun hkeeps k' hk' => ?_⟩
    obtain rfl := Option.some.inj (hk.symm.trans hk')
    exact hkeeps
  rw [hcond]
  by_cases hseat : (s.db.ledger.seat? c k.userId).isSome
  · rw [Ledger.fresh_read h hpast hseat]
    exact ⟨fun hnot _ => hnot, fun hnot => hnot hseat⟩
  · refine iff_of_true (h.mono (fun _ hp _ => .inl hp) fun _ _ _ seat' hseat' _ => ?_) fun hsome =>
      absurd hsome hseat
    obtain ⟨old, hold, rfl⟩ := List.mem_map.mp hseat'
    have hother := List.find?_eq_none.mp (Option.not_isSome_iff_eq_none.mp hseat) old hold
    rw [if_neg hother]
    exact ⟨old, hold, rfl⟩

theorem fresh_clearSelf (hsound : s.db.ledger.Sound) (hpast : s.db.ledger.Past now) (h : s.db.ledger.Fresh)
    {u : UserId} {c : ConversationId} (hyields : s.Yields now (.call u (.clearMessages c .self)) l) :
    l.Fresh ↔ s.KeepsNews env now (.call u (.clearMessages c .self)) := by
  have hcond : s.KeepsNews env now (.call u (.clearMessages c .self)) ↔
      ((s.db.ledger.seat? c u).isSome → ¬s.db.ledger.Awaits now u c) := by
    rw [← awaits_ledger, ← Database.isMember_ledger]
    exact Iff.rfl
  rw [hcond]
  obtain ⟨hnone, rfl⟩ | ⟨hseat, rfl⟩ := hyields
  · refine iff_of_true h fun hsome => ?_
    obtain ⟨seat, hseat⟩ := Option.isSome_iff_exists.mp hsome
    obtain ⟨hmem, hc, -⟩ := Ledger.seat?_mem hseat
    obtain hgone | hgone := hnone rfl
    · cases hseat.symm.trans hgone
    · have hplace := hsound.seated seat hmem
      rw [hc, hgone] at hplace
      cases hplace
  · rw [Ledger.fresh_clear h hpast hseat]
    exact ⟨fun hnot _ => hnot, fun hnot => hnot hseat⟩

theorem fresh_addMember (hpast : s.db.ledger.Past now) (h : s.db.ledger.Fresh) {u target : UserId}
    {c : ConversationId} (hyields : s.Yields now (.call u (.addMember c target)) l) :
    l.Fresh ↔ s.KeepsNews env now (.call u (.addMember c target)) := by
  have hcond : s.KeepsNews env now (.call u (.addMember c target)) ↔
      (s.db.ledger.MayAdd u c target → s.db.user? target ≠ none →
        ¬s.db.ledger.Awaits now target c) := by
    rw [← awaits_ledger]
    exact Iff.rfl
  rw [hcond]
  obtain ⟨hnot, rfl⟩ | ⟨hmay, rfl⟩ := hyields
  · exact iff_of_true h fun hmay huser => absurd ⟨hmay, huser⟩ hnot
  · rw [Ledger.fresh_join h hpast]
    exact ⟨fun hnot _ _ => hnot, fun hnot => hnot hmay.1 hmay.2⟩

/-- **One step**: news is new still if and only if the step keeps it so. -/
theorem next_fresh (hkeyed : s.db.Keyed) (hsound : s.db.ledger.Sound) (hplaced : s.db.ledger.Placed)
    (hpast : s.db.ledger.Past now) (henabled : s.Enabled now input) (h : s.db.ledger.Fresh) :
    (s.next env (now, input)).db.ledger.Fresh ↔ s.KeepsNews env now input := by
  have hyields : s.Yields now input (s.next env (now, input)).db.ledger :=
    next_yields hkeyed (sound_ids hsound) henabled
  generalize hl : (s.next env (now, input)).db.ledger = l at hyields ⊢
  have hsame : ∀ {l}, l = s.db.ledger → l.Fresh := fun heq => heq ▸ h
  cases input with
  | event socket request =>
    obtain ⟨k, hk, hyields⟩ := hyields
    cases request with
    | sendMessage data => exact hl ▸ fresh_sendMessage hkeyed hpast h hk
    | markAsRead c => exact hyields ▸ fresh_markAsRead hpast h hk
    | deleteMessage id =>
      exact iff_of_true (hyields.elim hsame fun heq => heq ▸ fresh_strike h _) trivial
    | pinMessage c id => exact iff_of_true (fresh_pin h hyields) trivial
    | unpinMessage c id => exact iff_of_true (fresh_unpin h hyields) trivial
    | forwardMessage id c reEncrypted =>
      simp only [Gateway.YieldsEvent] at hyields
      split at hyields
      · exact iff_of_true (fresh_forward h hpast hyields) trivial
      · exact iff_of_true (hsame hyields) trivial
    | _ => exact iff_of_true (hsame hyields) trivial
  | call u route =>
    cases route with
    | createDirect target =>
      refine iff_of_true ?_ trivial
      obtain heq | rfl | ⟨members, -, rfl⟩ := hyields
      · exact hsame heq
      · exact h
      · exact fresh_found h hsound hplaced _ _
    | createGroup name description memberIds =>
      refine iff_of_true ?_ trivial
      obtain rfl | rfl := hyields
      · exact h
      · exact fresh_found h hsound hplaced _ _
    | createChannel name description =>
      refine iff_of_true ?_ trivial
      obtain rfl | rfl := hyields
      · exact h
      · exact fresh_found h hsound hplaced _ _
    | clearMessages c scope =>
      cases scope with
      | self => exact fresh_clearSelf hsound hpast h hyields
      | both =>
        refine iff_of_true ?_ trivial
        obtain ⟨-, heq⟩ | ⟨-, rfl⟩ := hyields
        · exact hsame heq
        · exact fresh_clearBoth h c now
    | addMember c target => exact fresh_addMember hpast h hyields
    | removeMember c target =>
      refine iff_of_true ?_ trivial
      by_cases hmay : s.db.ledger.MayRemove u c target
      · exact hyields.1 hmay ▸ fresh_leave h c target
      · exact hsame (hyields.2 hmay)
    | setRole c target role =>
      refine iff_of_true ?_ trivial
      obtain ⟨-, heq⟩ | ⟨-, seat, -, rfl⟩ := hyields
      · exact hsame heq
      · exact fresh_appoint h c target _
    | pinMessage c id => exact iff_of_true (fresh_pin h hyields) trivial
    | unpinMessage c id => exact iff_of_true (fresh_unpin h hyields) trivial
    | forwardMessage id c => exact iff_of_true (fresh_forward h hpast hyields) trivial
    | _ => exact iff_of_true (hsame hyields) trivial
  | timeout timer =>
    refine iff_of_true ?_ trivial
    obtain heq | ⟨t, -, rfl⟩ := hyields
    · exact hsame heq
    · exact fresh_strike h _
  | _ => exact iff_of_true (hsame hyields) trivial

/-! ## Runs -/

/-- What every step keeps. -/
structure Steady (s : Gateway × Time) : Prop where
  keyed : s.1.db.Keyed
  sound : s.1.db.ledger.Sound
  placed : s.1.db.ledger.Placed
  past : s.1.db.ledger.Past s.2

theorem Ledger.Past.later {l : Ledger} (h : l.Past clock) (hclock : clock ≤ now) : l.Past now where
  seats := fun seat hseat => ⟨(h.seats seat hseat).1.trans hclock,
    fun cleared hcleared => ((h.seats seat hseat).2 cleared hcleared).trans hclock⟩
  postings := fun p hp => (h.postings p hp).trans hclock

theorem steady_start {users : List User} {devices : List Device} {start : Time} :
    Steady (.start users devices, start) := by
  refine ⟨⟨List.nodup_nil, ?_⟩, ⟨List.nodup_nil, ?_, List.nodup_nil, ?_, ?_⟩, ?_, ⟨?_, ?_⟩⟩
  all_goals exact fun _ h => by cases h

theorem Steady.next (h : Steady (s, clock)) (hclock : clock ≤ now) (henabled : s.Enabled now input) :
    Steady (s.next env (now, input), now) := by
  have hyields : s.Yields now input (s.next env (now, input)).db.ledger :=
    next_yields h.keyed (sound_ids h.sound) henabled
  exact ⟨next_keyed h.keyed, next_sound h.keyed h.sound henabled, hyields.placed h.sound h.placed,
    hyields.past (h.past.later hclock)⟩

theorem newsIsNew_iff (hkeyed : s.db.Keyed) (hsound : s.db.ledger.Sound) :
    s.NewsIsNew env clock ↔ s.db.ledger.Fresh := by
  have hvisible : ∀ {m : Message} {time now : Time} {u : UserId}, time ∈ m.scheduledAt → time ≤ now →
      scheduledFilter now u m = true := by
    intro m time now u htime hle
    simp [scheduledFilter, Option.mem_def.mp htime, hle]
  constructor
  · intro hnew p hp hlive time htime seat hseat hc hu hidle
    obtain ⟨m, hm, rfl⟩ := List.mem_map.mp hp
    obtain ⟨member, hmember, rfl⟩ := List.mem_map.mp hseat
    have hlive : m.deletedAt = none := by simpa [Message.posting] using hlive
    have hmember : member ∈ s.db.membersOf m.conversationId := mem_membersOf.mpr ⟨hmember, hc⟩
    exact (newTo_iff hkeyed hsound hm hmember hu hlive (hvisible htime (le_max_right clock time))).mp
      (hnew m hm hlive time htime member hmember hu hidle.1 hidle.2 _ (le_max_left clock time)
        (le_max_right clock time))
  · intro hfresh m hm hlive time htime member hmember hu hread hcleared now _ htime'
    obtain ⟨hmem, hc⟩ := mem_membersOf.mp hmember
    refine (newTo_iff hkeyed hsound hm hmember hu hlive (hvisible htime htime')).mpr ?_
    exact hfresh m.posting (List.mem_map_of_mem hm) (by simp [Message.posting, hlive]) time htime member.seat
      (List.mem_map_of_mem hmem) hc hu ⟨hread, hcleared⟩

end

/-- **Scheduled messages are new when they are delivered**, in every state of a run under a clock, if and
only if no member reads or clears a conversation, or joins it, while a message of another waits there. -/
theorem delivered_new (env : Environment) (users : List User) (devices : List Device) (start : Time)
    (run : List (Time × Input))
    (hrun : ((gateway env users devices).timed start).Allowed (.start users devices, start) run) :
    ((gateway env users devices).timed start).Throughout (fun s => s.1.NewsIsNew env s.2)
        (.start users devices, start) run ↔
      (((gateway env users devices).timed start).restrict fun s e => s.1.KeepsNews env e.1 e.2).Allowed
        (.start users devices, start) run := by
  refine Machine.throughout_iff (M := (gateway env users devices).timed start) (I := Steady)
    (fun s e hs he => hs.next he.1 he.2)
    (fun s e hs hnew he => ?_) steady_start ?_ hrun
  · rw [newsIsNew_iff hs.keyed hs.sound] at hnew
    have hs' : Steady (s.1.next env e, e.1) := hs.next he.1 he.2
    exact (newsIsNew_iff hs'.keyed hs'.sound).trans
      (next_fresh hs.keyed hs.sound hs.placed (hs.past.later he.1) he.2 hnew)
  · exact (newsIsNew_iff steady_start.keyed steady_start.sound).mpr fun _ h => by cases h

instance (s : Gateway) (now : Time) (u : UserId) (c : ConversationId) : Decidable (s.db.Awaits now u c) :=
  inferInstanceAs (Decidable (∃ m ∈ _, _ ∧ _ ∧ _))

instance (l : Ledger) (u : UserId) (c : ConversationId) (target : UserId) : Decidable (l.MayAdd u c target) :=
  inferInstanceAs (Decidable ((∀ t ∈ l.type? c, _) ∧ (∃ s ∈ l.seat? c u, _) ∧ _))

instance (s : Gateway) (env : Environment) (now : Time) : (input : Input) → Decidable (s.KeepsNews env now input)
  | .event _ (.sendMessage _) => inferInstanceAs (Decidable (∀ k ∈ _, _ → _ → ∀ member ∈ _, _ → _ ∧ ∀ cleared ∈ _, _))
  | .event _ (.markAsRead _) => inferInstanceAs (Decidable (∀ k ∈ _, _ → ¬_))
  | .call _ (.clearMessages _ .self) => inferInstanceAs (Decidable (_ → ¬_))
  | .call _ (.addMember ..) => inferInstanceAs (Decidable (_ → _ → ¬_))
  | .event _ (.typing ..) | .event _ (.deleteMessage _) | .event _ (.editMessage ..)
  | .event _ (.toggleReaction ..) | .event _ (.joinConversation _) | .event _ (.pinMessage ..)
  | .event _ (.unpinMessage ..) | .event _ (.requestSenderKeyRedistribution ..) | .event _ .notifyKeyRotated
  | .event _ (.forwardMessage ..) => .isTrue trivial
  | .call _ (.getAll ..) | .call _ (.createDirect _) | .call _ (.createGroup ..) | .call _ (.createChannel ..)
  | .call _ (.getOne _) | .call _ (.update ..) | .call _ (.pinChat ..) | .call _ (.archiveChat ..)
  | .call _ (.getMessages ..) | .call _ (.clearMessages _ .both) | .call _ (.getMedia _)
  | .call _ (.searchMessages ..) | .call _ (.removeMember ..) | .call _ (.setRole ..) | .call _ (.pinMessage ..)
  | .call _ (.unpinMessage ..) | .call _ (.getPinnedMessages _) | .call _ (.forwardMessage ..)
  | .call _ .deleteAllMySenderKeys | .call _ (.setGroupKeys ..) | .call _ (.getMyGroupKey _) => .isTrue trivial
  | .connect .. | .resume _ | .timeout _ | .disconnect _ | .cleanup | .restart => .isTrue trivial

instance (l : Ledger) : Decidable l.Fresh :=
  inferInstanceAs (Decidable (∀ p ∈ l.postings, p.deleted = false → ∀ time ∈ p.scheduledAt,
    ∀ seat ∈ l.seats, seat.conversationId = p.conversationId → seat.userId ≠ p.senderId →
      seat.IdleSince time → seat.IdleSince p.createdAt))

/-- User 1 schedules a message for user 2. -/
def waitingRun : List (Time × Input) := [
  (0, .call 1 (.createDirect 2)), (1, .connect 10 1 []), (1, .connect 20 2 []),
  (2, .event 10 (.sendMessage { sampleMessage 1 with scheduledAt := some (some 5000) }))]

theorem delivered_new_waited :
    ((gateway sampleEnvironment [sampleUser 1, sampleUser 2] []).timed 0).Throughout
      (fun s => s.1.NewsIsNew sampleEnvironment s.2) (.start [sampleUser 1, sampleUser 2] [], 0)
      (waitingRun ++ [(5000, .timeout 0), (6000, .event 20 (.markAsRead 1))]) :=
  (delivered_new sampleEnvironment [sampleUser 1, sampleUser 2] [] 0
    (waitingRun ++ [(5000, .timeout 0), (6000, .event 20 (.markAsRead 1))]) (by decide +kernel)).mpr
    (by decide +kernel)

/-- User 2 reads the conversation while the message waits, and never finds it unread. -/
theorem overlooked : ∃ s,
    ((gateway sampleEnvironment [sampleUser 1, sampleUser 2] []).timed 0).Reachable s ∧
      ¬s.1.NewsIsNew sampleEnvironment s.2 := by
  have hrun : ((gateway sampleEnvironment [sampleUser 1, sampleUser 2] []).timed 0).Allowed
      (.start [sampleUser 1, sampleUser 2] [], 0)
      (waitingRun ++ [(3000, .event 20 (.markAsRead 1)), (5000, .timeout 0)]) := by decide +kernel
  have hsteady := Machine.Allowed.invariant (M := (gateway sampleEnvironment [sampleUser 1, sampleUser 2] []).timed 0)
    (I := Steady) (fun s e hs he => hs.next he.1 he.2) steady_start hrun
  refine ⟨_, Machine.reachable_iff.mpr ⟨_, hrun, rfl⟩, fun hnew => ?_⟩
  exact absurd ((newsIsNew_iff hsteady.keyed hsteady.sound).mp hnew) (by decide +kernel)

end Vesper.Server
