import Vesper.Server.Scheduling

/-!
# Scheduled messages come once

The journal says of every message that the server owes how often it has been broadcast. A message is
booked either as a timer or as a broadcast, and a timer that fires turns the one into the other.
-/

namespace Vesper.Server
open Program

/-- The broadcasts of a message. -/
def Journal.deliveries (j : Journal) (id : MessageId) : List (Time × Target × MessageId) :=
  j.broadcasts.filter (·.2.2 = id)

/-- A message that the server owes was broadcast at most once, into its room and not before its time, and
exactly once when its time has come and no timer of it is left to fire. -/
def DeliversOnce (s : (Gateway × Time) × Journal) : Prop :=
  ∀ id ∈ s.2.owed, ∃ m ∈ s.1.1.db.message? id, ∃ time ∈ m.scheduledAt,
    (∀ b ∈ s.2.deliveries id, b.2.1 = .room m.conversationId ∧ time ≤ b.1) ∧
    (s.2.deliveries id).length ≤ 1 ∧
    (time ≤ s.1.2 → (∀ t ∈ s.1.1.timers, t.messageId = id → s.1.2 < t.dueAt) →
      (s.2.deliveries id).length = 1)

/-- No message is accepted that is scheduled further ahead than a timer can count, and no restart finds the
timer of a message due that the server owes. -/
def KeepsOwed (env : Environment) (s : (Gateway × Time) × Journal) (now : Time) : Input → Prop
  | .event socket (.sendMessage data) => ∀ k ∈ s.1.1.socket? socket, s.1.1.Accepts env now k.userId data →
      ∀ time ∈ data.deliverAt now, time - now ≤ MAX_DELAY
  | .restart => ∀ t ∈ s.1.1.timers, t.messageId ∈ s.2.owed → now < t.dueAt
  | _ => True

/-- A timer fires. -/
def Firing (input : Time × Input) : Prop := ∃ timer, input.2 = .timeout timer

/-! ## Bookings -/

def Ledger.Owes (l : Ledger) (id : MessageId) : Prop :=
  ∃ p ∈ l.posting? id, p.deleted = false ∧ (l.seat? p.conversationId p.senderId).isSome

theorem owes_ledger {db : Database} {id : MessageId} : db.Owes id ↔ db.ledger.Owes id := by
  simp only [Database.Owes, Ledger.Owes, Database.posting?_ledger, Option.mem_def,
    Option.map_eq_some_iff, exists_exists_and_eq_and, Database.isMember_ledger]
  refine exists_congr fun m => and_congr_right fun _ => and_congr_left fun _ => ?_
  simp [Message.posting]

/-- A message is booked, as a timer or as a broadcast. -/
structure Booked (l : Ledger) (ts : List Timer) (clock : Time) (bs : List (Time × Target × MessageId))
    (p : Posting) (time : Time) : Prop where
  posted : p ∈ l.record
  scheduled : p.scheduledAt = some time
  inReach : time - clock ≤ MAX_DELAY
  timer : ∀ t ∈ ts, t.messageId = p.id → t.conversationId = p.conversationId ∧ t.dueAt = time
  delivered : ∀ b ∈ bs, b.2.2 = p.id → b.2.1 = .room p.conversationId ∧ time ≤ b.1
  once : ts.countP (·.messageId = p.id) + bs.countP (·.2.2 = p.id) = 1

/-- The books of the server. -/
structure Books (l : Ledger) (ts : List Timer) (clock : Time) (bs : List (Time × Target × MessageId))
    (owed : List MessageId) : Prop where
  timers : ∀ t ∈ ts, ∃ p ∈ l.record, p.id = t.messageId
  past : ∀ b ∈ bs, b.1 ≤ clock ∧ ∃ p ∈ l.record, p.id = b.2.2
  owed : ∀ id ∈ owed, ∃ p time, p.id = id ∧ Booked l ts clock bs p time

section
variable {g : Gateway} {env : Environment} {now clock : Time} {input : Input} {l l' : Ledger} {a : Agenda}
  {bs bs' : List (Time × Target × MessageId)} {ts ts' : List Timer} {p : Posting} {time : Time}
  {owed owed' : List MessageId}

/-- A booking stays when nothing happens to the message. -/
theorem Booked.stays (h : Booked l ts clock bs p time) (hclock : clock ≤ now) (hl : l.record ⊆ l'.record)
    (hts : ∀ t ∈ ts', t.messageId = p.id → t ∈ ts) (hbs : ∀ b ∈ bs', b.2.2 = p.id → b ∈ bs)
    (htimers : ts'.countP (·.messageId = p.id) = ts.countP (·.messageId = p.id))
    (hpast : bs'.countP (·.2.2 = p.id) = bs.countP (·.2.2 = p.id)) :
    Booked l' ts' now bs' p time where
  posted := hl h.posted
  scheduled := h.scheduled
  inReach := (Int.sub_le_sub_left hclock time).trans h.inReach
  timer t ht hid := h.timer t (hts t ht hid) hid
  delivered b hb hid := h.delivered b (hbs b hb hid) hid
  once := by rw [htimers, hpast, h.once]

/-- A message is booked as a timer when it is accepted. -/
theorem Booked.accepted (hkeyed : g.db.Keyed) (h : Books g.db.ledger g.timers clock bs owed)
    (hid : p.id = g.db.nextMessageId) (hp : p.fixed = p) (htime : p.scheduledAt = some time)
    (hlt : now < time) (hreach : time - now ≤ MAX_DELAY) :
    Booked (g.db.ledger.post p) (g.timers ++ [p.timer now]) now bs p time := by
  have htimers : ∀ t ∈ g.timers, t.messageId ≠ p.id := by
    intro t ht heq
    obtain ⟨q, hq, hqid⟩ := h.timers t ht
    exact record_fresh hkeyed q hq (hqid.trans (heq.trans hid))
  have hpast : ∀ b ∈ bs, b.2.2 ≠ p.id := by
    intro b hb heq
    obtain ⟨q, hq, hqid⟩ := (h.past b hb).2
    exact record_fresh hkeyed q hq (hqid.trans (heq.trans hid))
  refine ⟨?_, htime, hreach, fun t ht hid' => ?_, fun b hb hid' => absurd hid' (hpast b hb), ?_⟩
  · rw [record_post, hp]
    exact List.mem_append_right _ List.mem_cons_self
  · rcases List.mem_append.mp ht with ht | ht
    · exact absurd hid' (htimers t ht)
    · obtain rfl := List.mem_singleton.mp ht
      refine ⟨rfl, ?_⟩
      rw [Posting.timer, htime]
      exact dueAt_eq hlt hreach
  · have hnone : g.timers.countP (·.messageId = p.id) = 0 :=
      List.countP_eq_zero.mpr fun t ht => by simpa using htimers t ht
    have hnever : bs.countP (·.2.2 = p.id) = 0 :=
      List.countP_eq_zero.mpr fun b hb => by simpa using hpast b hb
    rw [List.countP_append, hnone, hnever]
    simp [Posting.timer]

/-- A timer that fires turns into a broadcast. -/
theorem Booked.fires {timer : Nat} {t : Timer} (h : Booked l ts clock bs p time) (hclock : clock ≤ now)
    (ht : ts[timer]? = some t) (hid : t.messageId = p.id) (hdue : t.dueAt ≤ now) :
    Booked l (ts.eraseIdx timer) now (bs ++ [(now, .room t.conversationId, t.messageId)]) p time := by
  obtain ⟨hroom, htime⟩ := h.timer t (List.mem_of_getElem? ht) hid
  refine ⟨h.posted, h.scheduled, (Int.sub_le_sub_left hclock time).trans h.inReach,
    fun t' ht' => h.timer t' (List.mem_of_mem_eraseIdx ht'), fun b hb hid' => ?_, ?_⟩
  · rcases List.mem_append.mp hb with hb | hb
    · exact h.delivered b hb hid'
    · obtain rfl := List.mem_singleton.mp hb
      exact ⟨congrArg Target.room hroom, htime ▸ hdue⟩
  · have hcount := countP_eraseIdx (q := (·.messageId = p.id)) ht
    have honce := h.once
    simp only [hid, decide_true, if_true] at hcount
    rw [List.countP_append, List.countP_singleton, if_pos (decide_eq_true hid)]
    omega

/-- A restart sets a timer for a booked message if and only if its time has not come. -/
theorem Booked.restarts (h : Booked g.db.ledger ts clock bs p time) (hkeyed : g.db.Keyed)
    (hclock : clock ≤ now) (hpast : ∀ b ∈ bs, b.1 ≤ clock) (howes : g.db.ledger.Owes p.id)
    (hdue : ∀ t ∈ ts, t.messageId = p.id → now < t.dueAt) :
    Booked g.db.ledger (g.db.ledger.timers now) now bs p time := by
  obtain ⟨q, hq, hlive, -⟩ := howes
  obtain ⟨hqmem, hqid⟩ := Ledger.posting?_mem hq
  have hqp : q.fixed = p := record_unique hkeyed (List.mem_map_of_mem hqmem) h.posted hqid
  have hqtime : q.scheduledAt = some time := (congrArg Posting.scheduledAt hqp).trans h.scheduled
  have hreach : time - now ≤ MAX_DELAY := (Int.sub_le_sub_left hclock time).trans h.inReach
  -- a posting with the identifier is the one that is booked
  have hkeys : (g.db.ledger.postings.map (·.id)).Nodup := by
    rw [Database.ledger, List.map_map]
    exact hkeyed.keys
  have honly : ∀ q' ∈ g.db.ledger.postings, q'.id = p.id → q' = q :=
    fun q' hq' hid' => List.inj_on_of_nodup_map hkeys hq' hqmem (hid'.trans hqid.symm)
  refine ⟨h.posted, h.scheduled, hreach, fun t ht hid => ?_, h.delivered, ?_⟩
  · obtain ⟨q', hq', rfl⟩ := List.mem_map.mp ht
    rw [List.mem_filter, decide_eq_true_eq] at hq'
    obtain rfl := honly q' hq'.1 hid
    obtain ⟨time', htime', hlt⟩ := (Option.any_eq_true _ _).mp hq'.2.1
    obtain rfl := Option.some.inj (hqtime.symm.trans htime')
    have hroom : q'.fixed.conversationId = p.conversationId := congrArg Posting.conversationId hqp
    refine ⟨hroom, ?_⟩
    rw [Posting.timer, hqtime]
    exact dueAt_eq (by simpa using hlt) hreach
  · rw [Ledger.timers, List.countP_map, List.countP_filter]
    simp only [Function.comp_apply]
    by_cases hlt : now < time
    · have hpending : q.Pending now := ⟨by rw [hqtime]; exact decide_eq_true hlt, hlive⟩
      have hone : ∀ x ∈ g.db.ledger.postings, (decide ((x.timer now).messageId = p.id) &&
          decide (x.Pending now)) = true ↔ (x == q) = true := by
        intro x hx
        rw [Bool.and_eq_true, decide_eq_true_eq, decide_eq_true_eq, beq_iff_eq]
        exact ⟨fun h => honly x hx h.1, fun h => h ▸ ⟨hqid, hpending⟩⟩
      have hnever : bs.countP (·.2.2 = p.id) = 0 := by
        refine List.countP_eq_zero.mpr fun b hb hid => ?_
        have hlate := (h.delivered b hb (of_decide_eq_true hid)).2
        exact absurd (hlate.trans ((hpast b hb).trans hclock)) (Int.not_le.mpr hlt)
      rw [List.countP_congr hone, hnever, Nat.add_zero]
      exact List.count_eq_one_of_mem (List.Nodup.of_map _ hkeys) hqmem
    · have hnone : ∀ x ∈ g.db.ledger.postings, ¬(decide ((x.timer now).messageId = p.id) &&
          decide (x.Pending now)) = true := by
        intro x hx
        rw [Bool.and_eq_true, decide_eq_true_eq, decide_eq_true_eq]
        rintro ⟨hid, hpending⟩
        obtain rfl := honly x hx hid
        obtain ⟨time', htime', hlt'⟩ := (Option.any_eq_true _ _).mp hpending.1
        obtain rfl := Option.some.inj (hqtime.symm.trans htime')
        exact hlt (of_decide_eq_true hlt')
      have hgone : ts.countP (·.messageId = p.id) = 0 := by
        refine List.countP_eq_zero.mpr fun t ht hid => hlt ?_
        rw [← (h.timer t ht (of_decide_eq_true hid)).2]
        exact hdue t ht (of_decide_eq_true hid)
      have honce := h.once
      rw [hgone] at honce
      exact (congrArg (· + _) (List.countP_eq_zero.mpr hnone)).trans honce

/-- Books that differ in one message, of which they are to say what they say. -/
theorem Books.update (h : Books l ts clock bs owed) (hclock : clock ≤ now) (hl : l.record ⊆ l'.record)
    (id : MessageId) (hts : ∀ t ∈ ts', t ∈ ts ∨ t.messageId = id ∧ ∃ p ∈ l'.record, p.id = id)
    (hbs : ∀ b ∈ bs', b.1 = now ∧ b.2.2 = id ∧ ∃ p ∈ l'.record, p.id = id)
    (hcount : ∀ id', id' ≠ id → ts'.countP (·.messageId = id') = ts.countP (·.messageId = id'))
    (howed : ∀ id' ∈ owed', id' ≠ id → id' ∈ owed)
    (hid : id ∈ owed' → ∃ p time, p.id = id ∧ Booked l' ts' now (bs ++ bs') p time) :
    Books l' ts' now (bs ++ bs') owed' := by
  refine ⟨fun t ht => ?_, fun b hb => ?_, fun id' hid' => ?_⟩
  · obtain hold | ⟨heq, hknown⟩ := hts t ht
    · obtain ⟨p, hp, hpid⟩ := h.timers t hold
      exact ⟨p, hl hp, hpid⟩
    · rwa [heq]
  · rcases List.mem_append.mp hb with hb | hb
    · obtain ⟨hpast, p, hp, hpid⟩ := h.past b hb
      exact ⟨hpast.trans hclock, p, hl hp, hpid⟩
    · obtain ⟨hnow, heq, hknown⟩ := hbs b hb
      exact ⟨hnow.le, by rwa [heq]⟩
  · by_cases heq : id' = id
    · exact heq ▸ hid (heq ▸ hid')
    obtain ⟨p, time, rfl, hbooked⟩ := h.owed id' (howed id' hid' heq)
    refine ⟨p, time, rfl, hbooked.stays hclock hl (fun t ht htid => ?_) (fun b hb hbid => ?_) (hcount _ heq) ?_⟩
    · exact (hts t ht).resolve_right fun hnew => heq (htid.symm.trans hnew.1)
    · exact (List.mem_append.mp hb).resolve_right fun hnew => heq (hbid.symm.trans (hbs b hnew).2.1)
    · have hnone : bs'.countP (·.2.2 = p.id) = 0 :=
        List.countP_eq_zero.mpr fun b hb hbid => heq ((of_decide_eq_true hbid).symm.trans (hbs b hb).2.1)
      rw [List.countP_append, hnone, Nat.add_zero]

/-- **One step** keeps the books, as long as it meets the condition. -/
theorem Gateway.Schedules.books (hstep : g.Schedules env now input l a) (hkeyed : g.db.Keyed)
    (hclock : clock ≤ now) (hdue : g.Enabled now input)
    (hreach : ∀ socket data k, input = .event socket (.sendMessage data) → g.socket? socket = some k →
      g.Accepts env now k.userId data → ∀ time ∈ data.deliverAt now, time - now ≤ MAX_DELAY)
    (hrestart : input = .restart → ∀ t ∈ g.timers, t.messageId ∈ owed → now < t.dueAt)
    (howed : ∀ id ∈ owed', (id ∈ owed ∨ id ∈ a.announced) ∧ l.Owes id)
    (h : Books g.db.ledger g.timers clock bs owed) :
    Books l a.timers now (bs ++ a.broadcasts.map (now, ·)) owed' := by
  -- a message that is new is not owed
  have hnew : g.db.nextMessageId ∉ owed := by
    intro hmem
    obtain ⟨p, time, hid, hbooked⟩ := h.owed _ hmem
    exact record_fresh hkeyed p hbooked.posted hid
  have hpost : ∀ {p : Posting}, p.fixed = p → g.db.ledger.record ⊆ (g.db.ledger.post p).record ∧
      p ∈ (g.db.ledger.post p).record := by
    intro p hp
    rw [record_post, hp]
    exact ⟨List.subset_append_left _ _, List.mem_append_right _ List.mem_cons_self⟩
  cases hstep with
  | @scheduled socket k data time hk haccepts hat =>
    obtain ⟨hl, hmem⟩ := hpost (p := g.sent now k.userId data) rfl
    refine h.update hclock hl g.db.nextMessageId (fun t ht => ?_) (fun b hb => by cases hb)
      (fun id' hid' => ?_) (fun id' hid' hne => ?_) fun _ => ?_
    · refine (List.mem_append.mp ht).imp_right fun ht => ?_
      rw [List.mem_singleton.mp ht]
      exact ⟨rfl, _, hmem, rfl⟩
    · rw [List.countP_append, List.countP_singleton, if_neg, Nat.add_zero]
      simpa using fun heq => hid' heq.symm
    · exact (howed id' hid').1.resolve_right fun hann => hne (List.mem_singleton.mp hann)
    · refine ⟨g.sent now k.userId data, time, rfl, ?_⟩
      rw [List.map_nil, List.append_nil]
      exact .accepted (p := g.sent now k.userId data) hkeyed h rfl rfl hat (deliverAt_lt hat)
        (hreach socket data k rfl hk haccepts time hat)
  | @sent socket k data hk haccepts hat =>
    obtain ⟨hl, hmem⟩ := hpost (p := g.sent now k.userId data) rfl
    refine h.update hclock hl g.db.nextMessageId (fun t ht => .inl ht) (fun b hb => ?_)
      (fun _ _ => rfl) (fun id' hid' hne => (howed id' hid').1.resolve_right nofun) fun hid => ?_
    · obtain rfl := List.mem_singleton.mp hb
      exact ⟨rfl, rfl, _, hmem, rfl⟩
    · exact absurd ((howed _ hid).1.resolve_right nofun) hnew
  | @orphaned socket k data hk hstores hrejected =>
    refine h.update hclock (hpost (p := g.sent now k.userId data) rfl).1 g.db.nextMessageId
      (fun t ht => .inl ht) (fun b hb => by cases hb) (fun _ _ => rfl)
      (fun id' hid' hne => (howed id' hid').1.resolve_right nofun) fun hid => ?_
    exact absurd ((howed _ hid).1.resolve_right nofun) hnew
  | @forwarded u c input broadcasts id hforwards hmay hone =>
    obtain ⟨hl, hmem⟩ := hpost (p := g.db.forwarded now u c id) rfl
    refine h.update hclock hl g.db.nextMessageId (fun t ht => .inl ht) (fun b hb => ?_)
      (fun _ _ => rfl) (fun id' hid' hne => (howed id' hid').1.resolve_right nofun) fun hid => ?_
    · obtain ⟨b', hb', rfl⟩ := List.mem_map.mp hb
      obtain rfl := List.mem_singleton.mp (hone hb')
      exact ⟨rfl, rfl, _, hmem, rfl⟩
    · exact absurd ((howed _ hid).1.resolve_right nofun) hnew
  | @delivered timer t p ht hp hlive hseat =>
    obtain ⟨t', ht', hdue⟩ := hdue
    obtain rfl := Option.some.inj (ht.symm.trans ht')
    refine h.update hclock (List.Subset.refl _) t.messageId
      (fun t' ht' => .inl (List.mem_of_mem_eraseIdx ht')) (fun b hb => ?_) (fun id' hid' => ?_)
      (fun id' hid' hne => (howed id' hid').1.resolve_right nofun) fun hid => ?_
    · obtain rfl := List.mem_singleton.mp hb
      exact ⟨rfl, rfl, h.timers t (List.mem_of_getElem? ht)⟩
    · have hcount := countP_eraseIdx (q := (·.messageId = id')) ht
      rwa [if_neg, Nat.add_zero] at hcount
      simpa using fun heq => hid' heq.symm
    · obtain ⟨q, time, hqid, hbooked⟩ := h.owed _ ((howed _ hid).1.resolve_right nofun)
      exact ⟨q, time, hqid, hbooked.fires hclock ht hqid.symm hdue⟩
  | @dropped timer t _ ht hgone hfixed hdeleted =>
    refine h.update hclock ((show l.record = _ from hfixed) ▸ List.Subset.refl _) t.messageId
      (fun t' ht' => .inl (List.mem_of_mem_eraseIdx ht')) (fun b hb => by cases hb) (fun id' hid' => ?_)
      (fun id' hid' hne => (howed id' hid').1.resolve_right nofun) fun hid => ?_
    · have hcount := countP_eraseIdx (q := (·.messageId = id')) ht
      rwa [if_neg, Nat.add_zero] at hcount
      simpa using fun heq => hid' heq.symm
    · obtain ⟨p, hp, hlive, -⟩ := (howed _ hid).2
      cases hlive.symm.trans (hdeleted p hp)
  | restarted =>
    rw [List.map_nil, List.append_nil]
    refine ⟨fun t ht => ?_, fun b hb => ⟨(h.past b hb).1.trans hclock, (h.past b hb).2⟩, fun id hid => ?_⟩
    · obtain ⟨q, hq, rfl⟩ := List.mem_map.mp ht
      exact ⟨q.fixed, List.mem_map_of_mem (List.mem_filter.mp hq).1, rfl⟩
    · have hold := (howed id hid).1.resolve_right nofun
      obtain ⟨p, time, rfl, hbooked⟩ := h.owed id hold
      refine ⟨p, time, rfl, hbooked.restarts hkeyed hclock (fun b hb => (h.past b hb).1) (howed _ hid).2 ?_⟩
      exact fun t ht htid => hrestart rfl t ht (htid ▸ hold)
  | kept _ _ _ hfixed =>
    refine h.update hclock ((show l.record = _ from hfixed) ▸ List.Subset.refl _) g.db.nextMessageId
      (fun t ht => .inl ht) (fun b hb => by cases hb) (fun _ _ => rfl)
      (fun id' hid' hne => (howed id' hid').1.resolve_right nofun) fun hid => ?_
    exact absurd ((howed _ hid).1.resolve_right nofun) hnew

/-! ## What breaks the books -/

/-- A request whose message is accepted as scheduled posts it and sets its timer. -/
theorem next_accepts {socket : SocketId} {data : SendMessage} {k : Socket} {time : Time}
    (hkeyed : g.db.Keyed) (hids : (g.db.conversations.map (·.id)).Nodup) (hk : g.socket? socket = some k)
    (haccepts : g.Accepts env now k.userId data) (hat : data.deliverAt now = some time) :
    (g.next env (now, .event socket (.sendMessage data))).agenda =
      ⟨g.timers ++ [(g.sent now k.userId data).timer now], [g.db.nextMessageId], []⟩ := by
  have hstep : g.Schedules env now (.event socket (.sendMessage data)) _ _ :=
    next_schedules hkeyed hids (Option.isSome_iff_exists.mpr ⟨k, hk⟩)
  generalize (g.next env (now, .event socket (.sendMessage data))).db.ledger = l at hstep
  generalize (g.next env (now, .event socket (.sendMessage data))).agenda = a at hstep
  cases hstep with
  | scheduled hk' _ _ => rw [Option.some.inj (hk'.symm.trans hk)]
  | sent _ _ hnone => cases hnone.symm.trans hat
  | orphaned hk' _ hrejected =>
    obtain rfl := Option.some.inj (hk'.symm.trans hk)
    exact absurd haccepts hrejected
  | forwarded hforwards => exact hforwards.elim
  | kept _ _ hnot _ => exact absurd haccepts.1 (hnot socket data k rfl hk)

end

/-- What every step keeps that meets the condition. -/
structure Booking (s : (Gateway × Time) × Journal) : Prop where
  keyed : s.1.1.db.Keyed
  sound : s.1.1.db.ledger.Sound
  owes : ∀ id ∈ s.2.owed, s.1.1.db.ledger.Owes id
  books : Books s.1.1.db.ledger s.1.1.timers s.1.2 s.2.broadcasts s.2.owed

section
variable {env : Environment} {users : List User} {devices : List Device} {start : Time}
  {s : (Gateway × Time) × Journal} {e : Time × Input}

theorem Booking.next (h : Booking s) (henabled : (schedule env users devices start).enabled s e)
    (hkeeps : KeepsOwed env s e.1 e.2) : Booking ((schedule env users devices start).next s e) := by
  obtain ⟨now, input⟩ := e
  have howed : ∀ id ∈ ((schedule env users devices start).next s (now, input)).2.owed,
      (id ∈ s.2.owed ∨ id ∈ (s.1.1.next env (now, input)).agenda.announced) ∧
        (s.1.1.next env (now, input)).db.ledger.Owes id := by
    intro id hid
    obtain ⟨hmem, howes⟩ := List.mem_filter.mp hid
    exact ⟨List.mem_append.mp hmem, owes_ledger.mp (of_decide_eq_true howes)⟩
  refine ⟨next_keyed h.keyed, next_sound h.keyed h.sound henabled.2, fun id hid => (howed id hid).2, ?_⟩
  refine (next_schedules h.keyed (sound_ids h.sound) henabled.2).books h.keyed henabled.1 henabled.2
    (fun socket data k hinput hk haccepts => ?_) (fun hinput => ?_) howed h.books
  · subst hinput
    exact hkeeps k hk haccepts
  · subst hinput
    exact hkeeps

/-- The message that is booked. -/
theorem Booked.message {g : Gateway} {ts : List Timer} {clock : Time} {bs : List (Time × Target × MessageId)}
    {p : Posting} {time : Time} (h : Booked g.db.ledger ts clock bs p time) (hkeyed : g.db.Keyed) :
    ∃ m ∈ g.db.message? p.id, m.posting.fixed = p := by
  obtain ⟨q, hq, rfl⟩ := List.mem_map.mp h.posted
  obtain ⟨m, hm, rfl⟩ := List.mem_map.mp hq
  exact ⟨m, hkeyed.message? hm, rfl⟩

theorem Booking.deliversOnce (h : Booking s) : DeliversOnce s := by
  intro id hid
  obtain ⟨p, time, rfl, hbooked⟩ := h.books.owed id hid
  obtain ⟨m, hm, hp⟩ := hbooked.message h.keyed
  have hroom : m.conversationId = p.conversationId := (congrArg Posting.conversationId hp :)
  have htime : m.scheduledAt = some time := (congrArg Posting.scheduledAt hp).trans hbooked.scheduled
  have hlength : (s.2.deliveries p.id).length = s.2.broadcasts.countP (·.2.2 = p.id) :=
    List.countP_eq_length_filter.symm
  have honce := hbooked.once
  refine ⟨m, hm, time, htime, fun b hb => ?_, by omega, fun hlate hfired => ?_⟩
  · obtain ⟨hb, hbid⟩ := List.mem_filter.mp hb
    rw [hroom]
    exact hbooked.delivered b hb (of_decide_eq_true hbid)
  · have hnone : s.1.1.timers.countP (·.messageId = p.id) = 0 := by
      refine List.countP_eq_zero.mpr fun t ht htid => ?_
      have hdue := hfired t ht (of_decide_eq_true htid)
      rw [(hbooked.timer t ht (of_decide_eq_true htid)).2] at hdue
      exact absurd hlate (Int.not_le.mpr hdue)
    omega

/-- A message that is accepted too far ahead comes early if its timer fires at once. -/
theorem early_delivery {now : Time} {socket : SocketId} {data : SendMessage} {k : Socket} {time : Time}
    (h : Booking s) (henabled : (schedule env users devices start).enabled s
      (now, .event socket (.sendMessage data))) (hk : s.1.1.socket? socket = some k)
    (haccepts : s.1.1.Accepts env now k.userId data) (hat : data.deliverAt now = some time)
    (hfar : ¬time - now ≤ MAX_DELAY) :
    ∃ later, (∀ e ∈ later, Firing e) ∧
      (schedule env users devices start).Allowed ((schedule env users devices start).next s
        (now, .event socket (.sendMessage data))) later ∧
      ¬DeliversOnce ((schedule env users devices start).exec ((schedule env users devices start).next s
        (now, .event socket (.sendMessage data))) later) := by
  obtain ⟨⟨g, clock⟩, j⟩ := s
  have hledger := ((next_sendMessage h.keyed hk).resolve_right fun hnot => hnot.1 haccepts.1).2
  have hagenda := next_accepts h.keyed (sound_ids h.sound) hk haccepts hat
  obtain ⟨hfound, hseat⟩ := sent_stands h.keyed haccepts.1
  rw [← hledger] at hfound hseat
  have hkeyed₁ : (g.next env (now, .event socket (.sendMessage data))).db.Keyed := next_keyed h.keyed
  have hsound₁ : (g.next env (now, .event socket (.sendMessage data))).db.ledger.Sound :=
    next_sound h.keyed h.sound henabled.2
  generalize hp : g.sent now k.userId data = p at hfound hledger hagenda
  have htime : p.scheduledAt = some time := hp ▸ hat
  have hid : p.id = g.db.nextMessageId := hp ▸ rfl
  generalize hg₁ : g.next env (now, .event socket (.sendMessage data)) = g₁ at *
  have htimer : g₁.timers[g.timers.length]? = some (p.timer now) := by
    rw [show g₁.timers = _ from congrArg Agenda.timers hagenda]
    exact List.getElem?_concat_length
  have hdue : (p.timer now).dueAt = now + 1 := by
    rw [Posting.timer, htime]
    exact dueAt_long (Int.not_le.mp hfar)
  have hfires := @next_fires g₁ env (now + 1) _ _ p hkeyed₁ (sound_ids hsound₁) htimer hdue.le hfound
    (by rw [← hp]; rfl) (by rw [← hp]; exact hseat)
  have howes : g₁.db.ledger.Owes p.id := ⟨p, hfound, by rw [← hp]; rfl, by rw [← hp]; exact hseat⟩
  refine ⟨[(now + 1, .timeout g.timers.length)], ?_, ?_, fun hdelivers => ?_⟩
  · rintro e (_ | ⟨_, h⟩)
    · exact ⟨_, rfl⟩
    · cases h
  · refine ⟨⟨Int.le_of_lt (Int.lt_succ now), p.timer now, ?_, hdue.le⟩, trivial⟩
    simp only [schedule_next, hg₁]
    exact htimer
  · simp only [Machine.exec_cons, Machine.exec_nil, schedule_next, hg₁] at hdelivers
    generalize hg₂ : g₁.next env (now + 1, .timeout g.timers.length) = g₂ at hfires hdelivers
    have howed : p.id ∈ ((j.write now g₁).write (now + 1) g₂).owed := by
      refine List.mem_filter.mpr ⟨List.mem_append_left _ (List.mem_filter.mpr ⟨?_, ?_⟩), ?_⟩
      · rw [hagenda, hid]
        exact List.mem_append_right _ List.mem_cons_self
      · exact decide_eq_true (owes_ledger.mpr howes)
      · exact decide_eq_true (owes_ledger.mpr (hfires.1 ▸ howes))
    obtain ⟨m, hm, time', htime', hall, -⟩ := hdelivers p.id howed
    have hposting : m.posting = p := by
      have hfound₂ : g₂.db.ledger.posting? p.id = _ := Database.posting?_ledger p.id
      rw [hfires.1, hfound, hm] at hfound₂
      exact (Option.some.inj hfound₂).symm
    have hbroadcast : (now + 1, .room p.conversationId, p.id) ∈
        ((j.write now g₁).write (now + 1) g₂).deliveries p.id := by
      refine List.mem_filter.mpr ⟨List.mem_append_right _ ?_, decide_eq_true rfl⟩
      rw [hfires.2]
      exact List.mem_cons_self
    have heq : time' = time := by
      have hscheduled : m.posting.scheduledAt = some time := hposting ▸ htime
      exact Option.some.inj (htime'.symm.trans hscheduled)
    exact absurd (heq ▸ (hall _ hbroadcast).2) (Int.not_le.mpr (soon_before hfar))

/-- A message whose timer is due when the server restarts never comes. -/
theorem lost_delivery {now : Time} (h : Booking s) {t : Timer}
    (ht : t ∈ s.1.1.timers) (howed : t.messageId ∈ s.2.owed) (hdue : ¬now < t.dueAt) :
    ¬DeliversOnce ((schedule env users devices start).next s (now, .restart)) := by
  intro hdelivers
  rw [schedule_next, next_restart_eq] at hdelivers
  obtain ⟨p, time, hpid, hbooked⟩ := h.books.owed _ howed
  obtain ⟨m, hm, hp⟩ := hbooked.message h.keyed
  have htime : m.scheduledAt = some time := (congrArg Posting.scheduledAt hp).trans hbooked.scheduled
  have hlate : time ≤ now := by
    rw [← (hbooked.timer t ht hpid.symm).2]
    exact Int.not_lt.mp hdue
  obtain ⟨m', hm', time', htime', -, -, hone⟩ := hdelivers t.messageId (List.mem_filter.mpr
    ⟨List.mem_append_left _ howed, decide_eq_true (owes_ledger.mpr (h.owes _ howed))⟩)
  obtain rfl : m = m' := Option.some.inj (hm.symm.trans (hpid ▸ hm'))
  obtain rfl := Option.some.inj (htime.symm.trans htime')
  -- the new process has no timer for it
  have hdelivered := hone hlate fun t' ht' hid' => by
    obtain ⟨m'', hm'', rfl⟩ := List.mem_map.mp ht'
    rw [List.mem_filter, decide_eq_true_eq] at hm''
    have hfound : s.1.1.db.message? t.messageId = some m'' := hid' ▸ h.keyed.message? hm''.1
    obtain rfl := Option.some.inj (hm'.symm.trans hfound)
    obtain ⟨time'', htime'', hlt⟩ := (Option.any_eq_true _ _).mp hm''.2.1
    obtain rfl := Option.some.inj (htime.symm.trans htime'')
    exact absurd (of_decide_eq_true hlt) (Int.not_lt.mpr hlate)
  have hcount : s.2.broadcasts.countP (·.2.2 = p.id) = 1 := by
    rw [List.countP_eq_length_filter, hpid]
    simpa [Journal.deliveries, Journal.write, Gateway.agenda] using hdelivered
  have htimers : 0 < s.1.1.timers.countP (·.messageId = p.id) :=
    List.countP_pos_iff.mpr ⟨t, ht, decide_eq_true hpid.symm⟩
  have honce := hbooked.once
  omega

end

/-- **Scheduled delivery happens exactly once**, however soon the timers fire, if and only if no message is
accepted that is scheduled further ahead than a timer can count, and no restart finds the timer of a
message due that the server owes. -/
theorem delivered_once (env : Environment) (users : List User) (devices : List Device) (start : Time)
    (run : List (Time × Input)) (hrun : (schedule env users devices start).Allowed
      (schedule env users devices start).init run) :
    (schedule env users devices start).Withstands Firing DeliversOnce
        (schedule env users devices start).init run ↔
      ((schedule env users devices start).restrict fun s e => KeepsOwed env s e.1 e.2).Allowed
        (schedule env users devices start).init run := by
  refine Machine.withstands_iff (I := Booking) (fun s e h henabled hkeeps => h.next henabled hkeeps)
    (fun s h => h.deliversOnce) ?_ ?_ ?_ hrun
  · rintro s ⟨now, input⟩ ⟨timer, rfl⟩
    trivial
  · rintro s ⟨now, input⟩ h henabled hnot
    cases input
    case event socket request =>
      cases request
      case sendMessage data =>
        simp only [KeepsOwed, not_forall] at hnot
        obtain ⟨k, hk, haccepts, time, hat, hfar⟩ := hnot
        exact early_delivery h henabled hk haccepts hat hfar
      all_goals exact absurd trivial hnot
    case restart =>
      simp only [KeepsOwed, not_forall] at hnot
      obtain ⟨t, ht, howed, hdue⟩ := hnot
      exact ⟨[], fun _ he => absurd he List.not_mem_nil, trivial, lost_delivery h ht howed hdue⟩
    all_goals exact absurd trivial hnot
  · refine ⟨⟨List.nodup_nil, ?_⟩, ⟨List.nodup_nil, ?_, List.nodup_nil, ?_, ?_⟩, ?_, ?_, ?_, ?_⟩
    all_goals exact fun _ h => by cases h

/-! ## Runs -/

instance (s : Gateway) (env : Environment) (now : Time) (u : UserId) (data : SendMessage) :
    Decidable (s.Accepts env now u data) :=
  inferInstanceAs (Decidable (_ ∧ ∃ view, _ = Except.ok view))

instance (env : Environment) (s : (Gateway × Time) × Journal) (now : Time) :
    (input : Input) → Decidable (KeepsOwed env s now input)
  | .event _ (.sendMessage _) => inferInstanceAs (Decidable (∀ k ∈ _, _ → ∀ time ∈ _, _))
  | .restart => inferInstanceAs (Decidable (∀ t ∈ _, _ → _))
  | .event _ (.markAsRead _) | .event _ (.typing ..) | .event _ (.deleteMessage _) | .event _ (.editMessage ..)
  | .event _ (.toggleReaction ..) | .event _ (.joinConversation _) | .event _ (.pinMessage ..)
  | .event _ (.unpinMessage ..) | .event _ (.requestSenderKeyRedistribution ..) | .event _ .notifyKeyRotated
  | .event _ (.forwardMessage ..) | .connect .. | .call .. | .resume _ | .timeout _ | .disconnect _
  | .cleanup => .isTrue trivial

instance (s : (Gateway × Time) × Journal) : Decidable (DeliversOnce s) :=
  inferInstanceAs (Decidable (∀ id ∈ _, ∃ m ∈ _, ∃ time ∈ Message.scheduledAt m,
    (∀ b ∈ _, _ ∧ _) ∧ _ ∧ (_ → (∀ t ∈ _, _ → _) → _)))

theorem delivered_once_restarted :
    (schedule sampleEnvironment [sampleUser 1, sampleUser 2] [] 0).Withstands Firing DeliversOnce
      (schedule sampleEnvironment [sampleUser 1, sampleUser 2] [] 0).init punctualRun :=
  (delivered_once sampleEnvironment [sampleUser 1, sampleUser 2] [] 0 punctualRun
    (by decide +kernel)).mpr (by decide +kernel)

/-- The server is down when the message is due. -/
theorem never_delivered : ∃ s,
    (schedule sampleEnvironment [sampleUser 1, sampleUser 2] [] 0).Reachable s ∧ ¬DeliversOnce s :=
  ⟨_, Machine.reachable_iff.mpr ⟨scheduleRun 5000 ++ [(6000, .restart)], by decide +kernel, rfl⟩,
    by decide +kernel⟩

end Vesper.Server
