import Vesper.Server.Timers
import Vesper.Server.Ownership

/-!
# Scheduled messages

Runs of the server under a clock that never goes back, with a journal of all broadcasts and of the
scheduled messages that the server still owes. No message comes before its time, and each that is
owed comes once, as long as no delay exceeds what a timer can count and no restart finds a timer due.
-/

namespace Vesper.Server
open Program

/-! ## Runs with a journal -/

/-- The server owes a message that was accepted as scheduled as long as it is not deleted and its sender
stays a member. Broadcasts are kept with their times and targets. -/
structure Journal where
  owed : List MessageId
  broadcasts : List (Time × Target × MessageId)

/-- The message is not deleted and its sender is a member. -/
def Database.Owes (db : Database) (id : MessageId) : Prop :=
  ∃ m ∈ db.message? id, m.deletedAt = none ∧ db.IsMember m.conversationId m.senderId

instance (db : Database) (id : MessageId) : Decidable (db.Owes id) :=
  inferInstanceAs (Decidable (∃ m ∈ db.message? id, _ ∧ _ = true))

def Journal.write (j : Journal) (now : Time) (s : Gateway) : Journal where
  owed := (j.owed ++ s.agenda.announced).filter (s.db.Owes ·)
  broadcasts := j.broadcasts ++ s.agenda.broadcasts.map (now, ·)

/-- The runs of the server, under a clock and with a journal. -/
def schedule (env : Environment) (users : List User) (devices : List Device) (start : Time) :
    Machine ((Gateway × Time) × Journal) (Time × Input) :=
  ((gateway env users devices).timed start).record ⟨[], []⟩
    fun s input j => j.write input.1 (s.1.next env input)

theorem schedule_next {env : Environment} {users : List User} {devices : List Device} {start : Time}
    {s : (Gateway × Time) × Journal} {e : Time × Input} : (schedule env users devices start).next s e =
      ((s.1.1.next env e, e.1), s.2.write e.1 (s.1.1.next env e)) := rfl

/-- Whatever restarts and timers do next. -/
def Unattended (input : Time × Input) : Prop :=
  input.2 = .restart ∨ ∃ timer, input.2 = .timeout timer

/-! ## No message comes early -/

/-- No broadcast of a message came before the time that it is scheduled for. -/
def Punctual (s : (Gateway × Time) × Journal) : Prop :=
  ∀ b ∈ s.2.broadcasts, ∀ m ∈ s.1.1.db.messages, m.id = b.2.2 → ∀ time ∈ m.scheduledAt, time ≤ b.1

/-- No message is taken in that is scheduled further ahead than a timer can count. -/
def Gateway.InReach (s : Gateway) (env : Environment) (now : Time) : Input → Prop
  | .event socket (.sendMessage data) => ∀ k ∈ s.socket? socket, s.Stores env now k.userId data →
      ∀ time ∈ data.deliverAt now, time - now ≤ MAX_DELAY
  | _ => True

/-- What no step changes of the postings. -/
def Ledger.record (l : Ledger) : List Posting := l.postings.map (·.fixed)

theorem record_post {l : Ledger} {p : Posting} : (l.post p).record = l.record ++ [p.fixed] := by
  simp only [Ledger.record, Ledger.post, List.map_append, List.map_singleton]

/-- What every step keeps that meets the condition. -/
structure OnTime (l : Ledger) (timers : List Timer) (clock : Time)
    (broadcasts : List (Time × Target × MessageId)) : Prop where
  timers : ∀ t ∈ timers, ∃ p ∈ l.record, p.id = t.messageId ∧ p.scheduledAt = some t.dueAt
  inReach : ∀ p ∈ l.record, ∀ time ∈ p.scheduledAt, time - clock ≤ MAX_DELAY
  broadcasts : ∀ b ∈ broadcasts, (∃ p ∈ l.record, p.id = b.2.2) ∧
    ∀ p ∈ l.record, p.id = b.2.2 → ∀ time ∈ p.scheduledAt, time ≤ b.1

section
variable {g : Gateway} {env : Environment} {now clock : Time} {input : Input} {l : Ledger} {a : Agenda}
  {bs : List (Time × Target × MessageId)} {timers : List Timer}

theorem record_fresh (hkeyed : g.db.Keyed) : ∀ p ∈ g.db.ledger.record, p.id ≠ g.db.nextMessageId := by
  intro p hp
  obtain ⟨p', hp', rfl⟩ := List.mem_map.mp hp
  exact posted_fresh hkeyed p' hp'

theorem record_unique (hkeyed : g.db.Keyed) {p p' : Posting} (hp : p ∈ g.db.ledger.record)
    (hp' : p' ∈ g.db.ledger.record) (h : p.id = p'.id) : p = p' := by
  obtain ⟨q, hq, rfl⟩ := List.mem_map.mp hp
  obtain ⟨q', hq', rfl⟩ := List.mem_map.mp hp'
  obtain ⟨m, hm, rfl⟩ := List.mem_map.mp hq
  obtain ⟨m', hm', rfl⟩ := List.mem_map.mp hq'
  rw [List.inj_on_of_nodup_map hkeyed.keys hm hm' h]

theorem deliverAt_lt {data : SendMessage} {time : Time} (h : data.deliverAt now = some time) : now < time := by
  simpa using (Option.filter_eq_some_iff.mp h).2

/-- A new message keeps what is known of the old ones. -/
theorem OnTime.post (h : OnTime g.db.ledger g.timers clock bs) (hkeyed : g.db.Keyed) (hclock : clock ≤ now)
    {p : Posting} (hid : p.id = g.db.nextMessageId)
    (hreach : ∀ time ∈ p.scheduledAt, time - now ≤ MAX_DELAY) :
    OnTime (g.db.ledger.post p) g.timers now bs := by
  refine ⟨fun t ht => ?_, fun q hq time htime => ?_, fun b hb => ?_⟩
  · obtain ⟨q, hq, h⟩ := h.timers t ht
    exact ⟨q, record_post ▸ List.mem_append_left _ hq, h⟩
  · rw [record_post] at hq
    rcases List.mem_append.mp hq with hq | hq
    · exact (Int.sub_le_sub_left hclock time).trans (h.inReach q hq time htime)
    · obtain rfl := List.mem_singleton.mp hq
      exact hreach time htime
  · obtain ⟨⟨q, hq, hb'⟩, hlate⟩ := h.broadcasts b hb
    refine ⟨⟨q, record_post ▸ List.mem_append_left _ hq, hb'⟩, fun q' hq' hid' => ?_⟩
    rw [record_post] at hq'
    rcases List.mem_append.mp hq' with hq' | hq'
    · exact hlate q' hq' hid'
    · obtain rfl := List.mem_singleton.mp hq'
      exact absurd (hb'.trans (hid'.symm.trans hid)) (record_fresh hkeyed q hq)

/-- A message that is broadcast when it is posted is not scheduled. -/
theorem OnTime.announce (h : OnTime l timers now bs) {p : Posting} (hp : p ∈ l.record)
    (honly : ∀ q ∈ l.record, q.id = p.id → q = p) (hnone : p.scheduledAt = none) (target : Target) :
    OnTime l timers now (bs ++ [(now, target, p.id)]) := by
  refine ⟨h.timers, h.inReach, fun b hb => ?_⟩
  rcases List.mem_append.mp hb with hb | hb
  · exact h.broadcasts b hb
  · obtain rfl := List.mem_singleton.mp hb
    refine ⟨⟨p, hp, rfl⟩, fun q hq hid time htime => ?_⟩
    rw [honly q hq hid, hnone] at htime
    cases htime

/-- **One step**: no message comes early, and no timer is set too early, as long as no message is
scheduled too far ahead. -/
theorem Gateway.Schedules.onTime (hstep : g.Schedules env now input l a) (hkeyed : g.db.Keyed)
    (hclock : clock ≤ now) (hdue : g.Enabled now input) (hreach : g.InReach env now input)
    (h : OnTime g.db.ledger g.timers clock bs) :
    OnTime l a.timers now (bs ++ a.broadcasts.map (now, ·)) := by
  have hlater : OnTime g.db.ledger g.timers now bs :=
    ⟨h.timers, fun p hp time htime => (Int.sub_le_sub_left hclock time).trans (h.inReach p hp time htime),
      h.broadcasts⟩
  have hsame : ∀ {l'}, l'.postings.map (·.fixed) = g.db.ledger.postings.map (·.fixed) →
      ∀ {timers'}, (∀ t ∈ timers', t ∈ g.timers) → OnTime l' timers' now bs := by
    intro l' hfixed timers' hold
    have hrecord : l'.record = g.db.ledger.record := hfixed
    exact ⟨fun t ht => hrecord ▸ hlater.timers t (hold t ht), hrecord ▸ hlater.inReach,
      hrecord ▸ hlater.broadcasts⟩
  have hnew : ∀ {p : Posting}, p.id = g.db.nextMessageId → p.fixed = p →
      p ∈ (g.db.ledger.post p).record ∧ ∀ q ∈ (g.db.ledger.post p).record, q.id = p.id → q = p := by
    intro p hid hfixed
    rw [record_post, hfixed]
    refine ⟨List.mem_append_right _ List.mem_cons_self, fun q hq hqid => ?_⟩
    rcases List.mem_append.mp hq with hq | hq
    · exact absurd (hqid.trans hid) (record_fresh hkeyed q hq)
    · exact List.mem_singleton.mp hq
  cases hstep with
  | @scheduled socket k data time hk haccepts hat =>
    have hpost := h.post hkeyed hclock (p := g.sent now k.userId data) rfl (hreach k hk haccepts.1)
    rw [List.map_nil, List.append_nil]
    refine ⟨fun t ht => ?_, hpost.inReach, hpost.broadcasts⟩
    rcases List.mem_append.mp ht with ht | ht
    · exact hpost.timers t ht
    · obtain rfl := List.mem_singleton.mp ht
      refine ⟨_, (hnew (p := g.sent now k.userId data) rfl rfl).1, rfl, ?_⟩
      have htime : (g.sent now k.userId data).scheduledAt = some time := hat
      rw [htime, Posting.timer, htime]
      exact congrArg some (dueAt_eq (deliverAt_lt hat) (hreach k hk haccepts.1 time hat)).symm
  | @sent socket k data hk haccepts hat =>
    obtain ⟨hmem, honly⟩ := hnew (p := g.sent now k.userId data) rfl rfl
    exact (h.post hkeyed hclock (p := g.sent now k.userId data) rfl (hreach k hk haccepts.1)).announce
      hmem honly hat _
  | @orphaned socket k data hk hstores hrejected =>
    rw [List.map_nil, List.append_nil]
    exact h.post hkeyed hclock (p := g.sent now k.userId data) rfl (hreach k hk hstores)
  | @forwarded u c input broadcasts id hforwards hmay hone =>
    obtain ⟨hmem, honly⟩ := hnew (p := g.db.forwarded now u c id) rfl rfl
    have hpost := h.post hkeyed hclock (p := g.db.forwarded now u c id) rfl fun _ htime => by cases htime
    have hall := hpost.announce hmem honly rfl (.room c)
    refine ⟨hpost.timers, hpost.inReach, fun b hb => hall.broadcasts b ?_⟩
    exact (List.mem_append.mp hb).elim (List.mem_append_left _)
      fun hb => List.mem_append_right _ (List.map_subset _ hone hb)
  | @delivered timer t p ht hp hlive hseat =>
    obtain ⟨t', ht', hdue⟩ := hdue
    obtain rfl := Option.some.inj (ht.symm.trans ht')
    obtain ⟨q, hq, hid, htime⟩ := h.timers t (List.mem_of_getElem? ht)
    refine ⟨fun t' ht' => hlater.timers t' (List.mem_of_mem_eraseIdx ht'), hlater.inReach, fun b hb => ?_⟩
    rcases List.mem_append.mp hb with hb | hb
    · exact hlater.broadcasts b hb
    · obtain rfl := List.mem_singleton.mp hb
      refine ⟨⟨q, hq, hid⟩, fun q' hq' hid' time htime' => ?_⟩
      obtain rfl := record_unique hkeyed hq hq' (hid.trans hid'.symm)
      obtain rfl := Option.some.inj (htime.symm.trans htime')
      exact hdue
  | dropped ht hgone hfixed hdeleted =>
    rw [List.map_nil, List.append_nil]
    exact hsame hfixed fun t ht => List.mem_of_mem_eraseIdx ht
  | restarted =>
    rw [List.map_nil, List.append_nil]
    refine ⟨fun t ht => ?_, hlater.inReach, hlater.broadcasts⟩
    obtain ⟨p, hp, rfl⟩ := List.mem_map.mp ht
    rw [List.mem_filter, decide_eq_true_eq] at hp
    obtain ⟨time, htime, hpending⟩ := (Option.any_eq_true _ _).mp hp.2.1
    have hmem : p.fixed ∈ g.db.ledger.record := List.mem_map_of_mem hp.1
    refine ⟨p.fixed, hmem, rfl, ?_⟩
    have hdue : dueAt now (time - now) = time :=
      dueAt_eq (by simpa using hpending) (hlater.inReach p.fixed hmem time htime)
    rw [show p.fixed.scheduledAt = some time from htime, Posting.timer, htime]
    exact congrArg some hdue.symm
  | kept _ _ _ hfixed =>
    rw [List.map_nil, List.append_nil]
    exact hsame hfixed fun t ht => ht

/-! ## Messages out of reach -/

/-- A timer that fires broadcasts its message, if that is not deleted and its sender is a member. -/
theorem next_fires {timer : Nat} {t : Timer} {p : Posting} (hkeyed : g.db.Keyed)
    (hids : (g.db.conversations.map (·.id)).Nodup) (ht : g.timers[timer]? = some t) (hdue : t.dueAt ≤ now)
    (hp : g.db.ledger.posting? t.messageId = some p) (hlive : p.deleted = false)
    (hseat : (g.db.ledger.seat? t.conversationId p.senderId).isSome) :
    (g.next env (now, .timeout timer)).db.ledger = g.db.ledger ∧
      (g.next env (now, .timeout timer)).agenda =
        ⟨g.timers.eraseIdx timer, [], [(.room t.conversationId, t.messageId)]⟩ := by
  have hstep : g.Schedules env now (.timeout timer) _ _ := next_schedules hkeyed hids ⟨t, ht, hdue⟩
  generalize (g.next env (now, .timeout timer)).db.ledger = l at hstep
  generalize (g.next env (now, .timeout timer)).agenda = a at hstep
  cases hstep with
  | forwarded hforwards => exact hforwards.elim
  | delivered ht' hp' _ _ =>
    obtain rfl := Option.some.inj (ht'.symm.trans ht)
    exact ⟨rfl, rfl⟩
  | dropped ht' hgone _ _ =>
    obtain rfl := Option.some.inj (ht'.symm.trans ht)
    obtain hdeleted | hleft := hgone p hp
    · cases hlive.symm.trans hdeleted
    · rw [hleft] at hseat
      cases hseat
  | kept _ hnot _ _ => exact absurd rfl (hnot timer)

/-- The message of a request that is taken in, where it stands afterwards. -/
theorem sent_stands {data : SendMessage} {u : UserId} (hkeyed : g.db.Keyed)
    (hstores : g.Stores env now u data) :
    (g.db.ledger.post (g.sent now u data)).posting? (g.sent now u data).id = some (g.sent now u data) ∧
      ((g.db.ledger.post (g.sent now u data)).seat? data.conversationId u).isSome := by
  obtain ⟨seat, hseat, -⟩ := hstores.2.2.2.2.1
  exact ⟨Ledger.posting?_post (posted_fresh hkeyed), Option.isSome_iff_exists.mpr ⟨seat, hseat⟩⟩

end

theorem soon_before {now time : Int} (h : ¬time - now ≤ MAX_DELAY) : now + 1 < time := by
  unfold MAX_DELAY at h
  omega

/-- A message that is taken in too far ahead comes early if the server restarts now and its timer fires
at once. -/
theorem early_broadcast {env : Environment} {users : List User} {devices : List Device} {start : Time}
    {s : (Gateway × Time) × Journal} {e : Time × Input} (hkeyed : s.1.1.db.Keyed)
    (hsound : s.1.1.db.ledger.Sound) (henabled : (schedule env users devices start).enabled s e)
    (hnot : ¬s.1.1.InReach env e.1 e.2) :
    ∃ later, (∀ e ∈ later, Unattended e) ∧
      (schedule env users devices start).Allowed ((schedule env users devices start).next s e) later ∧
      ¬Punctual ((schedule env users devices start).exec
        ((schedule env users devices start).next s e) later) := by
  obtain ⟨⟨g, clock⟩, j⟩ := s
  obtain ⟨now, input⟩ := e
  cases input
  case event socket request =>
    cases request
    case sendMessage data =>
      simp only [Gateway.InReach, not_forall] at hnot
      obtain ⟨k, hk, hstores, time, hat, hfar⟩ := hnot
      have hledger := ((next_sendMessage hkeyed hk).resolve_right fun h => h.1 hstores).2
      obtain ⟨hfound, hseat⟩ := sent_stands hkeyed hstores
      rw [← hledger] at hfound hseat
      have hkeyed₁ : (g.next env (now, .event socket (.sendMessage data))).db.Keyed := next_keyed hkeyed
      have hsound₁ : (g.next env (now, .event socket (.sendMessage data))).db.ledger.Sound :=
        next_sound hkeyed hsound henabled.2
      generalize hp : g.sent now k.userId data = p at hfound hledger
      have htime : p.scheduledAt = some time := hp ▸ hat
      generalize hg₁ : g.next env (now, .event socket (.sendMessage data)) = g₁ at *
      -- the restart sets a timer for the message, which is due at once
      have hpending : p.Pending now :=
        ⟨by rw [htime]; exact decide_eq_true (deliverAt_lt hat), by rw [← hp]; rfl⟩
      have hmem : p ∈ g₁.db.ledger.postings := (Ledger.posting?_mem hfound).1
      have htimer : p.timer now ∈ g₁.db.ledger.timers now :=
        List.mem_map_of_mem (List.mem_filter.mpr ⟨hmem, decide_eq_true hpending⟩)
      obtain ⟨timer, htimer⟩ := List.getElem?_of_mem htimer
      have hdue : (p.timer now).dueAt = now + 1 := by
        rw [Posting.timer, htime]
        exact dueAt_long (Int.not_le.mp hfar)
      have hrestart : (g₁.next env (now, .restart)).timers = g₁.db.ledger.timers now := by
        rw [next_restart_eq, timers_ledger]
      have hdb : (g₁.next env (now, .restart)).db = g₁.db := by rw [next_restart_eq]
      have hfires := @next_fires (g₁.next env (now, .restart)) env (now + 1) timer (p.timer now) p
        (by rwa [hdb]) (by rw [hdb]; exact sound_ids hsound₁) (by rw [hrestart]; exact htimer) hdue.le (by rw [hdb]; exact hfound) (by rw [← hp]; rfl)
        (by rw [hdb, ← hp]; exact hseat)
      refine ⟨[(now, .restart), (now + 1, .timeout timer)], ?_, ?_, ?_⟩
      · rintro e (_ | ⟨_, _ | ⟨_, h⟩⟩)
        · exact .inl rfl
        · exact .inr ⟨timer, rfl⟩
        · cases h
      · refine ⟨⟨le_refl now, trivial⟩, ⟨Int.le_of_lt (Int.lt_succ now), p.timer now, ?_, hdue.le⟩, trivial⟩
        simp only [schedule_next, hg₁, hrestart]
        exact htimer
      · intro hpunctual
        simp only [Machine.exec_cons, Machine.exec_nil, schedule_next, hg₁, Punctual, Journal.write,
          hfires.2] at hpunctual
        have hstill : p ∈ ((g₁.next env (now, .restart)).next env
            (now + 1, .timeout timer)).db.ledger.postings := by
          rw [hfires.1, hdb]
          exact hmem
        obtain ⟨m, hm, rfl⟩ := List.mem_map.mp hstill
        have hlate := hpunctual (now + 1, .room m.conversationId, m.id)
          (List.mem_append_right _ List.mem_cons_self) m hm rfl time htime
        exact absurd hlate (Int.not_le.mpr (soon_before hfar))
    all_goals exact absurd trivial hnot
  all_goals exact absurd trivial hnot


/-- **Scheduled messages are not delivered early**, whatever restarts and timers do next, if and only if
no message is taken in that is scheduled further ahead than a timer can count. -/
theorem scheduled_punctual (env : Environment) (users : List User) (devices : List Device) (start : Time)
    (run : List (Time × Input)) (hrun : (schedule env users devices start).Allowed
      (schedule env users devices start).init run) :
    (schedule env users devices start).Withstands Unattended Punctual
        (schedule env users devices start).init run ↔
      ((schedule env users devices start).restrict fun s e => s.1.1.InReach env e.1 e.2).Allowed
        (schedule env users devices start).init run := by
  refine Machine.withstands_iff (I := fun s => s.1.1.db.Keyed ∧ s.1.1.db.ledger.Sound ∧
    OnTime s.1.1.db.ledger s.1.1.timers s.1.2 s.2.broadcasts) ?_ ?_ ?_ ?_ ?_ hrun
  · rintro s ⟨now, input⟩ ⟨hkeyed, hsound, hontime⟩ henabled hreach
    exact ⟨next_keyed hkeyed, next_sound hkeyed hsound henabled.2,
      (next_schedules hkeyed (sound_ids hsound) henabled.2).onTime hkeyed henabled.1 henabled.2 hreach hontime⟩
  · rintro s ⟨-, -, hontime⟩ b hb m hm hid
    exact (hontime.broadcasts b hb).2 m.posting.fixed (List.mem_map_of_mem (List.mem_map_of_mem hm)) hid
  · rintro s ⟨now, input⟩ (rfl | ⟨timer, rfl⟩) <;> trivial
  · rintro s e ⟨hkeyed, hsound, -⟩ henabled hnot
    exact early_broadcast hkeyed hsound henabled hnot
  · refine ⟨⟨List.nodup_nil, ?_⟩, ⟨List.nodup_nil, ?_, List.nodup_nil, ?_, ?_⟩, ?_, ?_, ?_⟩
    all_goals exact fun _ h => by cases h

/-! ## Runs -/

instance (s : Gateway) (env : Environment) (now : Time) (input : Input) :
    Decidable (s.InReach env now input) := by
  unfold Gateway.InReach
  split <;> infer_instance

instance (env : Environment) (users : List User) (devices : List Device) (start : Time)
    (s : (Gateway × Time) × Journal) (e : Time × Input) :
    Decidable ((schedule env users devices start).enabled s e) :=
  inferInstanceAs (Decidable (_ ∧ (gateway env users devices).enabled s.1.1 e))

instance (s : (Gateway × Time) × Journal) : Decidable (Punctual s) :=
  inferInstanceAs (Decidable (∀ b ∈ _, ∀ m ∈ _, _ → ∀ time ∈ Message.scheduledAt m, _))

/-- Users 1 and 2 open a direct conversation, and user 1 schedules a message. -/
def scheduleRun (time : Time) : List (Time × Input) := [
  (0, .call 1 (.createDirect 2)), (1, .connect 10 1 []),
  (2, .event 10 (.sendMessage { sampleMessage 1 with scheduledAt := some (some time) }))]

/-- The server restarts before the message is due. -/
def punctualRun : List (Time × Input) :=
  scheduleRun 5000 ++ [(3000, .restart), (5000, .timeout 0), (6000, .restart)]

theorem scheduled_punctual_restarted :
    (schedule sampleEnvironment [sampleUser 1, sampleUser 2] [] 0).Withstands Unattended Punctual
      (schedule sampleEnvironment [sampleUser 1, sampleUser 2] [] 0).init punctualRun :=
  (scheduled_punctual sampleEnvironment [sampleUser 1, sampleUser 2] [] 0 punctualRun
    (by decide +kernel)).mpr (by decide +kernel)

/-- A message that is scheduled 2^31 ms ahead comes 1 ms later. -/
theorem scheduled_early : ∃ s,
    (schedule sampleEnvironment [sampleUser 1, sampleUser 2] [] 0).Reachable s ∧ ¬Punctual s :=
  ⟨_, Machine.reachable_iff.mpr ⟨scheduleRun (2 + 2 ^ 31) ++ [(3, .timeout 0)], by decide +kernel, rfl⟩,
    by decide +kernel⟩

end Vesper.Server
