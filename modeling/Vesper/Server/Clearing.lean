import Vesper.Server.Watermarks

/-!
# What stays cleared

A member who clears a conversation sets a time in their membership, which three of the reads of a
conversation ask for. The runs of the server are kept with the clearings that they have seen.
-/

namespace Vesper.Server
open Program

/-! ## Clearings -/

/-- A member has cleared a conversation. -/
structure Clearing where
  userId : UserId
  conversationId : ConversationId
  time : Time
  deriving DecidableEq, Repr

/-- The clearing that an input does, if it is answered without an error. -/
def Gateway.clearings (s : Gateway) (env : Environment) (now : Time) : Input → List Clearing
  | .call u (.clearMessages c scope) =>
    match s.answer env now u (.clearMessages c scope) with
    | .ok _ => [⟨u, c, now⟩]
    | .error _ => []
  | _ => []

/-- The runs of the server under a clock, with their clearings. -/
def clearance (env : Environment) (users : List User) (devices : List Device) (start : Time) :
    Machine ((Gateway × Time) × List Clearing) (Time × Input) :=
  ((gateway env users devices).timed start).record []
    fun s input clearings => clearings ++ s.1.clearings env input.1 input.2

/-- The reads of a conversation. The list of conversations is one, for its last message. -/
def Route.Reads (c : ConversationId) : Route → Prop
  | .getMessages c' _ _ _ | .searchMessages c' _ | .getMedia c' | .getPinnedMessages c' => c' = c
  | .getAll _ _ _ => True
  | _ => False

/-- The messages that an answer returns of a conversation. -/
def Response.shows (c : ConversationId) : Response → List MessageId
  | .conversations page _ => (page.filter (·.id = c)).filterMap fun summary => summary.lastMessage.map (·.id)
  | response => response.returned

/-- No read of a conversation returns a message that its reader has cleared. -/
def StaysCleared (env : Environment) (s : (Gateway × Time) × List Clearing) : Prop :=
  ∀ x ∈ s.2, ∀ route : Route, route.Reads x.conversationId → ∀ now, s.1.2 ≤ now →
    ∀ response, s.1.1.answer env now x.userId route = .ok response →
    ∀ m ∈ s.1.1.db.messages, m.conversationId = x.conversationId →
      m.id ∈ response.shows x.conversationId → x.time < m.createdAt

/-- Of the messages that a member has cleared, at most one is left, the last of the conversation. It is
deleted and not pinned, and the member's time still hides it. -/
def NothingLeft (s : (Gateway × Time) × List Clearing) : Prop :=
  ∀ x ∈ s.2, ∀ member ∈ s.1.1.db.member? x.conversationId x.userId,
    ∀ m ∈ s.1.1.db.messages, m.conversationId = x.conversationId → m.createdAt ≤ x.time →
      notCleared member.clearedAt m = false ∧ m.deletedAt ≠ none ∧
      (∀ m' ∈ s.1.1.db.messages, m'.conversationId = x.conversationId → m'.id ≤ m.id) ∧
      ∀ pin ∈ s.1.1.db.pins, ¬(pin.conversationId = x.conversationId ∧ pin.messageId = m.id)

instance (s : (Gateway × Time) × List Clearing) : Decidable (NothingLeft s) :=
  inferInstanceAs (Decidable (∀ x ∈ s.2, ∀ member ∈ s.1.1.db.member? x.conversationId x.userId,
    ∀ m ∈ s.1.1.db.messages, m.conversationId = x.conversationId → m.createdAt ≤ x.time →
      _ ∧ _ ∧ (∀ m' ∈ s.1.1.db.messages, _ → _) ∧ ∀ pin ∈ s.1.1.db.pins, _))

section
variable {g : Gateway} {env : Environment} {now clock : Time} {u : UserId} {c : ConversationId}
  {m : Message} {member : ConversationMember} {route : Route} {response : Response}

theorem shows_answerPage {cursor after around : Option MessageId} :
    (g.db.answerPage now u c member cursor after around).shows c =
      (g.db.answerPage now u c member cursor after around).returned := by
  rcases around with _ | around
  · rcases after with _ | after
    · rcases hcursor : cursor.filter (· ≠ 0) with _ | cursor' <;>
        simp only [Database.answerPage, hcursor, Response.shows]
    · rfl
  · rfl

/-! ## What is not returned -/

/-- A page with a message that is hidden from the first page is one after a later message. -/
theorem page_cleared (hkeyed : g.db.Keyed) {cursor after around : Option MessageId}
    (hcleared : notCleared member.clearedAt m = false)
    (h : m ∈ g.db.page now u c member.clearedAt cursor after around) :
    ∃ m' ∈ g.db.messages, m'.conversationId = c ∧ m.id < m'.id := by
  rcases around with _ | around
  · rcases after with _ | after
    · rcases hcursor : cursor.filter (· ≠ 0) with _ | cursor' <;>
        simp only [Database.page, hcursor, List.mem_reverse] at h
      · have hm := (mem_newest.mp (List.mem_of_mem_take h)).2
        simp [hcleared] at hm
      · rw [Database.pageAfter] at h
        split at h
        · obtain ⟨first, hfirst, hlt⟩ := lt_of_mem_drop_one (newest_sorted hkeyed _) (List.mem_of_mem_take h)
          have hfirst := mem_newest.mp hfirst
          simp only [Bool.and_eq_true, decide_eq_true_eq] at hfirst
          exact ⟨first, hfirst.1, hfirst.2.1.1, hlt⟩
        · simp at h
    · have hm := (mem_oldest.mp (List.mem_of_mem_take h)).2
      simp [hcleared] at hm
  · simp only [Database.page, List.mem_reverse] at h
    have hm := (mem_newest.mp (List.mem_of_mem_take h)).2
    simp [hcleared] at hm

/-- The memberships that are listed are the user's, each with its conversation. -/
theorem mem_listed {skip take : Option Nat} {archived : Bool} {conv : Conversation}
    (h : (member, conv) ∈ g.db.listed u skip take archived) :
    member ∈ g.db.members ∧ member.userId = u ∧ g.db.conversation? member.conversationId = some conv := by
  have h := List.mem_of_mem_drop (List.mem_of_mem_take (List.mem_of_mem_take h))
  rw [Database.memberships, List.mem_insertionSort, List.mem_filterMap] at h
  obtain ⟨member', hmember, h⟩ := h
  obtain ⟨conv', hconv, heq⟩ := Option.map_eq_some_iff.mp h
  obtain ⟨rfl, rfl⟩ := Prod.mk.inj heq
  rw [List.mem_filter, decide_eq_true_eq] at hmember
  exact ⟨hmember.1, hmember.2.1, hconv⟩

/-- Where nothing is left, nothing is returned. -/
theorem not_shown (hkeyed : g.db.Keyed) (hm : m ∈ g.db.messages)
    (hroute : route.Reads c) (hresponse : g.answer env now u route = .ok response)
    (hleft : ∀ member ∈ g.db.member? c u, notCleared member.clearedAt m = false ∧ m.deletedAt ≠ none ∧
      (∀ m' ∈ g.db.messages, m'.conversationId = c → m'.id ≤ m.id) ∧
      ∀ pin ∈ g.db.pins, ¬(pin.conversationId = c ∧ pin.messageId = m.id)) :
    m.id ∉ response.shows c := by
  have hsame : ∀ m' ∈ g.db.messages, m'.id = m.id → m' = m :=
    fun m' hm' hid => List.inj_on_of_nodup_map hkeyed.keys hm' hm hid
  intro hmem
  cases route with
  | getMessages c' cursor after around =>
    obtain rfl : c' = c := hroute
    rw [Gateway.answer, respond_getMessages] at hresponse
    rcases hmember : g.db.member? c' u with _ | member <;> rw [hmember] at hresponse <;> cases hresponse
    obtain ⟨hcleared, -, hlast, -⟩ := hleft member hmember
    rw [shows_answerPage, returned_answerPage] at hmem
    obtain ⟨m', hm', hid⟩ := List.mem_map.mp hmem
    obtain rfl := hsame m' (mem_page hm').1 hid
    obtain ⟨later, hlater, hc, hlt⟩ := page_cleared hkeyed hcleared hm'
    exact absurd (hlast later hlater hc) (Nat.not_le.mpr hlt)
  | searchMessages c' query =>
    obtain rfl : c' = c := hroute
    rw [Gateway.answer, respond_searchMessages] at hresponse
    rcases hmember : g.db.member? c' u with _ | member <;> rw [hmember] at hresponse <;> cases hresponse
    obtain ⟨view, hview, hid⟩ := List.mem_map.mp hmem
    obtain ⟨m', hm', rfl⟩ := List.mem_map.mp hview
    obtain rfl := hsame m' (mem_matching hm').1 hid
    unfold Database.matching at hm'
    split at hm'
    · cases hm'
    · have hm' := (mem_newest.mp (List.mem_of_mem_take (List.mem_reverse.mp hm'))).2
      simp [(hleft member hmember).2.1] at hm'
  | getMedia c' =>
    obtain rfl : c' = c := hroute
    rw [Gateway.answer, respond_getMedia] at hresponse
    rcases hmember : g.db.member? c' u with _ | member <;> rw [hmember] at hresponse <;> cases hresponse
    obtain ⟨file, hfile, hid⟩ := List.mem_map.mp hmem
    obtain ⟨m', hm', rfl⟩ := List.mem_map.mp hfile
    have hm' := mem_newest.mp (List.mem_of_mem_take hm')
    obtain rfl := hsame m' hm'.1 hid
    simp [(hleft member hmember).2.1] at hm'
  | getPinnedMessages c' =>
    obtain rfl : c' = c := hroute
    rw [Gateway.answer, respond_getPinnedMessages] at hresponse
    rcases hmember : g.db.member? c' u with _ | member <;> rw [hmember] at hresponse <;> cases hresponse
    obtain ⟨view, hview, hid⟩ := List.mem_map.mp hmem
    obtain ⟨pin, hpin, rfl⟩ := List.mem_map.mp hview
    obtain ⟨hpin, hc⟩ := Agree.mem_pinsOf hpin
    exact (hleft member hmember).2.2.2 pin hpin ⟨hc, hid⟩
  | getAll skip take archived =>
    obtain ⟨more, hanswer⟩ := @respond_getAll g env now u skip take archived
    rw [Gateway.answer, hanswer] at hresponse
    obtain rfl := Except.ok.inj hresponse
    obtain ⟨summary, hsummary, hlast⟩ := List.mem_filterMap.mp hmem
    obtain ⟨hsummary, hc⟩ := List.mem_filter.mp hsummary
    obtain ⟨⟨member, conv⟩, hlisted, rfl⟩ := List.mem_map.mp hsummary
    obtain ⟨hmember, hu, hconv⟩ := mem_listed hlisted
    have hid : conv.id = member.conversationId := by simpa using List.find?_some hconv
    have hc : conv.id = c := of_decide_eq_true hc
    obtain ⟨row, hrow⟩ : ∃ row, g.db.member? c u = some row :=
      Option.isSome_iff_exists.mp (List.find?_isSome.mpr ⟨member, hmember, by simp [hu, ← hid, hc]⟩)
    obtain ⟨last, hhead, hid⟩ := Option.map_eq_some_iff.mp hlast
    obtain ⟨m', hnewest, rfl⟩ := Option.map_eq_some_iff.mp hhead
    have hm' := mem_newest.mp (List.mem_of_head? hnewest)
    obtain rfl := hsame m' hm'.1 hid
    simp [(hleft row hrow).2.1] at hm'
  | _ => exact hroute

/-! ## What is returned -/

/-- A message with none before it is in every window. -/
theorem mem_take_first {l : List Message} (hl : l.Pairwise fun a b => b.id < a.id) (hm : m ∈ l)
    (hfirst : ∀ m' ∈ l, m'.id ≤ m.id) {n : Nat} (hn : 0 < n) : m ∈ l.take n := by
  obtain hmem | ⟨hlength, hbefore⟩ := mem_take_or_full hl hm n
  · exact hmem
  · obtain ⟨m', hm'⟩ := List.exists_mem_of_length_pos (hlength.symm ▸ hn)
    exact absurd (hfirst m' (List.mem_of_mem_take hm')) (Nat.not_le.mpr (hbefore m' hm'))

variable (env) in
/-- The read around a message returns it, unless the member's time hides it. -/
theorem shown_around (hkeyed : g.db.Keyed) (hm : m ∈ g.db.messages)
    (hmember : g.db.member? m.conversationId u = some member) (hvisible : scheduledFilter now u m = true)
    (hcleared : notCleared member.clearedAt m = true) :
    ∃ response, g.answer env now u (.getMessages m.conversationId none none (some m.id)) = .ok response ∧
      m.id ∈ response.shows m.conversationId := by
  refine ⟨_, by rw [Gateway.answer, respond_getMessages, hmember, Option.elim_some], ?_⟩
  rw [shows_answerPage, returned_answerPage]
  simp only [Database.page, List.map_reverse, List.mem_reverse]
  refine List.mem_map_of_mem (mem_take_first (newest_sorted hkeyed _) ?_ (fun m' hm' => ?_) (by decide))
  · exact mem_newest.mpr ⟨hm, by simp [hvisible, hcleared]⟩
  · have hm' := (mem_newest.mp hm').2
    simp only [Bool.and_eq_true, decide_eq_true_eq] at hm'
    exact hm'.1.1.2

variable (env) in
/-- The page after the next message returns this one, whatever time hides it. -/
theorem shown_after (hkeyed : g.db.Keyed) (hm : m ∈ g.db.messages)
    (hmember : g.db.member? m.conversationId u = some member)
    (hvisible : ∀ m' ∈ g.db.messages, scheduledFilter now u m' = true) {later : Message}
    (hlater : later ∈ g.db.messages) (hc : later.conversationId = m.conversationId) (hlt : m.id < later.id) :
    ∃ cursor response, g.answer env now u (.getMessages m.conversationId (some cursor) none none) =
      .ok response ∧ m.id ∈ response.shows m.conversationId := by
  -- the next message of the conversation
  have hsorted := oldest_sorted hkeyed fun m' : Message => m'.conversationId = m.conversationId && m.id < m'.id
  have hsome : later ∈ g.db.oldest fun m' : Message => m'.conversationId = m.conversationId && m.id < m'.id :=
    mem_oldest.mpr ⟨hlater, by simp [hc, hlt]⟩
  obtain ⟨next, rest, hnext⟩ := List.exists_cons_of_ne_nil (List.ne_nil_of_mem hsome)
  rw [hnext] at hsorted
  have hleast : ∀ m' ∈ g.db.messages, m'.conversationId = m.conversationId → m.id < m'.id →
      next.id ≤ m'.id := by
    intro m' hm' hc' hlt'
    have hmem : m' ∈ next :: rest := hnext ▸ mem_oldest.mpr ⟨hm', by simp [hc', hlt']⟩
    rcases List.mem_cons.mp hmem with rfl | hmem
    · exact Nat.le_refl _
    · exact ((List.pairwise_cons.mp hsorted).1 m' hmem).le
  have hnext : next ∈ g.db.messages ∧ next.conversationId = m.conversationId ∧ m.id < next.id := by
    have h := mem_oldest.mp (hnext ▸ List.mem_cons_self)
    simpa using h
  obtain ⟨hmem, hc', hlt'⟩ := hnext
  have hcursor : (some next.id).filter (· ≠ 0) = some next.id := by
    simp [Nat.ne_of_gt (Nat.zero_lt_of_lt hlt')]
  refine ⟨next.id, _, by rw [Gateway.answer, respond_getMessages, hmember, Option.elim_some], ?_⟩
  rw [shows_answerPage, returned_answerPage]
  simp only [Database.page, hcursor, List.map_reverse, List.mem_reverse, Database.pageAfter,
    hkeyed.message? hmem, Option.isSome_some, if_true]
  have hnewest := newest_sorted hkeyed fun m' : Message =>
    decide (m'.conversationId = m.conversationId) && scheduledFilter now u m' && decide (m'.id ≤ next.id)
  refine List.mem_map_of_mem (mem_take_first (hnewest.sublist (List.drop_sublist ..)) ?_
    (fun m' hm' => ?_) (by decide))
  · exact mem_drop_one hnewest (mem_newest.mpr ⟨hm, by simp [hvisible m hm, hlt'.le]⟩)
      (mem_newest.mpr ⟨hmem, by simp [hc', hvisible next hmem]⟩) hlt'
  · obtain ⟨first, hfirst, hless⟩ := lt_of_mem_drop_one hnewest hm'
    have hfirst := (mem_newest.mp hfirst).2
    have hm' := mem_newest.mp (List.mem_of_mem_drop hm')
    simp only [Bool.and_eq_true, decide_eq_true_eq] at hfirst hm'
    refine Nat.not_lt.mp fun hmore => ?_
    exact absurd (hleast m' hm'.1 hm'.2.1.1 hmore) (Nat.not_le.mpr (hless.trans_le hfirst.2))

variable (env) in
/-- The list of conversations shows the last message that is not deleted. -/
theorem shown_last (hkeyed : g.db.Keyed) (hsound : g.db.ledger.Sound) (hm : m ∈ g.db.messages)
    (hmember : g.db.member? m.conversationId u = some member) (hlive : m.deletedAt = none)
    (hvisible : scheduledFilter now u m = true)
    (hlast : ∀ m' ∈ g.db.messages, m'.conversationId = m.conversationId → m'.id ≤ m.id) :
    ∃ skip archived response, g.answer env now u (.getAll (some skip) none archived) = .ok response ∧
      m.id ∈ response.shows m.conversationId := by
  have hmem : member ∈ g.db.members := List.mem_of_find?_eq_some hmember
  have hkey : member.conversationId = m.conversationId ∧ member.userId = u := by
    simpa using List.find?_some hmember
  obtain ⟨conv, hconv⟩ : ∃ conv, g.db.conversation? m.conversationId = some conv := by
    have hseat := hsound.seated member.seat (List.mem_map_of_mem hmem)
    rw [Database.type?_ledger, Option.isSome_map] at hseat
    exact Option.isSome_iff_exists.mp (hkey.1 ▸ hseat)
  have hid : conv.id = m.conversationId := by simpa using List.find?_some hconv
  have hlisted : (member, conv) ∈ g.db.memberships u member.isArchived := by
    rw [Database.memberships, List.mem_insertionSort, List.mem_filterMap]
    exact ⟨member, by simp [hmem, hkey.2], by rw [hkey.1, hconv]; rfl⟩
  obtain ⟨skip, hskip⟩ := List.getElem?_of_mem hlisted
  obtain ⟨more, hanswer⟩ := @respond_getAll g env now u (some skip) none member.isArchived
  refine ⟨skip, member.isArchived, _, by rw [Gateway.answer, hanswer], ?_⟩
  have hhead : (member, conv) ∈ g.db.listed u (some skip) none member.isArchived := by
    have hdrop : (g.db.memberships u member.isArchived).drop skip =
        (member, conv) :: (g.db.memberships u member.isArchived).drop (skip + 1) :=
      List.drop_eq_getElem?_toList_append ▸ by rw [hskip]; rfl
    simp [Database.listed, hdrop]
  refine List.mem_filterMap.mpr ⟨g.db.summary now u member conv, List.mem_filter.mpr
    ⟨List.mem_map.mpr ⟨_, hhead, rfl⟩, decide_eq_true hid⟩, ?_⟩
  have hfirst := mem_take_first (newest_sorted hkeyed fun msg => decide (msg.conversationId = conv.id) &&
    msg.deletedAt.isNone && scheduledFilter now u msg) (mem_newest.mpr ⟨hm, by simp [hid, hlive, hvisible]⟩)
    (fun m' hm' => ?_) Nat.one_pos
  · rw [List.take_one, Option.mem_toList] at hfirst
    simp only [Database.summary]
    rw [Option.mem_def.mp hfirst]
    rfl
  · have hm' := mem_newest.mp hm'
    simp only [Bool.and_eq_true, decide_eq_true_eq] at hm'
    exact hlast m' hm'.1 (hm'.2.1.1.trans hid)

variable (env now) in
theorem shown_pinned (hmember : g.db.member? c u = some member) {pin : PinnedMessage} (hpin : pin ∈ g.db.pins)
    (hc : pin.conversationId = c) : ∃ response, g.answer env now u (.getPinnedMessages c) = .ok response ∧
      pin.messageId ∈ response.shows c := by
  refine ⟨_, by rw [Gateway.answer, respond_getPinnedMessages, hmember, Option.elim_some], ?_⟩
  refine List.mem_map.mpr ⟨_, List.mem_map.mpr ⟨pin, ?_, rfl⟩, rfl⟩
  rw [Database.pinsOf, List.mem_insertionSort, List.mem_filter]
  exact ⟨hpin, decide_eq_true hc⟩

/-! ## Every reachable state -/

/-- There is a time at which all messages are shown. -/
theorem exists_later (messages : List Message) (clock : Time) :
    ∃ now, clock ≤ now ∧ ∀ m ∈ messages, ∀ time ∈ m.scheduledAt, time ≤ now := by
  induction messages with
  | nil => exact ⟨clock, Int.le_refl clock, fun _ h => by cases h⟩
  | cons m messages ih =>
    obtain ⟨now, hclock, hlater⟩ := ih
    have hle : now ≤ max now (m.scheduledAt.getD now) := Int.le_max_left now _
    refine ⟨max now (m.scheduledAt.getD now), hclock.trans hle, List.forall_mem_cons.mpr ⟨?_, ?_⟩⟩
    · intro time htime
      rw [Option.mem_def.mp htime]
      exact Int.le_max_right now time
    · exact fun m' hm' time htime => (hlater m' hm' time htime).trans hle

end

theorem steady_clearance {env : Environment} {users : List User} {devices : List Device} {start : Time}
    {s : (Gateway × Time) × List Clearing} (hs : (clearance env users devices start).Reachable s) :
    Steady s.1 :=
  Machine.Reachable.invariant (M := clearance env users devices start) (I := fun s => Steady s.1)
    steady_start (fun _ _ _ h henabled => h.next henabled.1 henabled.2) hs

/-- What is left of the cleared messages comes back. -/
theorem nothing_left {env : Environment} {s : (Gateway × Time) × List Clearing} (hsteady : Steady s.1)
    (h : StaysCleared env s) : NothingLeft s := by
  intro x hx member hmember m hm hc hle
  have hnot : ∀ route : Route, route.Reads x.conversationId → ∀ now, s.1.2 ≤ now → ∀ response,
      s.1.1.answer env now x.userId route = .ok response → m.id ∉ response.shows x.conversationId :=
    fun route hroute now hnow response hresponse hmem =>
      absurd (h x hx route hroute now hnow response hresponse m hm hc hmem) (Int.not_lt.mpr hle)
  obtain ⟨now, hnow, hlater⟩ := exists_later s.1.1.db.messages s.1.2
  have hvisible : ∀ m ∈ s.1.1.db.messages, scheduledFilter now x.userId m = true := by
    intro m hm
    have hall : ∀ time, m.scheduledAt = some time → time ≤ now := hlater m hm
    simp only [scheduledFilter, Bool.or_eq_true, Option.all_eq_true]
    exact .inl fun time htime => decide_eq_true (hall time htime)
  have hlast : ∀ later ∈ s.1.1.db.messages, later.conversationId = x.conversationId → later.id ≤ m.id := by
    intro later hmem hc'
    refine Nat.not_lt.mp fun hlt => ?_
    obtain ⟨cursor, response, hresponse, hshown⟩ := shown_after env hsteady.keyed hm (hc ▸ hmember)
      hvisible hmem (hc'.trans hc.symm) hlt
    exact hnot (.getMessages _ _ _ _) hc now hnow response hresponse (hc ▸ hshown)
  refine ⟨Bool.eq_false_iff.mpr fun hcleared => ?_, fun hlive => ?_, hlast, fun pin hpin hkey => ?_⟩
  · obtain ⟨response, hresponse, hshown⟩ := shown_around env hsteady.keyed hm (hc ▸ hmember)
      (hvisible m hm) hcleared
    exact hnot (.getMessages _ _ _ _) hc now hnow response hresponse (hc ▸ hshown)
  · obtain ⟨skip, archived, response, hresponse, hshown⟩ := shown_last env hsteady.keyed
      hsteady.sound hm (hc ▸ hmember) hlive (hvisible m hm) fun later hmem hc' => hlast later hmem (hc'.trans hc)
    exact hnot (.getAll _ _ _) trivial now hnow response hresponse (hc ▸ hshown)
  · obtain ⟨response, hresponse, hshown⟩ := shown_pinned env now hmember hpin hkey.1
    exact hnot (.getPinnedMessages _) rfl now hnow response hresponse (hkey.2 ▸ hshown)

instance (env : Environment) (users : List User) (devices : List Device) (start : Time)
    (s : (Gateway × Time) × List Clearing) (e : Time × Input) :
    Decidable ((clearance env users devices start).enabled s e) :=
  inferInstanceAs (Decidable (((gateway env users devices).timed start).enabled s.1 e))

/-- User 1 clears the conversation before user 2 writes in it. -/
def emptyRun : List (Time × Input) := [
  (0, .call 1 (.createDirect 2)), (1, .connect 20 2 []), (2, .call 1 (.clearMessages 1 .self)),
  (3, .event 20 (.sendMessage (sampleMessage 1)))]

/-- User 2 writes twice, and user 1 clears the conversation. -/
def clearedRun : List (Time × Input) := [
  (0, .call 1 (.createDirect 2)), (1, .connect 20 2 []), (2, .event 20 (.sendMessage (sampleMessage 1))),
  (3, .event 20 (.sendMessage (sampleMessage 1))), (4, .call 1 (.clearMessages 1 .self))]

end Vesper.Server
