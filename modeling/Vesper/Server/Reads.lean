import Vesper.Server.Ledger

/-!
# What reads return

Each read of a conversation selects a window of its messages. The windows are defined here beside the
routes that return them, and a route's answer is computed from its window, with the database as it was.
-/

namespace Vesper.Server
open Program

namespace Database
variable (db : Database) (env : Environment) (now : Time) (u : UserId) (c : ConversationId)

/-- The page of `getMessages`, `getMessagesAround` or `getMessagesAfter`. -/
def page (clearedAt : Option Time) (cursor after around : Option MessageId) : List Message :=
  let visible := fun m : Message => m.conversationId = c && scheduledFilter now u m
  match around, after, cursor.filter (· ≠ 0) with
  | some around, _, _ => ((db.newest fun m => m.conversationId = c && m.id ≤ around &&
      notCleared clearedAt m && scheduledFilter now u m).take 30).reverse
  | none, some after, _ => (db.oldest fun m => m.conversationId = c && after < m.id &&
      notCleared clearedAt m && scheduledFilter now u m).take 30
  | none, none, some cursor => ((db.pageAfter cursor visible).take 30).reverse
  | none, none, none => ((db.newest fun m => visible m && notCleared clearedAt m).take 30).reverse

/-- The matches of `searchMessages`. -/
def matching (query : Text) : List Message :=
  if (trim query).length < 2 then []
  else ((db.newest fun m => m.conversationId = c && m.deletedAt.isNone &&
    env.contains m.content (trim query) && scheduledFilter now u m).take 30).reverse

/-- The messages of `getMediaFiles`. -/
def media : List Message :=
  (db.newest fun m => m.conversationId = c && m.deletedAt.isNone && m.fileUrl.isSome &&
    scheduledFilter now u m).take 200

/-- The memberships of a page of `getMyConversations`. -/
def listed (skip take : Option Nat) (archived : Bool) : List (ConversationMember × Conversation) :=
  let TAKE := min (take.elim 20 fun take => min 50 (max 1 take)) 50
  (((db.memberships u archived).drop (skip.getD 0)).take (TAKE + 1)).take TAKE

/-- The answer to `getMessages`, with the message at which the unread ones start. -/
def answerPage (member : ConversationMember) (cursor after around : Option MessageId) : Response :=
  let views := db.history u c (db.page now u c member.clearedAt cursor after around)
  match around, after, cursor.filter (· ≠ 0) with
  | some _, _, _ => .messages views
  | none, some _, _ => .messages views
  | none, none, some _ => .history (.page views)
  | none, none, none => .history (.first views ((views.find? fun m =>
      m.rest.senderId ≠ u && member.lastReadAt < m.rest.createdAt).map (·.rest.id)))

end Database

/-- The messages of an answer, as clients receive them. -/
def Response.views : Response → List MessageView
  | .history (.page views) | .history (.first views _) | .messages views => views
  | _ => []

/-- The identifiers of the messages that an answer lists. -/
def Response.returned : Response → List MessageId
  | .media files => files.map (·.id)
  | .pins views => views.map (·.messageId)
  | response => response.views.map (·.rest.id)

/-- The answer to a request. -/
def Gateway.answer (g : Gateway) (env : Environment) (now : Time) (u : UserId) (route : Route) :
    Except HttpError Response :=
  ((respond env now u route).exec g).1

section
variable {g : Gateway} {db : Database} {env : Environment} {now : Time} {u : UserId} {c : ConversationId}

theorem exec_assertMember : (assertMember u c).exec db =
    ((db.member? c u).elim (.error (.forbidden "Not a member")) .ok, db) := by
  simp only [assertMember, findMember, exec_bind, exec_reads]
  rcases db.member? c u with _ | m <;> rfl

/-- A route that shows what the service returned, after asking for the membership. -/
theorem exec_membersOnly {α : Type} {k : ConversationMember → Service α} {r : α → Response} :
    (do return r (← service (do let m ← assertMember u c; k m)) : Handler Response).exec g =
      match g.db.member? c u with
      | none => (.error (.forbidden "Not a member"), g)
      | some m => (do return r (← service (k m)) : Handler Response).exec g := by
  simp only [exec_bind, service, exec_zoom, exec_assertMember]
  rcases g.db.member? c u with _ | m <;> rfl

theorem exec_readsRoute {α : Type} {f : Database → α} {r : α → Response} :
    (do return r (← service (reads f)) : Handler Response).exec g = (.ok (r (f g.db)), g) := by
  simp only [exec_bind, service, exec_zoom, exec_reads, exec_pure]

theorem views_answerPage {member : ConversationMember} {cursor after around : Option MessageId} :
    (db.answerPage now u c member cursor after around).views =
      db.history u c (db.page now u c member.clearedAt cursor after around) := by
  rcases around with _ | around
  · rcases after with _ | after
    · rcases hcursor : cursor.filter (· ≠ 0) with _ | cursor' <;>
        simp only [Database.answerPage, hcursor, Response.views]
    · rfl
  · rfl

theorem returned_answerPage {member : ConversationMember} {cursor after around : Option MessageId} :
    (db.answerPage now u c member cursor after around).returned =
      (db.page now u c member.clearedAt cursor after around).map (·.id) := by
  have hviews : (db.answerPage now u c member cursor after around).returned =
      (db.answerPage now u c member cursor after around).views.map (·.rest.id) := by
    rcases around with _ | around
    · rcases after with _ | after
      · rcases hcursor : cursor.filter (· ≠ 0) with _ | cursor' <;>
          simp only [Database.answerPage, hcursor, Response.returned]
      · rfl
    · rfl
  rw [hviews, views_answerPage, Database.history, List.map_map]
  rfl

theorem respond_getMessages {cursor after around : Option MessageId} :
    (respond env now u (.getMessages c cursor after around)).exec g =
      ((g.db.member? c u).elim (.error (.forbidden "Not a member"))
        fun member => .ok (g.db.answerPage now u c member cursor after around), g) := by
  rcases around with _ | around
  · rcases after with _ | after
    · simp only [respond, getMessages]
      rw [exec_membersOnly]
      rcases g.db.member? c u with _ | member
      · rfl
      rcases hcursor : cursor.filter (· ≠ 0) with _ | cursor'
      · simp only [exec_bind, service, exec_zoom, exec_reads, exec_pure, hcursor, Option.elim_some,
          Database.answerPage, Database.page]
      · simp only [exec_bind, service, exec_zoom, exec_reads, exec_pure, hcursor, Option.elim_some,
          Database.answerPage, Database.page]
    · simp only [respond, getMessagesAfter]
      rw [exec_membersOnly]
      rcases g.db.member? c u with _ | member
      · rfl
      · exact exec_readsRoute
  · simp only [respond, getMessagesAround]
    rw [exec_membersOnly]
    rcases g.db.member? c u with _ | member
    · rfl
    · exact exec_readsRoute

theorem respond_searchMessages {query : Text} :
    (respond env now u (.searchMessages c query)).exec g =
      ((g.db.member? c u).elim (.error (.forbidden "Not a member"))
        fun _ => .ok (.messages (g.db.history u c (g.db.matching env now u c query))), g) := by
  simp only [respond, searchMessages]
  rw [exec_membersOnly]
  rcases g.db.member? c u with _ | member
  · rfl
  simp only [Option.elim_some, Database.matching]
  split
  · rfl
  · exact exec_readsRoute

theorem respond_getMedia : (respond env now u (.getMedia c)).exec g =
    ((g.db.member? c u).elim (.error (.forbidden "Not a member"))
      fun _ => .ok (.media ((g.db.media now u c).map fun m => ⟨m.id, m.fileUrl, m.fileName, m.fileType,
        m.fileSize, m.metadata, m.createdAt, m.senderId, g.db.author m.senderId⟩)), g) := by
  simp only [respond, getMediaFiles]
  rw [exec_membersOnly]
  rcases g.db.member? c u with _ | member
  · rfl
  · exact exec_readsRoute

theorem respond_getPinnedMessages : (respond env now u (.getPinnedMessages c)).exec g =
    ((g.db.member? c u).elim (.error (.forbidden "Not a member"))
      fun _ => .ok (.pins ((g.db.pinsOf c).map fun pin => {
        id := pin.id
        messageId := pin.messageId
        pinnedAt := pin.pinnedAt
        pinnedBy := g.db.author pin.pinnedById
        message := g.db.pinnedPreview pin.messageId
        fileType := (g.db.message? pin.messageId).bind (·.fileType)
        fileUrl := (g.db.message? pin.messageId).bind (·.fileUrl) })), g) := by
  simp only [respond, getPinnedMessages]
  rw [exec_membersOnly]
  rcases g.db.member? c u with _ | member
  · rfl
  · exact exec_readsRoute

theorem respond_getAll {skip take : Option Nat} {archived : Bool} :
    ∃ more, (respond env now u (.getAll skip take archived)).exec g =
      (.ok (.conversations ((g.db.listed u skip take archived).map fun (m, conv) =>
        g.db.summary now u m conv) more), g) := by
  simp only [respond, getMyConversations, exec_bind, service, exec_zoom, exec_reads, exec_pure]
  exact ⟨_, rfl⟩

/-! ## Windows -/

/-- A window that misses an element of a sorted list is full of ones that come before it. -/
theorem mem_take_or_full {α : Type} {r : α → α → Prop} {l : List α} (hl : l.Pairwise r) {a : α}
    (ha : a ∈ l) (n : Nat) : a ∈ l.take n ∨ (l.take n).length = n ∧ ∀ b ∈ l.take n, r b a := by
  induction l generalizing n with
  | nil => cases ha
  | cons b l ih =>
    obtain ⟨hb, hl⟩ := List.pairwise_cons.mp hl
    cases n with
    | zero => exact .inr ⟨rfl, nofun⟩
    | succ n =>
      rcases List.mem_cons.mp ha with rfl | ha
      · exact .inl List.mem_cons_self
      obtain hmem | ⟨hlength, hbefore⟩ := ih hl ha n
      · exact .inl (List.mem_cons_of_mem b hmem)
      · exact .inr ⟨congrArg Nat.succ hlength, List.forall_mem_cons.mpr ⟨hb a ha, hbefore⟩⟩

theorem newest_sorted (hkeyed : db.Keyed) (p : Message → Bool) :
    (db.newest p).Pairwise fun a b => b.id < a.id := by
  have : Std.Total fun a b : Message => b.id ≤ a.id := ⟨fun a b => Nat.le_total b.id a.id⟩
  have : IsTrans Message fun a b => b.id ≤ a.id := ⟨fun _ _ _ h h' => Nat.le_trans h' h⟩
  have hsorted : (db.newest p).Pairwise fun a b => b.id ≤ a.id := List.pairwise_insertionSort ..
  have hids : ((db.newest p).map (·.id)).Nodup :=
    ((List.perm_insertionSort ..).map _).nodup_iff.mpr (hkeyed.keys.sublist (List.filter_sublist.map _))
  exact hsorted.imp₂ (fun _ _ hle hne => Nat.lt_of_le_of_ne hle (Ne.symm hne)) (List.pairwise_map.mp hids)

theorem oldest_sorted (hkeyed : db.Keyed) (p : Message → Bool) :
    (db.oldest p).Pairwise fun a b => a.id < b.id := by
  have : Std.Total fun a b : Message => a.id ≤ b.id := ⟨fun a b => Nat.le_total a.id b.id⟩
  have : IsTrans Message fun a b => a.id ≤ b.id := ⟨fun _ _ _ h h' => Nat.le_trans h h'⟩
  have hsorted : (db.oldest p).Pairwise fun a b => a.id ≤ b.id := List.pairwise_insertionSort ..
  have hids : ((db.oldest p).map (·.id)).Nodup :=
    ((List.perm_insertionSort ..).map _).nodup_iff.mpr (hkeyed.keys.sublist (List.filter_sublist.map _))
  exact hsorted.imp₂ (fun _ _ hle hne => Nat.lt_of_le_of_ne hle hne) (List.pairwise_map.mp hids)

/-- Only the first is skipped. -/
theorem mem_drop_one {l : List Message} (hl : l.Pairwise fun a b => b.id < a.id) {m m' : Message}
    (hm : m ∈ l) (hm' : m' ∈ l) (hlt : m.id < m'.id) : m ∈ l.drop 1 := by
  cases l with
  | nil => cases hm
  | cons a l =>
    obtain ⟨ha, -⟩ := List.pairwise_cons.mp hl
    rcases List.mem_cons.mp hm with rfl | hm
    · rcases List.mem_cons.mp hm' with rfl | hm'
      · exact absurd hlt (Nat.lt_irrefl _)
      · exact absurd (ha m' hm') (Nat.lt_asymm hlt)
    · exact hm

/-- What follows the first of a sorted list comes after it. -/
theorem lt_of_mem_drop_one {l : List Message} (hl : l.Pairwise fun a b => b.id < a.id) {m : Message}
    (hm : m ∈ l.drop 1) : ∃ first ∈ l, m.id < first.id := by
  cases l with
  | nil => cases hm
  | cons first l => exact ⟨first, List.mem_cons_self, (List.pairwise_cons.mp hl).1 m hm⟩

/-! ## What the answers show -/

/-- A page has messages of the conversation that the user may see. -/
theorem mem_page {clearedAt : Option Time} {cursor after around : Option MessageId} {m : Message}
    (h : m ∈ db.page now u c clearedAt cursor after around) :
    m ∈ db.messages ∧ m.conversationId = c ∧ scheduledFilter now u m := by
  rcases around with _ | around
  · rcases after with _ | after
    · rcases hcursor : cursor.filter (· ≠ 0) with _ | cursor' <;>
        simp only [Database.page, hcursor, List.mem_reverse] at h
      · have hm := mem_newest.mp (List.mem_of_mem_take h)
        simp only [Bool.and_eq_true, decide_eq_true_eq] at hm
        exact ⟨hm.1, hm.2.1⟩
      · rw [Database.pageAfter] at h
        split at h
        · have hm := mem_newest.mp (List.mem_of_mem_drop (List.mem_of_mem_take h))
          simp only [Bool.and_eq_true, decide_eq_true_eq] at hm
          exact ⟨hm.1, hm.2.1⟩
        · simp at h
    · simp only [Database.page] at h
      have hm := mem_oldest.mp (List.mem_of_mem_take h)
      simp only [Bool.and_eq_true, decide_eq_true_eq] at hm
      exact ⟨hm.1, hm.2.1.1.1, hm.2.2⟩
  · simp only [Database.page, List.mem_reverse] at h
    have hm := mem_newest.mp (List.mem_of_mem_take h)
    simp only [Bool.and_eq_true, decide_eq_true_eq] at hm
    exact ⟨hm.1, hm.2.1.1.1, hm.2.2⟩

/-- The matches of a search are messages of the conversation that the user may see. -/
theorem mem_matching {query : Text} {m : Message} (h : m ∈ db.matching env now u c query) :
    m ∈ db.messages ∧ m.conversationId = c ∧ scheduledFilter now u m := by
  unfold Database.matching at h
  split at h
  · cases h
  rw [List.mem_reverse] at h
  have hm := mem_newest.mp (List.mem_of_mem_take h)
  simp only [Bool.and_eq_true, decide_eq_true_eq] at hm
  exact ⟨hm.1, hm.2.1.1.1, hm.2.2⟩

/-- The other routes answer with no history. -/
theorem respond_views {route : Route} (hmessages : ∀ c cursor after around,
    route ≠ .getMessages c cursor after around) (hsearch : ∀ c query, route ≠ .searchMessages c query) :
    Triple (fun _ => True) (respond env now u route) (fun response _ => response.views = [])
      fun _ => True := by
  have hany : ∀ {α : Type} {m : Handler α}, Triple (fun _ => True) m (fun _ _ => True) fun _ => True :=
    Triple.since fun _ => id
  cases route with
  | getMessages c cursor after around => exact absurd rfl (hmessages c cursor after around)
  | searchMessages c query => exact absurd rfl (hsearch c query)
  | createGroup name description memberIds =>
    exact .bind hany fun _ => .bind hany fun _ => .pure fun _ _ => rfl
  | addMember c target => exact .bind hany fun _ => .bind hany fun _ => .pure fun _ _ => rfl
  | _ => exact .bind hany fun _ => .pure fun _ _ => rfl

/-- **Histories**: a message that an answer lists is one that the user may see, with its readers. -/
theorem views_answer {route : Route} {response : Response} (h : g.answer env now u route = .ok response)
    {view : MessageView} (hview : view ∈ response.views) :
    ∃ m ∈ g.db.messages, scheduledFilter now u m ∧
      view = mapMessageWithRead u (g.db.otherMembersLastRead m.conversationId u) (g.db.select m) := by
  have hhistory : ∀ {c page}, (∀ m ∈ page, m ∈ g.db.messages ∧ m.conversationId = c ∧ scheduledFilter now u m) →
      view ∈ g.db.history u c page → ∃ m ∈ g.db.messages, scheduledFilter now u m ∧
        view = mapMessageWithRead u (g.db.otherMembersLastRead m.conversationId u) (g.db.select m) := by
    intro c page hpage hview
    obtain ⟨m, hm, rfl⟩ := List.mem_map.mp hview
    obtain ⟨hmem, rfl, hvisible⟩ := hpage m hm
    exact ⟨m, hmem, hvisible, rfl⟩
  by_cases hmessages : ∃ c cursor after around, route = .getMessages c cursor after around
  · obtain ⟨c, cursor, after, around, rfl⟩ := hmessages
    rw [Gateway.answer, respond_getMessages] at h
    rcases hmember : g.db.member? c u with _ | member <;> rw [hmember] at h <;> cases h
    rw [views_answerPage] at hview
    exact hhistory (fun m => mem_page) hview
  by_cases hsearch : ∃ c query, route = .searchMessages c query
  · obtain ⟨c, query, rfl⟩ := hsearch
    rw [Gateway.answer, respond_searchMessages] at h
    rcases hmember : g.db.member? c u with _ | member <;> rw [hmember] at h <;> cases h
    exact hhistory (fun m => mem_matching) hview
  · have hnone : response.views = [] :=
      (respond_views (u := u) (by simpa using hmessages)
        (by simpa using hsearch)).result trivial h
    rw [hnone] at hview
    cases hview

end

end Vesper.Server
